import Valet.Bd.NodeSearch

/-!
# What the search for servers finds

A call of `find_the_best_node` in which every server that is asked answers.  The
second loop asks one candidate after the other, or goes on from a random number
to the first place that was not selected yet; the sorting exchanges entries of
two arrays.
-/

namespace Valet.Bd

open Valet.Library

namespace NodeSearch

variable {servers replicas : Nat}

/-- A turn of the second loop, with the server that it asks and what that one answers. -/
def turnWith (serverSelectNum random : Nat) (freeMem : Fin servers → Int)
    (search : NodeSearch servers) : Option (Fin servers × NodeSearch servers) := do
  let k ← search.place serverSelectNum random
  let cb ← search.candidate[k]?
  return (cb, (search.select serverSelectNum k).rank cb (freeMem cb))

/-- The turns that are left of the second loop, with the servers that were asked so far. -/
def turns (serverSelectNum : Nat) (random : Nat → Nat) (freeMem : Fin servers → Int) :
    Nat → NodeSearch servers → List (Fin servers) →
      Option (NodeSearch servers × List (Fin servers))
  | 0, search, asked => some (search, asked)
  | left + 1, search, asked =>
      if search.more serverSelectNum then do
        let (cb, search) ← search.turnWith serverSelectNum (random search.turn) freeMem
        turns serverSelectNum random freeMem left search (asked ++ [cb])
      else
        some (search, asked)

/-- `find_the_best_node`: what it leaves in `replica_list`, as many servers as it returns, and the
servers that it asked.  `none` stands for a call that does not end. -/
def findTheBestNode (serverSelectNum : Nat) (random : Nat → Nat) (freeMem : Fin servers → Int)
    (s : ValetSession servers replicas) (numReplica : Nat) :
    Option (List (Fin servers) × List (Fin servers)) :=
  let search := start s numReplica
  (turns serverSelectNum random freeMem search.candidate.length search []).map
    fun (search, asked) => (search.replicaList, asked)

/-! ## The sorting -/

variable {entry : Int × Fin servers} {entries rest : List (Int × Fin servers)}

theorem settle_perm (entry : Int × Fin servers) (rest : List (Int × Fin servers)) :
    ((settle entry rest).1 :: (settle entry rest).2).Perm (entry :: rest) := by
  induction rest generalizing entry with
  | nil => exact .refl _
  | cons other rest ih =>
      rw [settle]
      split
      · exact (List.Perm.swap entry _ _).trans ((ih other).cons entry)
      · have swapped := (List.Perm.swap other (settle entry rest).1 (settle entry rest).2).trans
          ((ih entry).cons other)
        exact swapped.trans (List.Perm.swap entry other rest)

theorem settle_length (entry : Int × Fin servers) (rest : List (Int × Fin servers)) :
    (settle entry rest).2.length = rest.length :=
  Nat.succ.inj (settle_perm entry rest).length_eq

/-- No entry exceeds the one that is settled. -/
theorem settle_max (entry : Int × Fin servers) (rest : List (Int × Fin servers)) :
    ∀ other ∈ entry :: rest, other.1 ≤ (settle entry rest).1.1 := by
  induction rest generalizing entry with
  | nil =>
      intro other member
      rw [List.mem_singleton.mp member]
      exact le_refl _
  | cons next rest ih =>
      intro other member
      rw [settle]
      split
      · rename_i less
        rcases List.mem_cons.mp member with rfl | behind
        · exact less.le.trans (ih next next List.mem_cons_self)
        · exact ih next other behind
      · rename_i enough
        have first : entry.1 ≤ (settle entry rest).1.1 := ih entry entry List.mem_cons_self
        rcases List.mem_cons.mp member with rfl | behind
        · exact first
        · rcases List.mem_cons.mp behind with rfl | last
          · exact (not_lt.mp enough).trans first
          · exact ih entry other (List.mem_cons_of_mem _ last)

theorem sortDescent_perm (turns : Nat) (entries : List (Int × Fin servers)) :
    (sortDescent turns entries).Perm entries := by
  induction turns generalizing entries with
  | zero => exact .refl _
  | succ turns ih =>
      cases entries with
      | nil => exact .refl _
      | cons entry rest =>
          rw [sortDescent]
          exact ((ih _).cons _).trans (settle_perm entry rest)

theorem sortDescent_sorted {turns : Nat} (enough : entries.length ≤ turns) :
    (sortDescent turns entries).Pairwise fun first second => second.1 ≤ first.1 := by
  induction turns generalizing entries with
  | zero =>
      rw [List.length_eq_zero_iff.mp (Nat.le_zero.mp enough), sortDescent]
      exact .nil
  | succ turns ih =>
      cases entries with
      | nil => exact .nil
      | cons entry rest =>
          rw [sortDescent]
          refine .cons (fun other member => ?_) (ih ?_)
          · have behind := (sortDescent_perm turns _).mem_iff.mp member
            have here := (settle_perm entry rest).mem_iff.mp (List.mem_cons_of_mem _ behind)
            exact settle_max entry rest other here
          · rw [settle_length]
            exact Nat.le_of_succ_le_succ enough

/-! ## The probing -/

variable {serverSelectNum random : Nat} {freeMem : Fin servers → Int}
  {search next : NodeSearch servers} {asked : List (Fin servers)} {cb : Fin servers}

/-- Going round from any start visits every place. -/
theorem mem_round {size start k : Nat} :
    k ∈ (List.range size).map (fun j => (start + j) % size) ↔ k < size := by
  rw [List.mem_map]
  constructor
  · rintro ⟨j, member, rfl⟩
    exact Nat.mod_lt _ (Nat.zero_lt_of_lt (List.mem_range.mp member))
  · intro less
    have positive : 0 < size := Nat.zero_lt_of_lt less
    have below : start % size < size := Nat.mod_lt _ positive
    refine ⟨(k + (size - start % size)) % size, List.mem_range.mpr (Nat.mod_lt _ positive), ?_⟩
    have split : start = size * (start / size) + start % size := (Nat.div_add_mod start size).symm
    have whole : start + (k + (size - start % size)) = k + size * (start / size + 1) := by
      rw [Nat.mul_succ]
      omega
    rw [Nat.add_mod_mod, whole, Nat.add_mul_mod_self_left, Nat.mod_eq_of_lt less]

/-- What the first turns leave: the servers that were asked are marked, and those with free memory
are noted in the order in which they were asked. -/
structure Probed (serverSelectNum : Nat) (freeMem : Fin servers → Int)
    (search : NodeSearch servers) (asked : List (Fin servers)) : Prop where
  distinct : search.candidate.Nodup
  turn : search.turn = asked.length
  once : asked.Nodup
  candidates : ∀ cb ∈ asked, cb ∈ search.candidate
  inOrder : search.candidate.length ≤ serverSelectNum → asked = search.candidate.take search.turn
  marked : serverSelectNum < search.candidate.length →
    ∀ k cb, search.candidate[k]? = some cb → (search.selectHistory k = true ↔ cb ∈ asked)
  available : search.available = (asked.filter fun cb => freeMem cb ≠ 0).map
    fun cb => (freeMem cb, cb)

theorem probed_start (serverSelectNum : Nat) (freeMem : Fin servers → Int)
    (s : ValetSession servers replicas) (numReplica : Nat) :
    Probed serverSelectNum freeMem (start s numReplica) [] where
  distinct := (List.nodup_finRange servers).filter _
  turn := rfl
  once := .nil
  candidates := fun _ member => by cases member
  inOrder := fun _ => rfl
  marked := by
    intro _ k cb _
    exact iff_of_false Bool.false_ne_true List.not_mem_nil
  available := rfl

/-- There is a place left as long as not all candidates were asked, and it is that of a server that
was not asked. -/
theorem Probed.place (probed : Probed serverSelectNum freeMem search asked)
    (left : search.turn < search.candidate.length) (random : Nat) :
    ∃ k cb, search.place serverSelectNum random = some k ∧ search.candidate[k]? = some cb ∧
      cb ∉ asked := by
  rw [NodeSearch.place]
  split
  · rename_i few
    refine ⟨search.turn, search.candidate[search.turn], rfl, List.getElem?_eq_getElem left, ?_⟩
    rw [probed.inOrder few]
    intro member
    obtain ⟨k, less, same⟩ := List.mem_take_iff_getElem.mp member
    have := (List.Nodup.getElem_inj_iff probed.distinct).mp same
    omega
  · rename_i many
    have many := Nat.lt_of_not_le many
    -- not all places are marked, as fewer servers were asked
    have free : ∃ k, k < search.candidate.length ∧ search.selectHistory k = false := by
      by_contra all
      have taken : search.candidate ⊆ asked := by
        intro cb member
        obtain ⟨k, less, rfl⟩ := List.mem_iff_getElem.mp member
        refine (probed.marked many k _ (List.getElem?_eq_getElem less)).mp ?_
        by_contra unmarked
        exact all ⟨k, less, Bool.eq_false_iff.mpr unmarked⟩
      have bound := (probed.distinct.subperm taken).length_le
      have turn := probed.turn
      omega
    obtain ⟨free, inside, unmarked⟩ := free
    have visits : free ∈ (List.range search.candidate.length).map fun j =>
        (random + j) % search.candidate.length := mem_round.mpr inside
    cases found : ((List.range search.candidate.length).map fun j =>
        (random + j) % search.candidate.length).find? fun k => !search.selectHistory k with
    | none =>
        have marked := List.find?_eq_none.mp found free visits
        rw [unmarked] at marked
        exact absurd rfl marked
    | some k =>
        have less := mem_round.mp (List.mem_of_find?_eq_some found)
        refine ⟨k, search.candidate[k], rfl, List.getElem?_eq_getElem less, fun again => ?_⟩
        have marked := (probed.marked many k _ (List.getElem?_eq_getElem less)).mpr again
        have clear := List.find?_some found
        rw [marked] at clear
        cases clear

/-- A turn asks a server that was not asked, and notes it if it has free memory. -/
theorem Probed.turnWith (probed : Probed serverSelectNum freeMem search asked)
    (left : search.turn < search.candidate.length) (random : Nat) :
    ∃ cb next, search.turnWith serverSelectNum random freeMem = some (cb, next) ∧
      Probed serverSelectNum freeMem next (asked ++ [cb]) ∧
        next.candidate = search.candidate ∧ next.numReplica = search.numReplica ∧
          next.turn = search.turn + 1 := by
  obtain ⟨k, cb, place, there, fresh⟩ := probed.place left random
  have candidate : (search.select serverSelectNum k).candidate = search.candidate := by
    rw [select]
    split <;> rfl
  have numReplica : (search.select serverSelectNum k).numReplica = search.numReplica := by
    rw [select]
    split <;> rfl
  have turn : (search.select serverSelectNum k).turn = search.turn := by
    rw [select]
    split <;> rfl
  have available : (search.select serverSelectNum k).available = search.available := by
    rw [select]
    split <;> rfl
  refine ⟨cb, (search.select serverSelectNum k).rank cb (freeMem cb), ?_, ?_, candidate,
    numReplica, congrArg Nat.succ turn⟩
  · rw [NodeSearch.turnWith, place]
    dsimp only [Option.bind_eq_bind, Option.bind_some]
    rw [there]
    rfl
  · constructor
    · exact candidate ▸ probed.distinct
    · rw [List.length_append, List.length_singleton, ← probed.turn]
      exact congrArg Nat.succ turn
    · exact List.nodup_append.mpr ⟨probed.once, List.nodup_singleton cb, by
        rintro first before other last rfl
        exact fresh (List.mem_singleton.mp last ▸ before)⟩
    · intro other member
      show other ∈ (search.select serverSelectNum k).candidate
      rw [candidate]
      rcases List.mem_append.mp member with before | last
      · exact probed.candidates other before
      · rw [List.mem_singleton.mp last]
        exact List.mem_of_getElem? there
    · intro few
      show asked ++ [cb] = (search.select serverSelectNum k).candidate.take
        ((search.select serverSelectNum k).turn + 1)
      change (search.select serverSelectNum k).candidate.length ≤ serverSelectNum at few
      rw [candidate] at few
      rw [candidate, turn, List.take_add_one, ← probed.inOrder few]
      have here : k = search.turn := by
        rw [NodeSearch.place, if_pos few] at place
        exact (Option.some.inj place).symm
      rw [← here, there]
      rfl
    · intro many j other at_
      change (search.select serverSelectNum k).candidate[j]? = some other at at_
      change serverSelectNum < (search.select serverSelectNum k).candidate.length at many
      rw [candidate] at at_ many
      have history : (search.select serverSelectNum k).selectHistory =
          Function.update search.selectHistory k true := by
        rw [select, if_neg (Nat.not_le_of_lt many)]
      show (search.select serverSelectNum k).selectHistory j = true ↔ other ∈ asked ++ [cb]
      rw [history, List.mem_append, List.mem_singleton]
      rcases eq_or_ne j k with rfl | apart
      · rw [Function.update_self, Option.some.inj (at_.symm.trans there)]
        exact iff_of_true rfl (.inr rfl)
      · rw [Function.update_of_ne apart, probed.marked many j other at_]
        have different : other ≠ cb := by
          rintro rfl
          obtain ⟨less, same⟩ := List.getElem?_eq_some_iff.mp at_
          obtain ⟨less', same'⟩ := List.getElem?_eq_some_iff.mp there
          exact apart ((List.Nodup.getElem_inj_iff probed.distinct).mp (same.trans same'.symm))
        exact ⟨.inl, fun either => either.resolve_right different⟩
    · rw [rank]
      dsimp only
      rw [available, probed.available, List.filter_append, List.map_append]
      by_cases empty : freeMem cb = 0
      · simp [empty]
      · simp [empty]

/-- How the second loop ends: with all candidates asked, or with enough servers noted. -/
structure Ended (serverSelectNum : Nat) (freeMem : Fin servers → Int)
    (search : NodeSearch servers) (asked : List (Fin servers)) : Prop extends
    Probed serverSelectNum freeMem search asked where
  stopped : search.more serverSelectNum = false
  few : search.available.length ≤ serverSelectNum

theorem Probed.turns {left : Nat} (random : Nat → Nat)
    (probed : Probed serverSelectNum freeMem search asked)
    (rest : left + search.turn = search.candidate.length)
    (few : search.available.length ≤ serverSelectNum) :
    ∃ last others, NodeSearch.turns serverSelectNum random freeMem left search asked =
      some (last, others) ∧ Ended serverSelectNum freeMem last others ∧
        last.candidate = search.candidate ∧ last.numReplica = search.numReplica := by
  induction left generalizing search asked with
  | zero =>
      refine ⟨search, asked, rfl, ⟨probed, ?_, few⟩, rfl, rfl⟩
      exact decide_eq_false fun both => by omega
  | succ left ih =>
      rw [NodeSearch.turns]
      split
      · rename_i more
        obtain ⟨turn, room⟩ := of_decide_eq_true more
        obtain ⟨cb, next, turned, after, candidate, numReplica, counted⟩ :=
          probed.turnWith turn (random search.turn)
        have bound : next.available.length ≤ serverSelectNum := by
          have before := probed.available
          rw [after.available, List.length_map, List.filter_append, List.length_append]
          rw [before, List.length_map] at room
          have one : ([cb].filter fun cb => freeMem cb ≠ 0).length ≤ 1 :=
            List.length_filter_le _ _
          omega
        obtain ⟨last, others, ends, ended, same, number⟩ :=
          ih after (by rw [counted, candidate]; omega) bound
        refine ⟨last, others, ?_, ended, same.trans candidate, number.trans numReplica⟩
        rw [turned]
        exact ends
      · rename_i stopped
        exact ⟨search, asked, rfl, ⟨probed, Bool.eq_false_iff.mpr stopped, few⟩, rfl, rfl⟩

/-! ## What is picked -/

/-- The servers below `CB_MIGRATING` with free memory. -/
def eligible (freeMem : Fin servers → Int) (s : ValetSession servers replicas) :
    List (Fin servers) :=
  (start s 0).candidate.filter fun cb => freeMem cb ≠ 0

/-- No server is asked twice or from `CB_MIGRATING` on; nothing is returned exactly when there are
too few servers with free memory; what is returned are as many servers as are wanted, the ones with
the most free memory of those that were asked, in descending order. -/
structure PicksBest (serverSelectNum numReplica : Nat) (freeMem : Fin servers → Int)
    (s : ValetSession servers replicas) (replicaList asked : List (Fin servers)) : Prop where
  once : asked.Nodup
  below : ∀ cb ∈ asked, (s.cbStateList cb).belowMigrating = true
  noted : (asked.filter fun cb => freeMem cb ≠ 0).length ≤ serverSelectNum
  nothing : replicaList.length = 0 ↔ (eligible freeMem s).length < numReplica
  all : replicaList ≠ [] → replicaList.length = numReplica
  distinct : replicaList.Nodup
  nonzero : ∀ cb ∈ replicaList, cb ∈ asked ∧ freeMem cb ≠ 0
  descending : replicaList.Pairwise fun first second => freeMem second ≤ freeMem first
  best : ∀ cb ∈ replicaList, ∀ other ∈ asked, freeMem other ≠ 0 → other ∉ replicaList →
    freeMem other ≤ freeMem cb

/-- All servers with free memory are noted, or as many as are selected. -/
theorem Ended.few_iff {s : ValetSession servers replicas} {numReplica : Nat}
    (ended : Ended serverSelectNum freeMem search asked)
    (candidate : search.candidate = (start s numReplica).candidate)
    (enough : numReplica ≤ serverSelectNum) :
    search.available.length < numReplica ↔ (eligible freeMem s).length < numReplica := by
  have noted : search.available.length = (asked.filter fun cb => freeMem cb ≠ 0).length := by
    rw [ended.available, List.length_map]
  have candidate : (start s 0).candidate = search.candidate := candidate.symm
  have among : (asked.filter fun cb => freeMem cb ≠ 0).Subperm (eligible freeMem s) := by
    rw [eligible, candidate]
    exact (ended.once.subperm ended.candidates).filter _
  have most := among.length_le
  have stopped := of_decide_eq_false ended.stopped
  rcases Nat.lt_or_ge search.turn search.candidate.length with left | done
  · have full : serverSelectNum ≤ search.available.length :=
      Nat.le_of_not_lt fun room => stopped ⟨left, room⟩
    omega
  · have everyone : asked.Perm search.candidate := by
      refine (ended.once.subperm ended.candidates).perm_of_length_le ?_
      rw [← ended.turn]
      exact done
    have same := (everyone.filter fun cb => freeMem cb ≠ 0).length_eq
    rw [noted, eligible, candidate, same]

/-- The list after the sorting, without the free memory. -/
theorem Ended.picks {s : ValetSession servers replicas} {numReplica : Nat}
    (ended : Ended serverSelectNum freeMem search asked)
    (candidate : search.candidate = (start s numReplica).candidate)
    (number : search.numReplica = numReplica) (wanted : 1 ≤ numReplica)
    (enough : numReplica ≤ serverSelectNum) :
    PicksBest serverSelectNum numReplica freeMem s search.replicaList asked := by
  have few := ended.few_iff candidate enough
  have below : ∀ cb ∈ asked, (s.cbStateList cb).belowMigrating = true := by
    intro cb member
    have there := ended.candidates cb member
    rw [candidate] at there
    exact (List.mem_filter.mp there).2
  have noted : (asked.filter fun cb => freeMem cb ≠ 0).length ≤ serverSelectNum := by
    have bound := ended.few
    rw [ended.available, List.length_map] at bound
    exact bound
  rw [NodeSearch.replicaList, number]
  split
  · rename_i lacking
    refine ⟨ended.once, below, noted, iff_of_true rfl (few.mp lacking), ?_, .nil, ?_, .nil, ?_⟩
    · exact fun some => absurd rfl some
    · exact fun _ member => absurd member List.not_mem_nil
    · exact fun _ member => absurd member List.not_mem_nil
  · rename_i enoughNoted
    generalize ordered : sortDescent search.available.length search.available = sorted
    have perm : sorted.Perm search.available := ordered ▸ sortDescent_perm _ _
    have descending : sorted.Pairwise fun first second => second.1 ≤ first.1 :=
      ordered ▸ sortDescent_sorted (le_refl _)
    -- an entry is the free memory of its server
    have entry : ∀ pair ∈ sorted, pair.1 = freeMem pair.2 ∧ pair.2 ∈ asked ∧ freeMem pair.2 ≠ 0 := by
      intro pair member
      have here := perm.mem_iff.mp member
      rw [ended.available] at here
      obtain ⟨cb, kept, rfl⟩ := List.mem_map.mp here
      obtain ⟨asked, empty⟩ := List.mem_filter.mp kept
      exact ⟨rfl, asked, of_decide_eq_true empty⟩
    have length : ((sorted.take numReplica).map Prod.snd).length = numReplica := by
      rw [List.length_map, List.length_take, perm.length_eq]
      omega
    have servers : (sorted.map Prod.snd).Nodup := by
      refine (perm.map Prod.snd).nodup_iff.mpr ?_
      rw [ended.available, List.map_map]
      have same : (Prod.snd ∘ fun cb => (freeMem cb, cb)) = (id : Fin servers → Fin servers) := rfl
      rw [same, List.map_id]
      exact ended.once.filter _
    have split : sorted.take numReplica ++ sorted.drop numReplica = sorted :=
      List.take_append_drop _ _
    constructor
    · exact ended.once
    · exact below
    · exact noted
    · rw [length]
      exact iff_of_false (by omega) (fun lacking => enoughNoted (few.mpr lacking))
    · exact fun _ => length
    · rw [List.map_take]
      exact servers.sublist (List.take_sublist _ _)
    · intro cb member
      obtain ⟨pair, here, rfl⟩ := List.mem_map.mp member
      exact (entry pair (List.mem_of_mem_take here)).2
    · rw [List.pairwise_map]
      refine (descending.sublist (List.take_sublist _ _)).imp_of_mem ?_
      intro first second inFirst inSecond less
      rw [← (entry first (List.mem_of_mem_take inFirst)).1,
        ← (entry second (List.mem_of_mem_take inSecond)).1]
      exact less
    · intro cb member other wasAsked some missing
      obtain ⟨pair, here, rfl⟩ := List.mem_map.mp member
      have inSorted : (freeMem other, other) ∈ sorted := by
        rw [perm.mem_iff, ended.available]
        exact List.mem_map.mpr ⟨other, List.mem_filter.mpr ⟨wasAsked, decide_eq_true some⟩, rfl⟩
      rw [← split] at inSorted descending
      rcases List.mem_append.mp inSorted with taken | behind
      · exact absurd (List.mem_map.mpr ⟨_, taken, rfl⟩) missing
      · have less := (List.pairwise_append.mp descending).2.2 pair here _ behind
        rw [(entry pair (List.mem_of_mem_take here)).1] at less
        exact less

/-- The call ends and finds the best servers. -/
theorem findTheBestNode_picks {numReplica : Nat} (wanted : 1 ≤ numReplica)
    (enough : numReplica ≤ serverSelectNum) (random : Nat → Nat) (freeMem : Fin servers → Int)
    (s : ValetSession servers replicas) :
    ∃ replicaList asked,
      findTheBestNode serverSelectNum random freeMem s numReplica = some (replicaList, asked) ∧
        PicksBest serverSelectNum numReplica freeMem s replicaList asked := by
  obtain ⟨last, asked, ends, ended, candidate, number⟩ :=
    (probed_start serverSelectNum freeMem s numReplica).turns random rfl (Nat.zero_le _)
  refine ⟨last.replicaList, asked, ?_, ended.picks candidate number wanted enough⟩
  rw [findTheBestNode]
  dsimp only
  rw [ends]
  rfl

/-- Servers 0 to 4, of which server 3 has failed. -/
def fiveServers : ValetSession 5 0 :=
  (ValetSession.init.setCbState 3 .fail).setCbState 1 .mapped

/-- Server 1 is full; the probing goes on from place 0 to place 1. -/
theorem findTheBestNode_picks_five : ∃ asked,
    findTheBestNode 2 (fun _ => 0) ![4, 0, 7, 9, 5] fiveServers 2 = some ([2, 0], asked) ∧
      PicksBest 2 2 ![4, 0, 7, 9, 5] fiveServers [2, 0] asked := by
  have found : (findTheBestNode 2 (fun _ => 0) ![4, 0, 7, 9, 5] fiveServers 2).map Prod.fst =
      some [2, 0] := by decide
  obtain ⟨replicaList, asked, ends, picks⟩ :=
    findTheBestNode_picks (show 1 ≤ 2 by decide) (show 2 ≤ 2 by decide)
      (fun _ => 0) ![4, 0, 7, 9, 5] fiveServers
  rw [ends] at found
  cases found
  exact ⟨asked, ends, picks⟩

end NodeSearch

namespace Searching

open NodeSearch

variable {servers replicas : Nat} {serverSelectNum numReplica : Nat}
  {freeMem : Fin servers → Int} {s after : Searching servers replicas}

/-- Where the call goes on, the free memory of the server is what the server has. -/
def Answered (freeMem : Fin servers → Int) (s : Searching servers replicas) :
    SearchLabel servers → Prop
  | .wake => ∀ cb request, s.pc.waitsFor = some (cb, request) →
      (s.session.rbh cb).targetSizeGb = freeMem cb
  | .finish => False
  | _ => True

/-- A call is between two turns, or in a turn whose server was not asked before. -/
inductive Calls (serverSelectNum numReplica : Nat) (freeMem : Fin servers → Int)
    (candidate : List (Fin servers)) : SearchPc servers → Prop where
  | turning {search : NodeSearch servers} {asked : List (Fin servers)}
      (probed : Probed serverSelectNum freeMem search asked)
      (same : search.candidate = candidate) (number : search.numReplica = numReplica)
      (few : search.available.length ≤ serverSelectNum) :
      Calls serverSelectNum numReplica freeMem candidate (.turning search)
  | waiting {search : NodeSearch servers} {asked : List (Fin servers)} {cb : Fin servers}
      {request : Nat} {connects : Bool}
      (probed : Probed serverSelectNum freeMem (search.rank cb (freeMem cb)) (asked ++ [cb]))
      (same : search.candidate = candidate) (number : search.numReplica = numReplica)
      (room : search.available.length < serverSelectNum) :
      Calls serverSelectNum numReplica freeMem candidate (.waiting search cb request connects)

def InCall (serverSelectNum numReplica : Nat) (freeMem : Fin servers → Int)
    (candidate : List (Fin servers)) (s : Searching servers replicas) : Prop :=
  Calls serverSelectNum numReplica freeMem candidate s.pc

theorem Calls.step {candidate : List (Fin servers)} {label : SearchLabel servers}
    (calls : Calls serverSelectNum numReplica freeMem candidate s.pc)
    (answered : Answered freeMem s label) (edge : s.step serverSelectNum label = some after) :
    Calls serverSelectNum numReplica freeMem candidate after.pc := by
  cases label with
  | call =>
      rw [Searching.step] at edge
      split at edge
      · rename_i outside
        rw [outside] at calls
        cases calls
      · cases edge
  | ask random =>
      obtain ⟨search, k, cb, turning, found, rfl⟩ := step_ask edge
      rw [turning] at calls
      cases calls with
      | @turning _ asked probed same number few =>
          rw [next, turning] at found
          dsimp only at found
          split at found
          · rename_i more
            obtain ⟨left, room⟩ := of_decide_eq_true more
            obtain ⟨first, last, turned, after, candidate, numReplica, _⟩ :=
              probed.turnWith left random
            obtain ⟨place, isPlace, rest⟩ := Option.bind_eq_some_iff.mp found
            obtain ⟨server, isServer, built⟩ := Option.bind_eq_some_iff.mp rest
            cases built
            rw [NodeSearch.turnWith, isPlace] at turned
            dsimp only [Option.bind_eq_bind, Option.bind_some] at turned
            rw [isServer] at turned
            cases turned
            refine .waiting after (candidate.trans same) (numReplica.trans number) ?_
            have kept : (search.select serverSelectNum k).available = search.available := by
              rw [select]
              split <;> rfl
            rw [kept]
            exact room
          · cases found
  | wake =>
      obtain ⟨search, cb, request, connects, waiting, _, rfl⟩ := step_wake edge
      have value := answered cb request (by rw [waiting]; rfl)
      rw [waiting] at calls
      cases calls with
      | waiting probed same number room =>
          show Calls serverSelectNum numReplica freeMem candidate
            (.turning (search.rank cb (s.session.rbh cb).targetSizeGb))
          rw [value]
          refine .turning probed same number ?_
          rw [rank]
          dsimp only
          split
          · exact room.le
          · rw [List.length_append, List.length_singleton]
            exact room
  | finish => exact answered.elim
  | answer =>
      obtain ⟨_, _, _, _, _, rfl⟩ := step_answer edge
      exact calls
  | message =>
      obtain ⟨_, _, rfl⟩ := Option.map_eq_some_iff.mp edge
      exact calls
  | mark =>
      rw [Searching.step] at edge
      split at edge
      · cases edge
      · cases edge
        exact calls
  | disconnect =>
      cases edge
      exact calls

/-- A call between other steps, with what the servers really answer, picks the best servers. -/
theorem call_picks {labels : List (SearchLabel servers)} {called last : Searching servers replicas}
    (call : s.step serverSelectNum (.call numReplica) = some called)
    (run : Run (Searching.step serverSelectNum) (Answered freeMem) called labels last)
    (finish : last.step serverSelectNum .finish = some after) (wanted : 1 ≤ numReplica)
    (enough : numReplica ≤ serverSelectNum) :
    ∃ asked, PicksBest serverSelectNum numReplica freeMem s.session after.replicaList asked := by
  have begun : InCall serverSelectNum numReplica freeMem (start s.session numReplica).candidate
      called := by
    rw [Searching.step] at call
    split at call
    · cases call
      exact .turning (probed_start _ _ s.session numReplica) rfl rfl (Nat.zero_le _)
    · cases call
  have calls : InCall serverSelectNum numReplica freeMem (start s.session numReplica).candidate
      last := run.preserves (fun calls answered edge => Calls.step calls answered edge) begun
  rw [Searching.step] at finish
  split at finish
  · rename_i search turning
    rw [InCall, turning] at calls
    split at finish
    · cases finish
    · rename_i stopped
      cases finish
      cases calls with
      | @turning _ asked probed same number few =>
          have ended : Ended serverSelectNum freeMem search asked :=
            ⟨probed, Bool.eq_false_iff.mpr stopped, few⟩
          exact ⟨asked, ended.picks same number wanted enough⟩
  · cases finish

end Searching

end Valet.Bd
