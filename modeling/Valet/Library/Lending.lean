import Valet.Library.Runs
import Mathlib.Data.List.Count
import Mathlib.Logic.Relation

/-!
# Lending items over two channels

A lender hands out items under keys and may ask for one back, but waits for an
answer before it asks again.  A borrower answers a request by giving back an
item that it holds, which need not be the one asked for, or nothing.  Both
channels are queues.  At any time an item is with one party or on its way.
-/

namespace Valet.Library

/-- What a lender tells its borrower. -/
inductive Notice (Item Key : Type*) where
  | offer (item : Item) (key : Key)
  | demand (item : Item)

/-- The items that are lent, under their keys; whether the lender waits, and the answers it has
seen; the notices and the returns on their way; what the borrower holds, and whether it has been
asked. -/
structure Lending (Item Key : Type*) where
  lent : Item → Option Key
  waiting : Bool
  seen : Nat
  notices : List (Notice Item Key)
  returns : List (Option Item)
  held : Item → Bool
  asked : Bool

namespace Lending

variable {Item Key : Type*}

def isDemand : Notice Item Key → Bool
  | .offer _ _ => false
  | .demand _ => true

/-- An item that is asked for is with the borrower before it hears of that. -/
def Reached (held : Item → Bool) (notices : List (Notice Item Key)) : Prop :=
  ∀ before item after, notices = before ++ .demand item :: after →
    held item = true ∨ ∃ key, Notice.offer item key ∈ before

theorem Reached.offer {held : Item → Bool} {notices : List (Notice Item Key)} {item : Item}
    {key : Key} (reached : Reached held notices) : Reached held (notices ++ [.offer item key]) := by
  intro before other after parts
  rcases List.eq_nil_or_concat after with rfl | ⟨rest, last, rfl⟩
  · have lasts := congrArg List.getLast? parts
    simp at lasts
  · rw [List.concat_eq_append, ← List.cons_append, ← List.append_assoc] at parts
    exact reached before other rest (List.append_inj_left' parts rfl)

theorem Reached.demand {held : Item → Bool} {notices : List (Notice Item Key)} {item : Item}
    (reached : Reached held notices)
    (here : held item = true ∨ ∃ key, Notice.offer item key ∈ notices) :
    Reached held (notices ++ [.demand item]) := by
  intro before other after parts
  rcases List.eq_nil_or_concat after with rfl | ⟨rest, last, rfl⟩
  · obtain ⟨rfl, same⟩ := List.append_inj' parts rfl
    cases same
    exact here
  · rw [List.concat_eq_append, ← List.cons_append, ← List.append_assoc] at parts
    exact reached before other rest (List.append_inj_left' parts rfl)

theorem Reached.hear {held : Item → Bool} {item : Item} {rest : List (Notice Item Key)}
    (reached : Reached held (.demand item :: rest)) : Reached held rest := by
  intro before other after parts
  rcases reached (.demand item :: before) other after (by rw [parts]; rfl) with holds | ⟨key, offer⟩
  · exact Or.inl holds
  · rcases List.mem_cons.mp offer with first | later
    · cases first
    · exact Or.inr ⟨key, later⟩

/-- Without a request in the queue nothing needs to be reached. -/
theorem reached_of_quiet {held : Item → Bool} {notices : List (Notice Item Key)}
    (quiet : notices.countP isDemand = 0) : Reached held notices := by
  intro before item after parts
  rw [parts, List.countP_append, List.countP_cons] at quiet
  simp [isDemand] at quiet

variable [DecidableEq Item]

/-- The table without the item that is given back. -/
def without {Entry : Type*} (table : Item → Entry) (gone : Option Item) (empty : Entry) :
    Item → Entry :=
  fun item => if gone = some item then empty else table item

theorem without_of_ne {Entry : Type*} {table : Item → Entry} {gone : Option Item} {empty : Entry}
    {item : Item} (different : gone ≠ some item) : without table gone empty item = table item :=
  if_neg different

inductive Step (s : Lending Item Key) : Lending Item Key → Prop where
  | lend {item : Item} {key : Key} (free : s.lent item = none) :
      Step s { s with
        lent := Function.update s.lent item (some key)
        notices := s.notices ++ [.offer item key] }
  | demand {item : Item} {key : Key} (lent : s.lent item = some key) (idle : s.waiting = false) :
      Step s { s with waiting := true, notices := s.notices ++ [.demand item] }
  | take {item : Item} {key : Key} {rest : List (Notice Item Key)} {asked : Bool}
      (first : s.notices = .offer item key :: rest) (calm : asked = s.asked ∨ asked = false) :
      Step s { s with notices := rest, held := Function.update s.held item true, asked := asked }
  | hear {item : Item} {rest : List (Notice Item Key)} (asked : Bool)
      (first : s.notices = .demand item :: rest) : Step s { s with notices := rest, asked := asked }
  | forget : Step s { s with asked := false }
  | giveBack {item : Option Item} (asked : s.asked = true)
      (own : ∀ i, item = some i → s.held i = true) :
      Step s { s with
        asked := false
        held := without s.held item false
        returns := s.returns ++ [item] }
  | collect {item : Option Item} {rest : List (Option Item)} (first : s.returns = item :: rest) :
      Step s { s with lent := without s.lent item none, returns := rest, seen := s.seen + 1 }
  | resume {seen : Nat} (waits : s.waiting = true) (answered : s.seen = seen + 1) :
      Step s { s with waiting := false, seen := seen }

def offers (item : Item) : Notice Item Key → Bool
  | .offer other _ => decide (other = item)
  | .demand _ => false

/-- How often the item is offered in the queue. -/
def offered (s : Lending Item Key) (item : Item) : Nat := s.notices.countP (offers item)

/-- How often the item is on its way back. -/
def returning (s : Lending Item Key) (item : Item) : Nat := s.returns.count (some item)

/-- The requests and the answers to them that are under way. -/
def requests (s : Lending Item Key) : Nat :=
  s.notices.countP isDemand + s.asked.toNat + s.returns.length + s.seen

/-- Every lent item is in one place, the keys on their way are those of the lender, and there is
an answer for each request. -/
structure Sound (s : Lending Item Key) : Prop where
  balance : ∀ item, s.offered item + (s.held item).toNat + s.returning item =
    (s.lent item).isSome.toNat
  keys : ∀ item key, .offer item key ∈ s.notices → s.lent item = some key
  requests : s.requests ≤ s.waiting.toNat
  reached : Reached s.held s.notices

variable {s next : Lending Item Key}

theorem offered_of_first {item : Item} {key : Key} {rest : List (Notice Item Key)}
    (first : s.notices = .offer item key :: rest) : 1 ≤ s.offered item := by
  unfold offered
  rw [first, List.countP_cons]
  simp [offers]

theorem returning_of_first {item : Item} {rest : List (Option Item)}
    (first : s.returns = some item :: rest) : 1 ≤ s.returning item := by
  unfold returning
  rw [first, List.count_cons_self]
  omega

/-- What the borrower holds is lent to it. -/
theorem Sound.lent_of_held (sound : s.Sound) {item : Item} (held : s.held item = true) :
    (s.lent item).isSome = true := by
  have balance := sound.balance item
  rw [held, Bool.toNat_true] at balance
  by_contra none
  rw [eq_false_of_ne_true none, Bool.toNat_false] at balance
  omega

/-- An item on its way is not held, and it is lent. -/
theorem Sound.away (sound : s.Sound) {item : Item} (onWay : 0 < s.offered item + s.returning item) :
    s.held item = false ∧ (s.lent item).isSome = true := by
  have balance := sound.balance item
  have most := Bool.toNat_le (s.lent item).isSome
  constructor
  · by_contra held
    rw [eq_true_of_ne_false held, Bool.toNat_true] at balance
    omega
  · by_contra none
    rw [eq_false_of_ne_true none, Bool.toNat_false] at balance
    omega

/-- An offered item is not held yet. -/
theorem Sound.unheld_of_offer (sound : s.Sound) {item : Item} {key : Key}
    {rest : List (Notice Item Key)} (first : s.notices = .offer item key :: rest) :
    s.held item = false ∧ s.lent item = some key := by
  have some_ := offered_of_first first
  refine ⟨(sound.away (by omega)).1, sound.keys item key ?_⟩
  rw [first]
  exact List.mem_cons_self

/-- The borrower holds what it is asked for. -/
theorem Sound.held_of_demand (sound : s.Sound) {item : Item} {rest : List (Notice Item Key)}
    (first : s.notices = .demand item :: rest) : s.held item = true := by
  rcases sound.reached [] item rest first with held | ⟨key, none⟩
  · exact held
  · exact absurd none List.not_mem_nil

/-- Nothing is asked for while the borrower has yet to answer. -/
theorem Sound.quiet_of_asked (sound : s.Sound) (asked : s.asked = true) :
    s.notices.countP isDemand = 0 := by
  have most := sound.requests
  have bound := Bool.toNat_le s.waiting
  unfold Lending.requests at most
  rw [asked, Bool.toNat_true] at most
  omega

/-- With both queues empty the parties agree. -/
theorem Sound.settled (sound : s.Sound) (noNotices : s.notices = []) (noReturns : s.returns = [])
    (item : Item) : s.held item = (s.lent item).isSome := by
  have balance := sound.balance item
  unfold offered returning at balance
  rw [noNotices, noReturns, List.countP_nil, List.count_nil] at balance
  cases held : s.held item <;> cases lent : (s.lent item).isSome <;>
    simp [held, lent] at balance ⊢

theorem Reached.take {held : Item → Bool} {item : Item} {key : Key} {rest : List (Notice Item Key)}
    (reached : Reached held (.offer item key :: rest)) :
    Reached (Function.update held item true) rest := by
  intro before other after parts
  by_cases same : other = item
  · left
    rw [same, Function.update_self]
  · rw [Function.update_of_ne same]
    rcases reached (.offer item key :: before) other after (by rw [parts]; rfl) with
      holds | ⟨other_, offer⟩
    · exact Or.inl holds
    · rcases List.mem_cons.mp offer with first | later
      · cases first
        exact absurd rfl same
      · exact Or.inr ⟨other_, later⟩

theorem isSome_update {lent : Item → Option Key} {item other : Item} {key : Key}
    (different : other ≠ item) :
    Function.update lent item (some key) other = lent other :=
  Function.update_of_ne different ..

/-- A free item goes out. -/
theorem Sound.lend (sound : s.Sound) {item : Item} {key : Key} (free : s.lent item = none) :
    Sound { s with
      lent := Function.update s.lent item (some key)
      notices := s.notices ++ [.offer item key] } where
  balance := by
    intro other
    have balance := sound.balance other
    unfold offered returning at balance ⊢
    dsimp only at balance ⊢
    rw [List.countP_append, List.countP_cons, List.countP_nil]
    by_cases same : other = item
    · subst same
      rw [free] at balance
      rw [Function.update_self]
      simp only [offers, decide_true, if_true, Option.isSome_some, Bool.toNat_true]
      simp only [Option.isSome_none, Bool.toNat_false] at balance
      omega
    · rw [isSome_update same]
      have unlike : decide (item = other) = false := by simpa using Ne.symm same
      simp only [offers, unlike, Bool.false_eq_true, if_false]
      omega
  keys := by
    intro other key' offer
    rcases List.mem_append.mp offer with before | last
    · have lent := sound.keys other key' before
      have different : other ≠ item := by
        rintro rfl
        rw [free] at lent
        cases lent
      rw [← lent]
      exact isSome_update different
    · cases List.mem_singleton.mp last
      exact Function.update_self ..
  requests := by
    have most := sound.requests
    unfold Lending.requests at most ⊢
    dsimp only
    rw [List.countP_append, List.countP_cons, List.countP_nil]
    simpa [isDemand] using most
  reached := sound.reached.offer

/-- The lender asks for an item. -/
theorem Sound.demand (sound : s.Sound) {item : Item} {key : Key} (lent : s.lent item = some key)
    (idle : s.waiting = false) :
    Sound { s with waiting := true, notices := s.notices ++ [.demand item] } := by
  have none := sound.requests
  rw [idle, Bool.toNat_false] at none
  unfold Lending.requests at none
  have noReturns : s.returns = [] := List.eq_nil_of_length_eq_zero (by omega)
  refine ⟨?_, ?_, ?_, sound.reached.demand ?_⟩
  · intro other
    have balance := sound.balance other
    unfold offered returning at balance ⊢
    dsimp only
    rw [List.countP_append, List.countP_cons, List.countP_nil]
    simpa [offers] using balance
  · intro other key' offer
    rcases List.mem_append.mp offer with before | last
    · exact sound.keys other key' before
    · cases List.mem_singleton.mp last
  · unfold Lending.requests
    dsimp only
    rw [List.countP_append, List.countP_cons, List.countP_nil, Bool.toNat_true]
    simp only [isDemand, if_true]
    omega
  · -- a lent item that is not on its way back is held, or offered before the request
    have balance := sound.balance item
    unfold returning at balance
    rw [noReturns, lent, List.count_nil] at balance
    by_cases holds : s.held item = true
    · exact Or.inl holds
    · right
      rw [eq_false_of_ne_true holds] at balance
      simp only [Option.isSome_some, Bool.toNat_true, Bool.toNat_false] at balance
      have found : 0 < s.notices.countP (offers item) := by
        unfold offered at balance
        omega
      obtain ⟨notice, member, offer⟩ := List.countP_pos_iff.mp found
      cases notice with
      | offer other key' =>
          have same : other = item := of_decide_eq_true offer
          rw [same] at member
          exact ⟨key', member⟩
      | demand other => cases offer

/-- The borrower takes what it is offered, and may forget over it what it was asked for. -/
theorem Sound.take (sound : s.Sound) {item : Item} {key : Key} {rest : List (Notice Item Key)}
    {asked : Bool} (first : s.notices = .offer item key :: rest)
    (calm : asked = s.asked ∨ asked = false) :
    Sound { s with notices := rest, held := Function.update s.held item true, asked := asked } where
  balance := by
    intro other
    have balance := sound.balance other
    unfold offered returning at balance ⊢
    dsimp only
    rw [first, List.countP_cons] at balance
    by_cases same : other = item
    · subst same
      have unheld := (sound.unheld_of_offer first).1
      rw [unheld] at balance
      rw [Function.update_self]
      simp only [offers, decide_true, if_true, Bool.toNat_false] at balance
      rw [Bool.toNat_true]
      omega
    · rw [Function.update_of_ne same]
      have unlike : decide (item = other) = false := by simpa using Ne.symm same
      simp only [offers, unlike, Bool.false_eq_true, if_false] at balance
      exact balance
  keys := by
    intro other key' offer
    apply sound.keys other key'
    rw [first]
    exact List.mem_cons_of_mem _ offer
  requests := by
    have most := sound.requests
    have less : asked.toNat ≤ s.asked.toNat := by
      rcases calm with same | forgotten
      · exact Nat.le_of_eq (congrArg Bool.toNat same)
      · rw [forgotten, Bool.toNat_false]
        exact Nat.zero_le _
    unfold Lending.requests at most ⊢
    rw [first, List.countP_cons] at most
    simp only [isDemand, Bool.false_eq_true, if_false] at most
    dsimp only
    omega
  reached := by
    have reached := sound.reached
    rw [first] at reached
    exact reached.take

/-- The borrower hears a request, and may overhear it. -/
theorem Sound.hear (sound : s.Sound) {item : Item} {rest : List (Notice Item Key)} (asked : Bool)
    (first : s.notices = .demand item :: rest) :
    Sound { s with notices := rest, asked := asked } where
  balance := by
    intro other
    have balance := sound.balance other
    unfold offered returning at balance ⊢
    rw [first, List.countP_cons] at balance
    simpa [offers] using balance
  keys := by
    intro other key offer
    apply sound.keys other key
    rw [first]
    exact List.mem_cons_of_mem _ offer
  requests := by
    have most := sound.requests
    have bound := Bool.toNat_le asked
    unfold Lending.requests at most ⊢
    rw [first, List.countP_cons] at most
    simp only [isDemand, if_true] at most
    dsimp only
    omega
  reached := by
    have reached := sound.reached
    rw [first] at reached
    exact reached.hear

theorem Sound.forget (sound : s.Sound) : Sound { s with asked := false } where
  balance := sound.balance
  keys := sound.keys
  requests := by
    have most := sound.requests
    unfold Lending.requests at most ⊢
    dsimp only
    rw [Bool.toNat_false]
    omega
  reached := sound.reached

/-- The borrower answers with an item of its own, or with nothing. -/
theorem Sound.giveBack (sound : s.Sound) {item : Option Item} (asked : s.asked = true)
    (own : ∀ i, item = some i → s.held i = true) :
    Sound { s with
      asked := false
      held := without s.held item false
      returns := s.returns ++ [item] } where
  balance := by
    intro other
    have balance := sound.balance other
    unfold offered returning at balance ⊢
    dsimp only
    rw [List.count_append, List.count_singleton]
    by_cases same : item = some other
    · have held := own other same
      rw [held, Bool.toNat_true] at balance
      simp only [without, same, if_true, Bool.toNat_false, beq_self_eq_true]
      omega
    · rw [without_of_ne same]
      simp only [beq_iff_eq, same, if_false]
      exact balance
  keys := sound.keys
  requests := by
    have most := sound.requests
    unfold Lending.requests at most ⊢
    rw [asked, Bool.toNat_true] at most
    dsimp only
    rw [List.length_append, List.length_singleton, Bool.toNat_false]
    omega
  reached := reached_of_quiet (sound.quiet_of_asked asked)

/-- The lender takes an answer in. -/
theorem Sound.collect (sound : s.Sound) {item : Option Item} {rest : List (Option Item)}
    (first : s.returns = item :: rest) :
    Sound { s with lent := without s.lent item none, returns := rest, seen := s.seen + 1 } where
  balance := by
    intro other
    have balance := sound.balance other
    by_cases same : item = some other
    · subst same
      have onWay : 0 < s.offered other + s.returning other :=
        Nat.lt_of_lt_of_le (returning_of_first first) (Nat.le_add_left _ _)
      have away := sound.away onWay
      unfold offered returning at balance ⊢
      rw [first, List.count_cons_self, away.1, away.2] at balance
      simp only [Bool.toNat_false, Bool.toNat_true] at balance
      simp only [without, away.1, if_true, Option.isSome_none, Bool.toNat_false]
      omega
    · unfold offered returning at balance ⊢
      rw [first, List.count_cons_of_ne same] at balance
      dsimp only
      rw [without_of_ne same]
      exact balance
  keys := by
    intro other key offer
    have offered : 0 < s.offered other :=
      List.countP_pos_iff.mpr ⟨_, offer, decide_eq_true rfl⟩
    have different : item ≠ some other := by
      rintro rfl
      have onWay := returning_of_first first
      have balance := sound.balance other
      have most := Bool.toNat_le (s.lent other).isSome
      omega
    rw [← sound.keys other key offer]
    exact without_of_ne different
  requests := by
    have most := sound.requests
    unfold Lending.requests at most ⊢
    rw [first, List.length_cons] at most
    dsimp only
    omega
  reached := sound.reached

theorem Sound.resume (sound : s.Sound) {seen : Nat} (waits : s.waiting = true)
    (answered : s.seen = seen + 1) : Sound { s with waiting := false, seen := seen } where
  balance := sound.balance
  keys := sound.keys
  requests := by
    have most := sound.requests
    unfold Lending.requests at most ⊢
    rw [waits, answered, Bool.toNat_true] at most
    dsimp only
    rw [Bool.toNat_false]
    omega
  reached := sound.reached

theorem Sound.step (sound : s.Sound) (step : Step s next) : next.Sound := by
  cases step with
  | lend free => exact sound.lend free
  | demand lent idle => exact sound.demand lent idle
  | take first calm => exact sound.take first calm
  | hear asked first => exact sound.hear asked first
  | forget => exact sound.forget
  | giveBack asked own => exact sound.giveBack asked own
  | collect first => exact sound.collect first
  | resume waits answered => exact sound.resume waits answered

/-- A step, or nothing. -/
theorem Sound.reflGen (sound : s.Sound) (step : Relation.ReflGen Step s next) : next.Sound := by
  cases step with
  | refl => exact sound
  | single step => exact sound.step step

/-- An item that stays with the borrower stays under its key. -/
theorem Sound.key_of_held (sound : s.Sound) {item : Item}
    (step : Relation.ReflGen Step s next) (held : s.held item = true) (still : next.held item = true) :
    next.lent item = s.lent item := by
  have lent := sound.lent_of_held held
  cases step with
  | refl => rfl
  | single step =>
      cases step with
      | @lend other key free =>
          have different : item ≠ other := by
            rintro rfl
            rw [free] at lent
            cases lent
          exact Function.update_of_ne different ..
      | demand | take | hear | forget | giveBack | resume => rfl
      | @collect gone rest first =>
          refine without_of_ne ?_
          rintro rfl
          have onWay : 0 < s.offered item + s.returning item :=
            Nat.lt_of_lt_of_le (returning_of_first first) (Nat.le_add_left _ _)
          have away := (sound.away onWay).1
          rw [held] at away
          cases away

/-- Nothing is lent and nothing is on its way. -/
theorem sound_of_empty (lent : ∀ item, s.lent item = none) (held : ∀ item, s.held item = false)
    (noNotices : s.notices = []) (noReturns : s.returns = []) (calm : s.asked = false)
    (unseen : s.seen = 0) : s.Sound where
  balance := by
    intro item
    unfold offered returning
    rw [lent, held, noNotices, noReturns]
    rfl
  keys := by
    intro item key offer
    rw [noNotices] at offer
    exact absurd offer List.not_mem_nil
  requests := by
    unfold Lending.requests
    rw [noNotices, noReturns, calm, unseen]
    exact Nat.zero_le _
  reached := by
    rw [noNotices]
    exact reached_of_quiet rfl

end Lending

end Valet.Library
