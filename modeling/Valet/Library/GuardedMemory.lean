import Valet.Library.Channel

/-!
# Memory that is guarded by keys

An item of memory is empty, free, or held by an owner under a key.  It is blank
when it is allocated, and it can be held once before it is empty again.  A key
is issued once, and a write goes to the item that is held under its key.  So a
held item holds what its holder wrote to it, and nothing of other owners, also
with writes under way that were started while the item was someone else's.
-/

namespace Valet.Library

variable {Item Owner Key Addr Val : Type}

inductive Life (Owner Key : Type) where
  | empty
  | free
  | held (owner : Owner) (key : Key)
  deriving DecidableEq

/-- What becomes of an item in a turn that gives out `grant`. -/
inductive Life.Turn (grant : Option (Owner × Key)) : Life Owner Key → Life Owner Key → Prop where
  | stays (life : Life Owner Key) : Turn grant life life
  | allocated : Turn grant .empty .free
  | freed : Turn grant .free .empty
  | given {owner : Owner} {key : Key} (granted : grant = some (owner, key)) :
      Turn grant .free (.held owner key)
  | back {owner : Owner} {key : Key} : Turn grant (.held owner key) .empty

/-- An item is allocated. -/
def Life.starts : Life Owner Key → Life Owner Key → Bool
  | .empty, .free => true
  | _, _ => false

/-- The items, what was written to each of them since it was allocated, and the keys so far. -/
structure Guarded (Item Owner Key Addr Val : Type) where
  life : Item → Life Owner Key
  content : Item → Addr → Val
  written : Item → List (Owner × List (Addr × Val))
  issued : List (Key × Owner)

namespace Guarded

/-- The items go on in their lives, and those that are allocated are blank. -/
def turn (blank : Addr → Val) (s : Guarded Item Owner Key Addr Val) (lives : Item → Life Owner Key)
    (grant : Option (Owner × Key)) : Guarded Item Owner Key Addr Val where
  life := lives
  content := fun item => if (s.life item).starts (lives item) then blank else s.content item
  written := fun item => if (s.life item).starts (lives item) then [] else s.written item
  issued := (grant.map Prod.swap).toList ++ s.issued

/-- A write of `owner` takes effect on an item. -/
def write [DecidableEq Item] [DecidableEq Addr] (s : Guarded Item Owner Key Addr Val) (item : Item)
    (owner : Owner) (cells : List (Addr × Val)) : Guarded Item Owner Key Addr Val :=
  { s with
    content := Function.update s.content item (store (s.content item) cells)
    written := Function.update s.written item (s.written item ++ [(owner, cells)]) }

/-- The memory that writes make of `blank`. -/
def replay [DecidableEq Addr] (blank : Addr → Val) (writes : List (Owner × List (Addr × Val))) :
    Addr → Val :=
  writes.foldl (fun content write => store content write.2) blank

variable {blank : Addr → Val} {s : Guarded Item Owner Key Addr Val}
  {lives : Item → Life Owner Key} {grant : Option (Owner × Key)}

theorem mem_issued_turn {key : Key} {owner : Owner} :
    (key, owner) ∈ (s.turn blank lives grant).issued ↔
      grant = some (owner, key) ∨ (key, owner) ∈ s.issued := by
  unfold turn
  cases grant with
  | none => simp
  | some pair =>
      obtain ⟨other, again⟩ := pair
      simp only [Option.map_some, Option.toList_some, List.singleton_append, List.mem_cons,
        Prod.swap_prod_mk, Prod.mk.injEq, Option.some.injEq]
      constructor
      · rintro (⟨rfl, rfl⟩ | before)
        · exact Or.inl ⟨rfl, rfl⟩
        · exact Or.inr before
      · rintro (⟨rfl, rfl⟩ | before)
        · exact Or.inl ⟨rfl, rfl⟩
        · exact Or.inr before

/-- A held item was held before, or the turn has given it out. -/
theorem held_of_turn {life next : Life Owner Key} (turns : life.Turn grant next) {owner : Owner}
    {key : Key} (held : next = .held owner key) :
    life = .held owner key ∨ (life = .free ∧ grant = some (owner, key)) := by
  cases turns with
  | stays => exact Or.inl held
  | allocated => cases held
  | freed => cases held
  | given granted =>
      cases held
      exact Or.inr ⟨rfl, granted⟩
  | back => cases held

theorem store_all [DecidableEq Addr] {Holds : Val → Prop} {memory : Addr → Val}
    {cells : List (Addr × Val)} (start : ∀ addr, Holds (memory addr))
    (all : ∀ cell ∈ cells, Holds cell.2) (addr : Addr) : Holds (store memory cells addr) := by
  unfold store
  induction cells generalizing memory with
  | nil => exact start addr
  | cons cell rest ih =>
      refine ih (fun other => ?_) fun later member => all later (List.mem_cons_of_mem _ member)
      dsimp only
      rcases eq_or_ne other cell.1 with rfl | different
      · rw [Function.update_self]
        exact all cell List.mem_cons_self
      · rw [Function.update_of_ne different]
        exact start other

/-- Keys belong to one owner each, and items to the owners of their keys. -/
structure Sound [DecidableEq Addr] (blank : Addr → Val) (s : Guarded Item Owner Key Addr Val) :
    Prop where
  once : ∀ key owner other, (key, owner) ∈ s.issued → (key, other) ∈ s.issued → owner = other
  keys : ∀ item owner key, s.life item = .held owner key → (key, owner) ∈ s.issued
  distinct : ∀ item other owner key, s.life item = .held owner key →
    s.life other = .held owner key → item = other
  content : ∀ item, s.content item = replay blank (s.written item)
  blank : ∀ item, s.life item = .free → s.written item = []
  own : ∀ item owner key, s.life item = .held owner key → ∀ write ∈ s.written item,
    write.1 = owner

variable [DecidableEq Addr]

/-- What holds of the blank and of all that was written holds of every value. -/
theorem replay_all {Holds : Val → Prop} {writes : List (Owner × List (Addr × Val))}
    (start : ∀ addr, Holds (blank addr))
    (cells : ∀ write ∈ writes, ∀ cell ∈ write.2, Holds cell.2) :
    ∀ addr, Holds (replay blank writes addr) := by
  unfold replay
  induction writes generalizing blank with
  | nil => exact start
  | cons write rest ih =>
      refine ih (fun addr => ?_) fun later member =>
        cells later (List.mem_cons_of_mem _ member)
      exact store_all start (cells write List.mem_cons_self) addr

/-- A key opens an item of its owner only. -/
theorem Sound.opens (sound : s.Sound blank) {item : Item} {owner holder : Owner} {key : Key}
    (mine : (key, owner) ∈ s.issued) (held : s.life item = .held holder key) : holder = owner :=
  sound.once key holder owner (sound.keys item holder key held) mine

/-- A turn that gives out at most one item, under a key that was not issued before. -/
theorem Sound.turn (sound : s.Sound blank)
    (turns : ∀ item, (s.life item).Turn grant (lives item))
    (fresh : ∀ owner key, grant = some (owner, key) → ∀ other, (key, other) ∉ s.issued)
    (single : ∀ item other owner key, s.life item = .free → lives item = .held owner key →
      s.life other = .free → lives other = .held owner key → item = other) :
    (s.turn blank lives grant).Sound blank where
  once := by
    intro key owner other first second
    rcases mem_issued_turn.mp first with new | before
    · rcases mem_issued_turn.mp second with again | earlier
      · rw [new] at again
        cases again
        rfl
      · exact absurd earlier (fresh owner key new other)
    · rcases mem_issued_turn.mp second with again | earlier
      · exact absurd before (fresh other key again owner)
      · exact sound.once key owner other before earlier
  keys := by
    intro item owner key held
    apply mem_issued_turn.mpr
    rcases held_of_turn (turns item) held with before | ⟨_, granted⟩
    · exact Or.inr (sound.keys item owner key before)
    · exact Or.inl granted
  distinct := by
    intro item other owner key held again
    rcases held_of_turn (turns item) held with before | ⟨free, granted⟩
    · rcases held_of_turn (turns other) again with earlier | ⟨_, granted⟩
      · exact sound.distinct item other owner key before earlier
      · exact absurd (sound.keys item owner key before) (fresh owner key granted owner)
    · rcases held_of_turn (turns other) again with earlier | ⟨alike, _⟩
      · exact absurd (sound.keys other owner key earlier) (fresh owner key granted owner)
      · exact single item other owner key free held alike again
  content := by
    intro item
    unfold Guarded.turn
    dsimp only
    split
    · rfl
    · exact sound.content item
  blank := by
    intro item free
    unfold Guarded.turn at free ⊢
    dsimp only at free ⊢
    have turned := turns item
    rw [free] at turned ⊢
    generalize before : s.life item = life at turned
    cases turned with
    | stays =>
        rw [if_neg (by rintro ⟨⟩)]
        exact sound.blank item before
    | allocated => rfl
  own := by
    intro item owner key held write member
    unfold Guarded.turn at held member
    dsimp only at held member
    rw [held] at member
    have still : (s.life item).starts (.held owner key) = false := by
      cases s.life item <;> rfl
    rw [still, if_neg (by rintro ⟨⟩)] at member
    rcases held_of_turn (turns item) held with before | ⟨free, _⟩
    · exact sound.own item owner key before write member
    · rw [sound.blank item free] at member
      exact absurd member List.not_mem_nil

/-- A write with a key of its owner. -/
theorem Sound.write [DecidableEq Item] (sound : s.Sound blank) {item : Item} {owner holder : Owner}
    {key : Key} (cells : List (Addr × Val)) (mine : (key, owner) ∈ s.issued)
    (held : s.life item = .held holder key) : (s.write item owner cells).Sound blank where
  once := sound.once
  keys := sound.keys
  distinct := sound.distinct
  content := by
    intro other
    unfold Guarded.write
    dsimp only
    rcases eq_or_ne other item with rfl | different
    · have same := sound.content other
      unfold replay at same ⊢
      rw [Function.update_self, Function.update_self, List.foldl_append, ← same]
      rfl
    · rw [Function.update_of_ne different, Function.update_of_ne different]
      exact sound.content other
  blank := by
    intro other free
    have different : other ≠ item := by
      rintro rfl
      have free : s.life other = .free := free
      rw [held] at free
      cases free
    unfold Guarded.write
    dsimp only
    rw [Function.update_of_ne different]
    exact sound.blank other free
  own := by
    intro other owner' key' holds write member
    have holds : s.life other = .held owner' key' := holds
    unfold Guarded.write at member
    dsimp only at member
    rcases eq_or_ne other item with rfl | different
    · rw [Function.update_self] at member
      rcases List.mem_append.mp member with before | last
      · exact sound.own other owner' key' holds write before
      · rw [List.mem_singleton.mp last]
        have same := held.symm.trans holds
        cases same
        exact (sound.opens mine held).symm
    · rw [Function.update_of_ne different] at member
      exact sound.own other owner' key' holds write member

/-- Nothing is held and no key is issued. -/
theorem sound_of_unheld (unheld : ∀ item owner key, s.life item ≠ .held owner key)
    (unissued : s.issued = []) (content : ∀ item, s.content item = blank)
    (unwritten : ∀ item, s.written item = []) : s.Sound blank where
  once := by
    intro key owner other member
    rw [unissued] at member
    exact absurd member List.not_mem_nil
  keys := fun item owner key held => absurd held (unheld item owner key)
  distinct := fun item _ owner key held => absurd held (unheld item owner key)
  content := by
    intro item
    rw [content, unwritten]
    rfl
  blank := fun item _ => unwritten item
  own := fun item owner key held => absurd held (unheld item owner key)

end Guarded

end Valet.Library
