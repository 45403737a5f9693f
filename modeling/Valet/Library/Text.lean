import Mathlib.Data.List.Basic
import Mathlib.Data.List.DropRight
import Mathlib.Data.List.TakeWhile

/-!
# Text as C and Python read it

A character stands for a byte.  A C string ends before the first NUL; `strsep`
cuts it at a delimiter, `%d` reads a number off its front, and a line reader
cuts a text after newlines or when its buffer is full.
-/

namespace Valet.Library

/-- `isspace` of the C locale. -/
def isSpace (c : Char) : Bool :=
  c = ' ' || c = '\t' || c = '\n' || c = '\x0b' || c = '\x0c' || c = '\r'

/-- The C string at the start of a buffer. -/
def cString (buffer : List Char) : List Char := buffer.takeWhile (· != '\x00')

/-- `strsep` with one delimiter: the token, and the pointer that is left. -/
def strsep (delim : Char) : Option (List Char) → Option (List Char) × Option (List Char)
  | none => (none, none)
  | some s =>
      match s.dropWhile (· != delim) with
      | [] => (some s, none)
      | _ :: rest => (some (s.takeWhile (· != delim)), some rest)

/-- The number that the leading digits write, if there are any. -/
def scanDigits (s : List Char) : Option Nat :=
  match s.takeWhile Char.isDigit with
  | [] => none
  | digits => some (Nat.ofDigitChars 10 digits 0)

/-- `%d`: white space, a sign, digits; whether `+` counts as a sign differs. -/
def scanInt (space : Char → Bool) (plus : Bool) (s : List Char) : Option Int :=
  match s.dropWhile space with
  | '-' :: rest => (scanDigits rest).map fun value => -(value : Int)
  | '+' :: rest => if plus then (scanDigits rest).map Int.ofNat else none
  | rest => (scanDigits rest).map Int.ofNat

/-- The lines of a text, where `room` characters fit in the first and `limit` in each later one. -/
def linesFrom (limit : Nat) : Nat → List Char → List (List Char)
  | _, [] => []
  | room, c :: rest =>
      if c = '\n' ∨ room ≤ 1 then
        [c] :: linesFrom limit limit rest
      else
        match linesFrom limit (room - 1) rest with
        | [] => [[c]]
        | line :: lines => (c :: line) :: lines

/-- What `fgets` yields, call after call. -/
def fgetsLines (size : Nat) (text : List Char) : List (List Char) :=
  linesFrom (size - 1) (size - 1) text

/-- `readlines`; no line is longer than the text. -/
def readlines (text : List Char) : List (List Char) :=
  linesFrom (text.length + 1) (text.length + 1) text

/-- `strip`. -/
def strip (s : List Char) : List Char := (s.dropWhile isSpace).rdropWhile isSpace

section Cutting

variable {delim : Char} {token rest : List Char}

theorem takeWhile_bne (clean : delim ∉ token) (rest : List Char) :
    (token ++ delim :: rest).takeWhile (· != delim) = token := by
  induction token with
  | nil => simp
  | cons c token ih =>
      rw [List.mem_cons, not_or] at clean
      simp [Ne.symm clean.1, ih clean.2]

theorem dropWhile_bne (clean : delim ∉ token) (rest : List Char) :
    (token ++ delim :: rest).dropWhile (· != delim) = delim :: rest := by
  induction token with
  | nil => simp
  | cons c token ih =>
      rw [List.mem_cons, not_or] at clean
      simp [Ne.symm clean.1, ih clean.2]

theorem strsep_cut (clean : delim ∉ token) (rest : List Char) :
    strsep delim (some (token ++ delim :: rest)) = (some token, some rest) := by
  rw [strsep, dropWhile_bne clean, takeWhile_bne clean]

theorem strsep_last (clean : delim ∉ token) : strsep delim (some token) = (some token, none) := by
  have all : token.dropWhile (· != delim) = [] := by
    rw [List.dropWhile_eq_nil_iff]
    intro c member
    rw [bne_iff_ne]
    rintro rfl
    exact clean member
  rw [strsep, all]

/-- A string is one token, or a token and what comes after its delimiter. -/
theorem cut_cases (delim : Char) (s : List Char) :
    delim ∉ s ∨ ∃ token rest, s = token ++ delim :: rest ∧ delim ∉ token := by
  by_cases member : delim ∈ s
  · obtain ⟨token, rest, same, clean⟩ := List.eq_append_cons_of_mem member
    exact Or.inr ⟨token, rest, same, clean⟩
  · exact Or.inl member

theorem cString_self (clean : '\x00' ∉ token) : cString token = token := by
  unfold cString
  rw [List.takeWhile_eq_self_iff]
  intro c member
  rw [bne_iff_ne]
  rintro rfl
  exact clean member

theorem cString_cut (clean : '\x00' ∉ token) (rest : List Char) :
    cString (token ++ '\x00' :: rest) = token := takeWhile_bne clean rest

/-- The tokens that are left at a pointer. -/
def tokens (delim : Char) (ptr : Option (List Char)) : List (List Char) :=
  match ptr with
  | none => []
  | some s => s.splitOn delim

/-- A call of `strsep` yields the first of the tokens and leaves the others. -/
theorem strsep_tokens (delim : Char) (ptr : Option (List Char)) :
    (strsep delim ptr).1 = (tokens delim ptr).head? ∧
      tokens delim (strsep delim ptr).2 = (tokens delim ptr).tail := by
  cases ptr with
  | none => exact ⟨rfl, rfl⟩
  | some s =>
      rcases cut_cases delim s with clean | ⟨token, rest, rfl, clean⟩
      · have whole : tokens delim (some s) = [s] := List.splitOn_eq_singleton clean
        rw [strsep_last clean, whole]
        exact ⟨rfl, rfl⟩
      · have parts : tokens delim (some (token ++ delim :: rest)) =
            token :: tokens delim (some rest) := List.splitOn_append_cons_self_of_not_mem clean rest
        rw [strsep_cut clean, parts]
        exact ⟨rfl, rfl⟩

end Cutting

section Numbers

variable {digits rest : List Char}

theorem takeWhile_stops {p : Char → Bool} (all : ∀ c ∈ digits, p c = true)
    (stops : ∀ c ∈ rest.head?, p c = false) : (digits ++ rest).takeWhile p = digits := by
  induction digits with
  | nil =>
      cases rest with
      | nil => rfl
      | cons c rest => simp [stops c rfl]
  | cons c digits ih =>
      rw [List.cons_append, List.takeWhile_cons_of_pos (all c List.mem_cons_self),
        ih fun other member => all other (List.mem_cons_of_mem c member)]

theorem scanDigits_eq (some_ : digits ≠ []) (all : ∀ c ∈ digits, c.isDigit = true)
    (stops : ∀ c ∈ rest.head?, c.isDigit = false) :
    scanDigits (digits ++ rest) = some (Nat.ofDigitChars 10 digits 0) := by
  unfold scanDigits
  rw [takeWhile_stops all stops]
  cases digits with
  | nil => exact absurd rfl some_
  | cons c digits => rfl

/-- `%d` reads a number that begins with a digit. -/
theorem scanInt_digits {space : Char → Bool} {plus : Bool}
    (apart : ∀ c : Char, c.isDigit = true → space c = false) (some_ : digits ≠ [])
    (all : ∀ c ∈ digits, c.isDigit = true) (stops : ∀ c ∈ rest.head?, c.isDigit = false) :
    scanInt space plus (digits ++ rest) = some (Nat.ofDigitChars 10 digits 0 : Int) := by
  have scanned := scanDigits_eq some_ all stops
  cases digits with
  | nil => exact absurd rfl some_
  | cons c digits =>
      have digit := all c List.mem_cons_self
      have kept : (c :: digits ++ rest).dropWhile space = c :: digits ++ rest := by
        rw [List.cons_append, List.dropWhile_cons_of_neg]
        rw [apart c digit]
        exact Bool.false_ne_true
      unfold scanInt
      rw [kept]
      split
      · rename_i begins
        cases begins
        exact absurd digit (by decide)
      · rename_i begins
        cases begins
        exact absurd digit (by decide)
      · rw [scanned]
        rfl

end Numbers

section Lines

variable {limit room : Nat} {line rest : List Char}

/-- A character that neither ends its line nor fills the buffer. -/
theorem linesFrom_inside {c : Char} (other : '\n' ≠ c) (more : 1 < room) (rest : List Char) :
    linesFrom limit room (c :: rest) =
      match linesFrom limit (room - 1) rest with
      | [] => [[c]]
      | line :: lines => (c :: line) :: lines := by
  refine if_neg ?_
  rintro (rfl | short)
  · exact other rfl
  · omega

theorem linesFrom_cons (clean : '\n' ∉ line) (fits : line.length < room) (rest : List Char) :
    linesFrom limit room (line ++ '\n' :: rest) =
      (line ++ ['\n']) :: linesFrom limit limit rest := by
  induction line generalizing room with
  | nil => rw [List.nil_append, linesFrom, if_pos (Or.inl rfl), List.nil_append]
  | cons c line ih =>
      rw [List.mem_cons, not_or] at clean
      rw [List.length_cons] at fits
      rw [List.cons_append, linesFrom_inside clean.1 (by omega), ih clean.2 (by omega)]
      rfl

theorem linesFrom_last (clean : '\n' ∉ line) (some_ : line ≠ []) (fits : line.length ≤ room) :
    linesFrom limit room line = [line] := by
  induction line generalizing room with
  | nil => exact absurd rfl some_
  | cons c line ih =>
      rw [List.mem_cons, not_or] at clean
      rw [List.length_cons] at fits
      cases line with
      | nil =>
          rw [linesFrom]
          split
          · rfl
          · rfl
      | cons d line =>
          rw [List.length_cons] at fits
          rw [linesFrom_inside clean.1 (by omega), ih clean.2 (List.cons_ne_nil _ _)
            (by rw [List.length_cons]; omega)]

/-- A text of these lines; the last of them may lack its newline. -/
def textOf (lines : List (List Char)) (newline : Bool) : List Char :=
  let text := lines.flatMap (· ++ ['\n'])
  if newline then text else text.dropLast

/-- The line, with or without its newline. -/
def IsLine (line piece : List Char) : Prop := piece = line ∨ piece = line ++ ['\n']

theorem textOf_cons (line : List Char) {others : List (List Char)} (more : others ≠ [])
    (newline : Bool) : textOf (line :: others) newline = line ++ '\n' :: textOf others newline := by
  have some_ : others.flatMap (· ++ ['\n']) ≠ [] := by
    cases others with
    | nil => exact absurd rfl more
    | cons other others => simp
  cases newline with
  | true => simp [textOf]
  | false =>
      simp only [textOf, List.flatMap_cons, Bool.false_eq_true, if_false]
      rw [List.dropLast_append_of_ne_nil some_, List.append_assoc, List.singleton_append]

theorem length_le_textOf {lines : List (List Char)} (newline : Bool) (member : line ∈ lines) :
    line.length ≤ (textOf lines newline).length := by
  induction lines with
  | nil => cases member
  | cons first others ih =>
      cases others with
      | nil =>
          obtain rfl := List.mem_singleton.mp member
          cases newline with
          | true => simp [textOf]
          | false => simp [textOf]
      | cons second others =>
          rw [textOf_cons first (List.cons_ne_nil _ _), List.length_append, List.length_cons]
          rcases List.mem_cons.mp member with rfl | later
          · omega
          · have fits := ih later
            omega

/-- A reader whose buffer is large enough finds the lines. -/
theorem linesFrom_textOf {lines : List (List Char)} (newline : Bool)
    (clean : ∀ line ∈ lines, '\n' ∉ line ∧ line ≠ [] ∧ line.length < limit) :
    List.Forall₂ IsLine lines (linesFrom limit limit (textOf lines newline)) := by
  induction lines with
  | nil =>
      cases newline with
      | true => exact .nil
      | false => exact .nil
  | cons line others ih =>
      obtain ⟨whole, some_, fits⟩ := clean line List.mem_cons_self
      cases others with
      | nil =>
          cases newline with
          | true =>
              have text : textOf [line] true = line ++ '\n' :: [] := by simp [textOf]
              rw [text, linesFrom_cons whole fits]
              exact .cons (Or.inr rfl) .nil
          | false =>
              have text : textOf [line] false = line := by simp [textOf]
              rw [text, linesFrom_last whole some_ (Nat.le_of_lt fits)]
              exact .cons (Or.inl rfl) .nil
      | cons other others =>
          rw [textOf_cons line (List.cons_ne_nil _ _), linesFrom_cons whole fits]
          exact .cons (Or.inr rfl) (ih fun later member => clean later
            (List.mem_cons_of_mem line member))

theorem readlines_textOf {lines : List (List Char)} (newline : Bool)
    (clean : ∀ line ∈ lines, '\n' ∉ line ∧ line ≠ []) :
    List.Forall₂ IsLine lines (readlines (textOf lines newline)) :=
  linesFrom_textOf newline fun line member => ⟨(clean line member).1, (clean line member).2,
    Nat.lt_succ_of_le (length_le_textOf newline member)⟩

/-- `strip` takes the newline off a line without white space. -/
theorem strip_line {piece : List Char} (clean : ∀ c ∈ line, isSpace c = false) (some_ : line ≠ [])
    (is : IsLine line piece) : strip piece = line := by
  obtain ⟨c, tail, rfl⟩ := List.exists_cons_of_ne_nil some_
  have first : ¬ isSpace c = true := by
    rw [clean c List.mem_cons_self]
    exact Bool.false_ne_true
  have last : (c :: tail).rdropWhile isSpace = c :: tail := by
    rw [List.rdropWhile_eq_self_iff]
    intro some_
    rw [clean _ (List.getLast_mem some_)]
    exact Bool.false_ne_true
  rcases is with rfl | rfl
  · rw [strip, List.dropWhile_cons_of_neg first, last]
  · rw [strip, List.cons_append, List.dropWhile_cons_of_neg first, ← List.cons_append,
      List.rdropWhile_concat_pos _ _ _ rfl, last]

end Lines

end Valet.Library
