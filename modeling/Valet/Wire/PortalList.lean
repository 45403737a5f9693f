import Valet.Library.Halt
import Valet.Library.Text
import Mathlib.Algebra.Order.Ring.Int

/-!
# The list of the portals

`portal.list` names the memory servers, and the place of a server in it is its
index on all machines.  The daemon reads the file; for the kernel `nbdxadm`
joins the lines with commas.  Both parsers work on text that somebody else
wrote, so here a parser stops where it leaves the memory that it may use.
-/

namespace Valet.Wire

open Valet.Library

/-- The ways in which a parser leaves its memory. -/
inductive Overrun where
  /-- It reads beyond the NUL of the token or the line. -/
  | pastNul
  /-- It reads a token that is not there. -/
  | nullToken
  | pastAddr
  | pastList
  /-- It reads or writes beyond a `char` array. -/
  | pastBuffer
  deriving DecidableEq

/-- `struct portal` and `struct valet_portal`: the string in `addr`, and the port. -/
structure Portal where
  addr : List Char
  port : Nat
  deriving DecidableEq

/-- The size of the `addr` field. -/
def addrSize : Nat := 16

/-- `MAX_PORTAL_NAME`. -/
def maxPortalName : Nat := 2048

/-- The `portal` array of a session; nothing writes its last character after `kzalloc`. -/
structure PortalName where
  chars : List Char
  length_eq : chars.length = maxPortalName
  last_nul : chars.getLast? = some '\x00'

namespace PortalName

def zeroed : PortalName where
  chars := .replicate maxPortalName '\x00'
  length_eq := List.length_replicate
  last_nul := List.getLast?_replicate.trans (if_neg (Nat.succ_ne_zero 2047))

/-- `memcpy` of a string without its NUL; `none` when it does not leave the last character. -/
def copy (name : PortalName) (s : List Char) : Option PortalName :=
  if fits : s.length < maxPortalName then
    some {
      chars := s ++ name.chars.drop s.length
      length_eq := by
        rw [List.length_append, List.length_drop, name.length_eq,
          Nat.add_sub_cancel' (Nat.le_of_lt fits)]
      last_nul := by
        have left : ¬ name.chars.length ≤ s.length := by
          rw [name.length_eq]
          exact Nat.not_le.mpr fits
        rw [List.getLast?_append, List.getLast?_drop, if_neg left, name.last_nul]
        rfl }
  else
    none

end PortalName

/-- A value that is stored in an `int`. -/
def wrapInt (value : Int) : Int := Int.bmod value (2 ^ 32)

/-- `while (*(single_portal + j) != ':') j++`, from `j` on. -/
def scanColon : List Char → Nat → Except Overrun Nat
  | [], _ => .error .pastNul
  | c :: rest, j => if c = ':' then .ok j else scanColon rest (j + 1)

/-- What both parsers do with a string `addr:port`; `scan` is their `sscanf` into a zero. -/
def parsePortal (scan : List Char → Int) (single : List Char) : Except Overrun Portal := do
  let j ← scanColon single 0
  if addrSize ≤ j then
    .error .pastAddr
  else
    return { addr := single.take j, port := (scan (single.drop (j + 1)) % 65536).toNat }

end Valet.Wire

namespace Valet.Bd

open Valet.Library Valet.Wire

/-- `isspace` of the kernel knows the blank of Latin-1 too. -/
def kernelIsSpace (c : Char) : Bool := isSpace c || c = '\u00a0'

/-- `sscanf(s, "%d", &value)` of the kernel, for a value that is zero before. -/
def sscanfInt (s : List Char) : Int := ((scanInt kernelIsSpace false s).map wrapInt).getD 0

/-- The loop of `portal_parser`. -/
def parsePortals (allocated : Bool) : Nat → Option (List Char) → Except Overrun (List Portal)
  | 0, _ => .ok []
  | count + 1, ptr =>
      let (singlePortal, ptr) := strsep ',' ptr
      match singlePortal with
      | none => .error .nullToken
      | some singlePortal => do
          let portal ← parsePortal sscanfInt singlePortal
          if !allocated then
            .error .pastList
          else do
            let portals ← parsePortals allocated count ptr
            return portal :: portals

/-- `"rdma://"`. -/
def rdmaPrefix : List Char := ['r', 'd', 'm', 'a', ':', '/', '/']

/-- `allocated` tells whether `kzalloc` gave memory. -/
def portalParser (allocated : Bool) (portal : PortalName) : Except Overrun (List Portal) :=
  let (first, ptr) := strsep ',' (some (cString (portal.chars.drop rdmaPrefix.length)))
  match first with
  | none => .error .nullToken
  | some first => parsePortals allocated (sscanfInt first).toNat ptr

/-- The name of the session: the first word of `rdma://` and what was written. -/
def sessionName (buf : List Char) : List Char :=
  ((rdmaPrefix ++ cString buf).dropWhile kernelIsSpace).takeWhile fun c => !kernelIsSpace c

/-- `portal_attr_store` on the way to the parser; `none` stands for `-EEXIST`. -/
def portalAttrStore (allocated : Bool) (sessions : List PortalName) (portal : PortalName)
    (buf : List Char) : Except Overrun (Option (List Portal)) :=
  if maxPortalName ≤ (rdmaPrefix ++ cString buf).length then
    .error .pastBuffer
  else
    let rdma := sessionName buf
    if rdma ∈ sessions.map fun session => cString session.chars then
      .ok none
    else
      match portal.copy rdma with
      | none => .error .pastBuffer
      | some portal => (portalParser allocated portal).map some

/-- The string that `createHost` writes for a portal file. -/
def createHost (text : List Char) : List Char :=
  ((readlines text).filter (· ≠ ['\n'])).flatMap fun line => strip line ++ [',']

end Valet.Bd

namespace Valet.Daemon

open Valet.Library Valet.Wire

/-- The largest and the smallest `long` stand for what lies beyond. -/
def clampLong (value : Int) : Int := max (-(2 ^ 63)) (min value (2 ^ 63 - 1))

/-- `sscanf(s, "%d", &value)` of the C library, for a value that is zero before. -/
def sscanfInt (s : List Char) : Int :=
  ((scanInt isSpace true s).map fun value => wrapInt (clampLong value)).getD 0

/-- The loop of `portal_parser` over the lines that `fgets` yields, from element `i` on. -/
def parsePortals (allocated : Bool) (pCount : Int) :
    Nat → List (List Char) → Except Overrun (List Portal)
  | _, [] => .ok []
  | i, line :: rest => do
      let portal ← parsePortal sscanfInt (cString line)
      if !allocated || decide (pCount ≤ i) then
        .error .pastList
      else do
        let portals ← parsePortals allocated pCount (i + 1) rest
        return portal :: portals

/-- `sizeof(line)`. -/
def lineSize : Nat := 256

/-- `portal_parser`; `line` is what the array holds before anything is read into it, and
`allocated` tells whether `malloc` gave memory. -/
def portalParser (allocated : Bool) (line text : List Char) : Except Overrun (List Portal) :=
  match fgetsLines lineSize text with
  | [] => if '\x00' ∉ line then .error .pastBuffer else .ok []
  | first :: rest => parsePortals allocated (sscanfInt (cString first)) 0 rest

end Valet.Daemon

namespace Valet.Wire

open Valet.Library

/-- A line `addr:port` of a portal file.  No address has the NUL that ends a C string. -/
structure PortalLine where
  addr : List Char
  port : List Char
  addr_some : addr ≠ []
  addr_fits : addr.length < addrSize
  addr_clean : ∀ c ∈ addr, c ≠ ':' ∧ c ≠ ',' ∧ c ≠ '\x00' ∧ Bd.kernelIsSpace c = false
  port_some : port ≠ []
  port_fits : port.length ≤ 5
  port_digits : ∀ c ∈ port, c.isDigit = true
  port_lt : Nat.ofDigitChars 10 port 0 < 65536

namespace PortalLine

def text (line : PortalLine) : List Char := line.addr ++ ':' :: line.port

/-- What the line says. -/
def portal (line : PortalLine) : Portal := ⟨line.addr, Nat.ofDigitChars 10 line.port 0⟩

end PortalLine

/-- The portal file of these lines, with or without a newline at its end. -/
def portalFile (lines : List PortalLine) (newline : Bool) : List Char :=
  textOf (Nat.toDigits 10 lines.length :: lines.map PortalLine.text) newline

/-! ## Scanning -/

/-- A string that no separator of a list cuts. -/
def Plain (s : List Char) : Prop := ∀ c ∈ s, c ≠ ',' ∧ c ≠ '\x00' ∧ Bd.kernelIsSpace c = false

theorem isSpace_of_kernel {c : Char} (plain : Bd.kernelIsSpace c = false) : isSpace c = false :=
  (Bool.or_eq_false_iff.mp plain).1

theorem kernelIsSpace_digit {c : Char} (digit : c.isDigit = true) : Bd.kernelIsSpace c = false := by
  cases space : Bd.kernelIsSpace c with
  | false => rfl
  | true =>
      simp only [Bd.kernelIsSpace, isSpace, Bool.or_eq_true, decide_eq_true_eq] at space
      rcases space with (((((rfl | rfl) | rfl) | rfl) | rfl) | rfl) | rfl
      all_goals exact absurd digit (by decide)

theorem isSpace_digit {c : Char} (digit : c.isDigit = true) : isSpace c = false :=
  isSpace_of_kernel (kernelIsSpace_digit digit)

theorem plain_digits {digits : List Char} (all : ∀ c ∈ digits, c.isDigit = true) :
    Plain digits := by
  intro c member
  refine ⟨?_, ?_, kernelIsSpace_digit (all c member)⟩
  · rintro rfl
    exact absurd (all _ member) (by decide)
  · rintro rfl
    exact absurd (all _ member) (by decide)

theorem PortalLine.plain (line : PortalLine) : Plain line.text := by
  intro c member
  rcases List.mem_append.mp member with inAddr | after
  · exact (line.addr_clean c inAddr).2
  · rcases List.mem_cons.mp after with rfl | inPort
    · exact ⟨by decide, by decide, by decide⟩
    · exact plain_digits line.port_digits c inPort

theorem Plain.no_newline {s : List Char} (plain : Plain s) : '\n' ∉ s := fun member =>
  absurd (plain '\n' member).2.2 (by decide)

theorem wrapInt_small {value : Nat} (small : value < 2 ^ 31) : wrapInt value = value := by
  rw [wrapInt, Int.bmod_def]
  omega

theorem clampLong_small {value : Nat} (small : value < 2 ^ 31) :
    Daemon.clampLong value = value := by
  unfold Daemon.clampLong
  omega

theorem no_digit : ∀ c ∈ ([] : List Char).head?, c.isDigit = false := by
  intro c member
  cases member

section Digits

variable {digits rest : List Char}

theorem sscanfInt_kernel (some_ : digits ≠ []) (all : ∀ c ∈ digits, c.isDigit = true)
    (stops : ∀ c ∈ rest.head?, c.isDigit = false) (small : Nat.ofDigitChars 10 digits 0 < 2 ^ 31) :
    Bd.sscanfInt (digits ++ rest) = Nat.ofDigitChars 10 digits 0 := by
  unfold Bd.sscanfInt
  rw [scanInt_digits (fun _ => kernelIsSpace_digit) some_ all stops, Option.map_some,
    Option.getD_some, wrapInt_small small]

theorem sscanfInt_daemon (some_ : digits ≠ []) (all : ∀ c ∈ digits, c.isDigit = true)
    (stops : ∀ c ∈ rest.head?, c.isDigit = false) (small : Nat.ofDigitChars 10 digits 0 < 2 ^ 31) :
    Daemon.sscanfInt (digits ++ rest) = Nat.ofDigitChars 10 digits 0 := by
  unfold Daemon.sscanfInt
  rw [scanInt_digits (fun _ => isSpace_digit) some_ all stops, Option.map_some, Option.getD_some,
    clampLong_small small, wrapInt_small small]

end Digits

theorem scanColon_append {addr : List Char} (clean : ':' ∉ addr) (rest : List Char) (j : Nat) :
    scanColon (addr ++ ':' :: rest) j = .ok (j + addr.length) := by
  induction addr generalizing j with
  | nil => rfl
  | cons c addr ih =>
      rw [List.mem_cons, not_or] at clean
      rw [List.cons_append, scanColon, if_neg (Ne.symm clean.1), ih clean.2, List.length_cons]
      exact congrArg Except.ok (by omega)

/-- What a parser makes of the string of a line, followed by something that is no digit. -/
theorem parsePortal_text {scan : List Char → Int} (line : PortalLine) (rest : List Char)
    (reads : scan (line.port ++ rest) = Nat.ofDigitChars 10 line.port 0) :
    parsePortal scan (line.text ++ rest) = .ok line.portal := by
  have clean : ':' ∉ line.addr := fun member => (line.addr_clean ':' member).1 rfl
  have short : ¬ addrSize ≤ 0 + line.addr.length := by
    rw [Nat.zero_add]
    exact Nat.not_le.mpr line.addr_fits
  have small : ((Nat.ofDigitChars 10 line.port 0 : Nat) : Int) % 65536 =
      (Nat.ofDigitChars 10 line.port 0 : Nat) := by
    have bound := line.port_lt
    omega
  have after : (line.addr ++ ':' :: (line.port ++ rest)).drop (line.addr.length + 1) =
      line.port ++ rest := by
    rw [List.drop_append, List.drop_eq_nil_of_le (Nat.le_succ _), List.nil_append,
      Nat.add_sub_cancel_left]
    rfl
  rw [PortalLine.text, List.append_assoc, List.cons_append, parsePortal,
    scanColon_append clean (line.port ++ rest) 0]
  show (if addrSize ≤ 0 + line.addr.length then _ else _) = _
  rw [if_neg short, Nat.zero_add, after, reads, small, List.take_left]
  rfl

/-! ## The two pipelines -/

/-- What `createHost` writes for tokens. -/
def joined (tokens : List (List Char)) : List Char := tokens.flatMap (· ++ [','])

theorem joined_of_lines {tokens pieces : List (List Char)} (is : List.Forall₂ IsLine tokens pieces)
    (plain : ∀ token ∈ tokens, Plain token ∧ token ≠ []) :
    (pieces.filter (· ≠ ['\n'])).flatMap (fun line => strip line ++ [',']) = joined tokens := by
  induction is with
  | nil => rfl
  | @cons token piece tokens pieces same others ih =>
      obtain ⟨clean, some_⟩ := plain token List.mem_cons_self
      have whole : piece ≠ ['\n'] := by
        rintro rfl
        rcases same with same | same
        · exact clean.no_newline (same ▸ List.mem_singleton_self _)
        · have empty : token = [] := by simpa using same
          exact some_ empty
      have stripped := strip_line (fun c member => isSpace_of_kernel (clean c member).2.2) some_ same
      rw [List.filter_cons_of_pos (by simpa using whole), List.flatMap_cons, stripped,
        ih fun later member => plain later (List.mem_cons_of_mem token member)]
      rfl

theorem createHost_textOf {tokens : List (List Char)} (newline : Bool)
    (plain : ∀ token ∈ tokens, Plain token ∧ token ≠ []) :
    Bd.createHost (textOf tokens newline) = joined tokens :=
  joined_of_lines (readlines_textOf newline fun token member =>
    ⟨(plain token member).1.no_newline, (plain token member).2⟩) plain

theorem plain_joined {tokens : List (List Char)} (plain : ∀ token ∈ tokens, Plain token) {c : Char}
    (member : c ∈ joined tokens) : c ≠ '\x00' ∧ Bd.kernelIsSpace c = false := by
  obtain ⟨token, listed, inToken⟩ := List.mem_flatMap.mp member
  rcases List.mem_append.mp inToken with inside | comma
  · exact (plain token listed c inside).2
  · rw [List.mem_singleton.mp comma]
    exact ⟨by decide, by decide⟩

/-- The loop of the kernel takes the tokens of the lines off one after the other. -/
theorem kernel_parsePortals (lines : List PortalLine) :
    Bd.parsePortals true lines.length (some (joined (lines.map PortalLine.text))) =
      .ok (lines.map PortalLine.portal) := by
  induction lines with
  | nil => rfl
  | cons line others ih =>
      have clean : ',' ∉ line.text := fun member => (line.plain ',' member).1 rfl
      have rest : joined ((line :: others).map PortalLine.text) =
          line.text ++ ',' :: joined (others.map PortalLine.text) := by
        rw [joined, List.map_cons, List.flatMap_cons, List.append_assoc]
        rfl
      have small : Nat.ofDigitChars 10 line.port 0 < 2 ^ 31 :=
        Nat.lt_trans line.port_lt (by decide)
      have parsed := parsePortal_text line [] (sscanfInt_kernel line.port_some line.port_digits
        no_digit small)
      rw [List.append_nil] at parsed
      rw [List.length_cons, rest, Bd.parsePortals, strsep_cut clean]
      dsimp only
      rw [parsed]
      show (Bd.parsePortals true others.length _ >>= fun portals => _) = _
      rw [ih]
      rfl

/-- The loop of the daemon goes through the lines of the file. -/
theorem daemon_parsePortals {lines : List PortalLine} {pieces : List (List Char)} {pCount : Int}
    {i : Nat} (is : List.Forall₂ IsLine (lines.map PortalLine.text) pieces)
    (fits : ((i + lines.length : Nat) : Int) ≤ pCount) :
    Daemon.parsePortals true pCount i pieces = .ok (lines.map PortalLine.portal) := by
  induction lines generalizing i pieces with
  | nil =>
      cases is
      rfl
  | cons line others ih =>
      rw [List.length_cons] at fits
      cases is with
      | @cons _ piece _ pieces same rest =>
          have small : Nat.ofDigitChars 10 line.port 0 < 2 ^ 31 :=
            Nat.lt_trans line.port_lt (by decide)
          have nul : '\x00' ∉ line.text := fun member => (line.plain _ member).2.1 rfl
          have parsed : parsePortal Daemon.sscanfInt (cString piece) = .ok line.portal := by
            rcases same with rfl | rfl
            · have parsed := parsePortal_text line [] (sscanfInt_daemon line.port_some
                line.port_digits no_digit small)
              rw [List.append_nil] at parsed
              rw [cString_self nul]
              exact parsed
            · have clean : '\x00' ∉ line.text ++ ['\n'] := by
                rw [List.mem_append, not_or]
                exact ⟨nul, by decide⟩
              rw [cString_self clean]
              refine parsePortal_text line ['\n'] (sscanfInt_daemon line.port_some
                line.port_digits (fun c member => ?_) small)
              cases member
              decide
          have inside : (!true || decide (pCount ≤ i)) = false := by
            have before : ¬ pCount ≤ i := by omega
            rw [decide_eq_false before]
            rfl
          rw [Daemon.parsePortals, parsed]
          show (if (!true || decide (pCount ≤ i)) = true then _ else
            Daemon.parsePortals true pCount (i + 1) pieces >>= fun portals => _) = _
          rw [inside, if_neg Bool.false_ne_true, ih rest (by omega)]
          rfl

/-- The kernel gets from `portal_attr_store` what was written, if it is one short word. -/
theorem portalAttrStore_joined {tokens : List (List Char)} {sessions : List PortalName}
    (plain : ∀ token ∈ tokens, Plain token)
    (short : Bd.rdmaPrefix.length + (joined tokens).length < maxPortalName)
    (new : Bd.rdmaPrefix ++ joined tokens ∉ sessions.map fun session => cString session.chars) :
    ∃ portal : PortalName, cString (portal.chars.drop Bd.rdmaPrefix.length) = joined tokens ∧
      Bd.portalAttrStore true sessions .zeroed (joined tokens) =
        (Bd.portalParser true portal).map some := by
  have nul : '\x00' ∉ joined tokens := fun member => (plain_joined plain member).1 rfl
  have word : ∀ c ∈ Bd.rdmaPrefix ++ joined tokens, Bd.kernelIsSpace c = false := by
    intro c member
    rcases List.mem_append.mp member with front | back
    · have all : Bd.rdmaPrefix.all (fun c => !Bd.kernelIsSpace c) = true := rfl
      simpa using List.all_eq_true.mp all c front
    · exact (plain_joined plain back).2
  have first : (Bd.rdmaPrefix ++ joined tokens).dropWhile Bd.kernelIsSpace =
      Bd.rdmaPrefix ++ joined tokens := List.dropWhile_cons_of_neg (by decide)
  have whole : (Bd.rdmaPrefix ++ joined tokens).takeWhile (fun c => !Bd.kernelIsSpace c) =
      Bd.rdmaPrefix ++ joined tokens := by
    rw [List.takeWhile_eq_self_iff]
    intro c member
    rw [word c member]
    rfl
  have fits : (Bd.rdmaPrefix ++ joined tokens).length < maxPortalName := by
    rw [List.length_append]
    exact short
  obtain ⟨portal, copied, chars⟩ : ∃ portal : PortalName,
      PortalName.zeroed.copy (Bd.rdmaPrefix ++ joined tokens) = some portal ∧
      portal.chars = (Bd.rdmaPrefix ++ joined tokens) ++
        (List.replicate maxPortalName '\x00').drop (Bd.rdmaPrefix ++ joined tokens).length :=
    ⟨_, dif_pos fits, rfl⟩
  refine ⟨portal, ?_, ?_⟩
  · obtain ⟨zeros, more⟩ := Nat.exists_eq_succ_of_ne_zero (Nat.sub_ne_zero_of_lt fits)
    rw [chars, List.drop_replicate, more, List.append_assoc, List.drop_left, List.replicate_succ,
      cString_cut nul]
  · have name : Bd.sessionName (joined tokens) = Bd.rdmaPrefix ++ joined tokens := by
      rw [Bd.sessionName, cString_self nul, first, whole]
    unfold Bd.portalAttrStore
    rw [cString_self nul, name, if_neg (Nat.not_le.mpr fits)]
    dsimp only
    rw [if_neg new, copied]

theorem length_le_joined (tokens : List (List Char)) : tokens.length ≤ (joined tokens).length := by
  induction tokens with
  | nil => exact Nat.le_refl _
  | cons token tokens ih =>
      rw [joined, List.flatMap_cons, List.length_append, List.length_append, List.length_cons]
      show tokens.length + 1 ≤ token.length + 1 + (joined tokens).length
      omega

/-- The number on the first line. -/
def countDigits (lines : List PortalLine) : List Char := Nat.toDigits 10 lines.length

theorem countDigits_some (lines : List PortalLine) : countDigits lines ≠ [] := Nat.toDigits_ne_nil

theorem countDigits_all (lines : List PortalLine) : ∀ c ∈ countDigits lines, c.isDigit = true :=
  fun _ member => Nat.isDigit_of_mem_toDigits (by decide) (by decide) member

theorem countDigits_value (lines : List PortalLine) :
    Nat.ofDigitChars 10 (countDigits lines) 0 = lines.length := Nat.ofDigitChars_ten_toDigits

/-- The kernel's half. -/
theorem kernel_portalParser {lines : List PortalLine} {portal : PortalName}
    (few : lines.length < 2 ^ 31)
    (written : cString (portal.chars.drop Bd.rdmaPrefix.length) =
      joined (countDigits lines :: lines.map PortalLine.text)) :
    Bd.portalParser true portal = .ok (lines.map PortalLine.portal) := by
  have clean : ',' ∉ countDigits lines := fun member =>
    (plain_digits (countDigits_all lines) ',' member).1 rfl
  have parts : joined (countDigits lines :: lines.map PortalLine.text) =
      countDigits lines ++ ',' :: joined (lines.map PortalLine.text) := by
    rw [joined, List.flatMap_cons, List.append_assoc]
    rfl
  have value := countDigits_value lines
  have count : Bd.sscanfInt (countDigits lines) = lines.length := by
    have small : Nat.ofDigitChars 10 (countDigits lines) 0 < 2 ^ 31 := by
      rw [value]
      exact few
    have scanned := sscanfInt_kernel (countDigits_some lines) (countDigits_all lines) no_digit small
    rw [List.append_nil, value] at scanned
    exact scanned
  rw [Bd.portalParser, written, parts, strsep_cut clean]
  dsimp only
  rw [count, Int.toNat_natCast, kernel_parsePortals]

/-- The daemon's half. -/
theorem daemon_portalParser {lines : List PortalLine} {newline : Bool} (garbage : List Char)
    (few : lines.length < maxPortalName) :
    Daemon.portalParser true garbage (portalFile lines newline) =
      .ok (lines.map PortalLine.portal) := by
  have short : (countDigits lines).length ≤ 4 :=
    (Nat.length_toDigits_le_iff (by decide) (by decide)).mpr
      (Nat.lt_trans few (by decide : maxPortalName < 10 ^ 4))
  have lengths : ∀ line ∈ countDigits lines :: lines.map PortalLine.text,
      '\n' ∉ line ∧ line ≠ [] ∧ line.length < Daemon.lineSize - 1 := by
    intro line member
    rcases List.mem_cons.mp member with rfl | inLines
    · exact ⟨(plain_digits (countDigits_all lines)).no_newline, Nat.toDigits_ne_nil,
        Nat.lt_of_le_of_lt short (by decide)⟩
    · obtain ⟨line, -, rfl⟩ := List.mem_map.mp inLines
      refine ⟨line.plain.no_newline, by simp [PortalLine.text], ?_⟩
      have addr := line.addr_fits
      have port := line.port_fits
      rw [PortalLine.text, List.length_append, List.length_cons]
      unfold addrSize at addr
      unfold Daemon.lineSize
      omega
  have read := linesFrom_textOf newline lengths
  have value := countDigits_value lines
  have small : Nat.ofDigitChars 10 (countDigits lines) 0 < 2 ^ 31 := by
    rw [value]
    exact Nat.lt_trans few (by decide)
  have nul : '\x00' ∉ countDigits lines := fun member =>
    (plain_digits (countDigits_all lines) _ member).2.1 rfl
  have counts {piece : List Char} (is : IsLine (countDigits lines) piece) :
      Daemon.sscanfInt (cString piece) = lines.length := by
    rcases is with rfl | rfl
    · have scanned := sscanfInt_daemon (countDigits_some lines) (countDigits_all lines) no_digit
        small
      rw [List.append_nil, value] at scanned
      rw [cString_self nul, scanned]
    · have clean : '\x00' ∉ countDigits lines ++ ['\n'] := by
        rw [List.mem_append, not_or]
        exact ⟨nul, by decide⟩
      have stops : ∀ c ∈ ['\n'].head?, c.isDigit = false := by
        intro c member
        cases member
        rfl
      have scanned := sscanfInt_daemon (countDigits_some lines) (countDigits_all lines) stops small
      rw [value] at scanned
      rw [cString_self clean, scanned]
  have file : portalFile lines newline =
      textOf (countDigits lines :: lines.map PortalLine.text) newline := rfl
  unfold Daemon.portalParser fgetsLines
  rw [file]
  generalize linesFrom _ _ _ = pieces at read ⊢
  cases read with
  | @cons _ first _ rest is others =>
      show Daemon.parsePortals true (Daemon.sscanfInt (cString first)) 0 rest = _
      rw [counts is]
      exact daemon_parsePortals others (by omega)

/-- Client and daemon make the same list of a portal file, in the order of the file. -/
theorem portals_agree {lines : List PortalLine} {newline : Bool} {garbage : List Char}
    {sessions : List PortalName}
    (short : Bd.rdmaPrefix.length + (Bd.createHost (portalFile lines newline)).length <
      maxPortalName)
    (new : Bd.rdmaPrefix ++ Bd.createHost (portalFile lines newline) ∉
      sessions.map fun session => cString session.chars) :
    Bd.portalAttrStore true sessions .zeroed (Bd.createHost (portalFile lines newline)) =
        .ok (some (lines.map PortalLine.portal)) ∧
      Daemon.portalParser true garbage (portalFile lines newline) =
        .ok (lines.map PortalLine.portal) := by
  have plain : ∀ token ∈ countDigits lines :: lines.map PortalLine.text,
      Plain token ∧ token ≠ [] := by
    intro token member
    rcases List.mem_cons.mp member with rfl | inLines
    · exact ⟨plain_digits (countDigits_all lines), Nat.toDigits_ne_nil⟩
    · obtain ⟨line, -, rfl⟩ := List.mem_map.mp inLines
      exact ⟨line.plain, by simp [PortalLine.text]⟩
  have created : Bd.createHost (portalFile lines newline) =
      joined (countDigits lines :: lines.map PortalLine.text) := createHost_textOf newline plain
  rw [created] at short new ⊢
  have many := length_le_joined (countDigits lines :: lines.map PortalLine.text)
  rw [List.length_cons, List.length_map] at many
  have few : lines.length < maxPortalName := by omega
  obtain ⟨portal, written, stored⟩ :=
    portalAttrStore_joined (fun token member => (plain token member).1) short new
  refine ⟨?_, daemon_portalParser garbage few⟩
  rw [stored, kernel_portalParser (Nat.lt_trans few (by decide)) written]
  rfl

/-- Two servers, and a file that ends without a newline. -/
theorem portals_agree_two : ∃ lines : List PortalLine,
    lines.map PortalLine.portal = [⟨['1', '0', '.', '1'], 9400⟩, ⟨['b'], 80⟩] ∧
      Bd.portalAttrStore true [] .zeroed (Bd.createHost (portalFile lines false)) =
        .ok (some (lines.map PortalLine.portal)) ∧
      Daemon.portalParser true [] (portalFile lines false) =
        .ok (lines.map PortalLine.portal) := by
  let first : PortalLine :=
    { addr := ['1', '0', '.', '1'], port := ['9', '4', '0', '0'], addr_some := by decide
      addr_fits := by decide, addr_clean := by simp [Bd.kernelIsSpace, isSpace], port_some := by decide
      port_fits := by decide, port_digits := by simp, port_lt := by decide }
  let second : PortalLine :=
    { addr := ['b'], port := ['0', '8', '0'], addr_some := by decide
      addr_fits := by decide, addr_clean := by simp [Bd.kernelIsSpace, isSpace], port_some := by decide
      port_fits := by decide, port_digits := by simp, port_lt := by decide }
  have short : Bd.rdmaPrefix.length +
      (Bd.createHost (portalFile [first, second] false)).length < maxPortalName := by
    decide +kernel
  exact ⟨[first, second], rfl, portals_agree short List.not_mem_nil⟩

end Valet.Wire
