import Valet.Wire.PortalList

/-!
# Parsing within bounds

The scan for `:` has no test for the end of the string, an address is copied
whatever its length, and how many entries are parsed is a number that the text
itself gives: in the kernel it is taken for the number of the tokens, in the
daemon the lines are taken for no more than it.  The parsers stay in bounds on
the texts that keep these promises and on no others.
-/

namespace Valet.Wire

open Valet.Library

/-- There is a `:` after an address that fits its field. -/
def HasAddr (token : List Char) : Prop :=
  ∃ addr port, token = addr ++ ':' :: port ∧ ':' ∉ addr ∧ addr.length < addrSize

/-- As many tokens as the number says follow it, with addresses, and there is memory for them. -/
def CountedTokens (allocated : Bool) : List (List Char) → Prop
  | [] => False
  | first :: servers =>
      (Bd.sscanfInt first).toNat = 0 ∨ allocated = true ∧
        (Bd.sscanfInt first).toNat ≤ servers.length ∧
        ∀ token ∈ servers.take (Bd.sscanfInt first).toNat, HasAddr token

/-- At most as many lines as the number says follow it, with addresses, and there is memory for
them. -/
def CountedLines (allocated : Bool) : List (List Char) → Prop
  | [] => False
  | first :: servers =>
      servers = [] ∨ allocated = true ∧
        (servers.length : Int) ≤ Daemon.sscanfInt (cString first) ∧
        ∀ line ∈ servers, HasAddr (cString line)

/-- What the parsers are given: a string that is written to the attribute of a session, or the
portal file of the daemon. -/
inductive PortalInput where
  | store (allocated : Bool) (sessions : List PortalName) (portal : PortalName)
      (buf : List Char)
  | file (allocated : Bool) (line text : List Char)

namespace PortalInput

/-- The parser ends and has not left its memory. -/
def InBounds : PortalInput → Prop
  | store allocated sessions portal buf =>
      ∃ portals, Bd.portalAttrStore allocated sessions portal buf = .ok portals
  | file allocated line text => ∃ portals, Daemon.portalParser allocated line text = .ok portals

/-- The text keeps its promises.  A known session is not parsed again; of an empty file the daemon
scans what the array held before. -/
def WellFormed : PortalInput → Prop
  | store allocated sessions portal buf =>
      (Bd.rdmaPrefix ++ cString buf).length < maxPortalName ∧
        (Bd.sessionName buf ∈ sessions.map (fun session => cString session.chars) ∨
          ∀ copied, portal.copy (Bd.sessionName buf) = some copied → CountedTokens allocated
            ((cString (copied.chars.drop Bd.rdmaPrefix.length)).splitOn ','))
  | file allocated line text =>
      fgetsLines Daemon.lineSize text = [] ∧ '\x00' ∈ line ∨
        CountedLines allocated (fgetsLines Daemon.lineSize text)

end PortalInput

/-! ## One token -/

theorem scanColon_none {s : List Char} (clean : ':' ∉ s) (j : Nat) :
    scanColon s j = .error .pastNul := by
  induction s generalizing j with
  | nil => rfl
  | cons c s ih =>
      rw [List.mem_cons, not_or] at clean
      rw [scanColon, if_neg (Ne.symm clean.1), ih clean.2]

theorem parsePortal_ok_iff (scan : List Char → Int) (token : List Char) :
    (∃ portal, parsePortal scan token = .ok portal) ↔ HasAddr token := by
  rcases cut_cases ':' token with clean | ⟨addr, port, rfl, clean⟩
  · constructor
    · rintro ⟨portal, ran⟩
      rw [parsePortal, scanColon_none clean] at ran
      cases ran
    · rintro ⟨addr, port, rfl, -⟩
      exact absurd (List.mem_append_right addr List.mem_cons_self) clean
  · rw [parsePortal, scanColon_append clean port 0]
    by_cases fits : addr.length < addrSize
    · have short : ¬ addrSize ≤ 0 + addr.length := by omega
      refine ⟨fun _ => ⟨addr, port, rfl, clean, fits⟩, fun _ => ⟨_, if_neg short⟩⟩
    · have long : addrSize ≤ 0 + addr.length := by omega
      constructor
      · rintro ⟨portal, ran⟩
        have stops : (.error .pastAddr : Except Overrun Portal) = .ok portal :=
          (if_pos long).symm.trans ran
        cases stops
      · rintro ⟨other, rest, same, otherClean, otherFits⟩
        have cut := congrArg (List.takeWhile (· != ':')) same
        rw [takeWhile_bne clean, takeWhile_bne otherClean] at cut
        rw [cut] at fits
        exact absurd otherFits fits

theorem HasAddr.parsed {token : List Char} (has : HasAddr token) (scan : List Char → Int) :
    ∃ portal, parsePortal scan token = .ok portal := (parsePortal_ok_iff scan token).mpr has

/-! ## The loops -/

theorem kernel_loop_iff {allocated : Bool} {count : Nat} {ptr : Option (List Char)} :
    (∃ portals, Bd.parsePortals allocated count ptr = .ok portals) ↔
      count = 0 ∨ allocated = true ∧ count ≤ (tokens ',' ptr).length ∧
        ∀ token ∈ (tokens ',' ptr).take count, HasAddr token := by
  induction count generalizing ptr with
  | zero => exact ⟨fun _ => Or.inl rfl, fun _ => ⟨[], rfl⟩⟩
  | succ count ih =>
      obtain ⟨first, others⟩ := strsep_tokens ',' ptr
      cases left : tokens ',' ptr with
      | nil =>
          rw [left] at first
          refine ⟨fun ⟨portals, ran⟩ => ?_, fun counted => ?_⟩
          · rw [Bd.parsePortals] at ran
            dsimp only at ran
            rw [first] at ran
            cases ran
          · rcases counted with bad | ⟨-, bad, -⟩
            · cases bad
            · exact absurd bad (Nat.not_succ_le_zero count)
      | cons token rest =>
          rw [left] at first others
          rw [List.tail_cons] at others
          have inner := @ih (strsep ',' ptr).2
          rw [others] at inner
          rw [Bd.parsePortals]
          dsimp only
          rw [first]
          dsimp only [List.head?_cons]
          constructor
          · rintro ⟨portals, ran⟩
            obtain ⟨portal, parsed, more⟩ := bind_eq_ok.mp ran
            split at more
            · cases more
            · rename_i given
              rw [Bool.not_eq_true', Bool.not_eq_false] at given
              obtain ⟨later, ranLater, -⟩ := bind_eq_ok.mp more
              have has := (parsePortal_ok_iff _ token).mp ⟨portal, parsed⟩
              refine Or.inr ⟨given, ?_, ?_⟩
              · rcases inner.mp ⟨later, ranLater⟩ with rfl | ⟨-, enough, -⟩
                · exact Nat.succ_le_succ (Nat.zero_le _)
                · exact Nat.succ_le_succ enough
              · intro other member
                rw [List.take_succ_cons] at member
                rcases List.mem_cons.mp member with rfl | inRest
                · exact has
                · rcases inner.mp ⟨later, ranLater⟩ with rfl | ⟨-, -, all⟩
                  · cases inRest
                  · exact all other inRest
          · rintro (bad | ⟨rfl, enough, all⟩)
            · cases bad
            · rw [List.take_succ_cons] at all
              obtain ⟨portal, parsed⟩ := (all token List.mem_cons_self).parsed Bd.sscanfInt
              obtain ⟨later, ranLater⟩ := inner.mpr (Or.inr ⟨rfl, Nat.le_of_succ_le_succ enough,
                fun other member => all other (List.mem_cons_of_mem token member)⟩)
              refine ⟨portal :: later, bind_eq_ok.mpr ⟨portal, parsed, ?_⟩⟩
              rw [if_neg (by decide)]
              exact bind_eq_ok.mpr ⟨later, ranLater, rfl⟩

theorem daemon_loop_iff {allocated : Bool} {pCount : Int} {i : Nat} {lines : List (List Char)} :
    (∃ portals, Daemon.parsePortals allocated pCount i lines = .ok portals) ↔
      lines = [] ∨ allocated = true ∧ (i + lines.length : Int) ≤ pCount ∧
        ∀ line ∈ lines, HasAddr (cString line) := by
  induction lines generalizing i with
  | nil => exact ⟨fun _ => Or.inl rfl, fun _ => ⟨[], rfl⟩⟩
  | cons line lines ih =>
      rw [Daemon.parsePortals, List.length_cons]
      constructor
      · rintro ⟨portals, ran⟩
        obtain ⟨portal, parsed, more⟩ := bind_eq_ok.mp ran
        split at more
        · cases more
        · rename_i inside
          rw [Bool.or_eq_true, not_or, Bool.not_eq_true', Bool.not_eq_false, decide_eq_true_eq,
            Int.not_le] at inside
          obtain ⟨given, before⟩ := inside
          obtain ⟨later, ranLater, -⟩ := bind_eq_ok.mp more
          have has := (parsePortal_ok_iff _ (cString line)).mp ⟨portal, parsed⟩
          refine Or.inr ⟨given, ?_, ?_⟩
          · rcases ih.mp ⟨later, ranLater⟩ with rfl | ⟨-, enough, -⟩
            · simp only [List.length_nil]
              omega
            · push_cast at enough ⊢
              omega
          · intro other member
            rcases List.mem_cons.mp member with rfl | inLines
            · exact has
            · rcases ih.mp ⟨later, ranLater⟩ with rfl | ⟨-, -, all⟩
              · cases inLines
              · exact all other inLines
      · rintro (bad | ⟨rfl, enough, all⟩)
        · cases bad
        · obtain ⟨portal, parsed⟩ := (all line List.mem_cons_self).parsed Daemon.sscanfInt
          push_cast at enough
          have inside : ¬ (!true || decide (pCount ≤ (i : Int))) = true := by
            rw [Bool.not_true, Bool.false_or, decide_eq_true_eq]
            omega
          obtain ⟨later, ranLater⟩ := (ih (i := i + 1)).mpr (Or.inr ⟨rfl, by push_cast; omega,
            fun other member => all other (List.mem_cons_of_mem line member)⟩)
          refine ⟨portal :: later, bind_eq_ok.mpr ⟨portal, parsed, ?_⟩⟩
          rw [if_neg inside]
          exact bind_eq_ok.mpr ⟨later, ranLater, rfl⟩

/-! ## The parsers -/

theorem kernel_parser_iff (allocated : Bool) (portal : PortalName) :
    (∃ portals, Bd.portalParser allocated portal = .ok portals) ↔ CountedTokens allocated
      ((cString (portal.chars.drop Bd.rdmaPrefix.length)).splitOn ',') := by
  obtain ⟨first, others⟩ :=
    strsep_tokens ',' (some (cString (portal.chars.drop Bd.rdmaPrefix.length)))
  rw [Bd.portalParser]
  have parts : tokens ',' (some (cString (portal.chars.drop Bd.rdmaPrefix.length))) =
      (cString (portal.chars.drop Bd.rdmaPrefix.length)).splitOn ',' := rfl
  rw [parts] at first others
  cases left : (cString (portal.chars.drop Bd.rdmaPrefix.length)).splitOn ',' with
  | nil => exact absurd left (List.splitOn_ne_nil _ _)
  | cons token rest =>
      rw [left] at first others
      rw [List.tail_cons] at others
      dsimp only
      rw [first]
      show (∃ portals, Bd.parsePortals allocated (Bd.sscanfInt token).toNat _ = .ok portals) ↔ _
      rw [kernel_loop_iff, others]
      exact Iff.rfl

theorem daemon_parser_iff (allocated : Bool) (line text : List Char) :
    (∃ portals, Daemon.portalParser allocated line text = .ok portals) ↔
      fgetsLines Daemon.lineSize text = [] ∧ '\x00' ∈ line ∨
        CountedLines allocated (fgetsLines Daemon.lineSize text) := by
  rw [Daemon.portalParser]
  cases fgetsLines Daemon.lineSize text with
  | nil =>
      by_cases nul : '\x00' ∈ line
      · exact ⟨fun _ => Or.inl ⟨rfl, nul⟩, fun _ => ⟨[], if_neg (not_not.mpr nul)⟩⟩
      · constructor
        · rintro ⟨portals, ran⟩
          have stops : (.error .pastBuffer : Except Overrun (List Portal)) = .ok portals :=
            (if_pos nul).symm.trans ran
          cases stops
        · rintro (⟨-, bad⟩ | bad)
          · exact absurd bad nul
          · exact bad.elim
  | cons first rest =>
      show (∃ portals, Daemon.parsePortals allocated _ 0 rest = .ok portals) ↔ _
      rw [daemon_loop_iff]
      constructor
      · rintro (none_ | ⟨given, enough, all⟩)
        · exact Or.inr (Or.inl none_)
        · exact Or.inr (Or.inr ⟨given, by simpa using enough, all⟩)
      · rintro (⟨bad, -⟩ | none_ | ⟨given, enough, all⟩)
        · cases bad
        · exact Or.inl none_
        · exact Or.inr ⟨given, by simpa using enough, all⟩

theorem length_sessionName_le (buf : List Char) :
    (Bd.sessionName buf).length ≤ (Bd.rdmaPrefix ++ cString buf).length :=
  (List.takeWhile_prefix _).length_le.trans (List.dropWhile_suffix _).length_le

/-- Both parsers stay in bounds on exactly the texts that keep their promises. -/
theorem parsing_in_bounds_iff (input : PortalInput) : input.InBounds ↔ input.WellFormed := by
  cases input with
  | file allocated line text => exact daemon_parser_iff allocated line text
  | store allocated sessions portal buf =>
      unfold PortalInput.InBounds PortalInput.WellFormed
      dsimp only
      rw [Bd.portalAttrStore]
      by_cases fits : (Bd.rdmaPrefix ++ cString buf).length < maxPortalName
      · rw [if_neg (Nat.not_le.mpr fits)]
        dsimp only
        by_cases known : Bd.sessionName buf ∈ sessions.map fun session => cString session.chars
        · rw [if_pos known]
          exact ⟨fun _ => ⟨fits, Or.inl known⟩, fun _ => ⟨none, rfl⟩⟩
        · rw [if_neg known]
          obtain ⟨copied, copies⟩ : ∃ copied, portal.copy (Bd.sessionName buf) = some copied :=
            ⟨_, dif_pos (Nat.lt_of_le_of_lt (length_sessionName_le buf) fits)⟩
          rw [copies]
          dsimp only
          have parser := kernel_parser_iff allocated copied
          constructor
          · rintro ⟨portals, ran⟩
            refine ⟨fits, Or.inr fun other same => ?_⟩
            cases same
            cases parsed : Bd.portalParser allocated copied with
            | error overrun =>
                rw [parsed] at ran
                cases ran
            | ok portals => exact parser.mp ⟨portals, parsed⟩
          · rintro ⟨-, bad | counted⟩
            · exact absurd bad known
            · obtain ⟨portals, parsed⟩ := parser.mpr (counted copied rfl)
              refine ⟨some portals, ?_⟩
              rw [parsed]
              rfl
      · rw [if_pos (Nat.le_of_not_lt fits)]
        constructor
        · rintro ⟨portals, ran⟩
          cases ran
        · exact fun bad => absurd bad.1 fits

/-- The string `1,x` promises a portal and has a token without `:`. -/
theorem parsing_overruns : ¬ ∀ input : PortalInput, input.InBounds := by
  intro claim
  obtain ⟨portals, ran⟩ := claim (.store true [] .zeroed ['1', ',', 'x'])
  have stops : Bd.portalAttrStore true [] .zeroed ['1', ',', 'x'] = .error .pastNul := by
    decide +kernel
  rw [stops] at ran
  cases ran

end Valet.Wire
