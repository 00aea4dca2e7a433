import Switchboard.Telemetry.Config

namespace Switchboard.Placed

-- Whether no character goes on across a position.
def Boundary (p : Placed) (index : Nat) : Prop :=
  ∀ at_ ∈ p, ¬ (at_.1 < index ∧ index < at_.1 + at_.2.utf8Size)

theorem boundary_straddling {p : Placed} {index : Nat} (boundary : p.Boundary index) :
    p.straddling? index = none := by
  apply List.find?_eq_none.mpr
  intro at_ member
  have between := boundary at_ member
  simpa using between

theorem textFrom_ok {p : Placed} {start : Nat} (boundary : p.Boundary start) :
    ∃ text, p.textFrom start = .ok text := by
  unfold textFrom
  rw [boundary_straddling boundary]
  exact ⟨_,rfl⟩

theorem text_ok {p : Placed} {start stop : Nat} (first : p.Boundary start) (last : p.Boundary stop) :
    ∃ text, p.text start stop = .ok text := by
  unfold text
  rw [boundary_straddling first,boundary_straddling last]
  exact ⟨_,rfl⟩

theorem ofChars_from {start : Nat} {cs : List Char} {at_ : Nat × Char} (member : at_ ∈ ofChars start cs) :
    start ≤ at_.1 := by
  induction cs generalizing start with
  | nil => cases member
  | cons c rest ih =>
      rcases List.mem_cons.mp member with rfl | later
      · exact Nat.le_refl _
      · exact Nat.le_trans (Nat.le_add_right _ _) (ih later)

theorem boundary_before {start index : Nat} (before : index ≤ start) (cs : List Char) :
    (ofChars start cs).Boundary index := by
  intro at_ member
  have beyond := ofChars_from member
  omega

-- A text can be cut before each of its characters and after it.
theorem ofChars_boundary {start : Nat} {cs : List Char} {at_ : Nat × Char}
    (member : at_ ∈ ofChars start cs) :
    (ofChars start cs).Boundary at_.1 ∧ (ofChars start cs).Boundary (at_.1 + at_.2.utf8Size) := by
  induction cs generalizing start with
  | nil => cases member
  | cons c rest ih =>
      have first {index : Nat} (outside : index ≤ start ∨ start + c.utf8Size ≤ index) :
          ¬ (start < index ∧ index < start + c.utf8Size) := by omega
      rcases List.mem_cons.mp member with rfl | later
      · exact ⟨List.forall_mem_cons.mpr ⟨first (.inl (Nat.le_refl _)),boundary_before (Nat.le_add_right _ _) rest⟩,
          List.forall_mem_cons.mpr ⟨first (.inr (Nat.le_refl _)),boundary_before (Nat.le_refl _) rest⟩⟩
      · obtain ⟨before,behind⟩ := ih later
        have beyond := ofChars_from later
        exact ⟨List.forall_mem_cons.mpr ⟨first (.inr beyond),before⟩,
          List.forall_mem_cons.mpr ⟨first (.inr (Nat.le_trans beyond (Nat.le_add_right _ _))),behind⟩⟩

theorem ofChars_append (start : Nat) (u v : List Char) :
    ∃ next, ofChars start (u ++ v) = ofChars start u ++ ofChars next v := by
  induction u generalizing start with
  | nil => exact ⟨start,rfl⟩
  | cons c rest ih =>
      obtain ⟨next,same⟩ := ih (start + c.utf8Size)
      exact ⟨next,congrArg ((start,c) :: ·) same⟩

end Switchboard.Placed

namespace Switchboard.Directive

section Scanning

variable {whole : Placed}

-- The part that a scan is in began between two characters.
def Scan.Whole (whole : Placed) : Scan → Prop
  | .word first | .span first | .field first | .level first => whole.Boundary first
  | .start | .afterField | .afterSpan => True

inductive Unsplit (whole : Placed) : Except FilterError (Directive × Scan) → Prop where
  | on {d : Directive} {scan : Scan} (held : scan.Whole whole) : Unsplit whole (.ok (d,scan))
  | malformed : Unsplit whole (.error .malformed)

theorem cut_unsplit {take : String → Directive} {scan : Scan} {first i : Nat}
    (begun : whole.Boundary first) (here : whole.Boundary i) (held : scan.Whole whole) :
    Unsplit whole ((whole.text first i).map (fun text => (take text,scan))) := by
  obtain ⟨text,cut⟩ := Placed.text_ok begun here
  rw [cut]
  exact .on held

-- Where a part begins after a sign, the sign is a single byte.
theorem advance_unsplit {d : Directive} {scan : Scan} {i : Nat} {c : Char} (begun : scan.Whole whole)
    (here : whole.Boundary i) (after : whole.Boundary (i + c.utf8Size)) :
    Unsplit whole (advance whole d scan i c) := by
  have sign {s : Char} (same : (c == s) = true) (single : s.utf8Size = 1) : whole.Boundary (i + 1) := by
    rw [beq_iff_eq.mp same,single] at after
    exact after
  cases scan with
  | start =>
      simp only [advance]
      split
      · rename_i opening
        exact .on (sign opening rfl)
      · split
        · exact .on here
        · exact .malformed
  | word first =>
      simp only [advance]
      split
      · rename_i equals
        exact cut_unsplit begun here (sign equals rfl)
      · split
        · rename_i opening
          exact cut_unsplit begun here (sign opening rfl)
        · exact .on begun
  | span first =>
      simp only [advance]
      split
      · exact cut_unsplit begun here trivial
      · split
        · rename_i opening
          exact cut_unsplit begun here (sign opening rfl)
        · exact .on begun
  | field first =>
      obtain ⟨text,cut⟩ := Placed.text_ok begun here
      simp only [advance]
      split
      · rw [cut]
        simp only
        split
        · exact .on trivial
        · exact .malformed
      · exact .on begun
  | afterField =>
      simp only [advance]
      split
      · exact .on trivial
      · exact .malformed
  | afterSpan =>
      simp only [advance]
      split
      · rename_i equals
        exact .on (sign equals rfl)
      · exact .malformed
  | level first => exact .on begun

theorem finish_unsplit {d : Directive} {scan : Scan} (begun : scan.Whole whole) (fault : SplitCharacter) :
    finish whole d scan ≠ .error (.split fault) := by
  cases scan with
  | word first =>
      obtain ⟨text,cut⟩ := Placed.textFrom_ok begun
      simp only [finish,cut]
      split
      · nofun
      · nofun
  | level first =>
      obtain ⟨text,cut⟩ := Placed.textFrom_ok begun
      simp only [finish,cut]
      split
      · nofun
      · split
        · nofun
        · nofun
  | start | span | field | afterField | afterSpan => nofun

theorem scan_unsplit {d : Directive} {scan : Scan} {rest : Placed} (begun : scan.Whole whole)
    (inside : ∀ at_ ∈ rest, whole.Boundary at_.1 ∧ whole.Boundary (at_.1 + at_.2.utf8Size))
    (fault : SplitCharacter) : scanFrom whole d scan rest ≠ .error (.split fault) := by
  induction rest generalizing d scan with
  | nil => exact finish_unsplit begun fault
  | cons next rest ih =>
      obtain ⟨own,later⟩ := List.forall_mem_cons.mp inside
      have step : Unsplit whole (advance whole d scan next.1 next.2) := advance_unsplit begun own.1 own.2
      rw [scanFrom]
      generalize advance whole d scan next.1 next.2 = result at step
      cases step with
      | on held => exact ih held later
      | malformed => nofun

end Scanning

-- White space behind a text does not move its parts.
theorem trim_prefix {cs : List Char} (unpadded : ∀ c ∈ cs.head?, Text.isSpace c = false) :
    Text.trimChars cs <+: cs := by
  have kept : cs.dropWhile Text.isSpace = cs := by
    cases cs with
    | nil => rfl
    | cons c rest => rw [List.dropWhile_cons,unpadded c rfl]; rfl
  rw [Text.trimChars,kept,← List.reverse_suffix,List.reverse_reverse]
  exact List.dropWhile_suffix _

theorem ofChars_unsplit {cs : List Char} (unpadded : ∀ c ∈ cs.head?, Text.isSpace c = false)
    (fault : SplitCharacter) : Directive.ofChars cs ≠ .error (.split fault) := by
  obtain ⟨behind,same⟩ := trim_prefix unpadded
  refine scan_unsplit (show Scan.Whole _ .start from trivial) ?_ fault
  intro at_ member
  apply Placed.ofChars_boundary
  obtain ⟨next,joined⟩ := Placed.ofChars_append 0 (Text.trimChars cs) behind
  rw [same] at joined
  rw [joined]
  exact List.mem_append_left _ member

end Switchboard.Directive

namespace Switchboard.Filter

theorem putBefore_joined (c : Char) (ps : List (List Char)) :
    [','].intercalate (putBefore c ps) = c :: [','].intercalate ps := by
  by_cases comma : c = ','
  · subst comma
    cases ps with
    | nil => rfl
    | cons part rest => rfl
  · have plain : (c == ',') = false := beq_eq_false_iff_ne.mpr comma
    cases ps with
    | nil => simp [putBefore,plain,List.intercalate]
    | cons part rest =>
        rw [putBefore,plain]
        cases rest with
        | nil => rfl
        | cons next others => rfl

-- Nothing of a filter is lost between its parts but the commas.
theorem parts_joined (cs : List Char) : [','].intercalate (parts cs) = cs := by
  induction cs with
  | nil => rfl
  | cons c rest ih =>
      have first : parts (c :: rest) = putBefore c (parts rest) := rfl
      rw [first,putBefore_joined,ih]

theorem putBefore_plain {c : Char} {ps : List (List Char)} (plain : ∀ part ∈ ps, ',' ∉ part) :
    ∀ part ∈ putBefore c ps, ',' ∉ part := by
  by_cases comma : c = ','
  · subst comma
    cases ps with
    | nil => simp [putBefore]
    | cons first rest =>
        exact List.forall_mem_cons.mpr ⟨List.not_mem_nil,plain⟩
  · have other : (c == ',') = false := beq_eq_false_iff_ne.mpr comma
    cases ps with
    | nil => simp [putBefore,other,Ne.symm comma]
    | cons first rest =>
        obtain ⟨own,later⟩ := List.forall_mem_cons.mp plain
        rw [putBefore,other]
        refine List.forall_mem_cons.mpr ⟨?_,later⟩
        exact List.not_mem_cons_of_ne_of_not_mem (Ne.symm comma) own

theorem parts_plain (cs : List Char) : ∀ part ∈ parts cs, ',' ∉ part := by
  induction cs with
  | nil => intro part member; cases member
  | cons c rest ih => exact putBefore_plain ih

theorem mapM_error {α β ε : Type} {f : α → Except ε β} {items : List α} {e : ε}
    (failed : items.mapM f = .error e) : ∃ item ∈ items, f item = .error e := by
  induction items with
  | nil => cases failed
  | cons item rest ih =>
      rw [List.mapM_cons] at failed
      cases own : f item with
      | error e' =>
          rw [own] at failed
          cases failed
          exact ⟨item,List.mem_cons_self,own⟩
      | ok y =>
          rw [own] at failed
          cases later : rest.mapM f with
          | error e' =>
              rw [later] at failed
              cases failed
              obtain ⟨other,member,same⟩ := ih later
              exact ⟨other,List.mem_cons_of_mem _ member,same⟩
          | ok ys =>
              rw [later] at failed
              cases failed

theorem parse_unsplit {s : String}
    (unpadded : ∀ part ∈ parts s.toList, ∀ c ∈ part.head?, Text.isSpace c = false)
    (fault : SplitCharacter) : Filter.parse s ≠ .error (.split fault) := by
  unfold parse
  split
  · nofun
  · intro failed
    obtain ⟨part,member,own⟩ := mapM_error failed
    exact Directive.ofChars_unsplit (unpadded part (List.mem_filter.mp member).1) fault own

end Switchboard.Filter

namespace Switchboard.Logging

variable (setting : Option (List UInt8))

-- What is said of a configuration that is not set up.
def refusal (config : LogConfig) : SetupError :=
  match filterFor setting config with
  | .error e => e
  | .ok _ => .alreadySetUp

variable {setting}

theorem setUp_unreadable {config : LogConfig} {e : SetupError} (unreadable : filterFor setting config = .error e)
    (current : Option Logging) : setUp setting current config = .error (refusal setting config) := by
  rw [setUp,refusal,unreadable]

theorem setUp_again (logging : Logging) (config : LogConfig) :
    setUp setting (some logging) config = .error (refusal setting config) := by
  rw [setUp,refusal]
  cases filterFor setting config with
  | error e => rfl
  | ok filter => rfl

theorem setUpAll_refused {current : Option Logging} {before : List LogConfig}
    (refused : ∀ config ∈ before, setUp setting current config = .error (refusal setting config))
    (rest : List LogConfig) :
    setUpAll setting current (before ++ rest) =
      (before.map (fun config => .error (refusal setting config)) ++ (setUpAll setting current rest).1,
        (setUpAll setting current rest).2) := by
  induction before with
  | nil => rfl
  | cons config others ih =>
      obtain ⟨own,later⟩ := List.forall_mem_cons.mp refused
      rw [List.cons_append,setUpAll,own,ih later]
      rfl

theorem setUpAll_later (logging : Logging) (configs : List LogConfig) :
    setUpAll setting (some logging) configs =
      (configs.map (fun config => .error (refusal setting config)),some logging) := by
  have again : ∀ config ∈ configs, setUp setting (some logging) config = .error (refusal setting config) :=
    fun config _ => setUp_again logging config
  have refused := setUpAll_refused again []
  rwa [List.append_nil,setUpAll,List.append_nil] at refused

theorem unreadable_refused {configs : List LogConfig}
    (unreadable : ∀ config ∈ configs, ∃ e, filterFor setting config = .error e) :
    ∀ config ∈ configs, setUp setting none config = .error (refusal setting config) := by
  intro config member
  obtain ⟨e,own⟩ := unreadable config member
  exact setUp_unreadable own none

-- The first configuration that can be read is set up, and none after it.
theorem setUpAll_first {before after : List LogConfig} {config : LogConfig} {filter : Filter}
    (unreadable : ∀ other ∈ before, ∃ e, filterFor setting other = .error e)
    (readable : filterFor setting config = .ok filter) :
    setUpAll setting none (before ++ config :: after) =
      (before.map (fun config => .error (refusal setting config)) ++
        .ok () :: after.map (fun config => .error (refusal setting config)),some ⟨filter,config.json⟩) := by
  have made : setUp setting none config = .ok ⟨filter,config.json⟩ := by rw [setUp,readable]
  have step : setUpAll setting none (config :: after) =
      (.ok () :: (setUpAll setting (some ⟨filter,config.json⟩) after).1,
        (setUpAll setting (some ⟨filter,config.json⟩) after).2) := by
    rw [setUpAll,made]
  rw [setUpAll_refused (unreadable_refused unreadable),step,setUpAll_later]

theorem setUpAll_none {configs : List LogConfig}
    (unreadable : ∀ config ∈ configs, ∃ e, filterFor setting config = .error e) :
    setUpAll setting none configs = (configs.map (fun config => .error (refusal setting config)),none) := by
  have refused := setUpAll_refused (unreadable_refused unreadable) []
  rwa [List.append_nil,setUpAll,List.append_nil] at refused

end Switchboard.Logging
