import Switchboard.Proofs.Spelling
import Switchboard.Registry.Name

namespace Switchboard.Naming
open Spelling

-- The control characters, U+0000 to U+001F and U+007F to U+009F.
def controls : List Nat := List.range' 0x00 0x20 ++ List.range' 0x7f 0x21

-- White space first or last, be it a control character or not.
def Padded (cs : List Char) : Prop :=
  ∃ c, (cs.head? = some c ∨ cs.getLast? = some c) ∧ c.toNat ∈ whiteSpace

def Controlled (cs : List Char) : Prop := ∃ c ∈ cs, c.toNat ∈ controls

-- Why a text is no name. A control character counts only where no white space surrounds the text.
inductive Unfit (name : String) : String → Prop where
  | empty (nothing : name = "") : Unfit name "name must not be empty"
  | padded (white : Padded name.toList) : Unfit name "name must not have leading or trailing whitespace"
  | controlled (trimmed : ¬ Padded name.toList) (inside : Controlled name.toList) :
      Unfit name "name must not contain control characters"

theorem isControl_exact (c : Char) : Text.isControl c = true ↔ c.toNat ∈ controls := by
  simp only [Text.isControl,Bool.or_eq_true,Bool.and_eq_true,decide_eq_true_eq,controls,List.mem_append,
    List.mem_range'_1]
  omega

theorem any_control (cs : List Char) : cs.any Text.isControl = true ↔ Controlled cs := by
  simp only [List.any_eq_true,isControl_exact,Controlled]

section Trimming

theorem front_kept (cs : List Char) :
    cs.dropWhile Text.isSpace = cs ↔ ∀ c, cs.head? = some c → c.toNat ∉ whiteSpace := by
  cases cs with
  | nil => simp
  | cons c rest => simp [List.dropWhile_eq_self_iff,← isSpace_exact]

theorem back_kept (cs : List Char) :
    cs.rdropWhile Text.isSpace = cs ↔ ∀ c, cs.getLast? = some c → c.toNat ∉ whiteSpace := by
  rw [List.rdropWhile,List.reverse_eq_iff,front_kept,List.head?_reverse]

-- Neither end can lose anything: what is cut off at one of them is not made up for at the other.
theorem trim_kept (cs : List Char) :
    Text.trimChars cs = cs ↔ cs.dropWhile Text.isSpace = cs ∧ cs.rdropWhile Text.isSpace = cs := by
  have trimmed : Text.trimChars cs = (cs.dropWhile Text.isSpace).rdropWhile Text.isSpace := rfl
  rw [trimmed]
  constructor
  · intro same
    have back : ((cs.dropWhile Text.isSpace).rdropWhile Text.isSpace).length ≤
        (cs.dropWhile Text.isSpace).length := (List.rdropWhile_prefix Text.isSpace _).length_le
    have front : cs.dropWhile Text.isSpace = cs := by
      apply (List.dropWhile_sublist Text.isSpace).eq_of_length_le
      rwa [same] at back
    rw [front] at same
    exact ⟨front,same⟩
  · rintro ⟨front,back⟩
    rw [front,back]

theorem trim_exact (cs : List Char) : Text.trimChars cs = cs ↔ ¬ Padded cs := by
  rw [trim_kept,front_kept,back_kept]
  constructor
  · rintro ⟨front,back⟩ ⟨c,first | last,white⟩
    · exact front c first white
    · exact back c last white
  · intro bare
    exact ⟨fun c first white => bare ⟨c,.inl first,white⟩,fun c last white => bare ⟨c,.inr last,white⟩⟩

end Trimming

section Faults

variable {name : String}

theorem padded_letters (white : Padded name.toList) : name ≠ "" := by
  rintro rfl
  obtain ⟨c,first | last,_⟩ := white
  · cases first
  · cases last

theorem controlled_letters (inside : Controlled name.toList) : name ≠ "" := by
  rintro rfl
  obtain ⟨c,member,_⟩ := inside
  cases member

theorem fault_padded (white : Padded name.toList) : nameFault? name = some .surroundingSpace := by
  have cut : Text.trimChars name.toList ≠ name.toList := fun same => (trim_exact _).mp same white
  simp [nameFault?,padded_letters white,cut]

theorem fault_controlled (bare : ¬ Padded name.toList) (inside : Controlled name.toList) :
    nameFault? name = some .controlCharacter := by
  have kept : Text.trimChars name.toList = name.toList := (trim_exact _).mpr bare
  have control : name.toList.any Text.isControl = true := (any_control _).mpr inside
  simp [nameFault?,controlled_letters inside,kept,control]

theorem fault_none (letters : name ≠ "") (bare : ¬ Padded name.toList) (plain : ¬ Controlled name.toList) :
    nameFault? name = none := by
  have kept : Text.trimChars name.toList = name.toList := (trim_exact _).mpr bare
  have free : name.toList.any Text.isControl = false := by rwa [Bool.eq_false_iff,ne_eq,any_control]
  simp [nameFault?,letters,kept,free]

theorem unfit_exact (name reason : String) :
    (nameFault? name).map NameFault.reason = some reason ↔ Unfit name reason := by
  constructor
  · intro judged
    by_cases nothing : name = ""
    · subst nothing
      cases judged
      exact .empty rfl
    by_cases white : Padded name.toList
    · rw [fault_padded white] at judged
      cases judged
      exact .padded white
    by_cases inside : Controlled name.toList
    · rw [fault_controlled white inside] at judged
      cases judged
      exact .controlled white inside
    · rw [fault_none nothing white inside] at judged
      cases judged
  · intro unfit
    cases unfit with
    | empty nothing =>
        subst nothing
        rfl
    | padded white =>
        rw [fault_padded white]
        rfl
    | controlled bare inside =>
        rw [fault_controlled bare inside]
        rfl

theorem valid_exact (name : String) :
    nameFault? name = none ↔ name ≠ "" ∧ ¬ Padded name.toList ∧ ¬ Controlled name.toList := by
  constructor
  · intro valid
    have fit : ∀ reason, ¬ Unfit name reason := by
      intro reason unfit
      rw [← unfit_exact,valid] at unfit
      cases unfit
    have bare : ¬ Padded name.toList := fun white => fit _ (.padded white)
    exact ⟨fun nothing => fit _ (.empty nothing),bare,fun inside => fit _ (.controlled bare inside)⟩
  · rintro ⟨letters,bare,plain⟩
    exact fault_none letters bare plain

end Faults

section Joining

variable {a b : List Char}

theorem padded_joined (front : a ≠ []) (back : b ≠ []) (middle : List Char) (white : Padded (a ++ middle ++ b)) :
    Padded a ∨ Padded b := by
  obtain ⟨c,first | last,white⟩ := white
  · rw [List.append_assoc,List.head?_append_of_ne_nil _ front] at first
    exact .inl ⟨c,.inl first,white⟩
  · rw [List.getLast?_append_of_ne_nil _ back] at last
    exact .inr ⟨c,.inr last,white⟩

theorem controlled_joined (one two : List Char) : Controlled (one ++ two) ↔ Controlled one ∨ Controlled two := by
  simp only [Controlled,List.mem_append,or_and_right,exists_or]

end Joining

theorem joined_valid {a b : String} (front : nameFault? a = none) (back : nameFault? b = none) (m : String)
    (plain : ¬ Controlled m.toList) : nameFault? (a ++ m ++ b) = none := by
  obtain ⟨begins,bareFront,plainFront⟩ := (valid_exact a).mp front
  obtain ⟨ends,bareBack,plainBack⟩ := (valid_exact b).mp back
  rw [valid_exact,String.toList_append,String.toList_append,controlled_joined,controlled_joined]
  refine ⟨?_,?_,?_⟩
  · simp [begins]
  · intro white
    rcases padded_joined (by simpa using begins) (by simpa using ends) _ white with white | white
    · exact bareFront white
    · exact bareBack white
  · rintro ((inside | inside) | inside)
    · exact plainFront inside
    · exact plain inside
    · exact plainBack inside

theorem naming_exact :
    (∀ name, nameFault? name = none ↔ name ≠ "" ∧ ¬ Padded name.toList ∧ ¬ Controlled name.toList) ∧
    (∀ name reason, (nameFault? name).map NameFault.reason = some reason ↔ Unfit name reason) ∧
    ∀ a m b, nameFault? a = none → nameFault? b = none → ¬ Controlled m.toList →
      nameFault? (a ++ m ++ b) = none := by
  refine ⟨valid_exact,unfit_exact,?_⟩
  intro a m b front back plain
  exact joined_valid front back m plain

-- A line feed is white space before it is a control character, U+001C is a control character
-- alone, and U+200B and U+FEFF are neither.
theorem newline_padding_separator_control_mark_allowed :
    (nameFault? "a\n").map NameFault.reason = some "name must not have leading or trailing whitespace" ∧
    (nameFault? "a\x1c").map NameFault.reason = some "name must not contain control characters" ∧
    nameFault? "\ufeff" = none ∧ nameFault? "\u200b" = none ∧
    nameFault? ("\ufeff" ++ "\u3000 " ++ "\u200b") = none := by
  obtain ⟨valid,unfit,joined⟩ := naming_exact
  have front : nameFault? "\ufeff" = none :=
    (valid _).mpr ⟨by decide,by simp [Padded,whiteSpace],by simp [Controlled,controls]⟩
  have back : nameFault? "\u200b" = none :=
    (valid _).mpr ⟨by decide,by simp [Padded,whiteSpace],by simp [Controlled,controls]⟩
  refine ⟨?_,?_,front,back,?_⟩
  · exact (unfit _ _).mpr (.padded ⟨'\n',.inr rfl,by decide⟩)
  · exact (unfit _ _).mpr (.controlled (by simp [Padded,whiteSpace]) ⟨'\x1c',by simp,by decide⟩)
  · exact joined _ _ _ front back (by simp [Controlled,controls])

end Switchboard.Naming
