import Mathlib.Data.List.DropRight
import Mathlib.Data.List.Find
import Switchboard.Proofs.Reading
import Switchboard.Proofs.Splitting

namespace Switchboard.Spelling
open Serializer Routing Reading Splitting

-- The 25 characters of the Unicode property White_Space.
def whiteSpace : List Nat :=
  List.range' 0x09 5 ++ [0x20,0x85,0xa0,0x1680] ++ List.range' 0x2000 11 ++ [0x2028,0x2029,0x202f,0x205f,0x3000]

def White (cs : List Char) : Prop := ∀ c ∈ cs, c.toNat ∈ whiteSpace

-- Equal but for the casing of the letters A to Z; every other character has to be the same one.
def Recased (one two : List Char) : Prop := one.map Char.toLower = two.map Char.toLower

def bare (cs : List Char) : List Char := cs.takeWhile (fun c => c != ';')

-- Nothing, or a semicolon and whatever one likes.
def parameters : Option (List Char) → List Char
  | none => []
  | some q => ';' :: q

def spelled (before word after : List Char) (q : Option (List Char)) : String :=
  String.ofList (before ++ word ++ after ++ parameters q)

inductive Spells (media : List Char) : String → Prop where
  | mk {before word after : List Char} (q : Option (List Char)) (front : White before) (back : White after)
      (cased : Recased word media) : Spells media (spelled before word after q)

section Trimming

theorem isSpace_exact (c : Char) : Text.isSpace c = true ↔ c.toNat ∈ whiteSpace := by
  simp only [Text.isSpace,Bool.or_eq_true,Bool.and_eq_true,decide_eq_true_eq,beq_iff_eq,whiteSpace,
    List.mem_append,List.mem_range'_1,List.mem_cons,List.not_mem_nil,or_false]
  grind

theorem letters_black {n : Nat} (low : 0x41 ≤ n) (high : n ≤ 0x7a) : n ∉ whiteSpace := by
  simp only [whiteSpace,List.mem_append,List.mem_range'_1,List.mem_cons,List.not_mem_nil,or_false]
  omega

theorem isSpace_toLower (c : Char) : Text.isSpace c.toLower = Text.isSpace c := by
  by_cases upper : 0x41 ≤ c.toNat ∧ c.toNat ≤ 0x5a
  · have before : c.toNat ∉ whiteSpace := letters_black (by omega) (by omega)
    have after : c.toLower.toNat ∉ whiteSpace := by
      rw [toLower_upper upper]
      exact letters_black (by omega) (by omega)
    rw [Bool.eq_iff_iff,isSpace_exact,isSpace_exact]
    simp only [before,after]
  · rw [toLower_other upper]

theorem semicolon_toLower (c : Char) : c.toLower = ';' ↔ c = ';' := by
  by_cases upper : 0x41 ≤ c.toNat ∧ c.toNat ≤ 0x5a
  · rw [← Char.toNat_inj,← Char.toNat_inj,toLower_upper upper]
    change c.toNat + 0x20 = 0x3b ↔ c.toNat = 0x3b
    omega
  · rw [toLower_other upper]

theorem trim_lower (cs : List Char) :
    Text.trimChars (cs.map Char.toLower) = (Text.trimChars cs).map Char.toLower := by
  have same : Text.isSpace ∘ Char.toLower = Text.isSpace := funext isSpace_toLower
  simp only [Text.trimChars,List.dropWhile_map,← List.map_reverse,same]

theorem trim_padded {before after : List Char} (front : White before) (back : White after) (cs : List Char) :
    Text.trimChars (before ++ cs ++ after) = Text.trimChars cs := by
  have skipped : ∀ c ∈ before, Text.isSpace c = true := fun c member => (isSpace_exact c).mpr (front c member)
  have ended : ∀ c ∈ after, Text.isSpace c = true := fun c member => (isSpace_exact c).mpr (back c member)
  unfold Text.trimChars
  rw [List.append_assoc,List.dropWhile_append_of_pos skipped,List.dropWhile_append]
  split
  · rename_i blank
    have nothing : after.dropWhile Text.isSpace = [] := List.dropWhile_eq_nil_iff.mpr ended
    rw [nothing,List.isEmpty_iff.mp blank]
  · rw [List.reverse_append,List.dropWhile_append_of_pos]
    intro c member
    exact ended c (List.mem_reverse.mp member)

theorem trim_split (cs : List Char) :
    ∃ before after, White before ∧ White after ∧ cs = before ++ Text.trimChars cs ++ after := by
  refine ⟨cs.takeWhile Text.isSpace,(cs.dropWhile Text.isSpace).rtakeWhile Text.isSpace,?_,?_,?_⟩
  · intro c member
    exact (isSpace_exact c).mp (List.mem_takeWhile_imp member)
  · intro c member
    exact (isSpace_exact c).mp (List.mem_rtakeWhile_imp member)
  · have inner : Text.trimChars cs ++ (cs.dropWhile Text.isSpace).rtakeWhile Text.isSpace =
        cs.dropWhile Text.isSpace := List.rdropWhile_append_rtakeWhile
    rw [List.append_assoc,inner,List.takeWhile_append_dropWhile]

end Trimming

section Cutting

theorem white_free {cs : List Char} (white : White cs) : ';' ∉ cs := by
  intro member
  exact absurd (white ';' member) (by decide)

theorem recased_lower (cs : List Char) : Recased cs (cs.map Char.toLower) := by
  rw [Recased,List.map_map]
  apply List.map_congr_left
  intro c _
  by_cases upper : 0x41 ≤ c.toNat ∧ c.toNat ≤ 0x5a
  · have lower := toLower_upper upper
    exact (toLower_other (by omega)).symm
  · rw [Function.comp_apply,toLower_other upper,toLower_other upper]

theorem recased_free {one two : List Char} (cased : Recased one two) (free : ';' ∉ two) : ';' ∉ one := by
  intro member
  have lower : ';' ∈ two.map Char.toLower := by
    rw [← cased]
    exact List.mem_map.mpr ⟨';',member,rfl⟩
  obtain ⟨c,inside,same⟩ := List.mem_map.mp lower
  rw [(semicolon_toLower c).mp same] at inside
  exact free inside

theorem bare_free (cs : List Char) : ';' ∉ bare cs := by
  intro member
  simpa using List.mem_takeWhile_imp member

theorem bare_append {cs : List Char} (free : ';' ∉ cs) (q : Option (List Char)) :
    bare (cs ++ parameters q) = cs := by
  have kept : ∀ c ∈ cs, (c != ';') = true := by
    intro c member
    simpa using ne_of_mem_of_not_mem member free
  rw [bare,List.takeWhile_append_of_pos kept]
  cases q with
  | none => simp [parameters]
  | some q => simp [parameters]

theorem bare_parameters (cs : List Char) : ∃ q, cs = bare cs ++ parameters q := by
  induction cs with
  | nil => exact ⟨none,rfl⟩
  | cons c cs ih =>
      by_cases semicolon : c = ';'
      · exact ⟨some cs,by simp [bare,semicolon,parameters]⟩
      · obtain ⟨q,rest⟩ := ih
        refine ⟨q,?_⟩
        have first : bare (c :: cs) = c :: bare cs := by simp [bare,semicolon]
        rw [first,List.cons_append,← rest]

theorem bare_recased {one two : List Char} (cased : Recased one two) : Recased (bare one) (bare two) := by
  have lower : ∀ cs, (bare cs).map Char.toLower = bare (cs.map Char.toLower) := by
    intro cs
    have same : (fun c => c != ';') ∘ Char.toLower = fun c => c != ';' := by
      funext c
      rw [Function.comp_apply,Bool.eq_iff_iff,bne_iff_ne,bne_iff_ne,ne_eq,semicolon_toLower]
    rw [bare,bare,List.takeWhile_map,same]
  rw [Recased,lower,lower,cased]

theorem essence_bare (ct : String) :
    essence ct = String.ofList (Text.trimChars ((bare ct.toList).map Char.toLower)) := by
  have lower : Text.lowerAscii = Char.toLower := funext lowerAscii_toLower
  have cut : (fun c : Char => c.toNat != 0x3b) = fun c => c != ';' := by
    funext c
    rw [Bool.eq_iff_iff,bne_iff_ne,bne_iff_ne,ne_eq,ne_eq,← Char.toNat_inj]
    rfl
  rw [essence,lower,cut,trim_lower]
  rfl

end Cutting

theorem essence_spelled {media : List Char} (free : ';' ∉ media) {ct : String} (spells : Spells media ct) :
    essence ct = String.ofList (Text.trimChars (media.map Char.toLower)) := by
  cases spells with
  | @mk before word after q front back cased =>
      have inside : ';' ∉ before ++ word ++ after := by
        simp [white_free front,white_free back,recased_free cased free]
      rw [essence_bare,spelled,String.toList_ofList,bare_append inside,trim_lower,trim_padded front back,
        ← trim_lower,cased]

theorem essence_free (ct : String) : ';' ∉ (essence ct).toList := by
  rw [essence_bare,String.toList_ofList,trim_lower]
  obtain ⟨before,after,_,_,split⟩ := trim_split (bare ct.toList)
  have free : ';' ∉ Text.trimChars (bare ct.toList) := by
    intro member
    apply bare_free ct.toList
    rw [split]
    simp [member]
  exact recased_free (recased_lower _).symm free

theorem spells_itself (word : String) : Spells word.toList word := by
  have same : spelled [] word.toList [] none = word := by simp [spelled,parameters]
  nth_rewrite 2 [← same]
  exact .mk none (by simp [White]) (by simp [White]) rfl

-- A content type is a spelling of its own essence: what was lost is the casing, the padding and the parameters.
theorem spells_essence (ct : String) : Spells (essence ct).toList ct := by
  obtain ⟨q,whole⟩ := bare_parameters ct.toList
  obtain ⟨before,after,front,back,split⟩ := trim_split (bare ct.toList)
  have written : ct = spelled before (Text.trimChars (bare ct.toList)) after q := by
    rw [spelled,← split,← whole,String.ofList_toList]
  have cased : Recased (Text.trimChars (bare ct.toList)) (essence ct).toList := by
    rw [essence_bare,String.toList_ofList,trim_lower]
    exact recased_lower _
  nth_rewrite 2 [written]
  exact .mk q front back cased

theorem essence_same (one two : String) :
    essence one = essence two ↔ ∃ media, ';' ∉ media ∧ Spells media one ∧ Spells media two := by
  constructor
  · intro same
    refine ⟨(essence one).toList,essence_free one,spells_essence one,?_⟩
    rw [same]
    exact spells_essence two
  · intro both
    obtain ⟨media,free,first,second⟩ := both
    rw [essence_spelled free first,essence_spelled free second]

theorem essence_essence (ct : String) : essence (essence ct) = essence ct :=
  (essence_same (essence ct) ct).mpr
    ⟨(essence ct).toList,essence_free ct,spells_itself (essence ct),spells_essence ct⟩

-- A word with a semicolon in it brings its own parameters along, and what is put behind them is one of them.
theorem spells_cut {before word after : List Char} (q : Option (List Char)) (front : White before)
    (back : White after) : Spells (bare word) (spelled before word after q) := by
  obtain ⟨own,whole⟩ := bare_parameters word
  cases own with
  | none =>
      have same : bare word = word := by simpa [parameters] using whole.symm
      rw [same]
      exact .mk q front back rfl
  | some own =>
      have same : spelled before word after q =
          spelled before (bare word) [] (some (own ++ after ++ parameters q)) := by
        nth_rewrite 1 [whole]
        simp [spelled,parameters]
      rw [same]
      exact .mk _ front (by simp [White]) rfl

theorem essence_respelled {ct : String} {before word after : List Char} (q : Option (List Char))
    (front : White before) (back : White after)
    (cased : Recased word ct.toList ∨ Recased word (bare ct.toList)) :
    essence (spelled before word after q) = essence ct := by
  have known : Recased (bare word) (bare ct.toList) := by
    rcases cased with whole | cut
    · exact bare_recased whole
    · have again : bare (bare ct.toList) = bare ct.toList := by
        simpa [parameters] using bare_append (bare_free ct.toList) none
      rw [← again]
      exact bare_recased cut
  rw [essence_spelled (bare_free word) (spells_cut q front back),essence_bare,known]

section Answers

variable {t : Ty} {p q : Payload} {a b : String} {s : Serializer} {codec : Codec}

inductive Agree {α : Type} (a b : String) : Except SerializationError α → Except SerializationError α → Prop where
  | value (v : α) : Agree a b (.ok v) (.ok v)
  | failed {e : SerializationError} (read : ∀ given direction, e ≠ .unsupported given direction) :
      Agree a b (.error e) (.error e)
  | refused : Agree a b (.error (.unsupported a .decode)) (.error (.unsupported b .decode))

theorem agree_answered (own : String) (decoded : Option t.Value) :
    Agree a b (answered own decoded) (answered own decoded) := by
  cases decoded with
  | none => exact .failed (fun _ _ same => by cases same)
  | some v => exact .value v

theorem codec_same (known : codec = .json ∨ codec = .msgPack) (same : essence a = essence b) :
    codec.accepts a = codec.accepts b := by
  rcases known with rfl | rfl
  · exact congrArg (fun name => name == essence applicationJson) same
  · exact congrArg (fun name => name == essence applicationMsgPack) same

theorem found_same (known : s.IsBuiltIn) (same : essence a = essence b) :
    (leaves s).find? (fun codec => codec.accepts a) = (leaves s).find? (fun codec => codec.accepts b) :=
  List.find?_congr (fun codec member => codec_same (known codec member) same)

theorem codec_agree (known : codec = .json ∨ codec = .msgPack) (first : p.contentType = some a)
    (second : q.contentType = some b) (bodies : p.body = q.body) (takenFirst : codec.accepts a = true)
    (takenSecond : codec.accepts b = true) :
    Agree a b ((Serializer.leaf codec).fromPayload t p) ((Serializer.leaf codec).fromPayload t q) := by
  have readsFirst : ∀ given, p.contentType = some given → codec.accepts given = true := by
    intro given typed
    cases first.symm.trans typed
    exact takenFirst
  have readsSecond : ∀ given, q.contentType = some given → codec.accepts given = true := by
    intro given typed
    cases second.symm.trans typed
    exact takenSecond
  rcases known with rfl | rfl
  · change Agree a b (Serializer.json.fromPayload t p) (Serializer.json.fromPayload t q)
    rw [json_taken readsFirst,json_taken readsSecond,bodies]
    exact agree_answered _ _
  · change Agree a b (Serializer.msgPack.fromPayload t p) (Serializer.msgPack.fromPayload t q)
    rw [msgPack_taken readsFirst,msgPack_taken readsSecond,bodies]
    exact agree_answered _ _

theorem fromPayload_agree (known : s.IsBuiltIn) (first : p.contentType = some a)
    (second : q.contentType = some b) (bodies : p.body = q.body) (same : essence a = essence b) :
    Agree a b (s.fromPayload t p) (s.fromPayload t q) := by
  have alike := found_same known same
  cases found : (leaves s).find? (fun codec => codec.accepts a) with
  | none =>
      have absent := alike.symm.trans found
      rw [(fromPayload_failed known).mpr (decode_refused known first (refused_exact.mpr found)),
        (fromPayload_failed known).mpr (decode_refused known second (refused_exact.mpr absent))]
      exact .refused
  | some codec =>
      have again := alike.symm.trans found
      obtain ⟨member,takenFirst,_⟩ := found_accepted found
      obtain ⟨_,takenSecond,_⟩ := found_accepted again
      rw [fromPayload_readBy (readBy_first first s found),fromPayload_readBy (readBy_first second s again)]
      exact codec_agree (known codec member) first second bodies takenFirst takenSecond

end Answers

theorem spelling_exact :
    (∀ ct, essence (essence ct) = essence ct) ∧
    (∀ (ct : String) (before word after : List Char) (q : Option (List Char)), White before → White after →
      Recased word ct.toList ∨ Recased word (bare ct.toList) →
      essence (spelled before word after q) = essence ct) ∧
    (∀ one two, essence one = essence two ↔ ∃ media, ';' ∉ media ∧ Spells media one ∧ Spells media two) ∧
    ∀ s : Serializer, s.IsBuiltIn → ∀ (t : Ty) (p q : Payload) (a b : String), p.contentType = some a →
      q.contentType = some b → p.body = q.body → essence a = essence b →
      Agree a b (s.fromPayload t p) (s.fromPayload t q) := by
  refine ⟨essence_essence,?_,essence_same,?_⟩
  · intro ct before word after q front back cased
    exact essence_respelled q front back cased
  · intro s known t p q a b first second bodies same
    exact fromPayload_agree known first second bodies same

def doubled : Serializer := .composite .standard [.composite .msgPack [.json]]

-- An ideographic space in front, a tab behind, and parameters with a semicolon among them.
theorem wide_space_casing_and_parameters_ignored :
    essence "\u3000Application/JSON\t; a=1;b" = essence "application/json;q=1" ∧
    doubled.IsBuiltIn ∧
    Agree "\u3000Application/JSON\t; a=1;b" "application/json;q=1"
      (doubled.fromPayload .bool (.typed "\u3000Application/JSON\t; a=1;b" [0x74,0x72,0x75,0x65]))
      (doubled.fromPayload .bool (.typed "application/json;q=1" [0x74,0x72,0x75,0x65])) ∧
    Agree "Text/Plain " "text/plain;q"
      (doubled.fromPayload .bool (.typed "Text/Plain " [0x74,0x72,0x75,0x65]))
      (doubled.fromPayload .bool (.typed "text/plain;q" [0x74,0x72,0x75,0x65])) := by
  have known : doubled.IsBuiltIn := by
    simp [IsBuiltIn,doubled,leaves,allLeaves,Serializer.json,Serializer.msgPack,Serializer.standard,alone,adding]
  obtain ⟨_,respelled,_,agree⟩ := spelling_exact
  have wide : essence "\u3000Application/JSON\t; a=1;b" = essence "application/json;q=1" :=
    respelled "application/json;q=1" ['\u3000'] "Application/JSON".toList ['\t'] (some " a=1;b".toList)
      (by simp [White,whiteSpace]) (by simp [White,whiteSpace]) (.inr rfl)
  have plain : essence "Text/Plain " = essence "text/plain;q" :=
    respelled "text/plain;q" [] "Text/Plain".toList [' '] none (by simp [White]) (by simp [White,whiteSpace])
      (.inr rfl)
  exact ⟨wide,known,agree doubled known .bool _ _ _ _ rfl rfl rfl wide,
    agree doubled known .bool _ _ _ _ rfl rfl rfl plain⟩

end Switchboard.Spelling
