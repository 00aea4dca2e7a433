import Mathlib.Data.List.Nodup
import Switchboard.Payload.Basic
import Switchboard.Proofs.KeyedEntries
import Switchboard.Text.Utf8

namespace Switchboard.Splitting

-- Only the letters A to Z have another casing here, so a word has no casing outside ASCII.
def AnyCasing (word key : String) : Prop := key.toList.map Char.toLower = word.toList

def TypeKey (key : String) : Prop := AnyCasing "type" key ∨ AnyCasing "content-type" key

inductive Precedes (one two : String) : Prop where
  | word (own : AnyCasing "type" one) (http : AnyCasing "content-type" two)
  | spelling {word : String} (first : AnyCasing word one) (second : AnyCasing word two)
      (spelled : one = word) (respelled : two ≠ word)
  | bytes {word : String} (first : AnyCasing word one) (second : AnyCasing word two)
      (alike : one = word ↔ two = word) (less : Text.bytes one < Text.bytes two)

structure Leads (h : Headers) (key value : String) : Prop where
  held : h.find? key = some value
  typed : TypeKey key
  least : ∀ other, TypeKey other → h.find? other ≠ none → other ≠ key → Precedes key other

section Casing

theorem upper_exact (c : Char) :
    (c.val ≥ 'A'.val ∧ c.val ≤ 'Z'.val) ↔ 0x41 ≤ c.toNat ∧ c.toNat ≤ 0x5a := by
  rw [ge_iff_le,UInt32.le_iff_toNat_le,UInt32.le_iff_toNat_le]
  rfl

theorem toLower_upper {c : Char} (upper : 0x41 ≤ c.toNat ∧ c.toNat ≤ 0x5a) :
    c.toLower.toNat = c.toNat + 0x20 := by
  have raised : c.toLower = _ := dif_pos ((upper_exact c).mpr upper)
  rw [raised]
  change (c.toNat + 0x20) % 0x100000000 = c.toNat + 0x20
  omega

theorem toLower_other {c : Char} (other : ¬ (0x41 ≤ c.toNat ∧ c.toNat ≤ 0x5a)) : c.toLower = c := by
  apply dif_neg
  intro upper
  exact other ((upper_exact c).mp upper)

theorem lowerAscii_toLower (c : Char) : Text.lowerAscii c = c.toLower := by
  unfold Text.lowerAscii
  by_cases upper : 0x41 ≤ c.toNat ∧ c.toNat ≤ 0x5a
  · rw [if_pos (by simpa using upper),← toLower_upper upper,Char.ofNat_toNat]
  · rw [if_neg (by simpa using upper),toLower_other upper]

theorem anyCasing_exact (word key : String) : AnyCasing word key ↔ lowerKey key = word := by
  have same : Text.lowerAscii = Char.toLower := funext lowerAscii_toLower
  rw [AnyCasing,lowerKey,same,← String.toList_inj,String.toList_ofList]

theorem isTypeKey_exact (key : String) : isTypeKey key = true ↔ TypeKey key := by
  simp [isTypeKey,TypeKey,anyCasing_exact]

theorem casing_ascii {word key : String} (ascii : word.toList.all (fun d => d.toNat < 0x80) = true)
    (cased : AnyCasing word key) (c : Char) (member : c ∈ key.toList) : c.toNat < 0x80 := by
  have lower : c.toLower ∈ word.toList := by
    rw [← cased]
    exact List.mem_map_of_mem member
  by_cases upper : 0x41 ≤ c.toNat ∧ c.toNat ≤ 0x5a
  · omega
  · rw [toLower_other upper] at lower
    simpa using List.all_eq_true.mp ascii c lower

theorem typeKey_ascii {key : String} (typed : TypeKey key) : ∀ c ∈ key.toList, c.toNat < 0x80 := by
  rcases typed with own | http
  · exact casing_ascii rfl own
  · exact casing_ascii rfl http

end Casing

section Bytes

theorem bytes_flatMap (s : String) : Text.bytes s = s.toList.flatMap String.utf8EncodeChar := by
  have whole : s.toByteArray = s.toList.utf8Encode := by
    rw [← String.toByteArray_ofList,String.ofList_toList]
  rw [Text.bytes,String.toUTF8,whole,List.utf8Encode]
  simp

theorem bytes_ascii {s : String} (ascii : ∀ c ∈ s.toList, c.toNat < 0x80) :
    (Text.bytes s).map UInt8.toNat = textRank s := by
  rw [bytes_flatMap,textRank]
  generalize s.toList = cs at ascii
  induction cs with
  | nil => rfl
  | cons c cs ih =>
      obtain ⟨first,others⟩ := List.forall_mem_cons.mp ascii
      have single : c.val ≤ 127 := by
        rw [UInt32.le_iff_toNat_le]
        exact Nat.le_of_lt_succ first
      have byte : c.val.toUInt8.toNat = c.toNat := by
        rw [UInt32.toNat_toUInt8]
        exact Nat.mod_eq_of_lt (Nat.lt_trans first (by decide))
      rw [List.flatMap_cons,String.utf8EncodeChar_eq_singleton (Char.utf8Size_eq_one_iff.mpr single),
        List.map_append,ih others,List.map_cons,List.map_nil,byte]
      rfl

theorem map_toNat_lt (one two : List UInt8) :
    one.map UInt8.toNat < two.map UInt8.toNat ↔ one < two := by
  induction one generalizing two with
  | nil =>
      cases two with
      | nil => simp
      | cons b bs => simp
  | cons a as ih =>
      cases two with
      | nil => simp
      | cons b bs =>
          rw [List.map_cons,List.map_cons,List.cons_lt_cons_iff,List.cons_lt_cons_iff,ih,UInt8.toNat_inj,
            UInt8.lt_iff_toNat_lt]

theorem textRank_bytes {one two : String} (first : TypeKey one) (second : TypeKey two) :
    textRank one < textRank two ↔ Text.bytes one < Text.bytes two := by
  rw [← bytes_ascii (typeKey_ascii first),← bytes_ascii (typeKey_ascii second),map_toNat_lt]

end Bytes

section Order

theorem typeKeyRank_cased {word key : String} (cased : AnyCasing word key) :
    typeKeyRank key =
      (if word = "type" then 0 else 1) :: (if key = word then 0 else 1) :: textRank key := by
  rw [typeKeyRank,(anyCasing_exact word key).mp cased]
  simp only [beq_iff_eq,eq_comm (a := word) (b := key)]

theorem typeKeyRank_inj {one two : String} : typeKeyRank one = typeKeyRank two ↔ one = two := by
  constructor
  · intro same
    simp only [typeKeyRank,List.cons.injEq] at same
    exact textRank_inj.mp same.2.2
  · intro same
    rw [same]

theorem casing_unique {word other key : String} (cased : AnyCasing word key) (again : AnyCasing other key) :
    word = other := by
  rw [anyCasing_exact] at cased again
  exact cased.symm.trans again

theorem precedes_within {word one two : String} (first : AnyCasing word one) (second : AnyCasing word two) :
    Precedes one two ↔
      (one = word ∧ two ≠ word) ∨ ((one = word ↔ two = word) ∧ Text.bytes one < Text.bytes two) := by
  constructor
  · intro precedes
    cases precedes with
    | word own http =>
        have impossible : "type" = "content-type" :=
          (casing_unique own first).trans (casing_unique second http)
        exact absurd impossible (by decide)
    | spelling cased _ spelled respelled =>
        cases casing_unique cased first
        exact .inl ⟨spelled,respelled⟩
    | bytes cased _ alike less =>
        cases casing_unique cased first
        exact .inr ⟨alike,less⟩
  · intro either
    rcases either with ⟨spelled,respelled⟩ | ⟨alike,less⟩
    · exact .spelling first second spelled respelled
    · exact .bytes first second alike less

theorem rank_within {word one two : String} (first : AnyCasing word one) (second : AnyCasing word two) :
    typeKeyRank one < typeKeyRank two ↔
      (one = word ∧ two ≠ word) ∨ ((one = word ↔ two = word) ∧ textRank one < textRank two) := by
  rw [typeKeyRank_cased first,typeKeyRank_cased second]
  simp only [List.cons_lt_cons_iff,Nat.lt_irrefl,true_and,false_or]
  by_cases spelled : one = word
  · by_cases also : two = word
    · simp [spelled,also]
    · simp [spelled,also]
  · by_cases also : two = word
    · simp [spelled,also]
    · simp [spelled,also]

theorem precedes_exact {one two : String} (first : TypeKey one) (second : TypeKey two) :
    typeKeyRank one < typeKeyRank two ↔ Precedes one two := by
  have within : ∀ {word : String}, AnyCasing word one → AnyCasing word two →
      (typeKeyRank one < typeKeyRank two ↔ Precedes one two) := by
    intro word cased also
    rw [rank_within cased also,precedes_within cased also,textRank_bytes first second]
  rcases first with own | http
  · rcases second with alsoOwn | alsoHttp
    · exact within own alsoOwn
    · have less : typeKeyRank one < typeKeyRank two := by
        rw [typeKeyRank_cased own,typeKeyRank_cased alsoHttp]
        exact List.cons_lt_cons_iff.mpr (.inl (by decide))
      exact ⟨fun _ => .word own alsoHttp,fun _ => less⟩
  · rcases second with alsoOwn | alsoHttp
    · have notLess : ¬ typeKeyRank one < typeKeyRank two := by
        rw [typeKeyRank_cased http,typeKeyRank_cased alsoOwn,List.cons_lt_cons_iff]
        simp
      have apart : ∀ {word : String}, AnyCasing word one → ¬ AnyCasing word two := by
        intro word cased also
        have impossible : "content-type" = "type" :=
          (casing_unique http cased).trans (casing_unique also alsoOwn)
        exact absurd impossible (by decide)
      refine ⟨fun less => absurd less notLess,fun precedes => ?_⟩
      cases precedes with
      | word own _ => exact absurd alsoOwn (apart own)
      | spelling cased also | bytes cased also => exact absurd also (apart cased)
    · exact within http alsoHttp

theorem unbeaten_exact {one two : String} (first : TypeKey one) (second : TypeKey two) :
    ¬ typeKeyRank two < typeKeyRank one ↔ two = one ∨ Precedes one two := by
  rw [← precedes_exact first second,List.not_lt,List.le_iff_lt_or_eq,typeKeyRank_inj,or_comm,
    eq_comm (a := one)]

end Order

section Leading

theorem leading_none (entries : List (String × String)) : leading? entries = none ↔ entries = [] := by
  cases entries with
  | nil => simp [leading?]
  | cons entry rest =>
      unfold leading?
      cases leading? rest with
      | none => simp
      | some other =>
          by_cases less : typeKeyRank other.1 < typeKeyRank entry.1
          · simp [less]
          · simp [less]

theorem leading_least {entries : List (String × String)} {entry : String × String}
    (found : leading? entries = some entry) :
    entry ∈ entries ∧ ∀ other ∈ entries, ¬ typeKeyRank other.1 < typeKeyRank entry.1 := by
  induction entries generalizing entry with
  | nil => cases found
  | cons first rest ih =>
      unfold leading? at found
      cases later : leading? rest with
      | none =>
          rw [later] at found
          cases found
          have alone := (leading_none rest).mp later
          rw [alone]
          refine ⟨List.mem_cons_self,?_⟩
          intro other member
          rw [List.mem_singleton.mp member]
          exact List.lt_irrefl _
      | some best =>
          obtain ⟨member,least⟩ := ih later
          rw [later] at found
          dsimp only at found
          split at found
          · rename_i less
            cases found
            refine ⟨List.mem_cons_of_mem _ member,?_⟩
            intro other inside
            rcases List.mem_cons.mp inside with same | old
            · rw [same]; exact List.lt_asymm less
            · exact least other old
          · rename_i notLess
            cases found
            refine ⟨List.mem_cons_self,?_⟩
            intro other inside
            rcases List.mem_cons.mp inside with same | old
            · rw [same]; exact List.lt_irrefl _
            · intro less
              exact notLess (List.lt_of_le_of_lt (List.not_lt.mp (least other old)) less)

theorem leading_exact {entries : List (String × String)} (distinct : (entries.map Prod.fst).Nodup)
    (entry : String × String) :
    leading? entries = some entry ↔
      entry ∈ entries ∧ ∀ other ∈ entries, ¬ typeKeyRank other.1 < typeKeyRank entry.1 := by
  refine ⟨leading_least,?_⟩
  intro both
  obtain ⟨member,least⟩ := both
  cases found : leading? entries with
  | none =>
      rw [(leading_none entries).mp found] at member
      cases member
  | some best =>
      obtain ⟨inside,unbeaten⟩ := leading_least found
      have rank : typeKeyRank best.1 = typeKeyRank entry.1 :=
        List.le_antisymm (List.not_lt.mp (unbeaten entry member)) (List.not_lt.mp (least best inside))
      have same := List.inj_on_of_nodup_map distinct inside member (typeKeyRank_inj.mp rank)
      rw [same]

theorem leading_perm {entries others : List (String × String)} (same : entries.Perm others)
    (distinct : (entries.map Prod.fst).Nodup) : leading? entries = leading? others := by
  have also : (others.map Prod.fst).Nodup := (same.map Prod.fst).nodup_iff.mp distinct
  apply Option.ext
  intro entry
  rw [leading_exact distinct,leading_exact also,same.mem_iff]
  simp only [same.mem_iff]

end Leading

section Split

variable (h : Headers)

theorem mem_typeKeys (key value : String) :
    (key,value) ∈ (h.filterKeys isTypeKey).entries ↔ h.find? key = some value ∧ TypeKey key := by
  rw [SortedMap.find?_text,← isTypeKey_exact]
  exact List.mem_filter

theorem leads_exact (key value : String) :
    leading? (h.filterKeys isTypeKey).entries = some (key,value) ↔ Leads h key value := by
  rw [leading_exact (h.filterKeys isTypeKey).keys_nodup,mem_typeKeys]
  constructor
  · intro both
    obtain ⟨⟨held,typed⟩,least⟩ := both
    refine ⟨held,typed,?_⟩
    intro other also there apart
    obtain ⟨found,same⟩ := Option.ne_none_iff_exists'.mp there
    have unbeaten := least (other,found) ((mem_typeKeys h other found).mpr ⟨same,also⟩)
    rcases (unbeaten_exact typed also).mp unbeaten with equal | precedes
    · exact absurd equal apart
    · exact precedes
  · intro leads
    refine ⟨⟨leads.held,leads.typed⟩,?_⟩
    intro other member
    obtain ⟨there,also⟩ := (mem_typeKeys h other.1 other.2).mp member
    apply (unbeaten_exact leads.typed also).mpr
    by_cases equal : other.1 = key
    · exact .inl equal
    · exact .inr (leads.least other.1 also (by simp [there]) equal)

theorem leading_absent :
    leading? (h.filterKeys isTypeKey).entries = none ↔ ∀ key, TypeKey key → h.find? key = none := by
  rw [leading_none,List.eq_nil_iff_forall_not_mem]
  constructor
  · intro bare key typed
    cases held : h.find? key with
    | none => rfl
    | some value => exact absurd ((mem_typeKeys h key value).mpr ⟨held,typed⟩) (bare (key,value))
  · intro absent entry member
    obtain ⟨held,typed⟩ := (mem_typeKeys h entry.1 entry.2).mp member
    rw [absent entry.1 typed] at held
    cases held

theorem rest_exact (key value : String) :
    (splitContentType h).2.find? key = some value ↔ h.find? key = some value ∧ ¬ TypeKey key := by
  rw [SortedMap.find?_text,SortedMap.find?_text,← isTypeKey_exact]
  simp [splitContentType,SortedMap.filterKeys]

-- What is left after a split has no key to split by.
theorem split_again : splitContentType (splitContentType h).2 = (none,(splitContentType h).2) := by
  have unkeyed : ∀ key, TypeKey key → (splitContentType h).2.find? key = none := by
    intro key typed
    cases held : (splitContentType h).2.find? key with
    | none => rfl
    | some value => exact absurd typed ((rest_exact h key value).mp held).2
  apply Prod.ext
  · exact Option.map_eq_none_iff.mpr ((leading_absent _).mpr unkeyed)
  · apply SortedMap.ext
    apply List.filter_eq_self.mpr
    intro entry member
    exact (List.mem_filter.mp member).2

end Split

-- Entries may come in any order, both when the map is filled and when it is gone through.
theorem splitting_exact (h : Headers) (body : List UInt8) :
    let p := Payload.ofHeaders h body
    p.body = body ∧
    (∀ key value, p.headers.find? key = some value ↔ h.find? key = some value ∧ ¬ TypeKey key) ∧
    (p.contentType = none ↔ ∀ key, TypeKey key → h.find? key = none) ∧
    (∀ value, p.contentType = some value ↔ ∃ key, Leads h key value) ∧
    (∀ entries : List (String × String), entries.Perm h.entries →
      Payload.ofHeaders (.ofList entries) body = p ∧
      (leading? (entries.filter (fun entry => isTypeKey entry.1))).map Prod.snd = p.contentType) ∧
    splitContentType p.headers = (none,p.headers) := by
  intro p
  refine ⟨rfl,rest_exact h,?_,?_,?_,split_again h⟩
  · exact Option.map_eq_none_iff.trans (leading_absent h)
  · intro value
    refine Option.map_eq_some_iff.trans ⟨?_,?_⟩
    · intro found
      obtain ⟨entry,leading,same⟩ := found
      refine ⟨entry.1,(leads_exact h entry.1 value).mp ?_⟩
      rw [leading,← same]
    · intro found
      obtain ⟨key,leads⟩ := found
      exact ⟨(key,value),(leads_exact h key value).mpr leads,rfl⟩
  · intro entries same
    have typed : (entries.filter (fun entry => isTypeKey entry.1)).Perm (h.filterKeys isTypeKey).entries :=
      same.filter _
    refine ⟨by rw [SortedMap.ofList_perm same],?_⟩
    have leading := leading_perm typed.symm (h.filterKeys isTypeKey).keys_nodup
    exact congrArg (Option.map Prod.snd) leading.symm

end Switchboard.Splitting
