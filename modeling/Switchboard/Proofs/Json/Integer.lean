import Mathlib.Data.List.TakeWhile
import Switchboard.Proofs.BuiltIn
import Switchboard.Proofs.Json.Wire
import Switchboard.Proofs.Splitting

namespace Switchboard.Json

def Blank (bs : List UInt8) : Prop := ∀ b ∈ bs, b ∈ [(0x20 : UInt8),0x09,0x0a,0x0d]

-- The decimal text of a number, with white space around it at most.
def Spelled (n : Int) (body : List UInt8) : Prop :=
  ∃ before after, Blank before ∧ Blank after ∧ body = before ++ Text.bytes (toString n) ++ after

section Decimal

theorem digitChar_char (d : Digit) : Nat.digitChar d.val = Digits.char d := by
  revert d
  decide

-- From a positive number on, each further digit is one more character; a zero in front would be lost.
theorem toDigits_from {start : Nat} (positive : 0 < start) (ds : List Digit) :
    Nat.toDigits 10 (Digits.toNatFrom start ds) = Nat.toDigits 10 start ++ ds.map Digits.char := by
  induction ds generalizing start with
  | nil => simp [Digits.toNatFrom]
  | cons d ds ih =>
      have later := ih (show 0 < 10 * start + d.val by omega)
      have high : (10 * start + d.val) / 10 = start := by omega
      have low : (10 * start + d.val) % 10 = d.val := by omega
      rw [Nat.toDigits_of_base_le (by decide) (show 10 ≤ 10 * start + d.val by omega),high,low,digitChar_char] at later
      rw [Digits.toNatFrom,List.foldl_cons,← Digits.toNatFrom,later,List.map_cons,List.append_assoc]
      rfl

theorem toDigits_whole {ds : List Digit} (whole : Digits.Whole ds) :
    Nat.toDigits 10 (Digits.toNat ds) = ds.map Digits.char := by
  obtain ⟨d,rest,rfl,leading⟩ := whole
  have first : Nat.toDigits 10 d.val = [Digits.char d] := by
    rw [Nat.toDigits_of_lt_base d.isLt,digitChar_char]
  have value : Digits.toNat (d :: rest) = Digits.toNatFrom d.val rest := by
    simp [Digits.toNat,Digits.toNatFrom]
  rw [value]
  rcases leading with rfl | positive
  · exact first
  · rw [toDigits_from positive,first]
    rfl

theorem bytes_digits (ds : List Digit) : Text.bytes (String.ofList (ds.map Digits.char)) = ds.map Digits.byte := by
  have single : ∀ d : Digit, String.utf8EncodeChar (Digits.char d) = [Digits.byte d] := by decide
  rw [Splitting.bytes_flatMap,String.toList_ofList,List.flatMap_map]
  induction ds with
  | nil => rfl
  | cons d ds ih => rw [List.flatMap_cons,ih,single]; rfl

theorem bytes_natural {ds : List Digit} (whole : Digits.Whole ds) :
    Text.bytes (toString (Digits.toNat ds : Int)) = ds.map Digits.byte := by
  have text : toString (Digits.toNat ds : Int) = String.ofList (ds.map Digits.char) := by
    rw [Int.toString_eq_repr,Int.repr_eq_if,if_pos (Int.natCast_nonneg _),Int.toNat_natCast,
      Nat.repr_eq_ofList_toDigits,toDigits_whole whole]
  rw [text,bytes_digits]

theorem bytes_negative {ds : List Digit} (whole : Digits.Whole ds) (positive : 0 < Digits.toNat ds) :
    Text.bytes (toString (-(Digits.toNat ds : Int))) = 0x2d :: ds.map Digits.byte := by
  have text : toString (-(Digits.toNat ds : Int)) = "-" ++ String.ofList (ds.map Digits.char) := by
    rw [Int.toString_eq_repr,Int.repr_eq_if,if_neg (by omega),Int.neg_neg,Int.toNat_natCast,
      Nat.repr_eq_ofList_toDigits,toDigits_whole whole]
  rw [text,Splitting.bytes_flatMap,String.toList_append,List.flatMap_append,← Splitting.bytes_flatMap,
    ← Splitting.bytes_flatMap,bytes_digits]
  rfl

theorem ofInt_text (n : Int) : (NumberText.ofInt n).render = Text.bytes (toString n) := by
  have whole := Digits.ofNat_whole n.natAbs
  have value := Digits.toNat_ofNat n.natAbs
  by_cases negative : n < 0
  · have back : n = -(Digits.toNat (Digits.ofNat n.natAbs) : Int) := by omega
    have written := bytes_negative whole (by omega)
    rw [← back] at written
    rw [written]
    simp [NumberText.render,NumberText.ofInt,signBytes,negative]
  · have back : n = (Digits.toNat (Digits.ofNat n.natAbs) : Int) := by omega
    have written := bytes_natural whole
    rw [← back] at written
    rw [written]
    simp [NumberText.render,NumberText.ofInt,signBytes,negative]

theorem whole_text {t : NumberText} (wellFormed : t.WellFormed) {n : Int} (read : t.value? = some (.whole n)) :
    t.render = Text.bytes (toString n) := by
  obtain ⟨point,exponent,⟨plain,rfl⟩ | ⟨negative,positive,rfl⟩⟩ := NumberText.value_whole read
  · rw [bytes_natural wellFormed.whole]
    simp [NumberText.render,signBytes,point,exponent,plain]
  · rw [bytes_negative wellFormed.whole positive]
    simp [NumberText.render,signBytes,point,exponent,negative]

end Decimal

section Blanks

variable {before after : List UInt8}

theorem isSpace_exact (b : UInt8) : isSpace b = true ↔ b ∈ [(0x20 : UInt8),0x09,0x0a,0x0d] := by
  simp only [isSpace,Bool.or_eq_true,beq_iff_eq,List.mem_cons,List.not_mem_nil,or_false]
  tauto

theorem skipSpace_append (front : Blank before) (bs : List UInt8) : skipSpace (before ++ bs) = skipSpace bs :=
  List.dropWhile_append_of_pos (fun b member => (isSpace_exact b).mpr (front b member))

theorem skipSpace_nil : skipSpace after = [] ↔ Blank after := by
  rw [skipSpace,List.dropWhile_eq_nil_iff]
  simp only [isSpace_exact]
  rfl

theorem skipSpace_split (bs : List UInt8) : ∃ before, Blank before ∧ bs = before ++ skipSpace bs := by
  refine ⟨bs.takeWhile isSpace,?_,List.takeWhile_append_dropWhile.symm⟩
  intro b member
  exact (isSpace_exact b).mp (List.mem_takeWhile_imp member)

theorem blank_ends (back : Blank after) : Ends after := by
  cases after with
  | nil => exact ends_nil
  | cons b bs =>
      have white := back b List.mem_cons_self
      simp only [List.mem_cons,List.not_mem_nil,or_false] at white
      rcases white with rfl | rfl | rfl | rfl <;> exact ⟨by rintro _ ⟨⟩; rfl,by simp,by simp⟩

theorem value_append (front : Blank before) (depth : Nat) (bs : List UInt8) :
    value depth (before ++ bs) = value depth bs := by
  cases depth with
  | zero => rfl
  | succ depth => rw [value,value,skipSpace_append front]

theorem parse_padded (front : Blank before) (back : Blank after) {n : Node} (wellFormed : n.WellFormed) :
    parse (before ++ n.render ++ after) = some n := by
  have deep : n.render.length < (before ++ n.render ++ after).length + 1 := by
    simp only [List.length_append]
    omega
  have read := value_render wellFormed deep (blank_ends back)
  rw [parse,List.append_assoc,value_append front,← List.append_assoc,read]
  simp [skipSpace_nil.mpr back]

theorem value_number {depth : Nat} {bs rest : List UInt8} {t : NumberText}
    (read : value depth bs = some (.number t,rest)) : number (skipSpace bs) = some (t,rest) := by
  cases depth with
  | zero => cases read
  | succ depth =>
      have begins := value_exact.mp read
      generalize skipSpace bs = front at begins ⊢
      cases begins with
      | number _ spelled => exact spelled

theorem parse_number {bs : List UInt8} {t : NumberText} (read : parse bs = some (.number t)) :
    t.WellFormed ∧ ∃ before after, Blank before ∧ Blank after ∧ bs = before ++ t.render ++ after := by
  simp only [parse,Option.bind_eq_bind,Option.bind_eq_some_iff] at read
  obtain ⟨⟨node,after⟩,valued,ended⟩ := read
  split at ended
  · rename_i clear
    cases ended
    obtain ⟨wellFormed,written⟩ := number_sound (value_number valued)
    obtain ⟨before,front,whole⟩ := skipSpace_split bs
    refine ⟨wellFormed,before,after,front,skipSpace_nil.mp clear,?_⟩
    rw [List.append_assoc,← written]
    exact whole
  · cases ended

end Blanks

theorem int_exact {k : IntKind} {n : Bounded k} {node : Node} :
    node.int? k = some n ↔ ∃ t, node = .number t ∧ t.value? = some (.whole n.val) := by
  constructor
  · intro read
    unfold Node.int? Node.number? at read
    split at read
    · rename_i m valued
      split at valued
      · rename_i t
        rw [← IntKind.ofInt?_eq_some.mp read] at valued
        exact ⟨t,rfl,valued⟩
      · cases valued
    · cases read
  · intro spelled
    obtain ⟨t,rfl,valued⟩ := spelled
    simp [Node.int?,Node.number?,valued]

theorem decode_integer {k : IntKind} (n : Bounded k) (body : List UInt8) :
    decode (.int k) body = some n ↔ Spelled n.val body := by
  rw [decode,Option.bind_eq_some_iff]
  simp only [read]
  constructor
  · intro decoded
    obtain ⟨node,parsed,typed⟩ := decoded
    obtain ⟨t,rfl,valued⟩ := int_exact.mp typed
    obtain ⟨wellFormed,before,after,front,back,written⟩ := parse_number parsed
    rw [whole_text wellFormed valued] at written
    exact ⟨before,after,front,back,written⟩
  · intro spelled
    obtain ⟨before,after,front,back,rfl⟩ := spelled
    have text := NumberText.ofInt_wellFormed n.val
    have parsed := parse_padded front back (Node.WellFormed.number text)
    rw [Node.render,ofInt_text] at parsed
    obtain ⟨low,high⟩ := n.range
    exact ⟨_,parsed,int_exact.mpr ⟨_,rfl,NumberText.value_ofInt low high⟩⟩

theorem json_integer_exact (k : IntKind) (p : Payload)
    (taken : ∀ given, p.contentType = some given → Serializer.json.accepts given = true) :
    (∀ n : Int, (∃ v : Bounded k, Serializer.json.fromPayload (.int k) p = .ok v ∧ v.val = n) ↔
      Spelled n p.body ∧ k.Holds n) ∧
    (Serializer.json.fromPayload (.int k) p = .error (.decode applicationJson .codec) ↔
      ∀ n, k.Holds n → ¬ Spelled n p.body) := by
  rw [Serializer.json_taken taken]
  exact Serializer.answered_integer (fun n => decode_integer n p.body)

-- A line feed and a blank around the least number of a width, and a zero with a sign.
theorem json_least_i8_read_minus_zero_refused :
    (∃ v : Bounded .i8, Serializer.json.fromPayload (.int .i8)
      (.typed " Application/JSON ;q" [0x0a,0x2d,0x31,0x32,0x38,0x20]) = .ok v ∧ v.val = -0x80) ∧
    (∀ n, IntKind.i64.Holds n → ¬ Spelled n [0x2d,0x30]) ∧
    Serializer.json.fromPayload (.int .i64) (.untyped [0x2d,0x30]) = .error (.decode applicationJson .codec) := by
  have least : Spelled (-0x80) [0x0a,0x2d,0x31,0x32,0x38,0x20] :=
    ⟨[0x0a],[0x20],by simp [Blank],by simp [Blank],by decide⟩
  have signed : Serializer.json.fromPayload (.int .i64) (.untyped [0x2d,0x30]) =
      .error (.decode applicationJson .codec) := rfl
  refine ⟨?_,?_,signed⟩
  · have taken : ∀ given, (Payload.typed " Application/JSON ;q" [0x0a,0x2d,0x31,0x32,0x38,0x20]).contentType =
        some given → Serializer.json.accepts given = true := by
      intro given typed
      cases typed
      decide
    exact ((json_integer_exact .i8 _ taken).1 (-0x80)).mpr ⟨least,by decide⟩
  · exact (json_integer_exact .i64 (.untyped [0x2d,0x30]) (fun _ typed => by cases typed)).2.mp signed

end Switchboard.Json
