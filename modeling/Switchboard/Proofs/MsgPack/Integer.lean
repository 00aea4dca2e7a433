import Mathlib.Data.Nat.Digits.Lemmas
import Switchboard.Proofs.BuiltIn
import Switchboard.Proofs.MsgPack.Wire

namespace Switchboard.MsgPack

-- The most significant byte comes first.
def magnitude (bs : List UInt8) : Nat := Nat.ofDigits 256 (bs.reverse.map UInt8.toNat)

-- The byte in front and how many follow it.
def unsignedFormats : List (Nat × Nat) := [(0xcc,1),(0xcd,2),(0xce,4),(0xcf,8)]

def signedFormats : List (Nat × Nat) := [(0xd0,1),(0xd1,2),(0xd2,4),(0xd3,8)]

inductive Denotes : List UInt8 → Int → Prop where
  | positiveFix {b : UInt8} (small : b.toNat < 0x80) : Denotes [b] b.toNat
  | negativeFix {b : UInt8} (large : 0xe0 ≤ b.toNat) : Denotes [b] (b.toNat - 0x100)
  | unsigned {marker : UInt8} {bytes : List UInt8} (format : (marker.toNat,bytes.length) ∈ unsignedFormats) :
      Denotes (marker :: bytes) (magnitude bytes)
  | signed {marker : UInt8} {bytes : List UInt8} (format : (marker.toNat,bytes.length) ∈ signedFormats) :
      Denotes (marker :: bytes) (BitVec.ofNat (8 * bytes.length) (magnitude bytes)).toInt

def Begins (n : Int) (body : List UInt8) : Prop := ∃ taken rest, body = taken ++ rest ∧ Denotes taken n

section Words

variable {bs rest : List UInt8}

theorem ofBigEndian_magnitude (bs : List UInt8) : ofBigEndian bs = magnitude bs := by
  rw [magnitude,Nat.ofDigits_eq_foldr,List.foldr_map,List.foldr_reverse,ofBigEndian]
  simp only [Nat.cast_id,Nat.add_comm]

theorem magnitude_lt (bs : List UInt8) : magnitude bs < Nat.pow 256 bs.length := by
  have digits : ∀ d ∈ bs.reverse.map UInt8.toNat, d < 256 := by
    intro d member
    obtain ⟨b,_,rfl⟩ := List.mem_map.mp member
    exact b.toNat_lt
  simpa [magnitude] using Nat.ofDigits_lt_base_pow_length (by decide) digits

theorem take_exact {count : Nat} {taken : List UInt8} :
    take count bs = some (taken,rest) ↔ taken.length = count ∧ bs = taken ++ rest := by
  constructor
  · intro read
    unfold take at read
    split at read
    · rename_i enough
      cases read
      exact ⟨List.length_take_of_le enough,(List.take_append_drop count bs).symm⟩
    · cases read
  · intro both
    obtain ⟨rfl,rfl⟩ := both
    exact take_append taken rest

theorem natural_exact {width n : Nat} :
    natural width bs = some (n,rest) ↔
      ∃ taken : List UInt8, taken.length = width ∧ bs = taken ++ rest ∧ n = magnitude taken := by
  unfold natural
  rw [Option.map_eq_some_iff]
  constructor
  · intro read
    obtain ⟨⟨taken,after⟩,found,same⟩ := read
    cases same
    obtain ⟨length,split⟩ := take_exact.mp found
    exact ⟨taken,length,split,ofBigEndian_magnitude taken⟩
  · intro spelled
    obtain ⟨taken,length,split,rfl⟩ := spelled
    refine ⟨(taken,rest),take_exact.mpr ⟨length,split⟩,?_⟩
    dsimp only
    rw [ofBigEndian_magnitude]

-- A word of two's complement is below the middle of its range or a whole turn above what it stands for.
theorem toInt_magnitude (bytes : List UInt8) :
    (BitVec.ofNat (8 * bytes.length) (magnitude bytes)).toInt =
      if 2 * magnitude bytes < Nat.pow 256 bytes.length then (magnitude bytes : Int)
      else (magnitude bytes : Int) - Nat.pow 256 bytes.length := by
  have range : 2 ^ (8 * bytes.length) = Nat.pow 256 bytes.length := Nat.pow_mul 2 8 bytes.length
  have small : magnitude bytes % 2 ^ (8 * bytes.length) = magnitude bytes := by
    rw [range]
    exact Nat.mod_eq_of_lt (magnitude_lt bytes)
  rw [BitVec.toInt_eq_toNat_cond,BitVec.toNat_ofNat,small,range]

theorem signed_exact {width : Nat} {n : Int} :
    signed width bs = some (n,rest) ↔
      ∃ taken : List UInt8, taken.length = width ∧ bs = taken ++ rest ∧
        n = (BitVec.ofNat (8 * taken.length) (magnitude taken)).toInt := by
  unfold signed
  rw [Option.map_eq_some_iff]
  constructor
  · intro read
    obtain ⟨⟨m,after⟩,found,same⟩ := read
    cases same
    obtain ⟨taken,rfl,split,rfl⟩ := natural_exact.mp found
    exact ⟨taken,rfl,split,(toInt_magnitude taken).symm⟩
  · intro spelled
    obtain ⟨taken,rfl,split,rfl⟩ := spelled
    refine ⟨(magnitude taken,rest),natural_exact.mpr ⟨taken,rfl,split,rfl⟩,?_⟩
    rw [toInt_magnitude]

end Words

section Heads

variable {bs rest : List UInt8} {n : Int}

def Node.integer? : Node → Option Int
  | .natural n => some n
  | .signed n => some n
  | _ => none

theorem int_integer {k : IntKind} {n : Bounded k} {x : Node} : x.int? k = some n ↔ x.integer? = some n.val := by
  cases x with
  | natural m => rw [Node.int?,Node.integer?,IntKind.ofInt?_eq_some,Option.some.injEq,eq_comm]
  | signed m => rw [Node.int?,Node.integer?,IntKind.ofInt?_eq_some,Option.some.injEq,eq_comm]
  | nil | bool | float | str | bin | array | map | ext => simp [Node.int?,Node.integer?]

theorem marker_integer {m : Nat} :
    (∃ x, Head.ofMarker m bs = some (.whole x,rest) ∧ x.integer? = some n) ↔
      (∃ width, (m,width) ∈ unsignedFormats ∧ ∃ word : Nat, natural width bs = some (word,rest) ∧ word = n) ∨
      ∃ width, (m,width) ∈ signedFormats ∧ signed width bs = some (n,rest) := by
  unfold Head.ofMarker
  split
  all_goals simp_all [Head.sized,Head.signed,Head.float,Node.integer?,unsignedFormats,signedFormats]

theorem head_marker {b : UInt8} (low : 0xc0 ≤ b.toNat) (high : b.toNat < 0xe0) (bs : List UInt8) :
    head (b :: bs) = Head.ofMarker b.toNat bs := by
  rw [head,if_neg (by omega),if_neg (by omega),if_neg (by omega),if_neg (by omega),if_pos high]

theorem format_range {marker width : Nat}
    (format : (marker,width) ∈ unsignedFormats ∨ (marker,width) ∈ signedFormats) : 0xc0 ≤ marker ∧ marker < 0xe0 := by
  simp only [unsignedFormats,signedFormats,List.mem_cons,Prod.mk.injEq,List.not_mem_nil,or_false] at format
  omega

theorem head_denotes {x : Node} (read : head bs = some (.whole x,rest)) (valued : x.integer? = some n) :
    ∃ taken, bs = taken ++ rest ∧ Denotes taken n := by
  cases bs with
  | nil => cases read
  | cons b bs =>
      rw [head] at read
      split at read
      · rename_i small
        cases read
        cases valued
        exact ⟨[b],rfl,.positiveFix small⟩
      iterate 3
        split at read
        · cases read
      split at read
      · rcases marker_integer.mp ⟨x,read,valued⟩ with ⟨width,format,word,spelled,rfl⟩ | ⟨width,format,spelled⟩
        · obtain ⟨taken,rfl,rfl,rfl⟩ := natural_exact.mp spelled
          exact ⟨b :: taken,rfl,.unsigned format⟩
        · obtain ⟨taken,rfl,rfl,rfl⟩ := signed_exact.mp spelled
          exact ⟨b :: taken,rfl,.signed format⟩
      · cases read
        cases valued
        exact ⟨[b],rfl,.negativeFix (by omega)⟩

theorem denotes_head {taken : List UInt8} (denotes : Denotes taken n) (rest : List UInt8) :
    ∃ x, head (taken ++ rest) = some (.whole x,rest) ∧ x.integer? = some n := by
  cases denotes with
  | @positiveFix b small => exact ⟨.natural b.toNat,by simp [head,small],rfl⟩
  | @negativeFix b large =>
      refine ⟨.signed (b.toNat - 0x100),?_,rfl⟩
      rw [List.singleton_append,head,if_neg (by omega),if_neg (by omega),if_neg (by omega),if_neg (by omega),if_neg (by omega)]
  | @unsigned marker bytes format =>
      obtain ⟨low,high⟩ := format_range (.inl format)
      have word : natural bytes.length (bytes ++ rest) = some (magnitude bytes,rest) :=
        natural_exact.mpr ⟨bytes,rfl,rfl,rfl⟩
      rw [List.cons_append,head_marker low high]
      exact marker_integer.mpr (.inl ⟨_,format,_,word,rfl⟩)
  | @signed marker bytes format =>
      obtain ⟨low,high⟩ := format_range (.inr format)
      have word := signed_exact.mpr ⟨bytes,rfl,(rfl : bytes ++ rest = bytes ++ rest),rfl⟩
      rw [List.cons_append,head_marker low high]
      exact marker_integer.mpr (.inr ⟨_,format,word⟩)

theorem parse_head {x : Node} (read : parse bs = some (x,rest)) (valued : x.integer? = some n) :
    head bs = some (.whole x,rest) := by
  simp only [parse,node,Option.bind_eq_bind,Option.bind_eq_some_iff] at read
  obtain ⟨⟨announced,after⟩,found,shaped⟩ := read
  cases announced with
  | whole y => cases shaped; exact found
  | str | bin | array | map =>
      obtain ⟨_,_,same⟩ := Option.map_eq_some_iff.mp shaped
      cases same
      cases valued
  | ext length =>
      cases after with
      | nil => cases shaped
      | cons tag after =>
          obtain ⟨_,_,same⟩ := Option.map_eq_some_iff.mp shaped
          cases same
          cases valued

end Heads

theorem decode_integer {k : IntKind} (n : Bounded k) (body : List UInt8) :
    decode (.int k) body = some n ↔ Begins n.val body := by
  rw [decode,Option.bind_eq_some_iff]
  simp only [read]
  constructor
  · intro decoded
    obtain ⟨⟨x,rest⟩,parsed,typed⟩ := decoded
    have valued := int_integer.mp typed
    obtain ⟨taken,split,denotes⟩ := head_denotes (parse_head parsed valued) valued
    exact ⟨taken,rest,split,denotes⟩
  · intro begins
    obtain ⟨taken,rest,rfl,denotes⟩ := begins
    obtain ⟨x,found,valued⟩ := denotes_head denotes rest
    refine ⟨(x,rest),?_,int_integer.mpr valued⟩
    simp [parse,node,found]

theorem msgPack_integer_exact (k : IntKind) (p : Payload)
    (taken : ∀ given, p.contentType = some given → Serializer.msgPack.accepts given = true) :
    (∀ n : Int, (∃ v : Bounded k, Serializer.msgPack.fromPayload (.int k) p = .ok v ∧ v.val = n) ↔
      Begins n p.body ∧ k.Holds n) ∧
    (Serializer.msgPack.fromPayload (.int k) p = .error (.decode applicationMsgPack .codec) ↔
      ∀ n, k.Holds n → ¬ Begins n p.body) := by
  rw [Serializer.msgPack_taken taken]
  exact Serializer.answered_integer (fun n => decode_integer n p.body)

-- The least number of a width in a format eight times as wide, and the first one past it in the narrowest.
theorem msgPack_least_i8_read_one_past_greatest_refused :
    (∃ v : Bounded .i8, Serializer.msgPack.fromPayload (.int .i8)
      (.untyped [0xd3,0xff,0xff,0xff,0xff,0xff,0xff,0xff,0x80,0xc1]) = .ok v ∧ v.val = -0x80) ∧
    Begins 0x80 [0xcc,0x80,0xc1] ∧
    (∀ n, IntKind.i8.Holds n → ¬ Begins n [0xcc,0x80,0xc1]) ∧
    Serializer.msgPack.fromPayload (.int .i8) (.untyped [0xcc,0x80,0xc1]) =
      .error (.decode applicationMsgPack .codec) := by
  have format : ((0xd3 : UInt8).toNat,[(0xff : UInt8),0xff,0xff,0xff,0xff,0xff,0xff,0x80].length) ∈ signedFormats := by
    decide
  have wide : Begins (-0x80) [0xd3,0xff,0xff,0xff,0xff,0xff,0xff,0xff,0x80,0xc1] :=
    ⟨_,[0xc1],rfl,.signed format⟩
  have past : Serializer.msgPack.fromPayload (.int .i8) (.untyped [0xcc,0x80,0xc1]) =
      .error (.decode applicationMsgPack .codec) := rfl
  refine ⟨?_,⟨[0xcc,0x80],[0xc1],rfl,.unsigned (by decide)⟩,?_,past⟩
  · exact ((msgPack_integer_exact .i8 (.untyped _) (fun _ typed => by cases typed)).1 (-0x80)).mpr
      ⟨wide,by decide⟩
  · exact (msgPack_integer_exact .i8 (.untyped [0xcc,0x80,0xc1]) (fun _ typed => by cases typed)).2.mp past

end Switchboard.MsgPack
