import Switchboard.Text.Utf8

namespace Switchboard.Text

theorem ofBytes_exact {bs : List UInt8} {s : String} : ofBytes? bs = some s ↔ bs = bytes s := by
  constructor
  · intro read
    unfold ofBytes? String.fromUTF8? at read
    split at read
    · cases read
      rfl
    · cases read
  · intro same
    rw [same]
    exact ofBytes?_bytes s

theorem char_bounds (c : Char) : c.toNat < 0xd800 ∨ (0xdfff < c.toNat ∧ c.toNat < 0x110000) := c.valid

theorem codePoint_char (c : Char) : codePointBytes c.toNat = String.utf8EncodeChar c := by
  have bounds := char_bounds c
  change codePointBytes c.val.toNat = _
  change c.val.toNat < 0xd800 ∨ (0xdfff < c.val.toNat ∧ c.val.toNat < 0x110000) at bounds
  unfold codePointBytes String.utf8EncodeChar
  generalize c.val.toNat = n at bounds
  dsimp only
  by_cases one : n < 0x80
  · rw [if_pos one,if_pos (show n ≤ 127 by omega)]
  rw [if_neg one,if_neg (show ¬ n ≤ 127 by omega)]
  by_cases two : n < 0x800
  · have small : n / 64 % 32 = n / 64 := Nat.mod_eq_of_lt (by omega)
    rw [if_pos two,if_pos (show n ≤ 2047 by omega),small,Nat.add_comm 0xc0,Nat.add_comm 0x80]
  rw [if_neg two,if_neg (show ¬ n ≤ 2047 by omega)]
  by_cases three : n < 0x10000
  · have small : n / 4096 % 16 = n / 4096 := Nat.mod_eq_of_lt (by omega)
    rw [if_pos three,if_pos (show n ≤ 65535 by omega),small,Nat.add_comm 0xe0,Nat.add_comm 0x80,Nat.add_comm 0x80]
  · have small : n / 262144 % 8 = n / 262144 := Nat.mod_eq_of_lt (by omega)
    rw [if_neg three,if_neg (show ¬ n ≤ 65535 by omega),small,Nat.add_comm 0xf0,Nat.add_comm 0x80,Nat.add_comm 0x80,
      Nat.add_comm 0x80]

theorem encode_unique {c d : Char} {xs ys : List UInt8} (same : String.utf8EncodeChar c ++ xs = String.utf8EncodeChar d ++ ys) :
    c = d ∧ xs = ys := by
  have first := @ByteArray.utf8DecodeChar?_utf8EncodeChar_append xs.toByteArray c
  have second := @ByteArray.utf8DecodeChar?_utf8EncodeChar_append ys.toByteArray d
  rw [← List.toByteArray_append] at first second
  rw [same,second] at first
  cases first
  exact ⟨rfl,List.append_cancel_left same⟩

theorem char_exists {n : Nat} (valid : n < 0xd800 ∨ (0xdfff < n ∧ n < 0x110000)) : ∃ c : Char, c.toNat = n :=
  ⟨⟨UInt32.ofNatLT n (by unfold UInt32.size; omega),by simpa [UInt32.isValidChar,Nat.isValidChar] using valid⟩,rfl⟩

theorem encode_byte {c : Char} {b : UInt8} (member : b ∈ String.utf8EncodeChar c) :
    b.toNat = c.toNat ∨ (0x80 ≤ c.toNat ∧ 0x80 ≤ b.toNat) := by
  have bounds := char_bounds c
  rw [← codePoint_char] at member
  unfold codePointBytes at member
  generalize c.toNat = n at bounds member
  split at member
  · rw [List.mem_singleton.mp member,UInt8.toNat_ofNat']
    omega
  split at member
  · simp only [List.mem_cons,List.not_mem_nil,or_false] at member
    rcases member with rfl | rfl <;> rw [UInt8.toNat_ofNat'] <;> omega
  split at member
  · simp only [List.mem_cons,List.not_mem_nil,or_false] at member
    rcases member with rfl | rfl | rfl <;> rw [UInt8.toNat_ofNat'] <;> omega
  · simp only [List.mem_cons,List.not_mem_nil,or_false] at member
    rcases member with rfl | rfl | rfl | rfl <;> rw [UInt8.toNat_ofNat'] <;> omega

theorem encode_shape (c : Char) : ∃ b inner, String.utf8EncodeChar c = b :: inner ∧ b.IsUTF8FirstByte ∧
    ∀ d ∈ inner, ¬ d.IsUTF8FirstByte := by
  have starts : ∀ i (within : i < (String.utf8EncodeChar c).length), (String.utf8EncodeChar c)[i].IsUTF8FirstByte ↔ i = 0 :=
    fun _ _ => UInt8.isUTF8FirstByte_getElem_utf8EncodeChar
  cases shape : String.utf8EncodeChar c with
  | nil => exact absurd shape String.utf8EncodeChar_ne_nil
  | cons b inner =>
      rw [shape] at starts
      refine ⟨b,inner,rfl,(starts 0 (by simp)).mpr rfl,?_⟩
      intro d member
      obtain ⟨i,within,rfl⟩ := List.mem_iff_getElem.mp member
      intro first
      exact absurd ((starts (i + 1) (by simpa using within)).mp first) (Nat.succ_ne_zero i)

end Switchboard.Text
