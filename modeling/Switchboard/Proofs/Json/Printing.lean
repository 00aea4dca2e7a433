import Switchboard.Proofs.Json.Escapes

namespace Switchboard.Json

-- Text without control characters, so that it stands on one line.
structure Line (bs : List UInt8) : Prop where
  text : ∃ s, Text.bytes s = bs
  visible : ∀ b ∈ bs, 0x20 ≤ b

section Lines

variable {bs cs : List UInt8}

theorem line_append (first : Line bs) (second : Line cs) : Line (bs ++ cs) := by
  obtain ⟨s,start⟩ := first.text
  obtain ⟨t,rest⟩ := second.text
  refine ⟨⟨s ++ t,?_⟩,List.forall_mem_append.mpr ⟨first.visible,second.visible⟩⟩
  rw [Splitting.bytes_flatMap,String.toList_append,List.flatMap_append,← Splitting.bytes_flatMap,← Splitting.bytes_flatMap,
    start,rest]

theorem line_char {c : Char} (visible : 0x20 ≤ c.toNat) : Line (String.utf8EncodeChar c) := by
  refine ⟨⟨String.ofList [c],?_⟩,?_⟩
  · rw [Splitting.bytes_flatMap,String.toList_ofList,List.flatMap_singleton]
  · intro b member
    have byte := Text.encode_byte member
    rw [UInt8.le_iff_toNat_le]
    change 0x20 ≤ b.toNat
    omega

theorem line_byte {b : UInt8} (plain : 0x20 ≤ b ∧ b < 0x80) : Line [b] := by
  have low : 0x20 ≤ b.toNat := plain.1
  have high : b.toNat < 0x80 := plain.2
  obtain ⟨c,code⟩ := Text.char_exists (n := b.toNat) (by omega)
  have single : String.utf8EncodeChar c = [b] := by
    rw [← Text.codePoint_char,code,Text.codePointBytes,if_pos high,UInt8.ofNat_toNat]
  rw [← single]
  exact line_char (code ▸ low)

theorem line_plain (plain : ∀ b ∈ bs, 0x20 ≤ b ∧ b < 0x80) : Line bs := by
  induction bs with
  | nil => exact ⟨⟨"",rfl⟩,by simp⟩
  | cons b bs ih =>
      obtain ⟨first,others⟩ := List.forall_mem_cons.mp plain
      exact line_append (line_byte first) (ih others)

theorem line_cons {b : UInt8} (plain : 0x20 ≤ b ∧ b < 0x80) (line : Line bs) : Line (b :: bs) :=
  line_append (line_byte plain) line

theorem line_commas {parts : List (List UInt8)} (each : ∀ part ∈ parts, Line part) : Line (commas parts) := by
  fun_induction commas parts with
  | case1 => exact line_plain (by simp)
  | case2 part => exact each part List.mem_cons_self
  | case3 part rest _ ih =>
      obtain ⟨first,others⟩ := List.forall_mem_cons.mp each
      exact line_append first (line_cons (by decide) (ih others))

end Lines

section Spellings

variable {text : List UInt8}

theorem hex_plain {n : Nat} {b : UInt8} (digit : IsHexOf n b) : 0x20 ≤ b ∧ b < 0x80 := by
  cases digit with
  | @decimal n small =>
      revert n
      decide
  | @lower n small =>
      revert n
      decide
  | @upper n small =>
      revert n
      decide

theorem line_escape {n : Nat} (escape : UnitEscape n text) : Line text := by
  cases escape with
  | digits first second third fourth =>
      apply line_plain
      simp only [List.forall_mem_cons]
      exact ⟨by decide,by decide,hex_plain first,hex_plain second,hex_plain third,hex_plain fourth,by simp⟩

theorem line_spelling {c : Char} (spelling : CharSpelling c text) : Line text := by
  cases spelling with
  | raw visible _ _ => exact line_char visible
  | short named => cases named <;> exact line_cons (by decide) (line_byte (by decide))
  | unit escape => exact line_escape escape
  | pair _ _ _ leading trailing => exact line_append (line_escape leading) (line_escape trailing)

theorem line_spellings {cs : List Char} (spelled : CharsSpelling cs text) : Line text := by
  induction spelled with
  | nil => exact line_plain (by simp)
  | cons first _ ih => exact line_append (line_spelling first) ih

end Spellings

theorem ofText_spelled (s : String) : CharsSpelling s.toList ((Piece.ofText s).flatMap Piece.render) :=
  Piece.characters_exact.mpr
    ⟨_,Piece.render_written (Piece.ofText_wellFormed s),text_spelled.mp (Piece.text_ofText s)⟩

theorem line_digits (ds : List Digit) : Line (ds.map Digits.byte) := by
  have digit : ∀ d : Digit, 0x20 ≤ Digits.byte d ∧ Digits.byte d < 0x80 := by decide
  apply line_plain
  intro b member
  obtain ⟨d,_,rfl⟩ := List.mem_map.mp member
  exact digit d

theorem line_exponent (e : Exponent) : Line e.render := by
  refine line_cons ?_ (line_append ?_ (line_digits e.digits))
  · cases e.capital <;> decide
  · cases e.sign with
    | bare => exact line_plain (by simp)
    | plus => exact line_byte (by decide)
    | minus => exact line_byte (by decide)

theorem line_number (t : NumberText) : Line t.render := by
  have empty : Line [] := line_plain (by simp)
  have sign : Line (signBytes t.negative) := by
    cases t.negative with
    | false => exact empty
    | true => exact line_byte (by decide)
  have fraction : Line (fractionBytes t.fraction) := by
    cases t.fraction with
    | none => exact empty
    | some ds => exact line_cons (by decide) (line_digits ds)
  have exponent : Line (exponentBytes t.exponent) := by
    cases t.exponent with
    | none => exact empty
    | some e => exact line_exponent e
  rw [t.render_parts]
  exact line_append sign (line_append (line_digits t.whole) (line_append fraction exponent))

theorem line_bool (b : Bool) : Line (Node.bool b).render := by
  cases b <;> exact line_plain (by simp [Node.render])

theorem raws_render (bs : List UInt8) : (bs.map Piece.raw).flatMap Piece.render = bs := by
  rw [List.flatMap_map]
  exact List.flatMap_singleton' bs

theorem line_key {k : KeyTy} {key : k.Value} {ps : List Piece} (written : ofKey? k key = some ps) :
    Line (ps.flatMap Piece.render) := by
  cases k with
  | text =>
      cases written
      exact line_spellings (ofText_spelled key)
  | int k =>
      cases written
      rw [raws_render]
      exact line_number _
  | bool =>
      cases written
      rw [raws_render]
      exact line_bool key
  | intPair => cases written

theorem line_quoted {ps : List Piece} (inner : Line (ps.flatMap Piece.render)) : Line (quoted ps) :=
  line_cons (by decide) (line_append inner (line_byte (by decide)))

theorem printed_line {n : Node} (printed : n.Printed) : Line n.render := by
  induction printed with
  | null => exact line_plain (by simp [Node.render])
  | bool b => exact line_bool b
  | @number t _ => exact line_number t
  | string s => exact line_quoted (line_spellings (ofText_spelled s))
  | array _ ih =>
      rw [Node.render,renderItems_eq]
      refine line_cons (by decide) (line_append (line_commas ?_) (line_byte (by decide)))
      intro part member
      obtain ⟨item,inside,rfl⟩ := List.mem_map.mp member
      exact ih item inside
  | object keys _ ih =>
      rw [Node.render,renderMembers_eq]
      refine line_cons (by decide) (line_append (line_commas ?_) (line_byte (by decide)))
      intro part member
      obtain ⟨entry,inside,rfl⟩ := List.mem_map.mp member
      obtain ⟨k,key,written⟩ := keys entry inside
      exact line_append (line_quoted (line_key written)) (line_cons (by decide) (ih entry inside))

theorem json_printed_exact (t : Ty) (v : t.Value) (p : Payload) (written : Serializer.json.toPayload t v = .ok p) :
    p.contentType = some applicationJson ∧ p.headers = SortedMap.empty ∧ (∃ s, Text.bytes s = p.body) ∧
      (∀ b ∈ p.body, 0x20 ≤ b) ∧ Serializer.json.fromPayload .ignored p = .ok () := by
  obtain ⟨body,encoded,rfl⟩ := Serializer.wrapped_ok.mp written
  obtain ⟨node,wrote,rfl⟩ := Option.map_eq_some_iff.mp encoded
  have printed := write_printed t v wrote
  have line := printed_line printed
  refine ⟨rfl,rfl,line.text,line.visible,?_⟩
  rw [Serializer.fromPayload_json (.inl rfl),decode,parse_render (printed_wellFormed printed),Option.bind_some,
    read_ignored.mpr (printed_sound printed)]
  rfl

-- A key with a quote and a line feed in it, a third as a double, and a NaN.
def scribbled : (Ty.map .text (.list (.float .double))).Value :=
  SortedMap.empty.insert "é\"\n" [⟨0x3fd5555555555555⟩,.quietNaN .double]

theorem json_control_and_third_printed_visibly :
    ∃ p, Serializer.json.toPayload _ scribbled = .ok p ∧
      p.body = Text.bytes "\x7b\"é\\\"\\n\":[0.3333333333333333,null]\x7d" ∧ (∀ b ∈ p.body, 0x20 ≤ b) ∧
      Serializer.json.fromPayload .ignored p = .ok () := by
  have encoded : encode _ scribbled = some (Text.bytes "\x7b\"é\\\"\\n\":[0.3333333333333333,null]\x7d") := by decide +kernel
  have written := congrArg (Codec.wrapped applicationJson) encoded
  obtain ⟨_,_,_,visible,skipped⟩ := json_printed_exact _ scribbled _ written
  exact ⟨_,written,rfl,visible,skipped⟩

end Switchboard.Json
