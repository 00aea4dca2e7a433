import Switchboard.Proofs.Json.Skipping
import Switchboard.Proofs.Utf8

namespace Switchboard.Json

-- A hexadecimal digit, in either case.
inductive IsHexOf : Nat → UInt8 → Prop where
  | decimal {n : Nat} (small : n < 10) : IsHexOf n (UInt8.ofNat (0x30 + n))
  | lower {n : Nat} (small : n < 6) : IsHexOf (10 + n) (UInt8.ofNat (0x61 + n))
  | upper {n : Nat} (small : n < 6) : IsHexOf (10 + n) (UInt8.ofNat (0x41 + n))

inductive UnitEscape : Nat → List UInt8 → Prop where
  | digits {a b c d : Nat} {h i j k : UInt8} (first : IsHexOf a h) (second : IsHexOf b i) (third : IsHexOf c j)
      (fourth : IsHexOf d k) : UnitEscape (a * 0x1000 + b * 0x100 + c * 0x10 + d) [0x5c,0x75,h,i,j,k]

inductive ShortEscape : Char → UInt8 → Prop where
  | quote : ShortEscape '"' 0x22
  | backslash : ShortEscape '\\' 0x5c
  | slash : ShortEscape '/' 0x2f
  | backspace : ShortEscape '\x08' 0x62
  | formFeed : ShortEscape '\x0c' 0x66
  | lineFeed : ShortEscape '\n' 0x6e
  | carriageReturn : ShortEscape '\r' 0x72
  | tab : ShortEscape '\t' 0x74

-- The legal spellings of a character; the last one is for those that one escape cannot name.
inductive CharSpelling : Char → List UInt8 → Prop where
  | raw {c : Char} (visible : 0x20 ≤ c.toNat) (quote : c ≠ '"') (backslash : c ≠ '\\') :
      CharSpelling c (String.utf8EncodeChar c)
  | short {c : Char} {letter : UInt8} (named : ShortEscape c letter) : CharSpelling c [0x5c,letter]
  | unit {c : Char} {text : List UInt8} (escape : UnitEscape c.toNat text) : CharSpelling c text
  | pair {c : Char} {high low : Nat} {first second : List UInt8} (upper : 0xd800 ≤ high ∧ high ≤ 0xdbff)
      (lower : 0xdc00 ≤ low ∧ low ≤ 0xdfff) (joined : c.toNat = 0x10000 + (high - 0xd800) * 0x400 + (low - 0xdc00))
      (leading : UnitEscape high first) (trailing : UnitEscape low second) : CharSpelling c (first ++ second)

inductive CharsSpelling : List Char → List UInt8 → Prop where
  | nil : CharsSpelling [] []
  | cons {c : Char} {cs : List Char} {text bs : List UInt8} (first : CharSpelling c text) (others : CharsSpelling cs bs) :
      CharsSpelling (c :: cs) (text ++ bs)

inductive TextSpelling (s : String) : List UInt8 → Prop where
  | quoted {text : List UInt8} (spelled : CharsSpelling s.toList text) : TextSpelling s (0x22 :: (text ++ [0x22]))

theorem hexDigit_exact {b : UInt8} {n : Nat} : hexDigit? b = some n ↔ IsHexOf n b := by
  constructor
  · intro read
    unfold hexDigit? at read
    simp only [UInt8.le_iff_toNat_le,Bool.and_eq_true,decide_eq_true_eq,UInt8.reduceToNat] at read
    split at read
    · cases read
      have digit := @IsHexOf.decimal (b.toNat - 0x30) (by omega)
      rw [show 0x30 + (b.toNat - 0x30) = b.toNat by omega,UInt8.ofNat_toNat] at digit
      exact digit
    split at read
    · cases read
      have digit := @IsHexOf.lower (b.toNat - 0x61) (by omega)
      rw [show 0x61 + (b.toNat - 0x61) = b.toNat by omega,UInt8.ofNat_toNat,
        show 10 + (b.toNat - 0x61) = b.toNat - 0x57 by omega] at digit
      exact digit
    split at read
    · cases read
      have digit := @IsHexOf.upper (b.toNat - 0x41) (by omega)
      rw [show 0x41 + (b.toNat - 0x41) = b.toNat by omega,UInt8.ofNat_toNat,
        show 10 + (b.toNat - 0x41) = b.toNat - 0x37 by omega] at digit
      exact digit
    · cases read
  · intro digit
    cases digit with
    | @decimal n small =>
        revert n
        decide
    | @lower n small =>
        revert n
        decide
    | @upper n small =>
        revert n
        decide

theorem hex_small {b : UInt8} {n : Nat} (digit : IsHexOf n b) : n < 16 := by
  cases digit with
  | decimal small => omega
  | lower small => omega
  | upper small => omega

theorem escape_bound {n : Nat} {text : List UInt8} (escape : UnitEscape n text) : n < 0x10000 := by
  cases escape with
  | digits first second third fourth =>
      have high := And.intro (hex_small first) (hex_small second)
      have low := And.intro (hex_small third) (hex_small fourth)
      omega

theorem unit_exact {code : UInt16} {text : List UInt8} : (Piece.unit code).HasForm text ↔ UnitEscape code.toNat text := by
  have joined (a b c d : Nat) : ((a * 16 + b) * 16 + c) * 16 + d = a * 0x1000 + b * 0x100 + c * 0x10 + d := by omega
  constructor
  · intro form
    cases form with
    | @unit h i j k _ stands =>
        simp only [hexUnit?,Option.bind_eq_bind,Option.bind_eq_some_iff,hexDigit_exact] at stands
        obtain ⟨a,first,b,second,c,third,d,fourth,same⟩ := stands
        cases same
        have escape := UnitEscape.digits first second third fourth
        rw [joined,UInt16.toNat_ofNat_of_lt' (escape_bound escape)]
        exact escape
  · intro escape
    generalize value : code.toNat = n at escape
    cases escape with
    | @digits a b c d h i j k first second third fourth =>
        have same : UInt16.ofNat (((a * 16 + b) * 16 + c) * 16 + d) = code := by
          rw [joined,← value,UInt16.ofNat_toNat]
        apply Piece.HasForm.unit
        simp only [hexUnit?,hexDigit_exact.mpr first,hexDigit_exact.mpr second,hexDigit_exact.mpr third,
          hexDigit_exact.mpr fourth,Option.bind_eq_bind,Option.bind_some,same]
        rfl

-- The piece that an escape is read as.
theorem escape_form {n : Nat} {text : List UInt8} (escape : UnitEscape n text) :
    (Piece.unit (UInt16.ofNat n)).HasForm text ∧ (UInt16.ofNat n).toNat = n := by
  have value : (UInt16.ofNat n).toNat = n := UInt16.toNat_ofNat_of_lt' (escape_bound escape)
  refine ⟨unit_exact.mpr ?_,value⟩
  rw [value]
  exact escape

theorem short_exact {b : UInt8} {text : List UInt8} :
    (Piece.short b).HasForm text ↔ ∃ c letter, ShortEscape c letter ∧ text = [0x5c,letter] ∧ String.utf8EncodeChar c = [b] := by
  constructor
  · intro form
    cases form with
    | @short letter _ stands =>
        obtain ⟨before,after,same,_⟩ := List.lookup_eq_some_iff.mp stands
        have listed : (letter,b) ∈ shortEscapes := by
          rw [same]
          simp
        simp only [shortEscapes,List.mem_cons,Prod.mk.injEq,List.not_mem_nil,or_false] at listed
        rcases listed with ⟨rfl,rfl⟩ | ⟨rfl,rfl⟩ | ⟨rfl,rfl⟩ | ⟨rfl,rfl⟩ | ⟨rfl,rfl⟩ | ⟨rfl,rfl⟩ | ⟨rfl,rfl⟩ | ⟨rfl,rfl⟩
        · exact ⟨_,_,.quote,rfl,rfl⟩
        · exact ⟨_,_,.backslash,rfl,rfl⟩
        · exact ⟨_,_,.slash,rfl,rfl⟩
        · exact ⟨_,_,.backspace,rfl,rfl⟩
        · exact ⟨_,_,.formFeed,rfl,rfl⟩
        · exact ⟨_,_,.lineFeed,rfl,rfl⟩
        · exact ⟨_,_,.carriageReturn,rfl,rfl⟩
        · exact ⟨_,_,.tab,rfl,rfl⟩
  · intro written
    obtain ⟨c,letter,named,rfl,encoded⟩ := written
    apply Piece.HasForm.short
    cases named <;> (cases encoded; rfl)

theorem highSurrogate_exact {u : UInt16} : isHighSurrogate u = true ↔ 0xd800 ≤ u.toNat ∧ u.toNat ≤ 0xdbff := by
  simp [isHighSurrogate,UInt16.le_iff_toNat_le]

theorem lowSurrogate_exact {u : UInt16} : isLowSurrogate u = true ↔ 0xdc00 ≤ u.toNat ∧ u.toNat ≤ 0xdfff := by
  simp [isLowSurrogate,UInt16.le_iff_toNat_le]

namespace Piece

-- The pieces that a character may be read as.
inductive StandFor (c : Char) : List Piece → Prop where
  | raw (visible : 0x20 ≤ c.toNat) : StandFor c ((String.utf8EncodeChar c).map .raw)
  | short {b : UInt8} (encoded : String.utf8EncodeChar c = [b]) : StandFor c [.short b]
  | unit {u : UInt16} (code : u.toNat = c.toNat) : StandFor c [.unit u]
  | pair {u v : UInt16} (high : isHighSurrogate u = true) (low : isLowSurrogate v = true) (code : combine u v = c.toNat) :
      StandFor c [.unit u,.unit v]

theorem paired_raws {bs : List UInt8} (visible : ∀ b ∈ bs, 0x20 ≤ b) (rest : List Piece) :
    pairedBytes? (bs.map .raw ++ rest) = (pairedBytes? rest).map (bs ++ ·) := by
  induction bs with
  | nil => simp
  | cons b bs ih =>
      obtain ⟨first,others⟩ := List.forall_mem_cons.mp visible
      have solid : isControlByte b = false := by simpa [isControlByte] using first
      rw [List.map_cons,List.cons_append,pairedBytes?,if_neg (by simp [solid]),ih others]
      simp [Function.comp_def]

theorem paired_stand {c : Char} {ps : List Piece} (stand : StandFor c ps) (rest : List Piece) :
    pairedBytes? (ps ++ rest) = (pairedBytes? rest).map (String.utf8EncodeChar c ++ ·) := by
  cases stand with
  | raw visible =>
      apply paired_raws
      intro b member
      rw [UInt8.le_iff_toNat_le]
      have byte := Text.encode_byte member
      change 0x20 ≤ b.toNat
      omega
  | short encoded =>
      rw [List.singleton_append,pairedBytes?,encoded]
      rfl
  | @unit u code =>
      have bounds := Text.char_bounds c
      have notHigh : ¬ isHighSurrogate u = true := by
        rw [highSurrogate_exact]
        omega
      have notLow : ¬ isLowSurrogate u = true := by
        rw [lowSurrogate_exact]
        omega
      rw [List.singleton_append,pairedBytes?.eq_def]
      simp [notHigh,notLow,code,Text.codePoint_char]
  | pair high low code =>
      rw [List.cons_append,List.singleton_append,pairedBytes?.eq_def]
      simp [high,low,code,Text.codePoint_char]

variable {c : Char} {ps qs : List Piece} {text bs : List UInt8}

theorem written_append : Written (ps ++ qs) text ↔ ∃ xs ys, Written ps xs ∧ Written qs ys ∧ text = xs ++ ys := by
  induction ps generalizing text with
  | nil =>
      constructor
      · intro written
        exact ⟨[],text,.nil,written,rfl⟩
      · intro parts
        obtain ⟨_,ys,first,second,rfl⟩ := parts
        cases first
        exact second
  | cons p ps ih =>
      constructor
      · intro written
        cases written with
        | cons form later =>
            obtain ⟨xs,ys,first,second,rfl⟩ := ih.mp later
            exact ⟨_,ys,.cons form first,second,(List.append_assoc _ _ _).symm⟩
      · intro parts
        obtain ⟨_,ys,first,second,rfl⟩ := parts
        cases first with
        | cons form later =>
            rw [List.append_assoc]
            exact .cons form (ih.mpr ⟨_,ys,later,second,rfl⟩)

theorem written_single {p : Piece} : Written [p] text ↔ p.HasForm text := by
  constructor
  · intro written
    cases written with
    | cons form later =>
        cases later
        rw [List.append_nil]
        exact form
  · intro form
    have written := Written.cons form .nil
    rw [List.append_nil] at written
    exact written

theorem written_raws : Written (bs.map .raw) text ↔ (∀ b ∈ bs, b ≠ 0x22 ∧ b ≠ 0x5c) ∧ text = bs := by
  induction bs generalizing text with
  | nil =>
      constructor
      · intro written
        cases written
        exact ⟨by simp,rfl⟩
      · intro plain
        rw [plain.2]
        exact .nil
  | cons b bs ih =>
      constructor
      · intro written
        cases written with
        | cons form later =>
            cases form with
            | raw quote slash =>
                obtain ⟨others,rfl⟩ := ih.mp later
                exact ⟨List.forall_mem_cons.mpr ⟨⟨quote,slash⟩,others⟩,rfl⟩
      · intro plain
        obtain ⟨first,others⟩ := List.forall_mem_cons.mp plain.1
        rw [plain.2]
        exact .cons (.raw first.1 first.2) (ih.mpr ⟨others,rfl⟩)

theorem paired_cases {p : Piece} (form : p.HasForm text) (paired : pairedBytes? (p :: ps) = some bs) :
    (∃ b later, p = .raw b ∧ 0x20 ≤ b ∧ pairedBytes? ps = some later ∧ bs = b :: later) ∨
    ∃ c first rest later, p :: ps = first ++ rest ∧ StandFor c first ∧ pairedBytes? rest = some later ∧
      bs = String.utf8EncodeChar c ++ later := by
  cases form with
  | @raw b quote slash =>
      rw [pairedBytes?] at paired
      split at paired
      · cases paired
      · rename_i solid
        obtain ⟨later,found,rfl⟩ := Option.map_eq_some_iff.mp paired
        exact .inl ⟨b,later,rfl,by simpa [isControlByte] using solid,found,rfl⟩
  | @short letter b stands =>
      rw [pairedBytes?] at paired
      obtain ⟨later,found,rfl⟩ := Option.map_eq_some_iff.mp paired
      obtain ⟨c,_,_,_,encoded⟩ := short_exact.mp (.short stands)
      exact .inr ⟨c,_,ps,later,rfl,.short encoded,found,by rw [encoded]; rfl⟩
  | @unit h i j k u stands =>
      rw [pairedBytes?.eq_def] at paired
      dsimp only at paired
      split at paired
      · rename_i high
        split at paired
        · rename_i v rest
          split at paired
          · rename_i low
            obtain ⟨later,found,rfl⟩ := Option.map_eq_some_iff.mp paired
            have upper := highSurrogate_exact.mp high
            have lower := lowSurrogate_exact.mp low
            obtain ⟨c,code⟩ := Text.char_exists (n := combine u v) (by unfold combine; omega)
            exact .inr ⟨c,[.unit u,.unit v],rest,later,rfl,.pair high low code.symm,found,by rw [← code,Text.codePoint_char]⟩
          · cases paired
        · cases paired
      · rename_i notHigh
        split at paired
        · cases paired
        · rename_i notLow
          obtain ⟨later,found,rfl⟩ := Option.map_eq_some_iff.mp paired
          rw [highSurrogate_exact] at notHigh
          rw [lowSurrogate_exact] at notLow
          have bound := u.toNat_lt
          obtain ⟨c,code⟩ := Text.char_exists (n := u.toNat) (by omega)
          exact .inr ⟨c,[.unit u],ps,later,rfl,.unit code.symm,found,by rw [← code,Text.codePoint_char]⟩

-- A byte that continues a character is written as it is, since an escape starts a character of its own.
theorem paired_continued {inner : List UInt8} (written : Written ps text)
    (continues : ∀ b ∈ inner, ¬ b.IsUTF8FirstByte) (paired : pairedBytes? ps = some (inner ++ bs)) :
    ∃ rest, ps = inner.map .raw ++ rest ∧ pairedBytes? rest = some bs := by
  induction inner generalizing ps text with
  | nil => exact ⟨ps,rfl,paired⟩
  | cons b inner ih =>
      obtain ⟨first,others⟩ := List.forall_mem_cons.mp continues
      cases written with
      | nil => cases paired
      | cons form later =>
          rcases paired_cases form paired with ⟨d,rest,rfl,_,found,same⟩ | ⟨c,_,_,rest,_,_,_,same⟩
          · cases same
            obtain ⟨rest,rfl,remaining⟩ := ih later others found
            exact ⟨rest,rfl,remaining⟩
          · obtain ⟨d,tail,shape,starts,_⟩ := Text.encode_shape c
            rw [shape] at same
            rw [(List.cons.inj same).1] at first
            exact absurd starts first

theorem paired_first (written : Written ps text) (paired : pairedBytes? ps = some (String.utf8EncodeChar c ++ bs)) :
    ∃ first rest, ps = first ++ rest ∧ StandFor c first ∧ pairedBytes? rest = some bs := by
  obtain ⟨b,inner,shape,_,continues⟩ := Text.encode_shape c
  cases written with
  | nil =>
      rw [shape] at paired
      cases paired
  | cons form later =>
      rcases paired_cases form paired with ⟨d,left,rfl,visible,found,same⟩ | ⟨d,first,rest,left,split,stand,found,same⟩
      · have leading : d ∈ String.utf8EncodeChar c ∧ left = inner ++ bs := by
          rw [shape] at same ⊢
          cases same
          exact ⟨List.mem_cons_self,rfl⟩
        obtain ⟨rest,rfl,remaining⟩ := paired_continued later continues (leading.2 ▸ found)
        have solid : 0x20 ≤ c.toNat := by
          have byte := Text.encode_byte leading.1
          have low : 0x20 ≤ d.toNat := visible
          omega
        have raws := StandFor.raw solid
        rw [shape] at raws same
        cases same
        exact ⟨_,rest,rfl,raws,remaining⟩
      · obtain ⟨rfl,rfl⟩ := Text.encode_unique same
        exact ⟨first,rest,split,stand,found⟩

theorem charSpelling_exact : CharSpelling c text ↔ ∃ ps, StandFor c ps ∧ Written ps text := by
  constructor
  · intro spelling
    cases spelling with
    | raw visible quote backslash =>
        refine ⟨_,.raw visible,written_raws.mpr ⟨?_,rfl⟩⟩
        intro b member
        have byte := Text.encode_byte member
        have notQuote : c.toNat ≠ 0x22 := fun same => quote (Char.toNat_inj.mp same)
        have notSlash : c.toNat ≠ 0x5c := fun same => backslash (Char.toNat_inj.mp same)
        refine ⟨?_,?_⟩
        · intro same
          rw [same] at byte
          change 0x22 = c.toNat ∨ (_ ∧ 0x80 ≤ 0x22) at byte
          omega
        · intro same
          rw [same] at byte
          change 0x5c = c.toNat ∨ (_ ∧ 0x80 ≤ 0x5c) at byte
          omega
    | @short letter named =>
        have encoded : ∃ b, String.utf8EncodeChar c = [b] := by cases named <;> exact ⟨_,rfl⟩
        obtain ⟨b,encoded⟩ := encoded
        exact ⟨_,.short encoded,written_single.mpr (short_exact.mpr ⟨c,letter,named,rfl,encoded⟩)⟩
    | unit escape =>
        obtain ⟨form,code⟩ := escape_form escape
        exact ⟨_,.unit code,written_single.mpr form⟩
    | @pair high low _ _ upper lower joined leading trailing =>
        obtain ⟨first,highCode⟩ := escape_form leading
        obtain ⟨second,lowCode⟩ := escape_form trailing
        have isHigh : isHighSurrogate (UInt16.ofNat high) = true := by
          rw [highSurrogate_exact,highCode]
          exact upper
        have isLow : isLowSurrogate (UInt16.ofNat low) = true := by
          rw [lowSurrogate_exact,lowCode]
          exact lower
        have code : combine (UInt16.ofNat high) (UInt16.ofNat low) = 0x10000 + (high - 0xd800) * 0x400 + (low - 0xdc00) := by
          unfold combine
          rw [highCode,lowCode]
        exact ⟨_,.pair isHigh isLow (code.trans joined.symm),.cons first (written_single.mpr second)⟩
  · intro read
    obtain ⟨ps,stand,written⟩ := read
    cases stand with
    | raw visible =>
        obtain ⟨plain,rfl⟩ := written_raws.mp written
        refine .raw visible ?_ ?_
        · intro same
          rw [same] at plain
          exact (plain 0x22 (by decide)).1 rfl
        · intro same
          rw [same] at plain
          exact (plain 0x5c (by decide)).2 rfl
    | short encoded =>
        obtain ⟨d,letter,named,rfl,also⟩ := short_exact.mp (written_single.mp written)
        rw [← also] at encoded
        obtain ⟨rfl,_⟩ := Text.encode_unique (congrArg (· ++ []) encoded)
        exact .short named
    | unit code =>
        have escape := unit_exact.mp (written_single.mp written)
        rw [code] at escape
        exact .unit escape
    | pair high low code =>
        cases written with
        | cons first others =>
            exact .pair (highSurrogate_exact.mp high) (lowSurrogate_exact.mp low) code.symm (unit_exact.mp first)
              (unit_exact.mp (written_single.mp others))

theorem characters_exact {cs : List Char} :
    CharsSpelling cs text ↔ ∃ ps, Written ps text ∧ pairedBytes? ps = some (cs.flatMap String.utf8EncodeChar) := by
  constructor
  · intro spelled
    induction spelled with
    | nil => exact ⟨[],.nil,rfl⟩
    | cons first _ ih =>
        obtain ⟨ps,stand,written⟩ := charSpelling_exact.mp first
        obtain ⟨qs,others,paired⟩ := ih
        refine ⟨ps ++ qs,written_append.mpr ⟨_,_,written,others,rfl⟩,?_⟩
        rw [paired_stand stand,paired]
        rfl
  · intro read
    obtain ⟨ps,written,paired⟩ := read
    induction cs generalizing ps text with
    | nil =>
        cases written with
        | nil => exact .nil
        | cons form later =>
            rcases paired_cases form paired with ⟨_,_,_,_,_,same⟩ | ⟨c,_,_,_,_,_,_,same⟩
            · cases same
            · obtain ⟨b,inner,shape,_⟩ := Text.encode_shape c
              rw [shape] at same
              cases same
    | cons c cs ih =>
        obtain ⟨first,rest,rfl,stand,remaining⟩ := paired_first written paired
        obtain ⟨xs,ys,leading,trailing,rfl⟩ := written_append.mp written
        exact .cons (charSpelling_exact.mpr ⟨first,stand,leading⟩) (ih rest trailing remaining)

end Piece

-- An item of a string, a control character that is not allowed there included.
def IsItem (item : List UInt8) : Prop := IsChar item ∨ ∃ b : UInt8, b < 0x20 ∧ item = [b]

-- A surrogate between the items in front of it and the bytes behind it, with no partner on the side where it should be.
inductive Unpaired (items : List (List UInt8)) (tail : List UInt8) : Nat → Prop where
  | high {n : Nat} (upper : 0xd800 ≤ n ∧ n ≤ 0xdbff)
      (unmet : ∀ low text, 0xdc00 ≤ low ∧ low ≤ 0xdfff → UnitEscape low text → ¬ text <+: tail) : Unpaired items tail n
  | low {n : Nat} (lower : 0xdc00 ≤ n ∧ n ≤ 0xdfff)
      (unmet : ∀ high text, 0xd800 ≤ high ∧ high ≤ 0xdbff → UnitEscape high text → ¬ [text] <:+ items) :
      Unpaired items tail n

namespace Piece

-- A surrogate among pieces that lacks its partner.
inductive Lone (left right : List Piece) (u : UInt16) : Prop where
  | high (upper : isHighSurrogate u = true) (unmet : ∀ v rest, right = .unit v :: rest → isLowSurrogate v = false)
  | low (lower : isLowSurrogate u = true) (unmet : ∀ v rest, left = rest ++ [.unit v] → isHighSurrogate v = false)

theorem lone_later {p : Piece} {left right : List Piece} {u : UInt16} (lone : Lone (p :: left) right u) : Lone left right u := by
  cases lone with
  | high upper unmet => exact .high upper unmet
  | low lower unmet =>
      refine .low lower ?_
      intro v rest same
      exact unmet v (p :: rest) (by rw [same]; rfl)

theorem high_or_low {u : UInt16} (high : isHighSurrogate u = true) : isLowSurrogate u = false := by
  have upper := highSurrogate_exact.mp high
  rw [Bool.eq_false_iff,ne_eq,lowSurrogate_exact]
  omega

theorem paired_lone {left right : List Piece} {u : UInt16} (lone : Lone left right u) :
    pairedBytes? (left ++ .unit u :: right) = none := by
  generalize whole : left ++ .unit u :: right = ps
  fun_induction pairedBytes? ps generalizing left with
  | case1 => simp at whole
  | case2 | case6 | case7 | case8 => rfl
  | case3 b rest solid ih =>
      cases left with
      | nil => cases whole
      | cons p left =>
          cases whole
          rw [ih (lone_later lone) rfl,Option.map_none]
  | case4 b rest ih =>
      cases left with
      | nil => cases whole
      | cons p left =>
          cases whole
          rw [ih (lone_later lone) rfl,Option.map_none]
  | case5 w high v rest low ih =>
      cases left with
      | nil =>
          cases whole
          cases lone with
          | high _ unmet =>
              rw [unmet v rest rfl] at low
              cases low
          | low lower _ =>
              rw [high_or_low high] at lower
              cases lower
      | cons p left =>
          cases left with
          | nil =>
              cases whole
              cases lone with
              | high upper _ =>
                  rw [high_or_low upper] at low
                  cases low
              | low _ unmet =>
                  rw [unmet w [] rfl] at high
                  cases high
          | cons q left =>
              cases whole
              rw [ih (lone_later (lone_later lone)) rfl,Option.map_none]
  | case9 w rest notHigh notLow ih =>
      cases left with
      | nil =>
          cases whole
          cases lone with
          | high upper _ => exact absurd upper notHigh
          | low lower _ => exact absurd lower notLow
      | cons p left =>
          cases whole
          rw [ih (lone_later lone) rfl,Option.map_none]

end Piece

theorem item_form {item : List UInt8} (shape : IsItem item) : ∃ p : Piece, p.HasForm item := by
  rcases shape with char | ⟨b,control,rfl⟩
  · obtain ⟨p,form,_⟩ := char_exact.mp char
    exact ⟨p,form⟩
  · refine ⟨_,.raw ?_ ?_⟩
    · rintro rfl
      exact absurd control (by decide)
    · rintro rfl
      exact absurd control (by decide)

theorem items_forms {items : List (List UInt8)} (each : ∀ item ∈ items, IsItem item) :
    ∃ left : List Piece, List.Forall₂ Piece.HasForm left items := by
  induction items with
  | nil => exact ⟨[],.nil⟩
  | cons item items ih =>
      obtain ⟨first,others⟩ := List.forall_mem_cons.mp each
      obtain ⟨p,form⟩ := item_form first
      obtain ⟨left,forms⟩ := ih others
      exact ⟨p :: left,.cons form forms⟩

theorem pieces_forms {left : List Piece} {items : List (List UInt8)} (forms : List.Forall₂ Piece.HasForm left items)
    (more : List UInt8) :
    pieces (items.flatten ++ more) = (pieces more).map (fun result => (left ++ result.1,result.2)) := by
  induction forms with
  | nil => simp
  | cons form _ ih =>
      rw [List.flatten_cons,List.append_assoc,pieces_form form,ih,Option.map_map]
      rfl

theorem forms_last {left : List Piece} {p : Piece} {items : List (List UInt8)}
    (forms : List.Forall₂ Piece.HasForm (left ++ [p]) items) : ∃ text, p.HasForm text ∧ [text] <:+ items := by
  induction left generalizing items with
  | nil =>
      cases forms with
      | cons form others =>
          cases others
          exact ⟨_,form,List.suffix_rfl⟩
  | cons q left ih =>
      cases forms with
      | cons _ others =>
          obtain ⟨text,form,ends⟩ := ih others
          exact ⟨text,form,ends.trans (List.suffix_cons _ _)⟩

theorem pieces_front {bs rest : List UInt8} {p : Piece} {ps : List Piece} (read : pieces bs = some (p :: ps,rest)) :
    ∃ text, p.HasForm text ∧ text <+: bs := by
  obtain ⟨_,written,split⟩ := pieces_exact.mp read
  cases written with
  | cons form _ =>
      rw [split,List.append_assoc]
      exact ⟨_,form,List.prefix_append _ _⟩

theorem unpaired_lone {items : List (List UInt8)} {tail rest : List UInt8} {n : Nat} {left right : List Piece} {u : UInt16}
    (unpaired : Unpaired items tail n) (code : u.toNat = n) (forms : List.Forall₂ Piece.HasForm left items)
    (later : pieces tail = some (right,rest)) : Piece.Lone left right u := by
  cases unpaired with
  | high upper unmet =>
      refine .high (highSurrogate_exact.mpr (code ▸ upper)) ?_
      intro v others same
      rw [same] at later
      obtain ⟨text,form,leads⟩ := pieces_front later
      rw [Bool.eq_false_iff,ne_eq,lowSurrogate_exact]
      intro low
      exact unmet _ text low (unit_exact.mp form) leads
  | low lower unmet =>
      refine .low (lowSurrogate_exact.mpr (code ▸ lower)) ?_
      intro v others same
      rw [same] at forms
      obtain ⟨text,form,ends⟩ := forms_last forms
      rw [Bool.eq_false_iff,ne_eq,highSurrogate_exact]
      intro high
      exact unmet _ text high (unit_exact.mp form) ends

theorem pieces_unpaired {items : List (List UInt8)} {escape tail rest : List UInt8} {n : Nat} {ps : List Piece}
    (each : ∀ item ∈ items, IsItem item) (escaped : UnitEscape n escape) (unpaired : Unpaired items tail n)
    (read : pieces (items.flatten ++ (escape ++ tail)) = some (ps,rest)) : Piece.pairedBytes? ps = none := by
  obtain ⟨left,forms⟩ := items_forms each
  obtain ⟨form,code⟩ := escape_form escaped
  rw [pieces_forms forms,pieces_form form,Option.map_map] at read
  obtain ⟨⟨right,_⟩,later,same⟩ := Option.map_eq_some_iff.mp read
  cases same
  exact Piece.paired_lone (unpaired_lone unpaired code forms later)

theorem text_spelled {ps : List Piece} {s : String} :
    Piece.text? ps = some s ↔ Piece.pairedBytes? ps = some (s.toList.flatMap String.utf8EncodeChar) := by
  rw [Piece.text?,Option.bind_eq_some_iff,← Splitting.bytes_flatMap]
  constructor
  · intro read
    obtain ⟨bs,paired,whole⟩ := read
    rw [paired,Text.ofBytes_exact.mp whole]
  · intro paired
    exact ⟨_,paired,Text.ofBytes_exact.mpr rfl⟩

theorem decode_text {body : List UInt8} {s : String} :
    decode .text body = some s ↔ ∃ before tail ps after, Blank before ∧ body = before ++ 0x22 :: tail ∧
      pieces tail = some (ps,after) ∧ Blank after ∧ Piece.text? ps = some s := by
  rw [decode,Option.bind_eq_some_iff]
  constructor
  · intro read
    obtain ⟨node,parsed,typed⟩ := read
    obtain ⟨after,valued,blank⟩ := parse_exact.mp parsed
    have begins := value_exact.mp valued
    obtain ⟨before,front,split⟩ := skipSpace_split body
    generalize skipSpace body = shown at begins split
    cases begins with
    | string spelled => exact ⟨before,_,_,after,front,split,spelled,blank,typed⟩
    | _ => cases typed
  · intro read
    obtain ⟨before,tail,ps,after,front,rfl,spelled,blank,typed⟩ := read
    refine ⟨.string ps,parse_exact.mpr ⟨after,?_,blank⟩,typed⟩
    rw [value_exact,skipSpace_gap front (by decide)]
    exact .string spelled

theorem decode_spelled {body : List UInt8} {s : String} : decode .text body = some s ↔ Padded (TextSpelling s) body := by
  rw [decode_text]
  constructor
  · intro read
    obtain ⟨before,tail,ps,after,front,rfl,spelled,blank,typed⟩ := read
    obtain ⟨text,written,rfl⟩ := pieces_exact.mp spelled
    have characters := Piece.characters_exact.mpr ⟨ps,written,text_spelled.mp typed⟩
    have padded := Padded.mk front (TextSpelling.quoted characters) blank
    rw [List.cons_append,List.append_assoc] at padded
    exact padded
  · intro padded
    cases padded with
    | @mk before _ after front spelling blank =>
        cases spelling with
        | quoted characters =>
            obtain ⟨ps,written,paired⟩ := Piece.characters_exact.mp characters
            refine ⟨before,_,ps,after,front,by rw [List.cons_append],?_,blank,text_spelled.mpr paired⟩
            exact pieces_exact.mpr ⟨_,written,List.append_assoc _ _ _⟩

theorem decode_unpaired {before escape tail : List UInt8} {items : List (List UInt8)} {n : Nat} (front : Blank before)
    (each : ∀ item ∈ items, IsItem item) (escaped : UnitEscape n escape) (unpaired : Unpaired items tail n) :
    decode .text (before ++ 0x22 :: (items.flatten ++ (escape ++ tail))) = none := by
  rw [Option.eq_none_iff_forall_ne_some]
  intro s read
  obtain ⟨gap,shown,ps,after,blank,split,spelled,_,typed⟩ := decode_text.mp read
  have same : items.flatten ++ (escape ++ tail) = shown := by
    have skipped := congrArg skipSpace split
    rw [skipSpace_gap front (by decide),skipSpace_gap blank (by decide)] at skipped
    exact (List.cons.inj skipped).2
  rw [← same] at spelled
  rw [Piece.text?,pieces_unpaired each escaped unpaired spelled] at typed
  cases typed

theorem json_string_exact (p : Payload)
    (taken : ∀ given, p.contentType = some given → Serializer.json.accepts given = true) :
    (∀ s, Serializer.json.fromPayload .text p = .ok s ↔ Padded (TextSpelling s) p.body) ∧
    ((∀ s, ¬ Padded (TextSpelling s) p.body) →
      Serializer.json.fromPayload .text p = .error (.decode applicationJson .codec)) ∧
    (∀ before items n escape tail, Blank before → (∀ item ∈ items, IsItem item) → UnitEscape n escape →
      Unpaired items tail n → p.body = before ++ 0x22 :: (items.flatten ++ (escape ++ tail)) →
        Serializer.json.fromPayload .text p = .error (.decode applicationJson .codec)) := by
  have refused (unread : decode .text p.body = none) :
      Serializer.json.fromPayload .text p = .error (.decode applicationJson .codec) := by
    rw [Serializer.json_taken taken,unread]
    rfl
  refine ⟨?_,?_,?_⟩
  · intro s
    rw [Serializer.json_ok,decode_spelled]
    exact and_iff_right taken
  · intro unspelled
    apply refused
    rw [Option.eq_none_iff_forall_ne_some]
    intro s read
    exact unspelled s (decode_spelled.mp read)
  · intro before items n escape tail front each escaped unpaired shape
    apply refused
    rw [shape]
    exact decode_unpaired front each escaped unpaired

-- A character as it is, a surrogate pair in both cases, a short escape and a long one; and the pair the wrong way round.
theorem json_surrogate_pair_read_swapped_pair_refused :
    Serializer.json.fromPayload .text (.untyped [0x22,0xc3,0xa9,0x5c,0x75,0x44,0x38,0x33,0x34,0x5c,0x75,0x64,0x64,0x31,0x65,
      0x5c,0x2f,0x5c,0x75,0x30,0x30,0x30,0x41,0x22]) = .ok "é𝄞/\n" ∧
    Serializer.json.fromPayload .text (.untyped [0x22,0x5c,0x75,0x64,0x64,0x31,0x65,0x5c,0x75,0x44,0x38,0x33,0x34,0x22]) =
      .error (.decode applicationJson .codec) := by
  have nothing : Blank [] := by
    intro b member
    cases member
  have high : UnitEscape 0xd834 [0x5c,0x75,0x44,0x38,0x33,0x34] := (@unit_exact 0xd834 _).mp (.unit rfl)
  have low : UnitEscape 0xdd1e [0x5c,0x75,0x64,0x64,0x31,0x65] := (@unit_exact 0xdd1e _).mp (.unit rfl)
  have joined : '𝄞'.toNat = 0x10000 + (0xd834 - 0xd800) * 0x400 + (0xdd1e - 0xdc00) := by decide
  have clef : CharSpelling '𝄞' _ := .pair ⟨by decide,by decide⟩ ⟨by decide,by decide⟩ joined high low
  have newline : UnitEscape '\n'.toNat [0x5c,0x75,0x30,0x30,0x30,0x41] := (@unit_exact 0x0a _).mp (.unit rfl)
  have accent : CharSpelling 'é' [0xc3,0xa9] := .raw (by decide) (by decide) (by decide)
  have spelled : CharsSpelling "é𝄞/\n".toList _ := .cons accent (.cons clef (.cons (.short .slash) (.cons (.unit newline) .nil)))
  refine ⟨?_,?_⟩
  · exact ((json_string_exact (.untyped _) (fun _ typed => by cases typed)).1 _).mpr
      (Padded.mk nothing (TextSpelling.quoted spelled) nothing)
  · refine (json_string_exact (.untyped _) (fun _ typed => by cases typed)).2.2 [] [] _ _ _ nothing ?_ low (.low ?_ ?_) rfl
    · intro item member
      cases member
    · decide
    · intro _ _ _ _ ends
      cases List.suffix_nil.mp ends

end Switchboard.Json
