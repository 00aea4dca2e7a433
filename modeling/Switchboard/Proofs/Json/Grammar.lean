import Mathlib.Data.Set.List
import Switchboard.Proofs.Json.Integer
import Switchboard.Proofs.Json.RoundTrip

namespace Switchboard.Json

-- The written forms of JSON, as predicates on the bytes that they cover.

def IsDigit (b : UInt8) : Prop := 0x30 ≤ b ∧ b ≤ 0x39

inductive IsWhole : List UInt8 → Prop where
  | zero : IsWhole [0x30]
  | digits {b : UInt8} {bs : List UInt8} (leading : 0x31 ≤ b ∧ b ≤ 0x39) (others : ∀ d ∈ bs, IsDigit d) :
      IsWhole (b :: bs)

inductive IsFraction : List UInt8 → Prop where
  | absent : IsFraction []
  | digits {bs : List UInt8} (present : bs ≠ []) (each : ∀ d ∈ bs, IsDigit d) : IsFraction (0x2e :: bs)

inductive IsExponent : List UInt8 → Prop where
  | absent : IsExponent []
  | digits {letter : UInt8} {sign bs : List UInt8} (e : letter = 0x65 ∨ letter = 0x45)
      (signed : sign = [] ∨ sign = [0x2b] ∨ sign = [0x2d]) (present : bs ≠ []) (each : ∀ d ∈ bs, IsDigit d) :
      IsExponent (letter :: (sign ++ bs))

inductive IsNumber : List UInt8 → Prop where
  | parts {sign whole fraction exponent : List UInt8} (signed : sign = [] ∨ sign = [0x2d]) (int : IsWhole whole)
      (frac : IsFraction fraction) (exp : IsExponent exponent) : IsNumber (sign ++ (whole ++ (fraction ++ exponent)))

def IsHex (b : UInt8) : Prop := IsDigit b ∨ (0x41 ≤ b ∧ b ≤ 0x46) ∨ (0x61 ≤ b ∧ b ≤ 0x66)

inductive IsChar : List UInt8 → Prop where
  | plain {b : UInt8} (visible : 0x20 ≤ b) (quote : b ≠ 0x22) (slash : b ≠ 0x5c) : IsChar [b]
  | short {letter : UInt8} (known : letter ∈ [(0x22 : UInt8),0x5c,0x2f,0x62,0x66,0x6e,0x72,0x74]) :
      IsChar [0x5c,letter]
  | unit {h i j k : UInt8} (hex : ∀ d ∈ [h,i,j,k], IsHex d) : IsChar [0x5c,0x75,h,i,j,k]

inductive IsString : List UInt8 → Prop where
  | quoted {chars : List (List UInt8)} (each : ∀ c ∈ chars, IsChar c) : IsString (0x22 :: (chars.flatten ++ [0x22]))

section Forms

variable (form : List UInt8 → Prop)

inductive Padded : List UInt8 → Prop where
  | mk {before bs after : List UInt8} (front : Blank before) (inner : form bs) (back : Blank after) :
      Padded (before ++ (bs ++ after))

inductive Separated : List UInt8 → Prop where
  | last {bs : List UInt8} (item : form bs) : Separated bs
  | more {bs rest : List UInt8} (item : form bs) (others : Separated rest) : Separated (bs ++ 0x2c :: rest)

inductive Enclosed (opening closing : UInt8) : List UInt8 → Prop where
  | empty {gap : List UInt8} (blank : Blank gap) : Enclosed opening closing (opening :: (gap ++ [closing]))
  | filled {bs : List UInt8} (items : Separated form bs) : Enclosed opening closing (opening :: (bs ++ [closing]))

inductive IsMember : List UInt8 → Prop where
  | mk {key item : List UInt8} (name : Padded IsString key) (value : Padded form item) :
      IsMember (key ++ 0x3a :: item)

end Forms

inductive IsValue : List UInt8 → Prop where
  | null : IsValue [0x6e,0x75,0x6c,0x6c]
  | true : IsValue [0x74,0x72,0x75,0x65]
  | false : IsValue [0x66,0x61,0x6c,0x73,0x65]
  | number {bs : List UInt8} (text : IsNumber bs) : IsValue bs
  | string {bs : List UInt8} (text : IsString bs) : IsValue bs
  | array {bs : List UInt8} (items : Enclosed (Padded IsValue) 0x5b 0x5d bs) : IsValue bs
  | object {bs : List UInt8} (members : Enclosed (IsMember IsValue) 0x7b 0x7d bs) : IsValue bs

def IsText (bs : List UInt8) : Prop := Padded IsValue bs

section Numbers

variable {bs : List UInt8}

theorem isDigit_exact {b : UInt8} : IsDigit b ↔ ∃ d : Digit, Digits.byte d = b := by
  constructor
  · rintro ⟨low,high⟩
    have within : 0x30 ≤ b.toNat ∧ b.toNat < 0x3a := ⟨low,Nat.lt_succ_of_le high⟩
    have read : Digits.ofByte? b = some ⟨b.toNat - 0x30,by omega⟩ := dif_pos within
    exact ⟨_,(Digits.byte_ofByte read).symm⟩
  · rintro ⟨d,rfl⟩
    revert d
    unfold IsDigit
    decide

theorem digits_exact : (∀ b ∈ bs, IsDigit b) ↔ ∃ ds : List Digit, ds.map Digits.byte = bs := by
  simp only [isDigit_exact]
  exact (Set.ext_iff.mp (Set.range_list_map Digits.byte) bs).symm

theorem leading_exact (d : Digit) : (0x31 ≤ Digits.byte d ∧ Digits.byte d ≤ 0x39) ↔ 0 < d.val := by
  revert d
  decide

theorem whole_exact : IsWhole bs ↔ ∃ ds, Digits.Whole ds ∧ ds.map Digits.byte = bs := by
  constructor
  · intro whole
    cases whole with
    | zero => exact ⟨[Digits.zero],⟨_,[],rfl,.inl rfl⟩,rfl⟩
    | @digits b bs leading others =>
        have digit : IsDigit b := ⟨UInt8.le_trans (by decide) leading.1,leading.2⟩
        obtain ⟨d,rfl⟩ := isDigit_exact.mp digit
        obtain ⟨ds,rfl⟩ := digits_exact.mp others
        exact ⟨d :: ds,⟨d,ds,rfl,.inr ((leading_exact d).mp leading)⟩,rfl⟩
  · rintro ⟨_,⟨d,ds,rfl,alone⟩,rfl⟩
    by_cases positive : 0 < d.val
    · exact .digits ((leading_exact d).mpr positive) (digits_exact.mpr ⟨ds,rfl⟩)
    · have zero : d = Digits.zero := Fin.ext (Nat.eq_zero_of_not_pos positive)
      have empty : ds = [] := alone.resolve_right positive
      subst zero empty
      exact .zero

theorem fraction_exact : IsFraction bs ↔ ∃ fraction, (∀ ds ∈ fraction, ds ≠ []) ∧ fractionBytes fraction = bs := by
  constructor
  · intro frac
    cases frac with
    | absent => exact ⟨none,by simp,rfl⟩
    | digits present each =>
        obtain ⟨ds,rfl⟩ := digits_exact.mp each
        exact ⟨some ds,by simpa using present,rfl⟩
  · rintro ⟨fraction,present,rfl⟩
    cases fraction with
    | none => exact .absent
    | some ds => exact .digits (by simpa using present) (digits_exact.mpr ⟨ds,rfl⟩)

theorem exponent_exact : IsExponent bs ↔ ∃ exponent, (∀ e ∈ exponent, e.digits ≠ []) ∧ exponentBytes exponent = bs := by
  constructor
  · intro exp
    cases exp with
    | absent => exact ⟨none,by simp,rfl⟩
    | digits e signed present each =>
        obtain ⟨ds,rfl⟩ := digits_exact.mp each
        have filled : ds ≠ [] := by simpa using present
        have written : ∀ capital sign, ∃ exponent, (∀ e ∈ exponent, e.digits ≠ []) ∧
            exponentBytes exponent = exponentBytes (some ⟨capital,sign,ds⟩) :=
          fun capital sign => ⟨some ⟨capital,sign,ds⟩,by simpa using filled,rfl⟩
        rcases e with rfl | rfl
        · rcases signed with rfl | rfl | rfl
          · exact written false .bare
          · exact written false .plus
          · exact written false .minus
        · rcases signed with rfl | rfl | rfl
          · exact written true .bare
          · exact written true .plus
          · exact written true .minus
  · rintro ⟨exponent,present,rfl⟩
    cases exponent with
    | none => exact .absent
    | some e =>
        obtain ⟨capital,sign,ds⟩ := e
        have filled : ds.map Digits.byte ≠ [] := by simpa using present
        refine .digits ?_ ?_ filled (digits_exact.mpr ⟨ds,rfl⟩)
        · cases capital <;> simp
        · cases sign <;> simp

theorem number_exact : IsNumber bs ↔ ∃ t : NumberText, t.WellFormed ∧ t.render = bs := by
  constructor
  · rintro ⟨signed,int,frac,exp⟩
    obtain ⟨whole,leading,rfl⟩ := whole_exact.mp int
    obtain ⟨fraction,point,rfl⟩ := fraction_exact.mp frac
    obtain ⟨exponent,letter,rfl⟩ := exponent_exact.mp exp
    rcases signed with rfl | rfl
    · exact ⟨⟨false,whole,fraction,exponent⟩,⟨leading,point,letter⟩,NumberText.render_parts _⟩
    · exact ⟨⟨true,whole,fraction,exponent⟩,⟨leading,point,letter⟩,NumberText.render_parts _⟩
  · rintro ⟨t,wellFormed,rfl⟩
    rw [t.render_parts]
    refine .parts ?_ (whole_exact.mpr ⟨_,wellFormed.whole,rfl⟩) (fraction_exact.mpr ⟨_,wellFormed.fraction,rfl⟩)
      (exponent_exact.mpr ⟨_,wellFormed.exponent,rfl⟩)
    cases t.negative with
    | true => exact .inr rfl
    | false => exact .inl rfl

end Numbers

section Strings

variable {after : List UInt8} {ps : List Piece}

theorem hex_exact {b : UInt8} : (hexDigit? b).isSome = true ↔ IsHex b := by
  unfold hexDigit? IsHex IsDigit
  grind

theorem hexUnit_exact {h i j k : UInt8} : (hexUnit? h i j k).isSome = true ↔ ∀ d ∈ [h,i,j,k], IsHex d := by
  simp only [List.forall_mem_cons,← hex_exact,hexUnit?]
  cases hexDigit? h <;> cases hexDigit? i <;> cases hexDigit? j <;> cases hexDigit? k <;> simp

theorem escaped_exact {letter : UInt8} :
    (escaped? letter).isSome = true ↔ letter ∈ [(0x22 : UInt8),0x5c,0x2f,0x62,0x66,0x6e,0x72,0x74] := by
  rw [escaped?,List.lookup_isSome_iff]
  simp [shortEscapes]

theorem visible_exact {b : UInt8} : (Piece.raw b).isClean = true ↔ 0x20 ≤ b := by
  simp [Piece.isClean,isControlByte]

theorem char_exact {c : List UInt8} : IsChar c ↔ ∃ p : Piece, p.HasForm c ∧ p.isClean = true := by
  constructor
  · intro char
    cases char with
    | plain visible quote slash => exact ⟨_,.raw quote slash,visible_exact.mpr visible⟩
    | short known =>
        obtain ⟨b,stands⟩ := Option.isSome_iff_exists.mp (escaped_exact.mpr known)
        exact ⟨_,.short stands,rfl⟩
    | unit hex =>
        obtain ⟨code,stands⟩ := Option.isSome_iff_exists.mp (hexUnit_exact.mpr hex)
        exact ⟨_,.unit stands,rfl⟩
  · intro written
    obtain ⟨p,form,clean⟩ := written
    cases form with
    | raw quote slash => exact .plain (visible_exact.mp clean) quote slash
    | short stands => exact .short (escaped_exact.mp (Option.isSome_iff_exists.mpr ⟨_,stands⟩))
    | unit stands => exact .unit (hexUnit_exact.mp (Option.isSome_iff_exists.mpr ⟨_,stands⟩))

theorem pieces_sound {bs : List UInt8} (read : pieces bs = some (ps,after)) (clean : ps.all Piece.isClean = true) :
    ∃ chars : List (List UInt8), (∀ c ∈ chars, IsChar c) ∧ bs = chars.flatten ++ 0x22 :: after := by
  obtain ⟨text,written,split⟩ := pieces_exact.mp read
  have spelled : ∃ chars : List (List UInt8), (∀ c ∈ chars, IsChar c) ∧ text = chars.flatten := by
    clear read split
    induction written with
    | nil => exact ⟨[],by simp,rfl⟩
    | cons form _ ih =>
        obtain ⟨first,others⟩ := Bool.and_eq_true_iff.mp clean
        obtain ⟨chars,each,same⟩ := ih others
        exact ⟨_ :: chars,List.forall_mem_cons.mpr ⟨char_exact.mpr ⟨_,form,first⟩,each⟩,by rw [same]; rfl⟩
  obtain ⟨chars,each,same⟩ := spelled
  exact ⟨chars,each,by rw [split,same]⟩

theorem pieces_complete {chars : List (List UInt8)} (each : ∀ c ∈ chars, IsChar c) (after : List UInt8) :
    ∃ ps, pieces (chars.flatten ++ 0x22 :: after) = some (ps,after) ∧ ps.all Piece.isClean = true := by
  induction chars with
  | nil => exact ⟨[],pieces_quote after,rfl⟩
  | cons c chars ih =>
      obtain ⟨first,others⟩ := List.forall_mem_cons.mp each
      obtain ⟨ps,later,clean⟩ := ih others
      obtain ⟨p,form,fresh⟩ := char_exact.mp first
      refine ⟨p :: ps,?_,?_⟩
      · rw [List.flatten_cons,List.append_assoc,pieces_form form,later,Option.map_some]
      · rw [List.all_cons,fresh,clean]
        rfl

end Strings

-- What may stand behind an item: nothing, or what separates or closes.
def Delimited (rest : List UInt8) : Prop := ∀ b ∈ rest.head?, Delimits b

-- Only items that are all right count. White space behind an item is left to whoever asked for it.
structure Accepts {α : Type} (item : Reader α) (ok : α → Prop) (form : List UInt8 → Prop) (bound : Nat) : Prop where
  sound : ∀ {bs x rest}, item bs = some (x,rest) → ok x →
    ∃ taken, bs = taken ++ rest ∧ ∀ gap, Blank gap → form (taken ++ gap)
  complete : ∀ {bs}, form bs → bs.length < bound → ∀ {rest}, Delimited rest →
    ∃ x gap, item (bs ++ rest) = some (x,gap ++ rest) ∧ Blank gap ∧ ok x
  front : ∀ bs, item (skipSpace bs) = item bs
  closed : ∀ {bs b rest}, skipSpace bs = b :: rest → b = 0x5d ∨ b = 0x7d → item bs = none

section Brackets

variable {α : Type} {item : Reader α} {ok : α → Prop} {form : List UInt8 → Prop} {bound : Nat}
  {close : UInt8} {bs rest : List UInt8} {xs : List α}

theorem skipSpace_gap {gap : List UInt8} (blank : Blank gap) {b : UInt8} (solid : isSpace b = false) (rest : List UInt8) :
    skipSpace (gap ++ b :: rest) = b :: rest := by
  rw [skipSpace_append blank,skipSpace_solid solid]

theorem delimited_cons {b : UInt8} (delimits : Delimits b) (rest : List UInt8) : Delimited (b :: rest) := by
  rintro _ ⟨⟩
  exact delimits

theorem commaList_sound (accepts : Accepts item ok form bound) {fuel : Nat}
    (read : commaList item close fuel bs = some (xs,rest)) (all : ∀ x ∈ xs, ok x) :
    ∃ taken, Separated form taken ∧ bs = taken ++ close :: rest := by
  induction fuel generalizing bs xs with
  | zero => cases read
  | succ fuel ih =>
      obtain ⟨x,middle,b,tail,first,found,next⟩ := commaList_exact.mp read
      obtain ⟨gap,blank,whole⟩ := skipSpace_split middle
      rw [found] at whole
      rcases next with ⟨comma,ys,others,same⟩ | ⟨_,closing,same,left⟩
      · rw [same] at all
        obtain ⟨here,there⟩ := List.forall_mem_cons.mp all
        obtain ⟨taken,split,shape⟩ := accepts.sound first here
        obtain ⟨more,separated,cut⟩ := ih others there
        refine ⟨taken ++ gap ++ 0x2c :: more,.more (shape gap blank) separated,?_⟩
        rw [split,whole,comma,cut]
        simp
      · obtain ⟨taken,split,shape⟩ := accepts.sound first (all x (by rw [same]; exact List.mem_singleton_self x))
        refine ⟨taken ++ gap,.last (shape gap blank),?_⟩
        rw [split,whole,closing,left,List.append_assoc]

theorem commaList_complete (accepts : Accepts item ok form bound) (closing : close = 0x5d ∨ close = 0x7d)
    (separated : Separated form bs) (short : bs.length < bound) {fuel : Nat} (enough : bs.length < fuel)
    (rest : List UInt8) :
    ∃ xs, commaList item close fuel (bs ++ close :: rest) = some (xs,rest) ∧ ∀ x ∈ xs, ok x := by
  have delimits : Delimits close := .inr closing
  have notComma : close ≠ 0x2c := by rcases closing with rfl | rfl <;> decide
  induction separated generalizing fuel with
  | @last bs shape =>
      obtain ⟨fuel,rfl⟩ := Nat.exists_eq_add_of_lt enough
      obtain ⟨x,gap,read,blank,right⟩ := accepts.complete shape short (delimited_cons delimits rest)
      refine ⟨[x],?_,by simpa using right⟩
      simp [commaList,read,skipSpace_gap blank (delimiter_solid delimits),notComma]
  | @more bs others shape separated ih =>
      obtain ⟨fuel,rfl⟩ := Nat.exists_eq_add_of_le' (Nat.le_trans (Nat.le_add_left 1 _) enough)
      rw [List.length_append,List.length_cons] at short enough
      have comma : Delimits 0x2c := .inl rfl
      have fewer : others.length < fuel := by omega
      obtain ⟨x,gap,read,blank,right⟩ := accepts.complete shape (by omega) (delimited_cons comma (others ++ close :: rest))
      obtain ⟨xs,later,all⟩ := ih (by omega) fewer
      refine ⟨x :: xs,?_,List.forall_mem_cons.mpr ⟨right,all⟩⟩
      rw [List.append_assoc,List.cons_append,commaList,read]
      simp [skipSpace_gap blank (delimiter_solid comma),later]

theorem bracketed_sound (accepts : Accepts item ok form bound) (read : bracketed item close bs = some (xs,rest))
    (all : ∀ x ∈ xs, ok x) :
    ∃ inner, (Blank inner ∨ Separated form inner) ∧ bs = inner ++ close :: rest := by
  obtain ⟨gap,blank,whole⟩ := skipSpace_split bs
  cases found : skipSpace bs with
  | nil => simp [bracketed,found] at read
  | cons b tail =>
      rw [bracketed_eq accepts.front found] at read
      split at read
      · rename_i closing
        cases read
        rw [found,closing] at whole
        exact ⟨gap,.inl blank,whole⟩
      · obtain ⟨taken,separated,split⟩ := commaList_sound accepts read all
        exact ⟨taken,.inr separated,split⟩

theorem bracketed_complete (accepts : Accepts item ok form bound) (closing : close = 0x5d ∨ close = 0x7d)
    {inner : List UInt8} (content : Blank inner ∨ Separated form inner) (short : inner.length < bound)
    (rest : List UInt8) :
    ∃ xs, bracketed item close (inner ++ close :: rest) = some (xs,rest) ∧ ∀ x ∈ xs, ok x := by
  rcases content with blank | separated
  · have solid := delimiter_solid (b := close) (.inr closing)
    refine ⟨[],?_,by simp⟩
    rw [bracketed_eq accepts.front (skipSpace_gap blank solid rest),if_pos rfl]
  · have enough : inner.length < (inner ++ close :: rest).length := by
      rw [List.length_append,List.length_cons]
      omega
    obtain ⟨xs,read,all⟩ := commaList_complete accepts closing separated short enough rest
    refine ⟨xs,?_,all⟩
    cases found : skipSpace (inner ++ close :: rest) with
    | nil =>
        have white := skipSpace_nil.mp found close (by simp)
        rw [← isSpace_exact,delimiter_solid (.inr closing)] at white
        cases white
    | cons b tail =>
        rw [bracketed_eq accepts.front found,if_neg,read]
        rintro rfl
        have failed := accepts.closed found closing
        rw [List.length_append,List.length_cons,← Nat.add_assoc] at read
        simp [commaList,failed] at read

end Brackets

section Members

variable {item : Reader Node} {ok : Node → Prop} {form : List UInt8 → Prop} {bound : Nat} {bs rest : List UInt8}

theorem member_sound (values : Accepts item ok (Padded form) bound) {key : List Piece} {node : Node}
    (read : member item bs = some ((key,node),rest)) (clean : key.all Piece.isClean = true) (right : ok node) :
    ∃ taken, bs = taken ++ rest ∧ ∀ gap, Blank gap → IsMember form (taken ++ gap) := by
  obtain ⟨tail,middle,next,found,named,colon,valued⟩ := member_exact.mp read
  obtain ⟨before,front,whole⟩ := skipSpace_split bs
  obtain ⟨between,blank,followed⟩ := skipSpace_split middle
  obtain ⟨chars,each,written⟩ := pieces_sound named clean
  obtain ⟨taken,split,shape⟩ := values.sound valued right
  refine ⟨before ++ ((0x22 :: (chars.flatten ++ [0x22])) ++ between) ++ 0x3a :: taken,?_,?_⟩
  · rw [whole,found,written,followed,colon,split]
    simp
  · intro gap trailing
    rw [List.append_assoc,List.cons_append]
    exact .mk (.mk front (IsString.quoted each) blank) (shape gap trailing)

theorem member_complete (values : Accepts item ok (Padded form) bound) (shape : IsMember form bs)
    (short : bs.length < bound) (delimited : Delimited rest) :
    ∃ m gap, member item (bs ++ rest) = some (m,gap ++ rest) ∧ Blank gap ∧
      m.1.all Piece.isClean = true ∧ ok m.2 := by
  cases shape with
  | @mk name value named valued =>
      rw [List.length_append,List.length_cons] at short
      obtain ⟨x,gap,read,blank,right⟩ := values.complete valued (by omega) delimited
      cases named with
      | @mk before text after front string back =>
          cases string with
          | @quoted chars each =>
              obtain ⟨key,spelled,clean⟩ := pieces_complete each (after ++ 0x3a :: (value ++ rest))
              refine ⟨(key,x),gap,?_,blank,clean,right⟩
              have bytes : before ++ (0x22 :: (chars.flatten ++ [0x22]) ++ after) ++ 0x3a :: value ++ rest =
                  before ++ 0x22 :: (chars.flatten ++ 0x22 :: (after ++ 0x3a :: (value ++ rest))) := by simp
              rw [bytes,member,skipSpace_gap front (by decide)]
              simp [spelled,skipSpace_gap back (show isSpace 0x3a = false by decide),read]

theorem member_accepts (values : Accepts item ok (Padded form) bound) :
    Accepts (member item) (fun m => m.1.all Piece.isClean = true ∧ ok m.2) (IsMember form) bound where
  sound read right := member_sound values read right.1 right.2
  complete shape short _ delimited := member_complete values shape short delimited
  front := (member_guarded item).front
  closed := guarded_closed (member_guarded item)

end Members

theorem word_exact {letters bs rest : List UInt8} : word letters bs = some rest ↔ bs = letters ++ rest := by
  induction letters generalizing bs with
  | nil => simp [word]
  | cons w ws ih =>
      cases bs with
      | nil => simp [word]
      | cons b bs =>
          rw [word]
          split
          · rename_i same
            rw [ih,same]
            simp
          · rename_i other
            simp [Ne.symm other]

section Values

variable {depth : Nat} {bs rest : List UInt8} {n : Node}

theorem enclosed_exact {form : List UInt8 → Prop} {opening closing : UInt8} :
    Enclosed form opening closing bs ↔
      ∃ inner, (Blank inner ∨ Separated form inner) ∧ bs = opening :: (inner ++ [closing]) := by
  constructor
  · intro enclosed
    cases enclosed with
    | empty blank => exact ⟨_,.inl blank,rfl⟩
    | filled items => exact ⟨_,.inr items,rfl⟩
  · rintro ⟨inner,blank | items,rfl⟩
    · exact .empty blank
    · exact .filled items

theorem ends_gap {gap : List UInt8} (blank : Blank gap) (delimited : Delimited rest) : Ends (gap ++ rest) := by
  cases gap with
  | nil =>
      cases rest with
      | nil => exact ends_nil
      | cons b rest => exact delimiter_ends (delimited b rfl) rest
  | cons b gap =>
      have white : Blank [b] := by
        intro c member
        rw [List.mem_singleton.mp member]
        exact blank b List.mem_cons_self
      have alone := blank_ends white
      exact ⟨alone.digit,alone.point,alone.exponent⟩

theorem value_sound (children : Accepts (value depth) (fun n => n.isSound = true) (Padded IsValue) depth)
    (read : value (depth + 1) bs = some (n,rest)) (sound : n.isSound = true) :
    ∃ v, IsValue v ∧ skipSpace bs = v ++ rest := by
  have begins := value_exact.mp read
  generalize skipSpace bs = front at begins
  cases begins with
  | string spelled =>
      obtain ⟨chars,each,written⟩ := pieces_sound spelled sound
      refine ⟨_,.string (.quoted each),?_⟩
      rw [written]
      simp
  | array inside =>
      obtain ⟨inner,content,split⟩ := bracketed_sound children inside (areSound_iff.mp sound)
      refine ⟨_,.array (enclosed_exact.mpr ⟨inner,content,rfl⟩),?_⟩
      rw [split]
      simp
  | object inside =>
      obtain ⟨inner,content,split⟩ := bracketed_sound (member_accepts children) inside (areSoundMembers_iff.mp sound)
      refine ⟨_,.object (enclosed_exact.mpr ⟨inner,content,rfl⟩),?_⟩
      rw [split]
      simp
  | null spelled => exact ⟨_,.null,by rw [word_exact.mp spelled]; rfl⟩
  | true spelled => exact ⟨_,.true,by rw [word_exact.mp spelled]; rfl⟩
  | false spelled => exact ⟨_,.false,by rw [word_exact.mp spelled]; rfl⟩
  | number _ spelled =>
      obtain ⟨wellFormed,written⟩ := number_sound spelled
      exact ⟨_,.number (number_exact.mpr ⟨_,wellFormed,rfl⟩),written⟩

theorem value_complete (children : Accepts (value depth) (fun n => n.isSound = true) (Padded IsValue) depth)
    (shape : IsValue bs) (short : bs.length < depth + 1) (ends : Ends rest) :
    ∃ n, value (depth + 1) (bs ++ rest) = some (n,rest) ∧ n.isSound = true := by
  cases shape with
  | null => exact ⟨.null,rfl,rfl⟩
  | true => exact ⟨.bool true,rfl,rfl⟩
  | false => exact ⟨.bool false,rfl,rfl⟩
  | number text =>
      obtain ⟨t,wellFormed,rfl⟩ := number_exact.mp text
      exact ⟨.number t,value_render (.number wellFormed) short ends,rfl⟩
  | string text =>
      cases text with
      | @quoted chars each =>
          obtain ⟨ps,spelled,clean⟩ := pieces_complete each rest
          refine ⟨.string ps,?_,clean⟩
          have bytes : 0x22 :: (chars.flatten ++ [0x22]) ++ rest = 0x22 :: (chars.flatten ++ 0x22 :: rest) := by simp
          simp [bytes,value,skipSpace_solid (show isSpace 0x22 = false by decide),spelled]
  | array items =>
      obtain ⟨inner,content,rfl⟩ := enclosed_exact.mp items
      rw [List.length_cons,List.length_append,List.length_singleton] at short
      obtain ⟨xs,inside,all⟩ := bracketed_complete children (.inl rfl) content (by omega) rest
      refine ⟨.array xs,?_,areSound_iff.mpr all⟩
      simp [value,skipSpace_solid (show isSpace 0x5b = false by decide),inside]
  | object members =>
      obtain ⟨inner,content,rfl⟩ := enclosed_exact.mp members
      rw [List.length_cons,List.length_append,List.length_singleton] at short
      obtain ⟨xs,inside,all⟩ := bracketed_complete (member_accepts children) (.inr rfl) content (by omega) rest
      refine ⟨.object xs,?_,areSoundMembers_iff.mpr all⟩
      simp [value,skipSpace_solid (show isSpace 0x7b = false by decide),inside]

theorem value_accepts (depth : Nat) :
    Accepts (value depth) (fun n => n.isSound = true) (Padded IsValue) depth := by
  induction depth with
  | zero =>
      refine ⟨?_,?_,fun _ => rfl,fun _ _ => rfl⟩
      · intro bs n rest read
        cases read
      · intro bs _ short
        cases short
  | succ depth ih =>
      refine ⟨?_,?_,(value_guarded (depth + 1)).front,guarded_closed (value_guarded (depth + 1))⟩
      · intro bs n rest read sound
        obtain ⟨before,front,whole⟩ := skipSpace_split bs
        obtain ⟨v,shape,split⟩ := value_sound ih read sound
        refine ⟨before ++ v,?_,?_⟩
        · rw [List.append_assoc,← split]
          exact whole
        · intro gap blank
          rw [List.append_assoc]
          exact .mk front shape blank
      · intro bs padded short rest delimited
        cases padded with
        | @mk before v after front shape back =>
            rw [List.length_append,List.length_append] at short
            obtain ⟨n,read,sound⟩ := value_complete ih shape (by omega) (ends_gap back delimited)
            refine ⟨n,after,?_,back,sound⟩
            rw [List.append_assoc,List.append_assoc,value_append front]
            exact read

end Values

theorem parse_exact {bs : List UInt8} {node : Node} :
    parse bs = some node ↔ ∃ rest, value (bs.length + 1) bs = some (node,rest) ∧ Blank rest := by
  rw [parse,Option.bind_eq_bind,Option.bind_eq_some_iff]
  constructor
  · rintro ⟨⟨n,rest⟩,valued,ended⟩
    dsimp only at ended
    split at ended
    · rename_i clear
      cases ended
      exact ⟨rest,valued,skipSpace_nil.mp clear⟩
    · cases ended
  · rintro ⟨rest,valued,blank⟩
    exact ⟨_,valued,if_pos (skipSpace_nil.mpr blank)⟩

theorem read_ignored {budget : Nat} {node : Node} : read .ignored budget node = some () ↔ node.isSound = true := by
  simp [read]

theorem decode_ignored (body : List UInt8) : decode .ignored body = some () ↔ IsText body := by
  have accepts := value_accepts (body.length + 1)
  rw [decode,Option.bind_eq_some_iff]
  constructor
  · rintro ⟨node,parsed,typed⟩
    obtain ⟨rest,valued,blank⟩ := parse_exact.mp parsed
    obtain ⟨taken,split,shape⟩ := accepts.sound valued (read_ignored.mp typed)
    rw [split]
    exact shape rest blank
  · intro text
    have nothing : Delimited [] := by
      intro b member
      cases member
    obtain ⟨n,gap,valued,blank,sound⟩ := accepts.complete text (Nat.lt_succ_self _) nothing
    rw [List.append_nil,List.append_nil] at valued
    exact ⟨n,parse_exact.mpr ⟨gap,valued,blank⟩,read_ignored.mpr sound⟩

theorem json_grammar_exact (p : Payload)
    (taken : ∀ given, p.contentType = some given → Serializer.json.accepts given = true) :
    (Serializer.json.fromPayload .ignored p = .ok () ↔ IsText p.body) ∧
    (Serializer.json.fromPayload .ignored p = .error (.decode applicationJson .codec) ↔ ¬ IsText p.body) := by
  rw [Serializer.json_taken taken,← decode_ignored]
  cases decode .ignored p.body with
  | none => simp [Serializer.answered]
  | some v => simp [Serializer.answered]

-- An object around an array around a zero with a sign, with an escape for its key; and a comma too many.
theorem json_nested_text_accepted_trailing_comma_refused :
    IsText [0x20,0x7b,0x22,0x5c,0x2f,0x22,0x3a,0x5b,0x2d,0x30,0x5d,0x7d] ∧
    Serializer.json.fromPayload .ignored (.untyped [0x20,0x7b,0x22,0x5c,0x2f,0x22,0x3a,0x5b,0x2d,0x30,0x5d,0x7d]) = .ok () ∧
    Serializer.json.fromPayload .ignored (.untyped [0x5b,0x31,0x2c,0x5d]) = .error (.decode applicationJson .codec) ∧
    ¬ IsText [0x5b,0x31,0x2c,0x5d] := by
  have nothing : Blank [] := by
    intro b member
    cases member
  have blank : Blank [0x20] := by simp [Blank]
  have zero : IsNumber ([0x2d] ++ ([0x30] ++ ([] ++ []))) := .parts (.inr rfl) .zero .absent .absent
  have array : IsValue (0x5b :: ([] ++ ([0x2d,0x30] ++ []) ++ [0x5d])) :=
    .array (.filled (.last (.mk nothing (.number zero) nothing)))
  have key : IsString (0x22 :: ([[0x5c,0x2f]].flatten ++ [0x22])) := .quoted (by
    simp only [List.forall_mem_singleton]
    exact .short (by decide))
  have object : IsValue (0x7b :: (([] ++ ([0x22,0x5c,0x2f,0x22] ++ []) ++ 0x3a :: ([] ++ ([0x5b,0x2d,0x30,0x5d] ++ []))) ++ [0x7d])) :=
    .object (.filled (.last (.mk (.mk nothing key nothing) (.mk nothing array nothing))))
  have text : IsText ([0x20] ++ ([0x7b,0x22,0x5c,0x2f,0x22,0x3a,0x5b,0x2d,0x30,0x5d,0x7d] ++ [])) :=
    .mk blank object nothing
  have extra : Serializer.json.fromPayload .ignored (.untyped [0x5b,0x31,0x2c,0x5d]) =
      .error (.decode applicationJson .codec) := rfl
  refine ⟨text,?_,extra,?_⟩
  · exact (json_grammar_exact (.untyped _) (fun _ typed => by cases typed)).1.mpr text
  · exact (json_grammar_exact (.untyped [0x5b,0x31,0x2c,0x5d]) (fun _ typed => by cases typed)).2.mp extra

end Switchboard.Json
