import Switchboard.Proofs.Faithful
import Switchboard.Proofs.Json.Number

namespace Switchboard.Json

-- Pieces that are read as the piece they are.
def Piece.WellFormed : Piece → Prop
  | .raw b => b ≠ 0x22 ∧ b ≠ 0x5c
  | .short b => (letter? b).isSome = true
  | .unit _ => True

theorem hexDigit_hexByte {n : Nat} (small : n < 16) : hexDigit? (hexByte n) = some n := by
  revert n
  decide

theorem hexUnit_hexBytes (code : UInt16) :
    hexUnit? (hexByte (code.toNat / 4096)) (hexByte (code.toNat / 256 % 16)) (hexByte (code.toNat / 16 % 16))
      (hexByte (code.toNat % 16)) = some code := by
  have bound := code.toNat_lt
  have joined : ((code.toNat / 4096 * 16 + code.toNat / 256 % 16) * 16 + code.toNat / 16 % 16) * 16 +
      code.toNat % 16 = code.toNat := by omega
  have first := hexDigit_hexByte (show code.toNat / 4096 < 16 by omega)
  have second := hexDigit_hexByte (show code.toNat / 256 % 16 < 16 by omega)
  have third := hexDigit_hexByte (show code.toNat / 16 % 16 < 16 by omega)
  have fourth := hexDigit_hexByte (show code.toNat % 16 < 16 by omega)
  simp only [hexUnit?,first,second,third,fourth,Option.bind_eq_bind,Option.bind_some,joined,
    UInt16.ofNat_toNat]
  rfl

theorem escaped_letter {b letter : UInt8} (short : letter? b = some letter) : escaped? letter = some b := by
  have listed : (b,letter) ∈ shortEscapes.map (fun pair => (pair.2,pair.1)) := by
    obtain ⟨before,after,same,_⟩ := List.lookup_eq_some_iff.mp short
    rw [same]; simp
  have all : (shortEscapes.map (fun pair => (pair.2,pair.1))).all
      (fun pair => escaped? pair.2 == some pair.1) = true := by decide
  simpa using List.all_eq_true.mp all _ listed

theorem pieces_quote (rest : List UInt8) : pieces (0x22 :: rest) = some ([],rest) := by
  rw [pieces.eq_def]
  simp

section PieceForms

namespace Piece

-- The written forms of a piece.
inductive HasForm : Piece → List UInt8 → Prop where
  | raw {b : UInt8} (quote : b ≠ 0x22) (slash : b ≠ 0x5c) : HasForm (.raw b) [b]
  | short {letter b : UInt8} (stands : escaped? letter = some b) : HasForm (.short b) [0x5c,letter]
  | unit {h i j k : UInt8} {code : UInt16} (stands : hexUnit? h i j k = some code) :
      HasForm (.unit code) [0x5c,0x75,h,i,j,k]

inductive Written : List Piece → List UInt8 → Prop where
  | nil : Written [] []
  | cons {p : Piece} {ps : List Piece} {text bs : List UInt8} (form : p.HasForm text) (later : Written ps bs) :
      Written (p :: ps) (text ++ bs)

theorem render_form {p : Piece} (wellFormed : p.WellFormed) : p.HasForm p.render := by
  cases p with
  | raw b => exact .raw wellFormed.1 wellFormed.2
  | short b =>
      obtain ⟨letter,named⟩ := Option.isSome_iff_exists.mp wellFormed
      have written : (Piece.short b).render = [0x5c,letter] := by simp only [Piece.render,named]
      rw [written]
      exact .short (escaped_letter named)
  | unit code => exact .unit (hexUnit_hexBytes code)

theorem render_written {ps : List Piece} (wellFormed : ∀ p ∈ ps, p.WellFormed) : Written ps (ps.flatMap render) := by
  induction ps with
  | nil => exact .nil
  | cons p ps ih =>
      obtain ⟨first,others⟩ := List.forall_mem_cons.mp wellFormed
      rw [List.flatMap_cons]
      exact .cons (render_form first) (ih others)

end Piece

variable {bs rest : List UInt8} {ps : List Piece}

theorem pieces_form {p : Piece} {text : List UInt8} (form : p.HasForm text) (rest : List UInt8) :
    pieces (text ++ rest) = (pieces rest).map (fun result => (p :: result.1,result.2)) := by
  cases form with
  | raw quote slash =>
      rw [List.singleton_append,pieces.eq_def]
      cases found : pieces rest <;> simp [quote,slash,found]
  | @short letter b stands =>
      have other : letter ≠ 0x75 := by
        intro same
        rw [same] at stands
        cases stands
      rw [List.cons_append,List.singleton_append,pieces.eq_def]
      cases found : pieces rest <;> simp [other,stands,found]
  | unit stands =>
      rw [pieces.eq_def]
      cases found : pieces rest <;> simp [stands,found]

theorem pieces_exact : pieces bs = some (ps,rest) ↔ ∃ text, Piece.Written ps text ∧ bs = text ++ 0x22 :: rest := by
  constructor
  · intro read
    fun_induction pieces bs generalizing ps with
    | case1 | case3 | case5 => cases read
    | case2 bs =>
        cases read
        exact ⟨[],.nil,rfl⟩
    | case4 h i j k bs _ ih =>
        obtain ⟨code,stands,read⟩ := Option.bind_eq_some_iff.mp read
        obtain ⟨⟨qs,_⟩,later,same⟩ := Option.bind_eq_some_iff.mp read
        cases same
        obtain ⟨text,written,split⟩ := ih later
        exact ⟨_,.cons (.unit stands) written,by rw [split]; rfl⟩
    | case6 letter bs _ _ ih =>
        obtain ⟨b,stands,read⟩ := Option.bind_eq_some_iff.mp read
        obtain ⟨⟨qs,_⟩,later,same⟩ := Option.bind_eq_some_iff.mp read
        cases same
        obtain ⟨text,written,split⟩ := ih later
        exact ⟨_,.cons (.short stands) written,by rw [split]; rfl⟩
    | case7 b bs quote slash ih =>
        obtain ⟨⟨qs,_⟩,later,same⟩ := Option.bind_eq_some_iff.mp read
        cases same
        obtain ⟨text,written,split⟩ := ih later
        exact ⟨_,.cons (.raw quote slash) written,by rw [split]; rfl⟩
  · intro found
    obtain ⟨text,written,split⟩ := found
    subst split
    induction written with
    | nil => exact pieces_quote rest
    | cons form _ ih => rw [List.append_assoc,pieces_form form,ih,Option.map_some]

theorem pieces_render (wellFormed : ∀ p ∈ ps, p.WellFormed) (rest : List UInt8) :
    pieces (ps.flatMap Piece.render ++ 0x22 :: rest) = some (ps,rest) :=
  pieces_exact.mpr ⟨_,Piece.render_written wellFormed,rfl⟩

end PieceForms

theorem skipSpace_solid {b : UInt8} (solid : isSpace b = false) (rest : List UInt8) :
    skipSpace (b :: rest) = b :: rest := by
  simp [skipSpace,solid]

section Steps

variable {α : Type} {item : Reader α} {close : UInt8} {bs rest : List UInt8} {xs : List α}

theorem commaList_exact {fuel : Nat} :
    commaList item close (fuel + 1) bs = some (xs,rest) ↔
      ∃ x middle b tail, item bs = some (x,middle) ∧ skipSpace middle = b :: tail ∧
        ((b = 0x2c ∧ ∃ ys, commaList item close fuel tail = some (ys,rest) ∧ xs = x :: ys) ∨
          (b ≠ 0x2c ∧ b = close ∧ xs = [x] ∧ rest = tail)) := by
  rw [commaList]
  constructor
  · intro read
    obtain ⟨⟨x,middle⟩,first,read⟩ := Option.bind_eq_some_iff.mp read
    dsimp only at read
    split at read
    · cases read
    rename_i b tail found
    refine ⟨x,middle,b,tail,first,found,?_⟩
    split at read
    · rename_i comma
      obtain ⟨⟨ys,after⟩,others,same⟩ := Option.bind_eq_some_iff.mp read
      cases same
      exact .inl ⟨comma,ys,others,rfl⟩
    · rename_i other
      split at read
      · rename_i closing
        cases read
        exact .inr ⟨other,closing,rfl,rfl⟩
      · cases read
  · intro steps
    obtain ⟨x,middle,b,tail,first,found,next⟩ := steps
    rcases next with ⟨comma,ys,others,same⟩ | ⟨other,closing,same,left⟩
    · simp [first,found,comma,others,same]
    · subst closing same left
      simp [first,found,other]

theorem bracketed_exact :
    bracketed item close bs = some (xs,rest) ↔
      ∃ b tail, skipSpace bs = b :: tail ∧
        ((b = close ∧ xs = [] ∧ rest = tail) ∨
          (b ≠ close ∧ commaList item close bs.length (b :: tail) = some (xs,rest))) := by
  rw [bracketed]
  constructor
  · intro read
    split at read
    · cases read
    rename_i b tail found
    refine ⟨b,tail,found,?_⟩
    split at read
    · rename_i closing
      cases read
      exact .inl ⟨closing,rfl,rfl⟩
    · rename_i other
      exact .inr ⟨other,read⟩
  · intro steps
    obtain ⟨b,tail,found,content⟩ := steps
    rcases content with ⟨closing,same,left⟩ | ⟨other,items⟩
    · simp [found,closing,same,left]
    · simp [found,other,items]

theorem member_exact {item : Reader Node} {entry : List Piece × Node} :
    member item bs = some (entry,rest) ↔
      ∃ tail middle next, skipSpace bs = 0x22 :: tail ∧ pieces tail = some (entry.1,middle) ∧
        skipSpace middle = 0x3a :: next ∧ item next = some (entry.2,rest) := by
  rw [member]
  constructor
  · intro read
    split at read
    · cases read
    rename_i b tail found
    split at read
    · rename_i quote
      subst quote
      obtain ⟨⟨key,middle⟩,named,read⟩ := Option.bind_eq_some_iff.mp read
      dsimp only at read
      split at read
      · cases read
      rename_i c next colon
      split at read
      · rename_i same
        subst same
        obtain ⟨⟨node,after⟩,valued,same⟩ := Option.bind_eq_some_iff.mp read
        cases same
        exact ⟨tail,middle,next,found,named,colon,valued⟩
      · cases read
    · cases read
  · intro steps
    obtain ⟨tail,middle,next,found,named,colon,valued⟩ := steps
    simp [found,named,colon,valued]

-- How a value goes on from its first byte.
inductive Begins (depth : Nat) : List UInt8 → Node → List UInt8 → Prop where
  | string {tail rest : List UInt8} {ps : List Piece} (spelled : pieces tail = some (ps,rest)) :
      Begins depth (0x22 :: tail) (.string ps) rest
  | array {tail rest : List UInt8} {items : List Node} (inside : bracketed (value depth) 0x5d tail = some (items,rest)) :
      Begins depth (0x5b :: tail) (.array items) rest
  | object {tail rest : List UInt8} {members : List (List Piece × Node)}
      (inside : bracketed (member (value depth)) 0x7d tail = some (members,rest)) :
      Begins depth (0x7b :: tail) (.object members) rest
  | null {tail rest : List UInt8} (spelled : word [0x75,0x6c,0x6c] tail = some rest) : Begins depth (0x6e :: tail) .null rest
  | true {tail rest : List UInt8} (spelled : word [0x72,0x75,0x65] tail = some rest) :
      Begins depth (0x74 :: tail) (.bool true) rest
  | false {tail rest : List UInt8} (spelled : word [0x61,0x6c,0x73,0x65] tail = some rest) :
      Begins depth (0x66 :: tail) (.bool false) rest
  | number {b : UInt8} {tail rest : List UInt8} {t : NumberText} (other : b ∉ [(0x22 : UInt8),0x5b,0x7b,0x6e,0x74,0x66])
      (spelled : number (b :: tail) = some (t,rest)) : Begins depth (b :: tail) (.number t) rest

theorem value_exact {depth : Nat} {n : Node} :
    value (depth + 1) bs = some (n,rest) ↔ Begins depth (skipSpace bs) n rest := by
  rw [value]
  constructor
  · intro read
    split at read
    · cases read
    rename_i b tail found
    rw [found]
    split at read
    · rename_i same
      obtain ⟨⟨ps,after⟩,spelled,shown⟩ := Option.map_eq_some_iff.mp read
      cases shown
      rw [same]
      exact .string spelled
    split at read
    · rename_i same
      obtain ⟨⟨items,after⟩,inside,shown⟩ := Option.map_eq_some_iff.mp read
      cases shown
      rw [same]
      exact .array inside
    split at read
    · rename_i same
      obtain ⟨⟨members,after⟩,inside,shown⟩ := Option.map_eq_some_iff.mp read
      cases shown
      rw [same]
      exact .object inside
    split at read
    · rename_i same
      obtain ⟨after,spelled,shown⟩ := Option.map_eq_some_iff.mp read
      cases shown
      rw [same]
      exact .null spelled
    split at read
    · rename_i same
      obtain ⟨after,spelled,shown⟩ := Option.map_eq_some_iff.mp read
      cases shown
      rw [same]
      exact .true spelled
    split at read
    · rename_i same
      obtain ⟨after,spelled,shown⟩ := Option.map_eq_some_iff.mp read
      cases shown
      rw [same]
      exact .false spelled
    · obtain ⟨⟨t,after⟩,spelled,shown⟩ := Option.map_eq_some_iff.mp read
      cases shown
      exact .number (by simp_all) spelled
  · intro begins
    generalize skipSpace bs = front at begins
    cases begins with
    | string spelled => simp [spelled]
    | array inside => simp [inside]
    | object inside => simp [inside]
    | null spelled => simp [spelled]
    | true spelled => simp [spelled]
    | false spelled => simp [spelled]
    | number other spelled =>
        simp only [List.mem_cons,not_or] at other
        simp [other,spelled]

end Steps

-- The bytes that stand behind a value inside brackets.
def Delimits (b : UInt8) : Prop := b = 0x2c ∨ b = 0x5d ∨ b = 0x7d

theorem delimiter_solid {b : UInt8} (delimits : Delimits b) : isSpace b = false := by
  rcases delimits with rfl | rfl | rfl <;> rfl

theorem delimiter_ends {b : UInt8} (delimits : Delimits b) (rest : List UInt8) : Ends (b :: rest) := by
  rcases delimits with rfl | rfl | rfl <;>
    exact ⟨by rintro _ ⟨⟩; rfl,by simp,by simp⟩

theorem part_length {parts : List (List UInt8)} {part : List UInt8} (member : part ∈ parts) :
    part.length ≤ (commas parts).length := by
  fun_induction commas parts with
  | case1 => cases member
  | case2 only => simp_all
  | case3 first rest _ ih =>
      rw [List.length_append,List.length_cons]
      rcases List.mem_cons.mp member with rfl | later
      · omega
      · have shorter := ih later
        omega

theorem parts_count (parts : List (List UInt8)) : parts.length ≤ (commas parts).length + 1 := by
  fun_induction commas parts with
  | case1 | case2 => simp
  | case3 first rest _ ih =>
      rw [List.length_append,List.length_cons,List.length_cons]
      omega

section Lists

variable {α : Type} {item : Reader α} {close : UInt8}

-- The reader passes over white space first, and takes neither nothing nor a closing bracket for an item.
structure Guarded (item : Reader α) : Prop where
  front : ∀ bs, item (skipSpace bs) = item bs
  closed : ∀ {bs}, (∀ b ∈ (skipSpace bs).head?, b = 0x5d ∨ b = 0x7d) → item bs = none

-- In front of any delimiter the reader takes the text, but for white space at its end.
def Takes (item : Reader α) (text : List UInt8) (x : α) : Prop :=
  ∀ b rest, Delimits b → ∃ after, item (text ++ b :: rest) = some (x,after) ∧ skipSpace after = b :: rest

theorem takes_ends {text : List UInt8} {x : α} (read : ∀ rest, Ends rest → item (text ++ rest) = some (x,rest)) :
    Takes item text x := by
  intro b rest delimits
  exact ⟨b :: rest,read _ (delimiter_ends delimits rest),skipSpace_solid (delimiter_solid delimits) rest⟩

theorem skipSpace_again (bs : List UInt8) : skipSpace (skipSpace bs) = skipSpace bs := by
  induction bs with
  | nil => rfl
  | cons b bs ih =>
      cases space : isSpace b with
      | true =>
          have skipped : skipSpace (b :: bs) = skipSpace bs := List.dropWhile_cons_of_pos space
          rw [skipped,ih]
      | false => rw [skipSpace_solid space,skipSpace_solid space]

theorem member_guarded (item : Reader Node) : Guarded (member item) where
  front bs := by rw [member,member,skipSpace_again]
  closed {bs} closing := by
    rw [member]
    cases found : skipSpace bs with
    | nil => rfl
    | cons b rest =>
        rw [found] at closing
        rcases closing b rfl with rfl | rfl <;> rfl

theorem value_guarded (depth : Nat) : Guarded (value depth) where
  front bs := by
    cases depth with
    | zero => rfl
    | succ depth => rw [value,value,skipSpace_again]
  closed {bs} closing := by
    cases depth with
    | zero => rfl
    | succ depth =>
        rw [value]
        cases found : skipSpace bs with
        | nil => rfl
        | cons b rest =>
            rw [found] at closing
            rcases closing b rfl with rfl | rfl <;> rfl

theorem guarded_closed (guarded : Guarded item) {bs rest : List UInt8} {b : UInt8} (found : skipSpace bs = b :: rest)
    (closing : b = 0x5d ∨ b = 0x7d) : item bs = none := by
  apply guarded.closed
  rw [found]
  simp [closing]

theorem bracketed_eq (front : ∀ bs, item (skipSpace bs) = item bs) {bs : List UInt8} {b : UInt8} {tail : List UInt8}
    (found : skipSpace bs = b :: tail) :
    bracketed item close bs = if b = close then some ([],tail) else commaList item close bs.length bs := by
  have same : ∀ fuel, commaList item close fuel (b :: tail) = commaList item close fuel bs := by
    intro fuel
    cases fuel with
    | zero => rfl
    | succ fuel => rw [← found,commaList,commaList,front]
  rw [bracketed,found]
  dsimp only
  rw [same]

variable {β : Type} {part : β → List UInt8} {out : β → α}

theorem commaList_commas (closing : close = 0x5d ∨ close = 0x7d) {xs : List β} (present : xs ≠ [])
    (each : ∀ x ∈ xs, Takes item (part x) (out x)) {fuel : Nat} (enough : xs.length ≤ fuel) (rest : List UInt8) :
    commaList item close fuel (commas (xs.map part) ++ close :: rest) = some (xs.map out,rest) := by
  induction xs generalizing fuel with
  | nil => contradiction
  | cons x xs ih =>
      obtain ⟨first,others⟩ := List.forall_mem_cons.mp each
      obtain ⟨fuel,rfl⟩ := Nat.exists_eq_add_of_le' (Nat.le_trans (Nat.le_add_left 1 _) enough)
      cases xs with
      | nil =>
          have notComma : close ≠ 0x2c := by rcases closing with rfl | rfl <;> decide
          obtain ⟨after,read,found⟩ := first close rest (.inr closing)
          exact commaList_exact.mpr ⟨_,after,close,rest,read,found,.inr ⟨notComma,rfl,rfl,rfl⟩⟩
      | cons y ys =>
          have later := ih (by simp) others (Nat.le_of_succ_le_succ enough)
          obtain ⟨after,read,found⟩ := first 0x2c (commas ((y :: ys).map part) ++ close :: rest) (.inl rfl)
          have written : commas ((x :: y :: ys).map part) = part x ++ 0x2c :: commas ((y :: ys).map part) := rfl
          rw [written,List.append_assoc,List.cons_append]
          exact commaList_exact.mpr ⟨_,after,0x2c,_,read,found,.inl ⟨rfl,_,later,rfl⟩⟩

theorem bracketed_commas (closing : close = 0x5d ∨ close = 0x7d) (guarded : Guarded item) {xs : List β}
    (each : ∀ x ∈ xs, Takes item (part x) (out x)) (rest : List UInt8) :
    bracketed item close (commas (xs.map part) ++ close :: rest) = some (xs.map out,rest) := by
  cases xs with
  | nil =>
      have solid := delimiter_solid (b := close) (.inr closing)
      simp [bracketed,commas,skipSpace_solid solid]
  | cons x xs =>
      have enough : (x :: xs).length ≤ (commas ((x :: xs).map part) ++ close :: rest).length := by
        have count := parts_count ((x :: xs).map part)
        rw [List.length_map] at count
        rw [List.length_append,List.length_cons (a := close)]
        omega
      have items := commaList_commas closing (List.cons_ne_nil x xs) each enough rest
      have begun : item (commas ((x :: xs).map part) ++ close :: rest) ≠ none := by
        intro nothing
        obtain ⟨fuel,length⟩ := Nat.exists_eq_add_of_le' (Nat.le_trans (Nat.le_add_left 1 _) enough)
        rw [length,commaList,nothing] at items
        cases items
      cases found : skipSpace (commas ((x :: xs).map part) ++ close :: rest) with
      | nil => exact absurd (guarded.closed (by rw [found]; simp)) begun
      | cons b tail =>
          rw [bracketed_eq guarded.front found,if_neg,items]
          intro same
          exact absurd (guarded_closed guarded found (same ▸ closing)) begun

end Lists

inductive Node.WellFormed : Node → Prop where
  | null : WellFormed .null
  | bool (b : Bool) : WellFormed (.bool b)
  | number {t : NumberText} (text : t.WellFormed) : WellFormed (.number t)
  | string {ps : List Piece} (spelled : ∀ p ∈ ps, p.WellFormed) : WellFormed (.string ps)
  | array {items : List Node} (each : ∀ item ∈ items, item.WellFormed) : WellFormed (.array items)
  | object {members : List (List Piece × Node)} (keys : ∀ member ∈ members, ∀ p ∈ member.1, p.WellFormed)
      (items : ∀ member ∈ members, member.2.WellFormed) : WellFormed (.object members)

theorem renderItems_eq (items : List Node) : renderItems items = items.map Node.render := by
  induction items with
  | nil => rfl
  | cons item rest ih => rw [renderItems,List.map_cons,ih]

theorem renderMembers_eq (members : List (List Piece × Node)) :
    renderMembers members = members.map (fun member => quoted member.1 ++ 0x3a :: member.2.render) := by
  induction members with
  | nil => rfl
  | cons member rest ih => rw [renderMembers,List.map_cons,ih]

-- A number starts with a minus sign or a digit, which is how it is told from all else.
theorem number_front {t : NumberText} (wellFormed : t.WellFormed) :
    ∃ b rest, t.render = b :: rest ∧ isSpace b = false ∧
      b ∉ [(0x22 : UInt8),0x5b,0x7b,0x6e,0x74,0x66] := by
  have digit : ∀ d : Digit, isSpace (Digits.byte d) = false ∧
      Digits.byte d ∉ [(0x22 : UInt8),0x5b,0x7b,0x6e,0x74,0x66] := by decide
  obtain ⟨d,others,whole,_⟩ := wellFormed.whole
  rw [t.render_parts,whole]
  cases t.negative with
  | true => exact ⟨0x2d,_,rfl,by decide,by decide⟩
  | false => exact ⟨Digits.byte d,_,rfl,(digit d).1,(digit d).2⟩

theorem member_append {item : Reader Node} {key : List Piece} {node : Node}
    (spelled : ∀ p ∈ key, p.WellFormed)
    (read : ∀ rest, Ends rest → item (node.render ++ rest) = some (node,rest)) {rest : List UInt8}
    (ends : Ends rest) :
    member item (quoted key ++ 0x3a :: node.render ++ rest) = some ((key,node),rest) := by
  have keyRead := pieces_render spelled (0x3a :: (node.render ++ rest))
  have bytes : quoted key ++ 0x3a :: node.render ++ rest =
      0x22 :: (key.flatMap Piece.render ++ 0x22 :: 0x3a :: (node.render ++ rest)) := by simp [quoted]
  rw [bytes]
  simp [member,skipSpace_solid (show isSpace 0x22 = false by decide),
    skipSpace_solid (show isSpace 0x3a = false by decide),keyRead,read rest ends]

theorem value_render {depth : Nat} {n : Node} (wellFormed : n.WellFormed) (deep : n.render.length < depth)
    {rest : List UInt8} (ends : Ends rest) : value depth (n.render ++ rest) = some (n,rest) := by
  induction depth generalizing n rest with
  | zero => omega
  | succ depth ih =>
      cases wellFormed with
      | null => rfl
      | bool b => cases b <;> rfl
      | @number t text =>
          obtain ⟨b,tail,written,solid,other⟩ := number_front text
          have numberRead := number_render text ends
          rw [written,List.cons_append] at numberRead
          rw [Node.render,written,List.cons_append,value_exact,skipSpace_solid solid]
          exact .number other numberRead
      | @string ps spelled =>
          have bytes : (Node.string ps).render ++ rest =
              0x22 :: (ps.flatMap Piece.render ++ 0x22 :: rest) := by simp [Node.render,quoted]
          rw [bytes,value_exact,skipSpace_solid (by decide)]
          exact .string (pieces_render spelled rest)
      | @array items each =>
          have bytes : (Node.array items).render ++ rest =
              0x5b :: (commas (items.map Node.render) ++ 0x5d :: rest) := by
            simp [Node.render,renderItems_eq]
          have children : ∀ item ∈ items, Takes (value depth) item.render (id item) := by
            intro item member
            have shorter := part_length (List.mem_map_of_mem (f := Node.render) member)
            simp only [Node.render,renderItems_eq,List.length_cons,List.length_append] at deep
            exact takes_ends (fun _ ends => ih (each item member) (by omega) ends)
          have inside := bracketed_commas (.inl rfl) (value_guarded depth) children rest
          rw [List.map_id] at inside
          rw [bytes,value_exact,skipSpace_solid (by decide)]
          exact .array inside
      | @object members keys items =>
          have bytes : (Node.object members).render ++ rest =
              0x7b :: (commas (members.map (fun member => quoted member.1 ++ 0x3a :: member.2.render)) ++
                0x7d :: rest) := by
            simp [Node.render,renderMembers_eq]
          have children : ∀ entry ∈ members,
              Takes (member (value depth)) (quoted entry.1 ++ 0x3a :: entry.2.render) (id entry) := by
            intro entry inside
            have shorter := part_length (List.mem_map_of_mem
              (f := fun member : List Piece × Node => quoted member.1 ++ 0x3a :: member.2.render) inside)
            simp only [Node.render,renderMembers_eq,List.length_cons,List.length_append] at deep shorter
            exact takes_ends (fun _ ends => member_append (keys entry inside)
              (fun _ ends => ih (items entry inside) (by omega) ends) ends)
          have inside := bracketed_commas (.inr rfl) (member_guarded (value depth)) children rest
          rw [List.map_id] at inside
          rw [bytes,value_exact,skipSpace_solid (by decide)]
          exact .object inside

theorem parse_render {n : Node} (wellFormed : n.WellFormed) : parse n.render = some n := by
  have read := value_render wellFormed (Nat.lt_succ_self _) ends_nil
  rw [List.append_nil] at read
  simp [parse,read,skipSpace]

end Switchboard.Json
