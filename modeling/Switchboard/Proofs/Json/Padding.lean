import Switchboard.Proofs.Json.Grammar

namespace Switchboard.Json

-- Readers on an input and on the same input with something behind it. Added delimiters and white space never
-- change what was read, and white space alone never lets a reader read what it could not read before.

-- What may come behind a text without carrying on a number in it: nothing, white space or a delimiter.
def Apart (more : List UInt8) : Prop := ∀ b ∈ more.head?, b ∈ [(0x20 : UInt8),0x09,0x0a,0x0d,0x2c,0x5d,0x7d]

def leaving {α : Type} (more : List UInt8) (result : α × List UInt8) : α × List UInt8 := (result.1,result.2 ++ more)

section Numbers

variable {more : List UInt8}

theorem apart_blank (blank : Blank more) : Apart more := by
  intro b front
  have white := blank b (List.mem_of_mem_head? front)
  exact List.mem_append_left [0x2c,0x5d,0x7d] white

theorem apart_delimited (delimited : Delimited more) : Apart more := by
  intro b front
  have closing := delimited b front
  unfold Delimits at closing
  simp [closing]

theorem apart_cons {b : UInt8} (apart : Apart (b :: more)) :
    Ends (b :: more) ∧ b ≠ 0x2b ∧ b ≠ 0x2d := by
  have front := apart b rfl
  simp only [List.mem_cons,List.not_mem_nil,or_false] at front
  rcases front with rfl | rfl | rfl | rfl | rfl | rfl | rfl <;>
    exact ⟨⟨by rintro _ ⟨⟩; rfl,by simp,by simp⟩,by simp,by simp⟩

theorem apart_ends (apart : Apart more) : Ends more := by
  cases more with
  | nil => exact ends_nil
  | cons b more => exact (apart_cons apart).1

theorem digits_more (apart : Apart more) (bs : List UInt8) : digits (bs ++ more) = leaving more (digits bs) := by
  induction bs with
  | nil => exact digits_append (apart_ends apart).digit []
  | cons b bs ih =>
      rw [List.cons_append,digits,digits]
      cases Digits.ofByte? b with
      | none => rfl
      | some d => simp [ih,leaving]

theorem someDigits_more (apart : Apart more) (bs : List UInt8) :
    someDigits (bs ++ more) = (someDigits bs).map (leaving more) := by
  rw [someDigits,digits_more apart,someDigits]
  rcases digits bs with ⟨ds,rest⟩
  cases ds with
  | nil => rfl
  | cons d ds => rfl

theorem wholePart_more (apart : Apart more) (bs : List UInt8) :
    wholePart (bs ++ more) = (wholePart bs).map (leaving more) := by
  rw [wholePart,digits_more apart,wholePart]
  rcases digits bs with ⟨ds,rest⟩
  cases ds with
  | nil => rfl
  | cons d ds =>
      cases ds with
      | nil => rfl
      | cons e ds =>
          by_cases zero : d = 0
          · simp [leaving,zero]
          · simp [leaving,zero]

theorem fractionPart_more (apart : Apart more) (bs : List UInt8) :
    fractionPart (bs ++ more) = (fractionPart bs).map (leaving more) := by
  cases bs with
  | nil =>
      have absent : ∀ ds ∈ (none : Option (List Digit)), ds ≠ [] := by simp
      exact fractionPart_append absent (apart_ends apart).digit (apart_ends apart).point
  | cons b bs =>
      rw [List.cons_append,fractionPart,fractionPart]
      by_cases point : b = 0x2e
      · simp [point,someDigits_more apart,leaving,Function.comp_def]
      · simp [point,leaving]

theorem exponentSign_more (apart : Apart more) (bs : List UInt8) :
    exponentSign (bs ++ more) = leaving more (exponentSign bs) := by
  cases bs with
  | nil =>
      cases more with
      | nil => rfl
      | cons b more => simp [exponentSign,leaving,apart_cons apart]
  | cons b bs =>
      rw [List.cons_append,exponentSign,exponentSign]
      by_cases plus : b = 0x2b
      · simp [plus,leaving]
      · by_cases minus : b = 0x2d
        · simp [minus,leaving]
        · simp [plus,minus,leaving]

theorem exponentPart_more (apart : Apart more) (bs : List UInt8) :
    exponentPart (bs ++ more) = (exponentPart bs).map (leaving more) := by
  cases bs with
  | nil =>
      have absent : ∀ e ∈ (none : Option Exponent), e.digits ≠ [] := by simp
      exact exponentPart_append absent (apart_ends apart)
  | cons b bs =>
      rw [List.cons_append,exponentPart,exponentPart,exponentSign_more apart]
      by_cases letter : (b = 0x65 || b = 0x45) = true
      · rw [if_pos letter,if_pos letter,leaving,someDigits_more apart]
        simp [leaving,Function.comp_def]
      · rw [if_neg letter,if_neg letter]
        rfl

theorem minusSign_more (apart : Apart more) (bs : List UInt8) : minusSign (bs ++ more) = leaving more (minusSign bs) := by
  cases bs with
  | nil =>
      cases more with
      | nil => rfl
      | cons b more => simp [minusSign,leaving,apart_cons apart]
  | cons b bs =>
      rw [List.cons_append,minusSign,minusSign]
      by_cases minus : b = 0x2d
      · simp [minus,leaving]
      · simp [minus,leaving]

theorem number_more (apart : Apart more) (bs : List UInt8) : number (bs ++ more) = (number bs).map (leaving more) := by
  simp only [number,minusSign_more apart,leaving,wholePart_more apart]
  cases wholePart (minusSign bs).2 with
  | none => rfl
  | some whole =>
      simp only [Option.map_some,Option.bind_eq_bind,Option.bind_some,leaving,fractionPart_more apart]
      cases fractionPart whole.2 with
      | none => rfl
      | some fraction =>
          simp only [Option.map_some,Option.bind_some,leaving,exponentPart_more apart]
          cases exponentPart fraction.2 with
          | none => rfl
          | some exponent => rfl

theorem number_shorter {bs rest : List UInt8} {t : NumberText} (read : number bs = some (t,rest)) :
    rest.length < bs.length := by
  obtain ⟨wellFormed,split⟩ := number_sound read
  obtain ⟨b,tail,front,_⟩ := number_front wellFormed
  rw [split,front,List.length_append,List.length_cons]
  omega

end Numbers

section Words

variable {more letters bs : List UInt8}

theorem word_kept {rest : List UInt8} (spelled : word letters bs = some rest) (more : List UInt8) :
    word letters (bs ++ more) = some (rest ++ more) := by
  rw [word_exact.mp spelled]
  exact word_exact.mpr (List.append_assoc letters rest more)

theorem word_back (blank : Blank more) (solid : ∀ l ∈ letters, isSpace l = false) {left : List UInt8}
    (spelled : word letters (bs ++ more) = some left) : ∃ rest, word letters bs = some rest ∧ left = rest ++ more := by
  rcases List.append_eq_append_iff.mp (word_exact.mp spelled) with ⟨extra,cut,same⟩ | ⟨extra,front,same⟩
  · cases extra with
    | nil => exact ⟨[],word_exact.mpr (by rw [cut]; simp),by rw [same]; rfl⟩
    | cons b extra =>
        have white : isSpace b = true := (isSpace_exact b).mpr (blank b (by rw [same]; simp))
        rw [solid b (by rw [cut]; simp)] at white
        cases white
  · exact ⟨extra,word_exact.mpr front,same⟩

theorem word_shorter {rest : List UInt8} (spelled : word letters bs = some rest) : rest.length ≤ bs.length := by
  rw [word_exact.mp spelled,List.length_append]
  omega

end Words

section Spaces

variable {more bs : List UInt8} {b : UInt8}

theorem skipSpace_length (bs : List UInt8) : (skipSpace bs).length ≤ bs.length :=
  (List.dropWhile_sublist isSpace).length_le

theorem skipSpace_more {tail : List UInt8} (found : skipSpace bs = b :: tail) (more : List UInt8) :
    skipSpace (bs ++ more) = b :: (tail ++ more) := by
  have solid : isSpace b = false := by
    have front := List.head?_dropWhile_not isSpace bs
    rw [← skipSpace,found] at front
    simpa using front
  obtain ⟨gap,blank,whole⟩ := skipSpace_split bs
  rw [whole,found,List.append_assoc]
  exact skipSpace_gap blank solid _

theorem skipSpace_back (blank : Blank more) {left : List UInt8} (found : skipSpace (bs ++ more) = b :: left) :
    ∃ tail, skipSpace bs = b :: tail ∧ left = tail ++ more := by
  cases front : skipSpace bs with
  | nil =>
      have white := skipSpace_append (skipSpace_nil.mp front) more
      rw [found,skipSpace_nil.mpr blank] at white
      cases white
  | cons c tail =>
      rw [skipSpace_more front] at found
      cases found
      exact ⟨tail,rfl,rfl⟩

end Spaces

-- The two readers may differ in their limits. The bound is on inputs for which those of the first are no limits.
structure Follows {α : Type} (more : List UInt8) (bound : Nat) (short long : Reader α) : Prop where
  kept : ∀ {bs x rest}, short bs = some (x,rest) → long (bs ++ more) = some (x,rest ++ more)
  back : Blank more → ∀ {bs}, bs.length < bound → ∀ {x left}, long (bs ++ more) = some (x,left) →
    ∃ rest, short bs = some (x,rest) ∧ left = rest ++ more
  shorter : ∀ {bs x rest}, short bs = some (x,rest) → rest.length < bs.length

variable {more : List UInt8} {bound : Nat}

theorem number_follows (apart : Apart more) (bound : Nat) : Follows more bound number number where
  kept read := by
    rw [number_more apart,read]
    rfl
  back _ bs _ t left read := by
    rw [number_more apart] at read
    obtain ⟨⟨u,rest⟩,spelled,same⟩ := Option.map_eq_some_iff.mp read
    cases same
    exact ⟨rest,spelled,rfl⟩
  shorter := number_shorter

theorem pieces_follows (more : List UInt8) (bound : Nat) : Follows more bound pieces pieces where
  kept read := by
    obtain ⟨text,written,split⟩ := pieces_exact.mp read
    exact pieces_exact.mpr ⟨text,written,by rw [split]; simp⟩
  back blank bs _ ps left read := by
    -- The closing quote is no white space, so it was there before.
    obtain ⟨text,written,split⟩ := pieces_exact.mp read
    have unquoted : (0x22 : UInt8) ∉ more := by
      intro member
      have white := blank _ member
      simp at white
    rcases List.append_eq_append_iff.mp split with ⟨extra,_,same⟩ | ⟨extra,front,same⟩
    · rw [same] at unquoted
      simp at unquoted
    · cases extra with
      | nil =>
          rw [List.nil_append] at same
          rw [← same] at unquoted
          simp at unquoted
      | cons b rest =>
          cases same
          exact ⟨rest,pieces_exact.mpr ⟨text,written,front⟩,rfl⟩
  shorter read := by
    obtain ⟨text,_,split⟩ := pieces_exact.mp read
    rw [split,List.length_append,List.length_cons]
    omega

section Lists

variable {α : Type} {short long : Reader α} {close : UInt8}

theorem commaList_kept (follows : Follows more bound short long) {fuel further : Nat} (enough : fuel ≤ further)
    {bs rest : List UInt8} {xs : List α} (read : commaList short close fuel bs = some (xs,rest)) :
    commaList long close further (bs ++ more) = some (xs,rest ++ more) := by
  induction fuel generalizing further bs xs with
  | zero => cases read
  | succ fuel ih =>
      obtain ⟨further,rfl⟩ := Nat.exists_eq_add_of_le' (Nat.le_trans (Nat.le_add_left 1 fuel) enough)
      obtain ⟨x,middle,b,tail,first,found,next⟩ := commaList_exact.mp read
      refine commaList_exact.mpr ⟨x,_,b,_,follows.kept first,skipSpace_more found more,?_⟩
      rcases next with ⟨comma,ys,others,same⟩ | ⟨other,closing,same,left⟩
      · exact .inl ⟨comma,ys,ih (Nat.le_of_succ_le_succ enough) others,same⟩
      · exact .inr ⟨other,closing,same,by rw [left]⟩

-- Each item takes a byte at least, so as much fuel as there are bytes is enough.
theorem commaList_back (follows : Follows more bound short long) (blank : Blank more) {fuel further : Nat}
    {bs left : List UInt8} (enough : bs.length ≤ fuel) (small : bs.length < bound) {xs : List α}
    (read : commaList long close further (bs ++ more) = some (xs,left)) :
    ∃ rest, commaList short close fuel bs = some (xs,rest) ∧ left = rest ++ more := by
  induction further generalizing fuel bs xs with
  | zero => cases read
  | succ further ih =>
      obtain ⟨x,_,b,_,first,found,next⟩ := commaList_exact.mp read
      obtain ⟨middle,item,rfl⟩ := follows.back blank small first
      obtain ⟨tail,front,rfl⟩ := skipSpace_back blank found
      have taken := follows.shorter item
      have skipped := skipSpace_length middle
      rw [front,List.length_cons] at skipped
      obtain ⟨fuel,rfl⟩ := Nat.exists_eq_add_of_le' (show 1 ≤ fuel by omega)
      rcases next with ⟨comma,ys,others,same⟩ | ⟨other,closing,same,rfl⟩
      · obtain ⟨rest,items,split⟩ := ih (show tail.length ≤ fuel by omega) (by omega) others
        exact ⟨rest,commaList_exact.mpr ⟨x,middle,b,tail,item,front,.inl ⟨comma,ys,items,same⟩⟩,split⟩
      · exact ⟨tail,commaList_exact.mpr ⟨x,middle,b,tail,item,front,.inr ⟨other,closing,same,rfl⟩⟩,rfl⟩

theorem commaList_shorter (follows : Follows more bound short long) {fuel : Nat} {bs rest : List UInt8} {xs : List α}
    (read : commaList short close fuel bs = some (xs,rest)) : rest.length < bs.length := by
  induction fuel generalizing bs xs with
  | zero => cases read
  | succ fuel ih =>
      obtain ⟨x,middle,b,tail,first,found,next⟩ := commaList_exact.mp read
      have taken := follows.shorter first
      have skipped := skipSpace_length middle
      rw [found,List.length_cons] at skipped
      rcases next with ⟨_,ys,others,_⟩ | ⟨_,_,_,left⟩
      · have later := ih others
        omega
      · rw [left]
        omega

theorem bracketed_follows (follows : Follows more bound short long) (close : UInt8) :
    Follows more bound (bracketed short close) (bracketed long close) where
  kept {bs xs rest} read := by
    obtain ⟨b,tail,found,content⟩ := bracketed_exact.mp read
    refine bracketed_exact.mpr ⟨b,_,skipSpace_more found more,?_⟩
    rcases content with ⟨closing,empty,left⟩ | ⟨other,items⟩
    · exact .inl ⟨closing,empty,by rw [left]⟩
    · have longer : bs.length ≤ (bs ++ more).length := by simp
      exact .inr ⟨other,commaList_kept follows longer items⟩
  back blank bs small xs left read := by
    obtain ⟨b,_,found,content⟩ := bracketed_exact.mp read
    obtain ⟨tail,front,rfl⟩ := skipSpace_back blank found
    have skipped := skipSpace_length bs
    rw [front] at skipped
    rcases content with ⟨closing,empty,rfl⟩ | ⟨other,listed⟩
    · exact ⟨tail,bracketed_exact.mpr ⟨b,tail,front,.inl ⟨closing,empty,rfl⟩⟩,rfl⟩
    · obtain ⟨rest,items,split⟩ := commaList_back follows blank skipped (by omega) listed
      exact ⟨rest,bracketed_exact.mpr ⟨b,tail,front,.inr ⟨other,items⟩⟩,split⟩
  shorter {bs xs rest} read := by
    obtain ⟨b,tail,found,content⟩ := bracketed_exact.mp read
    have skipped := skipSpace_length bs
    rw [found] at skipped
    rcases content with ⟨_,_,left⟩ | ⟨_,items⟩
    · rw [left]
      exact skipped
    · exact Nat.lt_of_lt_of_le (commaList_shorter follows items) skipped

end Lists

theorem member_follows {short long : Reader Node} (follows : Follows more bound short long) :
    Follows more bound (member short) (member long) where
  kept read := by
    obtain ⟨tail,middle,next,found,named,colon,valued⟩ := member_exact.mp read
    exact member_exact.mpr ⟨_,_,_,skipSpace_more found more,(pieces_follows more bound).kept named,
      skipSpace_more colon more,follows.kept valued⟩
  back blank bs small entry left read := by
    obtain ⟨_,_,_,found,named,colon,valued⟩ := member_exact.mp read
    obtain ⟨tail,front,rfl⟩ := skipSpace_back blank found
    have skipped := skipSpace_length bs
    rw [front,List.length_cons] at skipped
    obtain ⟨middle,key,rfl⟩ := (pieces_follows more bound).back blank (by omega) named
    obtain ⟨next,sign,rfl⟩ := skipSpace_back blank colon
    have keyed := (pieces_follows more bound).shorter key
    have between := skipSpace_length middle
    rw [sign,List.length_cons] at between
    obtain ⟨rest,content,split⟩ := follows.back blank (show next.length < bound by omega) valued
    exact ⟨rest,member_exact.mpr ⟨tail,middle,next,front,key,sign,content⟩,split⟩
  shorter {bs entry rest} read := by
    obtain ⟨tail,middle,next,found,named,colon,valued⟩ := member_exact.mp read
    have skipped := skipSpace_length bs
    have keyed := (pieces_follows more bound).shorter named
    have between := skipSpace_length middle
    have last := follows.shorter valued
    rw [found,List.length_cons] at skipped
    rw [colon,List.length_cons] at between
    omega

section Beginnings

variable {depth deeper : Nat} {front rest left : List UInt8} {n : Node}

theorem begins_kept (apart : Apart more) (children : Follows more depth (value depth) (value deeper))
    (begins : Begins depth front n rest) : Begins deeper (front ++ more) n (rest ++ more) := by
  cases begins with
  | string spelled => exact .string ((pieces_follows more depth).kept spelled)
  | array inside => exact .array ((bracketed_follows children _).kept inside)
  | object inside => exact .object ((bracketed_follows (member_follows children) _).kept inside)
  | null spelled => exact .null (word_kept spelled more)
  | true spelled => exact .true (word_kept spelled more)
  | false spelled => exact .false (word_kept spelled more)
  | number other spelled => exact .number other ((number_follows apart depth).kept spelled)

theorem begins_back (blank : Blank more) (children : Follows more depth (value depth) (value deeper)) {b : UInt8}
    {tail : List UInt8} (small : tail.length < depth) (begins : Begins deeper (b :: (tail ++ more)) n left) :
    ∃ rest, Begins depth (b :: tail) n rest ∧ left = rest ++ more := by
  cases begins with
  | string spelled =>
      obtain ⟨rest,read,split⟩ := (pieces_follows more depth).back blank small spelled
      exact ⟨rest,.string read,split⟩
  | array inside =>
      obtain ⟨rest,read,split⟩ := (bracketed_follows children _).back blank small inside
      exact ⟨rest,.array read,split⟩
  | object inside =>
      obtain ⟨rest,read,split⟩ := (bracketed_follows (member_follows children) _).back blank small inside
      exact ⟨rest,.object read,split⟩
  | null spelled =>
      obtain ⟨rest,read,split⟩ := word_back blank (by simp [isSpace]) spelled
      exact ⟨rest,.null read,split⟩
  | true spelled =>
      obtain ⟨rest,read,split⟩ := word_back blank (by simp [isSpace]) spelled
      exact ⟨rest,.true read,split⟩
  | false spelled =>
      obtain ⟨rest,read,split⟩ := word_back blank (by simp [isSpace]) spelled
      exact ⟨rest,.false read,split⟩
  | @number _ _ _ t other spelled =>
      have whole : number (b :: tail ++ more) = some (t,left) := spelled
      have short : (b :: tail).length < depth + 1 := Nat.succ_lt_succ small
      obtain ⟨rest,read,split⟩ := (number_follows (apart_blank blank) (depth + 1)).back blank short whole
      exact ⟨rest,.number other read,split⟩

theorem begins_shorter (children : Follows more depth (value depth) (value deeper)) (begins : Begins depth front n rest) :
    rest.length < front.length := by
  cases begins with
  | string spelled => exact Nat.lt_succ_of_lt ((pieces_follows more depth).shorter spelled)
  | array inside => exact Nat.lt_succ_of_lt ((bracketed_follows children _).shorter inside)
  | object inside => exact Nat.lt_succ_of_lt ((bracketed_follows (member_follows children) _).shorter inside)
  | null spelled => exact Nat.lt_succ_of_le (word_shorter spelled)
  | true spelled => exact Nat.lt_succ_of_le (word_shorter spelled)
  | false spelled => exact Nat.lt_succ_of_le (word_shorter spelled)
  | number _ spelled => exact number_shorter spelled

end Beginnings

-- A longer input comes with more depth. The shorter one nests no deeper than it has bytes.
theorem value_follows (apart : Apart more) {depth deeper : Nat} (enough : depth ≤ deeper) :
    Follows more depth (value depth) (value deeper) := by
  induction depth generalizing deeper with
  | zero =>
      refine ⟨?_,?_,?_⟩
      · intro bs n rest read
        cases read
      · intro _ bs small
        cases small
      · intro bs n rest read
        cases read
  | succ depth ih =>
      obtain ⟨deeper,rfl⟩ := Nat.exists_eq_add_of_le' (Nat.le_trans (Nat.le_add_left 1 depth) enough)
      have children := ih (Nat.le_of_succ_le_succ enough)
      refine ⟨?_,?_,?_⟩
      · intro bs n rest read
        have begins := begins_kept apart children (value_exact.mp read)
        rw [value_exact]
        cases found : skipSpace bs with
        | nil =>
            rw [value,found] at read
            cases read
        | cons b tail =>
            rw [found] at begins
            rw [skipSpace_more found]
            exact begins
      · intro blank bs small n left read
        have begins := value_exact.mp read
        cases found : skipSpace (bs ++ more) with
        | nil =>
            rw [value,found] at read
            cases read
        | cons b _ =>
            obtain ⟨tail,front,rfl⟩ := skipSpace_back blank found
            have skipped := skipSpace_length bs
            rw [front,List.length_cons] at skipped
            rw [found] at begins
            obtain ⟨rest,begun,split⟩ := begins_back blank children (by omega) begins
            refine ⟨rest,?_,split⟩
            rw [value_exact,front]
            exact begun
      · intro bs n rest read
        exact Nat.lt_of_lt_of_le (begins_shorter children (value_exact.mp read)) (skipSpace_length bs)

theorem parse_blank {before after : List UInt8} (front : Blank before) (back : Blank after) (bs : List UInt8) :
    parse (before ++ (bs ++ after)) = parse bs := by
  have longer : bs.length + 1 ≤ (before ++ (bs ++ after)).length + 1 := by
    simp only [List.length_append]
    omega
  have follows := value_follows (apart_blank back) longer
  apply Option.ext
  intro node
  rw [parse_exact,parse_exact,value_append front]
  constructor
  · intro found
    obtain ⟨left,read,blank⟩ := found
    obtain ⟨rest,valued,rfl⟩ := follows.back back (Nat.lt_succ_self _) read
    exact ⟨rest,valued,(List.forall_mem_append.mp blank).1⟩
  · intro found
    obtain ⟨rest,valued,blank⟩ := found
    exact ⟨rest ++ after,follows.kept valued,List.forall_mem_append.mpr ⟨blank,back⟩⟩

theorem json_padding_exact (t : Ty) (p : Payload) {before after : List UInt8} (front : Blank before) (back : Blank after) :
    (∀ v, Serializer.json.fromPayload t { p with body := before ++ (p.body ++ after) } = .ok v ↔
      Serializer.json.fromPayload t p = .ok v) ∧
    ((∀ given, p.contentType = some given → Serializer.json.accepts given = true) →
      (∀ v, Serializer.json.fromPayload t p ≠ .ok v) →
        Serializer.json.fromPayload t p = .error (.decode applicationJson .codec) ∧
        Serializer.json.fromPayload t { p with body := before ++ (p.body ++ after) } =
          .error (.decode applicationJson .codec)) := by
  have same : decode t (before ++ (p.body ++ after)) = decode t p.body := by
    rw [decode,decode,parse_blank front back]
  refine ⟨?_,?_⟩
  · intro v
    rw [Serializer.json_ok,Serializer.json_ok,same]
  · intro taken unread
    rw [Serializer.json_taken taken] at unread ⊢
    rw [Serializer.json_taken (p := { p with body := before ++ (p.body ++ after) }) taken,same]
    cases decoded : decode t p.body with
    | none => exact ⟨rfl,rfl⟩
    | some v =>
        rw [decoded] at unread
        exact absurd rfl (unread v)

-- A record between white space of all four kinds, and an escape that two blanks behind it do not complete.
theorem json_padded_record_read_cut_escape_refused :
    Serializer.json.fromPayload Catalogue.strict
      (.untyped [0x09,0x20,0x7b,0x22,0x61,0x22,0x3a,0x37,0x7d,0x0d,0x0a]) = .ok (⟨7,by decide⟩,none,()) ∧
    Serializer.json.fromPayload .text (.untyped [0x22,0x5c,0x75,0x30,0x30]) = .error (.decode applicationJson .codec) ∧
    Serializer.json.fromPayload .text (.untyped [0x22,0x5c,0x75,0x30,0x30,0x20,0x20]) =
      .error (.decode applicationJson .codec) := by
  have outer : Blank [0x09,0x20] ∧ Blank [0x0d,0x0a] := ⟨by simp [Blank],by simp [Blank]⟩
  have inner : Blank [] ∧ Blank [0x20,0x20] := ⟨by simp [Blank],by simp [Blank]⟩
  refine ⟨?_,?_⟩
  · exact ((json_padding_exact Catalogue.strict (.untyped [0x7b,0x22,0x61,0x22,0x3a,0x37,0x7d]) outer.1 outer.2).1 _).mpr rfl
  · apply (json_padding_exact .text (.untyped [0x22,0x5c,0x75,0x30,0x30]) inner.1 inner.2).2
    · intro given typed
      cases typed
    · intro v read
      cases read

end Switchboard.Json
