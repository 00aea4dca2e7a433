import Switchboard.Pattern.Reader

namespace Switchboard.Pattern

section Escapes

variable {f : Flags} {cs rest : List Char}

theorem skipBlank_length (inRemark : Bool) (cs : List Char) :
    (Flags.skipBlank inRemark cs).length ≤ cs.length := by
  induction cs generalizing inRemark with
  | nil => exact Nat.le_refl _
  | cons c rest ih =>
      have on := ih (c != '\n')
      have spaces := ih false
      have remark := ih true
      simp only [Flags.skipBlank,List.length_cons]
      split
      · omega
      · split
        · omega
        · split
          · omega
          · exact Nat.le_refl _

theorem trim_length (f : Flags) (cs : List Char) : (f.trim cs).length ≤ cs.length := by
  unfold Flags.trim
  split
  · exact skipBlank_length false cs
  · exact Nat.le_refl _

theorem hexDigits_length {count value total : Nat} (read : hexDigits? f count value cs = some (total,rest)) :
    rest.length ≤ cs.length := by
  induction count generalizing value cs with
  | zero => cases read; exact Nat.le_refl _
  | succ count ih =>
      have trimmed := trim_length f cs
      rw [hexDigits?] at read
      split at read
      · cases read
      · rename_i c more same
        obtain ⟨digit,_,later⟩ := Option.bind_eq_some_iff.mp read
        have fewer := ih later
        rw [same,List.length_cons] at trimmed
        omega

theorem hexChar_length {digits : Nat} {atom : Atom} (read : hexChar? f digits cs = some (atom,rest)) :
    rest.length ≤ cs.length := by
  obtain ⟨⟨value,more⟩,taken,whole⟩ := Option.bind_eq_some_iff.mp read
  obtain ⟨_,result⟩ := Option.ite_none_right_eq_some.mp whole
  cases result
  exact Nat.le_trans (trim_length f more) (hexDigits_length taken)

theorem mapped_rest {α β : Type} {o : Option α} {g : α → β} {x : β} {more : List Char}
    (read : o.map (fun a => (g a,more)) = some (x,rest)) : rest = more := by
  obtain ⟨_,_,result⟩ := Option.map_eq_some_iff.mp read
  exact (congrArg Prod.snd result).symm

theorem escape_length {atom : Atom} (read : escape? f cs = some (atom,rest)) : rest.length < cs.length := by
  cases cs with
  | nil => cases read
  | cons c more =>
      apply Nat.lt_succ_of_le
      simp only [escape?] at read
      split at read
      case h_1 | h_2 | h_3 => exact hexChar_length read
      case h_22 =>
        obtain ⟨_,result⟩ := Option.ite_none_right_eq_some.mp read
        cases result
        exact Nat.le_refl _
      all_goals
        first
        | cases mapped_rest read; exact Nat.le_refl _
        | cases read; exact Nat.le_refl _

end Escapes

section Sets

variable {f : Flags} {cs rest : List Char}

theorem setItem_length {atom : Atom} (read : setItem? f cs = some (atom,rest)) : rest.length < cs.length := by
  unfold setItem? at read
  split at read
  · cases read
  · exact Nat.lt_succ_of_lt (escape_length read)
  · cases read
    exact Nat.lt_succ_self _

theorem rangeOrItem_length {s : CharSet} (read : rangeOrItem? f cs = some (s,rest)) :
    rest.length < cs.length := by
  obtain ⟨⟨first,more⟩,item,whole⟩ := Option.bind_eq_some_iff.mp read
  have shorter := setItem_length item
  have trimmed := trim_length f more
  simp only at whole
  split at whole
  · cases whole
  · rename_i after same
    rw [same,List.length_cons] at trimmed
    split at whole
    · obtain ⟨⟨last,left⟩,second,bounds⟩ := Option.bind_eq_some_iff.mp whole
      obtain ⟨low,_,bounds⟩ := Option.bind_eq_some_iff.mp bounds
      obtain ⟨high,_,bounds⟩ := Option.bind_eq_some_iff.mp bounds
      obtain ⟨_,result⟩ := Option.ite_none_right_eq_some.mp bounds
      have fewer := setItem_length second
      have cut := trim_length f after
      have same : left = rest := congrArg Prod.snd (Option.some.inj result)
      rw [same] at fewer
      omega
    · rw [mapped_rest whole,List.length_cons]
      omega
  · rw [mapped_rest whole]
    omega

theorem circumflex_length (cs : List Char) : (circumflex cs).2.length ≤ cs.length := by
  unfold circumflex
  split
  · exact Nat.le_succ _
  · exact Nat.le_refl _

theorem namedSet_length {negated : Bool} {s : CharSet} (read : namedSet? cs = some (negated,s,rest)) :
    rest.length < cs.length := by
  unfold namedSet? at read
  split at read
  · rename_i more
    have marked := circumflex_length more
    simp only at read
    split at read
    · rename_i after same
      obtain ⟨_,_,result⟩ := Option.map_eq_some_iff.mp read
      cases result
      have found := (List.dropWhile_suffix (l := (circumflex more).2) (· != ':')).length_le
      rw [same,List.length_cons,List.length_cons] at found
      rw [List.length_cons]
      omega
    · cases read
  · cases read

theorem hyphens_length (f : Flags) (fuel : Nat) (m : Members) (cs : List Char) :
    (hyphens f fuel m cs).2.length ≤ cs.length := by
  induction fuel generalizing m cs with
  | zero => exact Nat.le_refl _
  | succ fuel ih =>
      unfold hyphens
      split
      · rename_i more
        have on := ih (m.add ⟨.single '-',0⟩) (f.trim more)
        have trimmed := trim_length f more
        rw [List.length_cons]
        omega
      · exact Nat.le_refl _

theorem hyphens_enough {fuel other : Nat} {m : Members} (enough : cs.length ≤ fuel)
    (also : cs.length ≤ other) : hyphens f fuel m cs = hyphens f other m cs := by
  induction fuel generalizing other m cs with
  | zero =>
      cases List.length_eq_zero_iff.mp (Nat.le_zero.mp enough)
      cases other with
      | zero => rfl
      | succ other => rfl
  | succ fuel ih =>
      cases other with
      | zero =>
          cases List.length_eq_zero_iff.mp (Nat.le_zero.mp also)
          rfl
      | succ other =>
          unfold hyphens
          split
          · rename_i more
            have trimmed := trim_length f more
            rw [List.length_cons] at enough also
            exact ih (by omega) (by omega)
          · rfl

theorem openBracket_length (f : Flags) (cs : List Char) : (openBracket f cs).2.2.length ≤ cs.length := by
  have trimmed := trim_length f cs
  have marked := circumflex_length (f.trim cs)
  have again := trim_length f (circumflex (f.trim cs)).2
  have cut := hyphens_length f (f.trim (circumflex (f.trim cs)).2).length .none (f.trim (circumflex (f.trim cs)).2)
  simp only [openBracket]
  split
  · rename_i more same
    have last := trim_length f more
    rw [same,List.length_cons] at cut
    split
    · simp only
      omega
    · simp only [same,List.length_cons]
      omega
  · simp only
    omega

-- A step in a set, taken with two amounts of fuel: both ways it is refused, or it ends, or it
-- goes on with the same; and then it has taken a character at least.
inductive SetStep (f : Flags) (length one other : Nat) :
    Option (Nested × List Char) → Option (Nested × List Char) → Prop where
  | refused : SetStep f length one other none none
  | ended {s : Nested} {rest : List Char} (shorter : rest.length < length) :
      SetStep f length one other (some (s,rest)) (some (s,rest))
  | on {m : Members} {frames : List SetFrame} {rest : List Char} (shorter : rest.length < length) :
      SetStep f length one other (setIn? f one m frames rest) (setIn? f other m frames rest)

theorem SetStep.bind {α : Type} {length one other : Nat} {o : Option α}
    {g h : α → Option (Nested × List Char)}
    (next : ∀ a, o = some a → SetStep f length one other (g a) (h a)) :
    SetStep f length one other (o.bind g) (o.bind h) := by
  cases o with
  | none => exact .refused
  | some a => exact next a rfl

theorem setIn_trimmed (one other : Nat) (m : Members) (frames : List SetFrame) (cs : List Char) :
    SetStep f (f.trim cs).length one other (setIn? f (one + 1) m frames cs)
      (setIn? f (other + 1) m frames cs) := by
  simp only [setIn?]
  split
  · exact .refused
  · rename_i rest same
    rw [same]
    split
    · rename_i named
      exact .bind (fun s _ => .on (Nat.lt_succ_of_lt (namedSet_length named)))
    · exact .on (Nat.lt_succ_of_le (openBracket_length f rest))
  · rename_i rest same
    rw [same]
    apply SetStep.bind
    intro settled _
    split
    · apply SetStep.bind
      intro s _
      split
      · exact .ended (Nat.lt_succ_self _)
      · exact .on (Nat.lt_succ_self _)
    · exact .refused
  case h_4 | h_5 | h_6 =>
    rename_i rest same
    rw [same]
    exact .bind (fun s _ => .on (by simp only [List.length_cons]; omega))
  · exact .bind (fun item read => .on (rangeOrItem_length read))

theorem setIn_enough {fuel other : Nat} {m : Members} {frames : List SetFrame}
    (enough : cs.length < fuel) (also : cs.length < other) :
    setIn? f fuel m frames cs = setIn? f other m frames cs := by
  induction fuel generalizing other m frames cs with
  | zero => cases enough
  | succ fuel ih =>
      obtain ⟨less,rfl⟩ := Nat.exists_eq_add_of_le' (show 1 ≤ other by omega)
      have trimmed := trim_length f cs
      have step := setIn_trimmed (f := f) fuel less m frames cs
      generalize setIn? f (fuel + 1) m frames cs = first at step ⊢
      generalize setIn? f (less + 1) m frames cs = second at step ⊢
      cases step with
      | refused | ended => rfl
      | on shorter => exact ih (by omega) (by omega)

theorem setIn_length {fuel : Nat} {m : Members} {frames : List SetFrame} {s : Nested}
    (read : setIn? f fuel m frames cs = some (s,rest)) : rest.length < cs.length := by
  induction fuel generalizing m frames cs with
  | zero => cases read
  | succ fuel ih =>
      have trimmed := trim_length f cs
      have step := setIn_trimmed (f := f) fuel fuel m frames cs
      rw [read] at step
      generalize same : some (s,rest) = first at step
      cases step with
      | refused => cases same
      | ended shorter =>
          cases same
          omega
      | on shorter =>
          have fewer := ih same.symm
          omega

theorem bracketed_enough {negated : Bool} {m : Members} (opened : openBracket f cs = (negated,m,rest))
    {fuel : Nat} (enough : rest.length < fuel) :
    bracketed? f cs = setIn? f fuel m [.bracket .none negated] rest := by
  rw [bracketed?,opened]
  exact setIn_enough (Nat.lt_succ_self _) enough

theorem bracketed_length {s : Nested} (read : bracketed? f cs = some (s,rest)) : rest.length < cs.length :=
  Nat.lt_of_lt_of_le (setIn_length read) (openBracket_length f cs)

end Sets

section Groups

variable {cs rest : List Char}

theorem flags_length {f changed : Flags} {named all : List Char} {off afterHyphen : Bool} {last : Char}
    (read : flags? f named off afterHyphen cs = some (changed,all,last,rest)) : rest.length < cs.length := by
  induction cs generalizing f named off afterHyphen with
  | nil => cases read
  | cons c more ih =>
      apply Nat.lt_succ_of_le
      rw [flags?] at read
      split at read
      · split at read
        · cases read
        · cases read
          exact Nat.le_refl _
      · split at read
        · split at read
          · cases read
          · exact Nat.le_of_lt (ih read)
        · split at read
          · cases read
          · obtain ⟨f,_,later⟩ := Option.bind_eq_some_iff.mp read
            exact Nat.le_of_lt (ih later)

theorem groupName_length {name : String} (read : groupName? cs = some (name,rest)) :
    rest.length < cs.length := by
  unfold groupName? at read
  split at read
  · rename_i closed
    have found := (List.dropWhile_suffix (l := cs) (· != '>')).length_le
    rw [closed,List.length_cons] at found
    split at read
    · cases read
      omega
    · cases read
  · cases read

theorem openNamed_length {r next : Reading} (read : openNamed? r cs = some (next,rest)) :
    rest.length < cs.length := by
  obtain ⟨⟨name,more⟩,taken,whole⟩ := Option.bind_eq_some_iff.mp read
  obtain ⟨_,result⟩ := Option.ite_none_left_eq_some.mp whole
  cases result
  exact groupName_length taken

theorem openGroup_length {r next : Reading} (read : openGroup? r cs = some (next,rest)) :
    rest.length ≤ cs.length := by
  apply Nat.le_trans _ (trim_length r.group.flags cs)
  simp only [openGroup?] at read
  split at read
  case h_1 | h_2 | h_3 | h_4 => cases read
  case h_5 | h_6 =>
    rename_i same
    have shorter := openNamed_length read
    simp only [same,List.length_cons]
    omega
  case h_7 =>
    rename_i same
    rw [same,List.length_cons]
    split at read
    case h_3 => cases read
    all_goals
      rename_i set
      cases read
      have shorter := flags_length set
      omega
  case h_8 =>
    cases read
    exact Nat.le_refl _

theorem repeat_length {r next : Reading} {repetition : Bool → Pattern → Pattern}
    (read : repeat? r repetition cs = some (next,rest)) : rest.length ≤ cs.length := by
  unfold repeat? at read
  split at read
  · rw [mapped_rest read]
    exact Nat.le_succ _
  · exact Nat.le_of_eq (congrArg List.length (mapped_rest read))

theorem next_length {r next : Reading} (read : next? r cs = some (next,rest)) :
    rest.length < cs.length := by
  unfold next? at read
  split at read
  case h_1 | h_9 => cases read
  case h_2 => exact Nat.lt_succ_of_le (openGroup_length read)
  case h_6 | h_7 | h_8 => exact Nat.lt_succ_of_le (repeat_length read)
  case h_5 =>
    obtain ⟨⟨s,more⟩,taken,result⟩ := Option.bind_eq_some_iff.mp read
    cases result
    exact Nat.lt_succ_of_lt (bracketed_length taken)
  case h_10 =>
    obtain ⟨⟨atom,more⟩,taken,whole⟩ := Option.bind_eq_some_iff.mp read
    obtain ⟨p,_,result⟩ := Option.bind_eq_some_iff.mp whole
    cases result
    exact Nat.lt_succ_of_lt (escape_length taken)
  case h_3 | h_11 | h_14 =>
    rw [mapped_rest read]
    exact Nat.lt_succ_self _
  case h_4 | h_12 | h_13 =>
    cases read
    exact Nat.lt_succ_self _

theorem readIn_enough {fuel other : Nat} {r : Reading} (enough : cs.length < fuel)
    (also : cs.length < other) : readIn? fuel r cs = readIn? other r cs := by
  induction fuel generalizing other r cs with
  | zero => cases enough
  | succ fuel ih =>
      obtain ⟨less,rfl⟩ := Nat.exists_eq_add_of_le' (show 1 ≤ other by omega)
      have trimmed := trim_length r.group.flags cs
      rw [readIn?,readIn?]
      split
      · rfl
      · rename_i more same
        apply Option.bind_congr
        intro step read
        have shorter := next_length read
        exact ih (by omega) (by omega)

theorem read_enough (s : String) {fuel : Nat} (enough : s.length < fuel) :
    read? s = (readIn? fuel (.begun .standard) s.toList).bind
      (fun part => if part.depth ≤ depthLimit then some part.pattern else none) := by
  have same : readIn? (s.length + 1) (.begun .standard) s.toList = readIn? fuel (.begun .standard) s.toList :=
    readIn_enough (Nat.lt_succ_self _) enough
  exact congrArg (Option.bind · _) same

end Groups

end Switchboard.Pattern
