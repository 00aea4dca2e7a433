import Switchboard.Serializer.Basic

namespace Switchboard.Routing
open Serializer

mutual
-- From left to right, whichever way they are grouped.
def leaves : Serializer → List Codec
  | .leaf codec => [codec]
  | .composite primary others => leaves primary ++ allLeaves others

def allLeaves : List Serializer → List Codec
  | [] => []
  | s :: rest => leaves s ++ allLeaves rest
end

def leftmost : Serializer → Codec
  | .leaf codec => codec
  | .composite primary _ => leftmost primary

theorem leaves_cons (s : Serializer) : ∃ rest, leaves s = leftmost s :: rest := by
  induction s using leftmost.induct with
  | case1 codec => exact ⟨[],by simp [leaves,leftmost]⟩
  | case2 primary others ih =>
      obtain ⟨rest,eq⟩ := ih
      exact ⟨rest ++ allLeaves others,by simp [leaves,leftmost,eq]⟩

theorem contentType_leftmost (s : Serializer) : s.contentType = (leftmost s).contentType := by
  induction s using leftmost.induct with
  | case1 codec => rfl
  | case2 primary others ih => exact ih

theorem encode_leftmost (t : Ty) (v : t.Value) (s : Serializer) :
    s.encode t v = (leftmost s).encode t v := by
  induction s using leftmost.induct with
  | case1 codec => rfl
  | case2 primary others ih => exact ih

mutual
theorem accepts_leaves (given : String) : (s : Serializer) →
    s.accepts given = (leaves s).any (fun codec => codec.accepts given)
  | .leaf codec => by simp [accepts,leaves]
  | .composite primary others => by
      rw [accepts,leaves,List.any_append,accepts_leaves given primary,anyAccepts_leaves given others]

theorem anyAccepts_leaves (given : String) : (others : List Serializer) →
    anyAccepts given others = (allLeaves others).any (fun codec => codec.accepts given)
  | [] => rfl
  | s :: rest => by
      rw [anyAccepts,allLeaves,List.any_append,accepts_leaves given s,anyAccepts_leaves given rest]
end

def firstAccepting (t : Ty) (p : Payload) (given : String) (codecs : List Codec) :
    Except SerializationError (Option t.Value) :=
  match codecs.find? (fun codec => codec.accepts given) with
  | some codec => codec.decode t p
  | none => .error (.unsupported given .decode)

section Reading

variable {t : Ty} {p : Payload} {given : String}

theorem firstAccepting_left {codecs : List Codec} (more : List Codec)
    (accepted : codecs.any (fun codec => codec.accepts given) = true) :
    firstAccepting t p given (codecs ++ more) = firstAccepting t p given codecs := by
  have found : (codecs.find? (fun codec => codec.accepts given)).isSome := by
    simpa [List.any_eq_true] using accepted
  obtain ⟨codec,found⟩ := Option.isSome_iff_exists.mp found
  rw [firstAccepting,firstAccepting,List.find?_append,found]
  rfl

theorem firstAccepting_right {codecs : List Codec} (more : List Codec)
    (refused : codecs.any (fun codec => codec.accepts given) = false) :
    firstAccepting t p given (codecs ++ more) = firstAccepting t p given more := by
  have absent : codecs.find? (fun codec => codec.accepts given) = none := by
    simpa [List.any_eq_false] using refused
  rw [firstAccepting,List.find?_append,absent]
  rfl

-- A codec may read what it does not accept if it is asked to; a composite asks only those
-- that accept.
def Asked (given : String) (s : Serializer) : Prop :=
  ∀ codec, s = .leaf codec → codec.accepts given = true

theorem asked_of_accepts {s : Serializer} (accepted : s.accepts given = true) : Asked given s := by
  rintro codec rfl
  simpa [accepts] using accepted

mutual
theorem decode_typed (typed : p.contentType = some given) : (s : Serializer) → Asked given s →
    decode t p s = firstAccepting t p given (leaves s)
  | .leaf codec,asked => by simp [decode,leaves,firstAccepting,asked codec rfl]
  | .composite primary others,_ => by
      rw [decode,typed,leaves]
      dsimp only
      split
      · rename_i accepted
        rw [decode_typed typed primary (asked_of_accepts accepted),firstAccepting_left]
        rwa [← accepts_leaves]
      · rename_i refused
        rw [decodeFirst_typed typed others,firstAccepting_right]
        rw [← accepts_leaves]
        simpa using refused

theorem decodeFirst_typed (typed : p.contentType = some given) : (others : List Serializer) →
    decodeFirst t p given others = firstAccepting t p given (allLeaves others)
  | [] => rfl
  | s :: rest => by
      rw [decodeFirst,allLeaves]
      split
      · rename_i accepted
        rw [decode_typed typed s (asked_of_accepts accepted),firstAccepting_left]
        rwa [← accepts_leaves]
      · rename_i refused
        rw [decodeFirst_typed typed rest,firstAccepting_right]
        rw [← accepts_leaves]
        simpa using refused
end

theorem decode_untyped (untyped : p.contentType = none) (inhabited : p.isEmpty = false)
    (s : Serializer) : decode t p s = (leftmost s).decode t p := by
  induction s using leftmost.induct with
  | case1 codec => simp [decode,leftmost]
  | case2 primary others ih => simpa [decode,untyped,inhabited,leftmost] using ih

end Reading

def routed (t : Ty) (p : Payload) (first : Codec) (rest : List Codec) :
    Except SerializationError (Option t.Value) :=
  match p.contentType with
  | none => if p.isEmpty then ofNothing first.contentType t else first.decode t p
  | some given => firstAccepting t p given (first :: rest)

theorem decode_composite (t : Ty) (p : Payload) (primary : Serializer) (others : List Serializer)
    {first : Codec} {rest : List Codec} (codecs : leaves (.composite primary others) = first :: rest) :
    decode t p (.composite primary others) = routed t p first rest := by
  obtain ⟨tail,eq⟩ := leaves_cons (.composite primary others)
  have head : leftmost (.composite primary others) = first := by
    rw [codecs] at eq; exact (List.cons.inj eq).1.symm
  unfold routed
  cases type : p.contentType with
  | none =>
      cases inhabited : p.isEmpty with
      | true => simp [decode,type,inhabited,contentType_leftmost,← head,leftmost]
      | false => simpa [head] using decode_untyped type inhabited (.composite primary others)
  | some given =>
      rw [← codecs]
      exact decode_typed type _ (fun codec same => by cases same)

structure Alike (a b : Serializer) : Prop where
  contentType : a.contentType = b.contentType
  accepts : ∀ given, a.accepts given = b.accepts given
  toPayload : ∀ t v, a.toPayload t v = b.toPayload t v
  fromPayload : ∀ t p, a.fromPayload t p = b.fromPayload t p

theorem alike_of_leaves {primary other : Serializer} {members others : List Serializer}
    (same : leaves (.composite primary members) = leaves (.composite other others)) :
    Alike (.composite primary members) (.composite other others) := by
  obtain ⟨rest,left⟩ := leaves_cons (.composite primary members)
  obtain ⟨tail,right⟩ := leaves_cons (.composite other others)
  have heads : leftmost (.composite primary members) = leftmost (.composite other others) := by
    rw [left,right] at same; exact (List.cons.inj same).1
  have written : Serializer.contentType (.composite primary members) =
      Serializer.contentType (.composite other others) := by
    rw [contentType_leftmost,contentType_leftmost,heads]
  refine ⟨written,fun given => ?_,fun t v => ?_,fun t p => ?_⟩
  · rw [accepts_leaves,accepts_leaves,same]
  · rw [Serializer.toPayload,Serializer.toPayload,encode_leftmost,encode_leftmost,heads]
  · have read := (decode_composite t p primary members left).trans
      (decode_composite t p other others (same.symm.trans left)).symm
    rw [fromPayload,fromPayload,read,written]

def flat (first : Codec) (rest : List Codec) : Serializer :=
  rest.foldl (fun s codec => s.adding (.leaf codec)) (alone (.leaf first))

theorem flat_composite (first : Codec) (rest : List Codec) :
    flat first rest = .composite (.leaf first) (rest.map .leaf) := by
  have added : ∀ others : List Serializer,
      rest.foldl (fun s codec => adding s (.leaf codec)) (.composite (.leaf first) others) =
        .composite (.leaf first) (others ++ rest.map .leaf) := by
    induction rest with
    | nil => simp
    | cons codec rest ih =>
        intro others
        rw [List.foldl_cons,adding,ih,List.append_assoc,List.map_cons,List.singleton_append]
  exact added []

theorem allLeaves_map (codecs : List Codec) : allLeaves (codecs.map .leaf) = codecs := by
  induction codecs with
  | nil => rfl
  | cons codec rest ih => simp [allLeaves,leaves,ih]

theorem flattening_exact (primary : Serializer) (others : List Serializer) :
    ∃ first rest, leaves (.composite primary others) = first :: rest ∧
      Alike (.composite primary others) (flat first rest) := by
  obtain ⟨rest,codecs⟩ := leaves_cons (.composite primary others)
  refine ⟨_,rest,codecs,?_⟩
  rw [flat_composite]
  apply alike_of_leaves
  rw [codecs]
  simp [leaves,allLeaves_map]

end Switchboard.Routing
