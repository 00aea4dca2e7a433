import Switchboard.Proofs.Json.Escapes
import Switchboard.Proofs.Json.Padding
namespace Switchboard.Json

-- A member of an object: some spelling of its key, and a well-formed text for its value.
structure Entry where
  key : String
  name : List UInt8
  value : List UInt8
  named : Padded (TextSpelling key) name
  formed : IsText value

namespace Entry

def text (e : Entry) : List UInt8 := e.name ++ 0x3a :: e.value

def node (e : Entry) : Node := (parse e.value).getD .null

def field (e : Entry) : String × Node := (e.key,e.node)

theorem node_parsed (e : Entry) : parse e.value = some e.node ∧ e.node.isSound = true := by
  obtain ⟨found,parsed,typed⟩ := Option.bind_eq_some_iff.mp ((decode_ignored e.value).mpr e.formed)
  have same : e.node = found := by
    rw [node,parsed]
    rfl
  rw [same]
  exact ⟨parsed,read_ignored.mp typed⟩

theorem value_taken (e : Entry) {depth : Nat} (deep : e.value.length < depth) : Takes (Json.value depth) e.value e.node := by
  intro b rest delimits
  obtain ⟨gap,valued,blank⟩ := parse_exact.mp e.node_parsed.1
  have follows := value_follows (apart_delimited (delimited_cons delimits rest)) (show e.value.length + 1 ≤ depth from deep)
  exact ⟨_,follows.kept valued,skipSpace_gap blank (delimiter_solid delimits) rest⟩

theorem text_taken (e : Entry) : ∃ ps, Piece.text? ps = some e.key ∧
    ∀ depth, e.value.length < depth → Takes (member (Json.value depth)) e.text (ps,e.node) := by
  have named := e.named
  generalize shape : e.name = name at named
  cases named with
  | @mk before _ after front spelling back =>
      cases spelling with
      | @quoted letters characters =>
          obtain ⟨ps,written,paired⟩ := Piece.characters_exact.mp characters
          refine ⟨ps,text_spelled.mpr paired,?_⟩
          intro depth deep b rest delimits
          obtain ⟨left,read,found⟩ := e.value_taken deep b rest delimits
          have bytes : e.text ++ b :: rest =
              before ++ 0x22 :: (letters ++ 0x22 :: (after ++ 0x3a :: (e.value ++ b :: rest))) := by
            rw [text,shape]
            simp
          refine ⟨left,?_,found⟩
          rw [bytes]
          exact member_exact.mpr ⟨_,_,_,skipSpace_gap front (by decide) _,pieces_exact.mpr ⟨letters,written,rfl⟩,
            skipSpace_gap back (by decide) _,read⟩

end Entry

def objectText (es : List Entry) : List UInt8 := 0x7b :: (commas (es.map Entry.text) ++ [0x7d])

def arrayText (es : List Entry) : List UInt8 := 0x5b :: (commas (es.map Entry.value) ++ [0x5d])

section Parsing

variable {es : List Entry}

theorem array_parsed (es : List Entry) : parse (arrayText es) = some (.array (es.map Entry.node)) := by
  have each : ∀ e ∈ es, Takes (value (arrayText es).length) e.value e.node := by
    intro e member
    have shorter := part_length (List.mem_map_of_mem (f := Entry.value) member)
    apply e.value_taken
    rw [arrayText,List.length_cons,List.length_append]
    omega
  have inside := bracketed_commas (.inl rfl) (value_guarded _) each []
  refine parse_exact.mpr ⟨[],?_,skipSpace_nil.mp rfl⟩
  rw [value_exact,arrayText,skipSpace_solid (by decide)]
  exact .array inside

theorem object_parsed (es : List Entry) :
    ∃ members, parse (objectText es) = some (.object members) ∧ members.mapM fieldOf? = some (es.map Entry.field) := by
  obtain ⟨letters,taken⟩ := Classical.skolem.mp Entry.text_taken
  have each : ∀ e ∈ es, Takes (member (value (objectText es).length)) e.text (letters e,e.node) := by
    intro e member
    have shorter := part_length (List.mem_map_of_mem (f := Entry.text) member)
    apply (taken e).2
    rw [Entry.text,List.length_append,List.length_cons] at shorter
    rw [objectText,List.length_cons,List.length_append]
    omega
  have inside := bracketed_commas (.inr rfl) (member_guarded _) each []
  refine ⟨es.map (fun e => (letters e,e.node)),parse_exact.mpr ⟨[],?_,skipSpace_nil.mp rfl⟩,?_⟩
  · rw [value_exact,objectText,skipSpace_solid (by decide)]
    exact .object inside
  · clear each inside
    induction es with
    | nil => rfl
    | cons e es ih =>
        have first : fieldOf? (letters e,e.node) = some e.field := by
          rw [fieldOf?,(taken e).1]
          rfl
        rw [List.map_cons,List.map_cons,List.mapM_cons,first,ih]
        rfl

end Parsing

section Decoding

variable {name : String} {unknown : UnknownKeys} {fields : Fields} {es ds : List Entry}

theorem decode_object :
    decode (.record name unknown fields) (objectText es) =
      if strangersPass unknown fields (es.map Entry.field) then readEntries fields 126 (es.map Entry.field) else none := by
  obtain ⟨members,parsed,named⟩ := object_parsed es
  rw [decode,parsed]
  simp only [Option.bind_some,depthLimit,read,named,Option.bind_eq_bind]

theorem decode_array :
    decode (.record name unknown fields) (arrayText es) = readSequence fields 126 (es.map Entry.node) := by
  rw [decode,array_parsed]
  rfl

theorem only_perm {a b : List (String × Node)} (perm : a.Perm b) (name : String) : only? a name = only? b name := by
  have chosen := perm.filter (fun entry => entry.1 == name)
  unfold only?
  generalize a.filter (fun entry => entry.1 == name) = first at chosen
  generalize b.filter (fun entry => entry.1 == name) = second at chosen
  have count := chosen.length_eq
  cases first with
  | nil =>
      cases chosen.nil_eq
      rfl
  | cons x first =>
      cases first with
      | nil =>
          cases List.singleton_perm.mp chosen
          rfl
      | cons y first =>
          cases second with
          | nil => cases count
          | cons z second =>
              cases second with
              | nil => cases count
              | cons w second => rfl

theorem readEntries_same {a b : List (String × Node)} (budget : Nat) : (fields : Fields) →
    (∀ name ∈ fields.names, only? a name = only? b name) → readEntries fields budget a = readEntries fields budget b
  | .nil,_ => rfl
  | .cons name presence t rest,same => by
      have first := same name List.mem_cons_self
      have later := readEntries_same budget rest (fun other member => same other (List.mem_cons_of_mem _ member))
      rw [readEntries,readEntries,first,later]

theorem decode_rearranged (perm : es.Perm ds) :
    decode (.record name unknown fields) (objectText es) = decode (.record name unknown fields) (objectText ds) := by
  have moved := perm.map Entry.field
  have strangers : strangersPass unknown fields (es.map Entry.field) = strangersPass unknown fields (ds.map Entry.field) :=
    moved.all_eq
  rw [decode_object,decode_object,strangers,readEntries_same 126 fields (fun name _ => only_perm moved name)]

theorem decode_stranger {e : Entry} (strange : e.key ∉ fields.names) :
    decode (.record name .skipped fields) (objectText (e :: es)) = decode (.record name .skipped fields) (objectText es) := by
  have passed : strangersPass .skipped fields ((e :: es).map Entry.field) =
      strangersPass .skipped fields (es.map Entry.field) := by
    simp [strangersPass,Entry.field,e.node_parsed.2]
  have same : ∀ other ∈ fields.names, only? ((e :: es).map Entry.field) other = only? (es.map Entry.field) other := by
    intro other member
    have apart : e.key ≠ other := fun same => strange (same ▸ member)
    rw [only_single,only_single,List.map_cons,Entry.field,single_later apart]
  rw [decode_object,decode_object,passed,readEntries_same 126 fields same]

theorem readEntries_sequence (budget : Nat) : (fields : Fields) → fields.names.Nodup → {a : List (String × Node)} →
    a.map Prod.fst = fields.names → readEntries fields budget a = readSequence fields budget (a.map Prod.snd)
  | .nil,_,a,named => by
      cases List.map_eq_nil_iff.mp named
      rfl
  | .cons name presence t rest,distinct,a,named => by
      obtain ⟨fresh,apart⟩ := List.nodup_cons.mp distinct
      cases a with
      | nil => cases named
      | cons entry a =>
          obtain ⟨same,others⟩ := List.cons.inj named
          obtain ⟨key,node⟩ := entry
          cases same
          have absent : key ∉ a.map Prod.fst := others ▸ fresh
          have first : only? ((key,node) :: a) key = some (some node) := by rw [only_single,single_first absent]
          have later : readEntries rest budget ((key,node) :: a) = readSequence rest budget (a.map Prod.snd) := by
            rw [← readEntries_sequence budget rest apart others]
            apply readEntries_same
            intro other member
            have different : key ≠ other := fun same => fresh (same ▸ member)
            rw [only_single,only_single,single_later different]
          rw [readEntries,first,later]
          rfl

theorem decode_sequence (distinct : fields.names.Nodup) (declared : es.map Entry.key = fields.names) :
    decode (.record name unknown fields) (objectText es) = decode (.record name unknown fields) (arrayText es) := by
  have named : (es.map Entry.field).map Prod.fst = fields.names := by
    rw [List.map_map]
    exact declared
  have known : ∀ pair ∈ es.map Entry.field, pair.1 ∈ fields.names := by
    intro pair member
    rw [← named]
    exact List.mem_map_of_mem member
  have sequence := readEntries_sequence 126 fields distinct named
  rw [List.map_map] at sequence
  rw [decode_object,if_pos (strangers_absent unknown known),decode_array,sequence]
  rfl

end Decoding

theorem json_body {t : Ty} {a b : List UInt8} (same : decode t a = decode t b) (p : Payload) :
    Serializer.json.fromPayload t { p with body := a } = Serializer.json.fromPayload t { p with body := b } := by
  simp [Serializer.fromPayload,Serializer.json,Serializer.decode,Codec.json,Codec.checked,same]

theorem json_members_exact :
    (∀ name ∈ ["counted","inline_input","inline_output","strict","order"], ∃ title unknown fields,
      Catalogue.named? name = some (.record title unknown fields) ∧ fields.names.Nodup ∧
        (unknown = .skipped ↔ name ≠ "strict")) ∧
    ∀ (title : String) (unknown : UnknownKeys) (fields : Fields) (p : Payload) (es : List Entry),
      (∀ ds, es.Perm ds →
        Serializer.json.fromPayload (.record title unknown fields) { p with body := objectText es } =
          Serializer.json.fromPayload (.record title unknown fields) { p with body := objectText ds }) ∧
      (unknown = .skipped → ∀ before e after, es = before ++ e :: after → e.key ∉ fields.names →
        Serializer.json.fromPayload (.record title unknown fields) { p with body := objectText es } =
          Serializer.json.fromPayload (.record title unknown fields) { p with body := objectText (before ++ after) }) ∧
      (fields.names.Nodup → es.map Entry.key = fields.names → ∀ ds, es.Perm ds →
        Serializer.json.fromPayload (.record title unknown fields) { p with body := objectText ds } =
          Serializer.json.fromPayload (.record title unknown fields) { p with body := arrayText es }) := by
  refine ⟨?_,?_⟩
  · intro name listed
    simp only [List.mem_cons,List.not_mem_nil,or_false] at listed
    rcases listed with rfl | rfl | rfl | rfl | rfl <;> exact ⟨_,_,_,rfl,by decide,by decide⟩
  · intro title unknown fields p es
    refine ⟨?_,?_,?_⟩
    · intro ds perm
      exact json_body (decode_rearranged perm) p
    · intro skipped before e after shape strange
      subst skipped shape
      exact json_body ((decode_rearranged List.perm_middle).trans (decode_stranger strange)) p
    · intro distinct declared ds perm
      exact json_body ((decode_rearranged perm.symm).trans (decode_sequence distinct declared)) p

-- The members of a record the other way round and one key escaped; and a member that is no field.
theorem json_swapped_members_and_escaped_key_read :
    Serializer.json.fromPayload Catalogue.strict (.untyped [0x7b,0x22,0x5c,0x75,0x30,0x30,0x36,0x32,0x22,0x3a,0x22,0x78,0x22,
      0x2c,0x22,0x61,0x22,0x3a,0x20,0x37,0x7d]) = .ok (⟨7,by decide⟩,some "x",()) ∧
    Serializer.json.fromPayload Catalogue.counted (.untyped [0x7b,0x22,0x61,0x22,0x3a,0x20,0x37,0x2c,0x22,0x63,0x68,0x61,0x72,
      0x61,0x63,0x74,0x65,0x72,0x43,0x6f,0x75,0x6e,0x74,0x22,0x3a,0x37,0x7d]) = .ok (⟨7,by decide⟩,()) := by
  let a : Entry := ⟨"a",[0x22,0x61,0x22],[0x20,0x37],decode_spelled.mp rfl,(decode_ignored _).mp rfl⟩
  let b : Entry := ⟨"b",[0x22,0x5c,0x75,0x30,0x30,0x36,0x32,0x22],[0x22,0x78,0x22],decode_spelled.mp rfl,
    (decode_ignored _).mp rfl⟩
  let count : Entry := ⟨"characterCount",[0x22,0x63,0x68,0x61,0x72,0x61,0x63,0x74,0x65,0x72,0x43,0x6f,0x75,0x6e,0x74,0x22],
    [0x37],decode_spelled.mp rfl,(decode_ignored _).mp rfl⟩
  refine ⟨?_,?_⟩
  · exact ((json_members_exact.2 _ _ _ .empty [a,b]).2.2 (by decide) rfl [b,a] (.swap b a [])).trans rfl
  · exact ((json_members_exact.2 _ _ _ .empty [a,count]).2.1 rfl [] a [count] rfl (by decide)).trans rfl

end Switchboard.Json
