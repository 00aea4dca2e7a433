import Switchboard.Proofs.Json.Grammar

namespace Switchboard

mutual
-- Whether no blob of bytes is in any part of the type.
def Ty.isBlobFree : Ty → Bool
  | .bytes => false
  | .unit | .bool | .int _ | .float _ | .char | .text | .document | .ignored | .guarded => true
  | .option t => t.isBlobFree
  | .list t => t.isBlobFree
  | .pair s t => s.isBlobFree && t.isBlobFree
  | .map _ t => t.isBlobFree
  | .record _ _ fields => fields.areBlobFree
  | .choice _ variants => variants.areBlobFree

def Fields.areBlobFree : Fields → Bool
  | .nil => true
  | .cons _ _ t rest => t.isBlobFree && rest.areBlobFree

def Variants.areBlobFree : Variants → Bool
  | .nil => true
  | .bare _ rest => rest.areBlobFree
  | .holding _ t rest => t.isBlobFree && rest.areBlobFree
end

theorem Catalogue.named_blobFree {name : String} {t : Ty} (known : named? name = some t) (solid : name ≠ "bytes") :
    t.isBlobFree = true := by
  unfold named? at known
  split at known <;> cases known <;> first | contradiction | decide

namespace Fields

-- The fields with one more in front, if it is kept.
def front (kept : Bool) (name : String) (presence : Presence) (t : Ty) (rest : Fields) : Fields :=
  match kept with
  | true => .cons name presence t rest
  | false => rest

def frontValue {name : String} {presence : Presence} {t : Ty} {rest : Fields} :
    (kept : Bool) → t.Value → rest.Value → (front kept name presence t rest).Value
  | true,v,vs => (v,vs)
  | false,_,vs => vs

-- The fields whose names are kept.
def keeping (keep : String → Bool) : Fields → Fields
  | .nil => .nil
  | .cons name presence t rest => front (keep name) name presence t (rest.keeping keep)

def keptValue (keep : String → Bool) : (fields : Fields) → fields.Value → (fields.keeping keep).Value
  | .nil,_ => ()
  | .cons name _ _ rest,v => frontValue (keep name) v.1 (keptValue keep rest v.2)

end Fields

end Switchboard

namespace Switchboard.Json

namespace Piece

theorem paired_clean {ps : List Piece} {bs : List UInt8} (paired : pairedBytes? ps = some bs) :
    ps.all isClean = true := by
  fun_induction pairedBytes? ps generalizing bs with
  | case1 => rfl
  | case2 => cases paired
  | case3 b rest solid ih =>
      obtain ⟨_,later,_⟩ := Option.map_eq_some_iff.mp paired
      simp [isClean,solid,ih later]
  | case4 b rest ih =>
      obtain ⟨_,later,_⟩ := Option.map_eq_some_iff.mp paired
      simp [isClean,ih later]
  | case5 u high v rest low ih =>
      obtain ⟨_,later,_⟩ := Option.map_eq_some_iff.mp paired
      simp [isClean,ih later]
  | case6 => cases paired
  | case7 => cases paired
  | case8 => cases paired
  | case9 u rest high low ih =>
      obtain ⟨_,later,_⟩ := Option.map_eq_some_iff.mp paired
      simp [isClean,ih later]

theorem text_clean {ps : List Piece} {s : String} (read : text? ps = some s) : ps.all isClean = true := by
  obtain ⟨bs,paired,_⟩ := Option.bind_eq_some_iff.mp read
  exact paired_clean paired

theorem rawBytes_clean {ps : List Piece} {bs : List UInt8} (read : rawBytes? ps = some bs)
    (visible : ∀ b ∈ bs, 0x20 ≤ b) : ps.all isClean = true := by
  induction ps generalizing bs with
  | nil => rfl
  | cons p ps ih =>
      cases p with
      | raw b =>
          obtain ⟨later,found,rfl⟩ := Option.map_eq_some_iff.mp read
          obtain ⟨first,others⟩ := List.forall_mem_cons.mp visible
          rw [List.all_cons,visible_exact.mpr first,ih found others]
          rfl
      | short _ => cases read
      | unit _ => cases read

end Piece

-- A whole number is written with a sign and digits at most.
theorem whole_visible {t : NumberText} {n : Int} (read : t.value? = some (.whole n)) :
    ∀ b ∈ t.render, 0x20 ≤ b := by
  have digit : ∀ d : Digit, 0x20 ≤ Digits.byte d := by decide
  obtain ⟨point,exponent,_⟩ := NumberText.value_whole read
  intro b member
  rw [NumberText.render_parts,point,exponent] at member
  simp only [fractionBytes,exponentBytes,List.append_nil,List.mem_append,List.mem_map] at member
  rcases member with sign | ⟨d,_,rfl⟩
  · unfold signBytes at sign
    split at sign
    · cases List.mem_singleton.mp sign
      decide
    · cases sign
  · exact digit d

theorem key_clean {k : KeyTy} {ps : List Piece} {key : k.Value} (read : key? k ps = some key) :
    ps.all Piece.isClean = true := by
  cases k with
  | text => exact Piece.text_clean read
  | int k =>
      simp only [key?] at read
      split at read
      · rename_i t found
        obtain ⟨bs,raw,numbered⟩ := Option.bind_eq_some_iff.mp found
        obtain ⟨_,spelled⟩ := number_sound numbered
        obtain ⟨_,same,valued⟩ := int_exact.mp read
        cases same
        apply Piece.rawBytes_clean raw
        rw [spelled,List.append_nil]
        exact whole_visible valued
      · cases read
  | bool =>
      simp only [key?] at read
      split at read
      · rename_i bs raw
        apply Piece.rawBytes_clean raw
        split at read
        · rename_i same
          simp [same,wordTrue]
        · split at read
          · rename_i same
            simp [same,wordFalse]
          · cases read
      · cases read
  | intPair => cases read

theorem array_sound {α : Type} {f : Node → Option α} {items : List Node} {ys : List α}
    (mapped : items.mapM f = some ys) (each : ∀ item y, f item = some y → item.isSound = true) :
    (Node.array items).isSound = true := by
  rw [Node.isSound,areSound_iff]
  intro item member
  obtain ⟨y,_,found⟩ := mapM_each mapped member
  exact each item y found

theorem object_sound {α : Type} {f : List Piece × Node → Option α} {members : List (List Piece × Node)} {ys : List α}
    (mapped : members.mapM f = some ys)
    (each : ∀ member, ∀ y ∈ ys, f member = some y → member.1.all Piece.isClean = true ∧ member.2.isSound = true) :
    (Node.object members).isSound = true := by
  rw [Node.isSound,areSoundMembers_iff]
  intro member inside
  obtain ⟨y,listed,found⟩ := mapM_each mapped inside
  exact each member y listed found

theorem text_sound {node : Node} {s : String} (read : node.text? = some s) : node.isSound = true := by
  cases node with
  | string ps => exact Piece.text_clean read
  | null | bool _ | number _ | array _ | object _ => cases read

theorem scalar_sound {node : Node} {doc : Document} (read : scalar? node = some doc) : node.isSound = true := by
  cases node with
  | null | bool _ | number _ => rfl
  | string ps =>
      obtain ⟨_,text,_⟩ := Option.map_eq_some_iff.mp read
      exact Piece.text_clean text
  | array _ | object _ => cases read

theorem document_sound {budget : Nat} {node : Node} {doc : Document} (read : document budget node = some doc) :
    node.isSound = true := by
  induction budget generalizing node doc with
  | zero => exact scalar_sound read
  | succ budget ih =>
      cases node with
      | array items =>
          obtain ⟨_,mapped,_⟩ := Option.map_eq_some_iff.mp read
          exact array_sound mapped (fun _ _ found => ih found)
      | object members =>
          obtain ⟨_,mapped,_⟩ := Option.map_eq_some_iff.mp read
          apply object_sound mapped
          intro member y _ found
          obtain ⟨_,text,found⟩ := Option.bind_eq_some_iff.mp found
          obtain ⟨_,inner,_⟩ := Option.bind_eq_some_iff.mp found
          exact ⟨Piece.text_clean text,ih inner⟩
      | null | bool _ | number _ | string _ => exact scalar_sound read

theorem only_found {entries : List (String × Node)} {name : String} {found : Option Node}
    (only : only? entries name = some found) {entry : String × Node} (member : entry ∈ entries)
    (named : entry.1 = name) : found = some entry.2 := by
  have inside : entry ∈ entries.filter (fun entry => entry.1 == name) := by simp [member,named]
  unfold only? at only
  split at only
  · rename_i absent
    rw [absent] at inside
    cases inside
  · rename_i alone
    rw [alone] at inside
    cases only
    rw [List.mem_singleton.mp inside]
  · cases only

def entryValue? (presence : Presence) (t : Ty) (budget : Nat) : Option (Option Node) → Option t.Value
  | some none => presence.missing? t
  | some (some node) => read t budget node
  | none => none

theorem readEntries_cons {name : String} {presence : Presence} {t : Ty} {rest : Fields} {budget : Nat}
    {entries : List (String × Node)} {v : t.Value × rest.Value} :
    readEntries (.cons name presence t rest) budget entries = some v ↔
      entryValue? presence t budget (only? entries name) = some v.1 ∧ readEntries rest budget entries = some v.2 := by
  rw [readEntries]
  rcases only? entries name with _ | _ | node <;> simp [entryValue?,Option.bind_eq_some_iff,Prod.ext_iff]

-- A member that names no field was looked at as a skipped one; the others have been read.
theorem members_sound {unknown : UnknownKeys} {fields : Fields} {members : List (List Piece × Node)}
    {entries : List (String × Node)} (named : members.mapM fieldOf? = some entries)
    (passed : strangersPass unknown fields entries = true)
    (known : ∀ entry ∈ entries, entry.1 ∈ fields.names → entry.2.isSound = true) :
    (Node.object members).isSound = true := by
  apply object_sound named
  intro member entry listed found
  obtain ⟨_,text,rfl⟩ := Option.map_eq_some_iff.mp found
  refine ⟨Piece.text_clean text,?_⟩
  have pass := List.all_eq_true.mp passed _ listed
  rcases Bool.or_eq_true_iff.mp pass with inside | skipped
  · exact known _ listed (List.contains_iff_mem.mp inside)
  · exact (Bool.and_eq_true_iff.mp skipped).2

mutual
theorem read_sound : (t : Ty) → t.isBlobFree = true → {budget : Nat} → {node : Node} → {v : t.Value} →
    read t budget node = some v → node.isSound = true
  | .unit,_,_,node,_,typed => by cases node <;> first | rfl | cases typed
  | .bool,_,_,node,_,typed => by cases node <;> first | rfl | cases typed
  | .int _,_,_,node,_,typed => by
      obtain ⟨_,rfl,_⟩ := int_exact.mp typed
      rfl
  | .float _,_,_,node,_,typed => by cases node <;> first | rfl | cases typed
  | .char,_,_,_,_,typed => by
      obtain ⟨_,text,_⟩ := Option.bind_eq_some_iff.mp typed
      exact text_sound text
  | .text,_,_,_,_,typed => text_sound typed
  | .bytes,free,_,_,_,_ => by cases free
  | .option t,free,_,node,_,typed => by
      unfold read at typed
      split at typed
      · rfl
      · obtain ⟨_,inner,_⟩ := Option.map_eq_some_iff.mp typed
        exact read_sound t free inner
  | .list t,free,_,node,_,typed => by
      unfold read at typed
      split at typed
      · exact array_sound typed (fun _ _ inner => read_sound t free inner)
      · cases typed
  | .pair s t,free,_,node,_,typed => by
      obtain ⟨freeFirst,freeSecond⟩ := Bool.and_eq_true_iff.mp free
      unfold read at typed
      split at typed
      · obtain ⟨_,first,typed⟩ := Option.bind_eq_some_iff.mp typed
        obtain ⟨_,second,_⟩ := Option.bind_eq_some_iff.mp typed
        simp [Node.isSound,areSound,read_sound s freeFirst first,read_sound t freeSecond second]
      · cases typed
  | .map k t,free,_,node,_,typed => by
      unfold read at typed
      split at typed
      · obtain ⟨_,mapped,_⟩ := Option.map_eq_some_iff.mp typed
        apply object_sound mapped
        intro member y _ found
        obtain ⟨_,keyed,found⟩ := Option.bind_eq_some_iff.mp found
        obtain ⟨_,inner,_⟩ := Option.bind_eq_some_iff.mp found
        exact ⟨key_clean keyed,read_sound t free inner⟩
      · cases typed
  | .document,_,_,node,_,typed => document_sound typed
  | .ignored,_,_,_,_,typed => read_ignored.mp typed
  | .guarded,_,_,node,_,typed => by
      obtain ⟨_,rfl,_⟩ := int_exact.mp typed
      rfl
  | .record _ unknown fields,free,_,node,_,typed => by
      unfold read at typed
      split at typed
      · rw [Node.isSound,areSound_iff]
        exact readSequence_sound fields free typed
      · obtain ⟨entries,named,typed⟩ := Option.bind_eq_some_iff.mp typed
        split at typed
        · rename_i passed
          exact members_sound named passed (readEntries_sound fields free typed)
        · cases typed
      · cases typed
  | .choice _ variants,free,_,node,_,typed => by
      unfold read at typed
      split at typed
      · obtain ⟨_,text,_⟩ := Option.bind_eq_some_iff.mp typed
        exact Piece.text_clean text
      · obtain ⟨_,text,typed⟩ := Option.bind_eq_some_iff.mp typed
        simp [Node.isSound,areSoundMembers,Piece.text_clean text,readContent_sound variants free typed]
      · cases typed

theorem readSequence_sound : (fields : Fields) → fields.areBlobFree = true → {budget : Nat} → {items : List Node} →
    {v : fields.Value} → readSequence fields budget items = some v → ∀ item ∈ items, item.isSound = true
  | .nil,_,_,items,_,typed => by
      cases items with
      | nil => simp
      | cons _ _ => cases typed
  | .cons _ _ t rest,free,_,items,_,typed => by
      obtain ⟨freeFirst,freeRest⟩ := Bool.and_eq_true_iff.mp free
      cases items with
      | nil => simp
      | cons item items =>
          rw [readSequence] at typed
          obtain ⟨_,first,typed⟩ := Option.bind_eq_some_iff.mp typed
          obtain ⟨_,later,_⟩ := Option.bind_eq_some_iff.mp typed
          exact List.forall_mem_cons.mpr ⟨read_sound t freeFirst first,readSequence_sound rest freeRest later⟩

theorem readEntries_sound : (fields : Fields) → fields.areBlobFree = true → {budget : Nat} →
    {entries : List (String × Node)} → {v : fields.Value} → readEntries fields budget entries = some v →
    ∀ entry ∈ entries, entry.1 ∈ fields.names → entry.2.isSound = true
  | .nil,_,_,_,_,_ => by simp [Fields.names]
  | .cons name presence t rest,free,_,entries,_,typed => by
      obtain ⟨freeFirst,freeRest⟩ := Bool.and_eq_true_iff.mp free
      obtain ⟨first,later⟩ := readEntries_cons.mp typed
      intro entry member known
      rcases List.mem_cons.mp known with same | further
      · cases only : only? entries name with
        | none => rw [only] at first; cases first
        | some found =>
            cases only_found only member same
            rw [only] at first
            exact read_sound t freeFirst first
      · exact readEntries_sound rest freeRest later entry member further

theorem readContent_sound : (variants : Variants) → variants.areBlobFree = true → {budget : Nat} → {wanted : String} →
    {content : Node} → {v : variants.Value} → readContent variants budget wanted content = some v →
    content.isSound = true
  | .nil,_,_,_,_,_,typed => by cases typed
  | .bare name rest,free,_,_,content,_,typed => by
      rw [readContent] at typed
      split at typed
      · cases content <;> first | rfl | cases typed
      · obtain ⟨_,later,_⟩ := Option.map_eq_some_iff.mp typed
        exact readContent_sound rest free later
  | .holding name t rest,free,_,_,content,_,typed => by
      obtain ⟨freeFirst,freeRest⟩ := Bool.and_eq_true_iff.mp free
      rw [readContent] at typed
      split at typed
      · obtain ⟨_,inner,_⟩ := Option.map_eq_some_iff.mp typed
        exact read_sound t freeFirst inner
      · obtain ⟨_,later,_⟩ := Option.map_eq_some_iff.mp typed
        exact readContent_sound rest freeRest later
end

theorem decode_sound {t : Ty} (free : t.isBlobFree = true) {body : List UInt8} {v : t.Value}
    (decoded : decode t body = some v) : decode .ignored body = some () := by
  obtain ⟨node,parsed,typed⟩ := Option.bind_eq_some_iff.mp decoded
  exact Option.bind_eq_some_iff.mpr ⟨node,parsed,read_ignored.mpr (read_sound t free typed)⟩

section Keeping

variable {name : String} {presence : Presence} {t : Ty} {rest : Fields} {budget : Nat} {entries : List (String × Node)}

theorem readEntries_front (kept : Bool) {v : t.Value} {vs : rest.Value}
    (first : entryValue? presence t budget (only? entries name) = some v)
    (later : readEntries rest budget entries = some vs) :
    readEntries (Fields.front kept name presence t rest) budget entries = some (Fields.frontValue kept v vs) := by
  cases kept with
  | true => exact readEntries_cons.mpr ⟨first,later⟩
  | false => exact later

theorem readEntries_keeping (keep : String → Bool) : (fields : Fields) → {v : fields.Value} →
    readEntries fields budget entries = some v →
    readEntries (fields.keeping keep) budget entries = some (fields.keptValue keep v)
  | .nil,_,_ => rfl
  | .cons name _ _ rest,_,typed =>
      have parts := readEntries_cons.mp typed
      readEntries_front (keep name) parts.1 (readEntries_keeping keep rest parts.2)

end Keeping

theorem parse_object {bs : List UInt8} (opened : (skipSpace bs).head? = some 0x7b) {node : Node}
    (parsed : parse bs = some node) : ∃ members, node = .object members := by
  obtain ⟨rest,shape⟩ := List.head?_eq_some_iff.mp opened
  obtain ⟨after,valued,_⟩ := parse_exact.mp parsed
  rw [value,shape] at valued
  obtain ⟨⟨members,_⟩,_,same⟩ := Option.map_eq_some_iff.mp valued
  cases same
  exact ⟨members,rfl⟩

theorem strangers_skipped {members : List (List Piece × Node)} {entries : List (String × Node)}
    (named : members.mapM fieldOf? = some entries) (sound : (Node.object members).isSound = true) (fields : Fields) :
    strangersPass .skipped fields entries = true := by
  rw [Node.isSound,areSoundMembers_iff] at sound
  rw [strangersPass,List.all_eq_true]
  intro entry listed
  obtain ⟨member,inside,found⟩ := mapM_mem named listed
  obtain ⟨_,_,rfl⟩ := Option.map_eq_some_iff.mp found
  simp [(sound member inside).2]

-- The content of a field that is dropped is passed over like a stranger, so it has to be sound.
theorem decode_keeping {name : String} {unknown : UnknownKeys} {fields : Fields} (free : fields.areBlobFree = true)
    {body : List UInt8} (opened : (skipSpace body).head? = some 0x7b) {v : fields.Value}
    (decoded : decode (.record name unknown fields) body = some v) (other : String) (keep : String → Bool) :
    decode (.record other .skipped (fields.keeping keep)) body = some (fields.keptValue keep v) := by
  obtain ⟨node,parsed,typed⟩ := Option.bind_eq_some_iff.mp decoded
  obtain ⟨members,rfl⟩ := parse_object opened parsed
  have sound := read_sound (.record name unknown fields) free typed
  obtain ⟨entries,named,typed⟩ := Option.bind_eq_some_iff.mp typed
  split at typed
  · have kept := readEntries_keeping keep fields typed
    rw [decode,parsed]
    simp only [Option.bind_some,depthLimit,read,named,Option.bind_eq_bind]
    rw [if_pos (strangers_skipped named sound _)]
    exact kept
  · cases typed

theorem json_typed_skipped :
    (∀ (name : String) (t : Ty), Catalogue.named? name = some t → name ≠ "bytes" → ∀ (p : Payload) (v : t.Value),
      Serializer.json.fromPayload t p = .ok v → Serializer.json.fromPayload .ignored p = .ok ()) ∧
    (∀ (t : Ty), t.isBlobFree = true → ∀ (p : Payload) (v : t.Value),
      Serializer.json.fromPayload t p = .ok v → Serializer.json.fromPayload .ignored p = .ok ()) ∧
    ∀ (name : String) (unknown : UnknownKeys) (fields : Fields), fields.areBlobFree = true →
      ∀ (p : Payload) (v : fields.Value), (skipSpace p.body).head? = some 0x7b →
        Serializer.json.fromPayload (.record name unknown fields) p = .ok v →
        ∀ (other : String) (keep : String → Bool),
          Serializer.json.fromPayload (.record other .skipped (fields.keeping keep)) p = .ok (fields.keptValue keep v) := by
  have skipped : ∀ (t : Ty), t.isBlobFree = true → ∀ (p : Payload) (v : t.Value),
      Serializer.json.fromPayload t p = .ok v → Serializer.json.fromPayload .ignored p = .ok () := by
    intro t free p v read
    obtain ⟨taken,decoded⟩ := Serializer.json_ok.mp read
    exact Serializer.json_ok.mpr ⟨taken,decode_sound free decoded⟩
  refine ⟨?_,skipped,?_⟩
  · intro name t known solid
    exact skipped t (Catalogue.named_blobFree known solid)
  · intro name unknown fields free p v opened read other keep
    obtain ⟨taken,decoded⟩ := Serializer.json_ok.mp read
    exact Serializer.json_ok.mpr ⟨taken,decode_keeping free opened decoded other keep⟩

-- Two fields read, both skipped and one kept; and a blob that only a reader of bytes takes.
theorem json_record_skipped_raw_control_not_skipped :
    Serializer.json.fromPayload Catalogue.strict
      (.untyped [0x7b,0x22,0x61,0x22,0x3a,0x37,0x2c,0x22,0x62,0x22,0x3a,0x22,0x78,0x22,0x7d]) =
      .ok (⟨7,by decide⟩,some "x",()) ∧
    Serializer.json.fromPayload .ignored
      (.untyped [0x7b,0x22,0x61,0x22,0x3a,0x37,0x2c,0x22,0x62,0x22,0x3a,0x22,0x78,0x22,0x7d]) = .ok () ∧
    Serializer.json.fromPayload (.record "Part" .skipped (.cons "b" .nullable (.option .text) .nil))
      (.untyped [0x7b,0x22,0x61,0x22,0x3a,0x37,0x2c,0x22,0x62,0x22,0x3a,0x22,0x78,0x22,0x7d]) = .ok (some "x",()) ∧
    Serializer.json.fromPayload .bytes (.untyped [0x22,0x01,0x22]) = .ok [0x01] ∧
    Serializer.json.fromPayload .ignored (.untyped [0x22,0x01,0x22]) = .error (.decode applicationJson .codec) := by
  have read : Serializer.json.fromPayload Catalogue.strict
      (.untyped [0x7b,0x22,0x61,0x22,0x3a,0x37,0x2c,0x22,0x62,0x22,0x3a,0x22,0x78,0x22,0x7d]) =
      .ok (⟨7,by decide⟩,some "x",()) := rfl
  refine ⟨read,?_,?_,rfl,rfl⟩
  · exact json_typed_skipped.1 "strict" _ rfl (by decide) _ _ read
  · exact json_typed_skipped.2.2 _ _ _ rfl _ _ rfl read "Part" (fun name => name == "b")

end Switchboard.Json
