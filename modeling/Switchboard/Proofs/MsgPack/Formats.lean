import Mathlib.Data.List.Forall2
import Switchboard.Proofs.MsgPack.Delimited

namespace Switchboard.MsgPack

-- How a length is announced: by one byte that holds it, or by a marker and a word.
structure Lengths where
  base : Nat
  count : Nat
  wide : List (Nat × Nat)

namespace Lengths

def str : Lengths := ⟨0xa0,0x20,[(0xd9,1),(0xda,2),(0xdb,4)]⟩

-- There is no bin of one byte.
def bin : Lengths := ⟨0,0,[(0xc4,1),(0xc5,2),(0xc6,4)]⟩

def array : Lengths := ⟨0x90,0x10,[(0xdc,2),(0xdd,4)]⟩

def map : Lengths := ⟨0x80,0x10,[(0xde,2),(0xdf,4)]⟩

end Lengths

inductive Announces (formats : Lengths) (n : Nat) : List UInt8 → Prop where
  | short {b : UInt8} (small : n < formats.count) (marker : b.toNat = formats.base + n) : Announces formats n [b]
  | wide {marker : UInt8} {bytes : List UInt8} (format : (marker.toNat,bytes.length) ∈ formats.wide)
      (length : magnitude bytes = n) : Announces formats n (marker :: bytes)

def SpellsData (content body : List UInt8) : Prop :=
  ∃ front, (Announces .str content.length front ∨ Announces .bin content.length front) ∧ body = front ++ content

def SpellsItems {α : Type} (formats : Lengths) (spelled : α → List UInt8 → Prop) (xs : List α)
    (body : List UInt8) : Prop :=
  ∃ front parts, Announces formats xs.length front ∧ List.Forall₂ spelled xs parts ∧ body = front ++ parts.flatten

def SpellsEntry {K V : Type} (key : K → List UInt8 → Prop) (item : V → List UInt8 → Prop) (entry : K × V)
    (part : List UInt8) : Prop :=
  ∃ front back, key entry.1 front ∧ item entry.2 back ∧ part = front ++ back

def SpellsKey : (k : KeyTy) → k.Value → List UInt8 → Prop
  | .text,s,body => SpellsData (Text.bytes s) body
  | .int _,n,body => Denotes body n.val
  | .bool,_,_ | .intPair,_,_ => False

-- The forms of a value that is made of whole numbers, texts and blobs. Each part has one of its own forms,
-- whatever the forms of the others.
def Spells : (t : Ty) → t.Value → List UInt8 → Prop
  | .int _,n,body => Denotes body n.val
  | .text,s,body => SpellsData (Text.bytes s) body
  | .bytes,bs,body =>
    SpellsData bs body ∨ SpellsItems .array (fun (b : UInt8) part => Denotes part b.toNat) bs body
  | .list t,vs,body => SpellsItems .array (Spells t) vs body
  | .map k t,map,body =>
    ∃ entries : List (k.Value × t.Value), entries.Perm map.entries ∧
      SpellsItems .map (SpellsEntry (SpellsKey k) (Spells t)) entries body
  | .unit,_,_ | .bool,_,_ | .float _,_,_ | .char,_,_ | .option _,_,_ | .pair _ _,_,_
  | .document,_,_ | .ignored,_,_ | .guarded,_,_ | .record _ _ _,_,_ | .choice _ _,_,_ => False

-- The reader takes just these bytes, whatever follows them.
def Reads {α : Type} (item : Reader α) (bytes : List UInt8) (x : α) : Prop :=
  ∀ rest, item (bytes ++ rest) = some (x,rest)

section Reading

variable {α β : Type} {item : Reader β}

theorem many_spelled {bound : Nat} {spelled : α → List UInt8 → Prop} {held : α → β → Prop}
    (each : ∀ x part, spelled x part → part.length < bound → ∃ y, Reads item part y ∧ held x y)
    {xs : List α} {parts : List (List UInt8)} (row : List.Forall₂ spelled xs parts)
    (short : parts.flatten.length < bound) :
    ∃ ys, Reads (many item xs.length) parts.flatten ys ∧ List.Forall₂ held xs ys := by
  induction row with
  | nil => exact ⟨[],fun rest => rfl,.nil⟩
  | @cons x part xs parts first others ih =>
      rw [List.flatten_cons,List.length_append] at short
      obtain ⟨y,here,value⟩ := each x part first (by omega)
      obtain ⟨ys,there,values⟩ := ih (by omega)
      refine ⟨y :: ys,?_,.cons value values⟩
      intro rest
      rw [List.flatten_cons,List.append_assoc,List.length_cons,many,here]
      simp only [Option.bind_eq_bind,Option.bind_some,there rest]
      rfl

theorem mapM_pointwise {f : β → Option α} {xs : List α} {ys : List β}
    (row : List.Forall₂ (fun x y => f y = some x) xs ys) : ys.mapM f = some xs := by
  induction row with
  | nil => rfl
  | cons first others ih => simp [List.mapM_cons,first,ih]

end Reading

-- What the formats announce to a reader.
structure Lengths.ReadAs (formats : Lengths) (announce : Nat → Head) : Prop where
  short : ∀ (b : UInt8) (n : Nat), n < formats.count → b.toNat = formats.base + n →
    ∀ rest, head (b :: rest) = some (announce n,rest)
  wide : ∀ format ∈ formats.wide, 0xc0 ≤ format.1 ∧ format.1 < 0xe0 ∧
    Head.ofMarker format.1 = Head.sized announce format.2

namespace Lengths

theorem str_readAs : str.ReadAs .str := by
  refine ⟨?_,?_⟩
  · intro b n small marker rest
    simp only [str] at small marker
    simp only [head,marker]
    grind
  · simp only [str,List.forall_mem_cons]
    exact ⟨⟨by decide,by decide,rfl⟩,⟨by decide,by decide,rfl⟩,⟨by decide,by decide,rfl⟩,by simp⟩

theorem bin_readAs : bin.ReadAs .bin := by
  refine ⟨?_,?_⟩
  · intro b n small
    cases small
  · simp only [bin,List.forall_mem_cons]
    exact ⟨⟨by decide,by decide,rfl⟩,⟨by decide,by decide,rfl⟩,⟨by decide,by decide,rfl⟩,by simp⟩

theorem array_readAs : array.ReadAs .array := by
  refine ⟨?_,?_⟩
  · intro b n small marker rest
    simp only [array] at small marker
    simp only [head,marker]
    grind
  · simp only [array,List.forall_mem_cons]
    exact ⟨⟨by decide,by decide,rfl⟩,⟨by decide,by decide,rfl⟩,by simp⟩

theorem map_readAs : map.ReadAs .map := by
  refine ⟨?_,?_⟩
  · intro b n small marker rest
    simp only [map] at small marker
    simp only [head,marker]
    grind
  · simp only [map,List.forall_mem_cons]
    exact ⟨⟨by decide,by decide,rfl⟩,⟨by decide,by decide,rfl⟩,by simp⟩

end Lengths

-- At any depth that is enough for so many bytes, they are one node, and it has the property.
def Yields (body : List UInt8) (held : Node → Prop) : Prop :=
  ∀ depth, body.length < depth → ∃ x, Reads (node depth) body x ∧ held x

section Nodes

variable {α β : Type} {formats : Lengths} {announce : Nat → Head} {n : Nat} {front body : List UInt8}

theorem announces_head (readAs : formats.ReadAs announce) (announced : Announces formats n front) :
    Reads head front (announce n) := by
  intro rest
  cases announced with
  | short small marker => exact readAs.short _ _ small marker rest
  | @wide marker bytes format length =>
      subst length
      obtain ⟨low,high,sized⟩ := readAs.wide _ format
      have word : natural bytes.length (bytes ++ rest) = some (magnitude bytes,rest) :=
        natural_exact.mpr ⟨bytes,rfl,rfl,rfl⟩
      rw [List.cons_append,head_marker low high,sized,Head.sized,word,Option.map_some]

theorem announces_length (announced : Announces formats n front) : 0 < front.length := by
  cases announced <;> simp

theorem yields_imp {held kept : Node → Prop} (yields : Yields body held) (keeps : ∀ x, held x → kept x) :
    Yields body kept := by
  intro depth deep
  obtain ⟨x,taken,value⟩ := yields depth deep
  exact ⟨x,taken,keeps x value⟩

theorem yields_data {content : List UInt8} (spelled : SpellsData content body) :
    Yields body (fun x => x = .str content ∨ x = .bin content) := by
  intro depth deep
  obtain ⟨depth,rfl⟩ := Nat.exists_eq_add_of_lt deep
  obtain ⟨front,text | blob,rfl⟩ := spelled
  · refine ⟨.str content,?_,.inl rfl⟩
    intro rest
    rw [List.append_assoc,node,announces_head Lengths.str_readAs text]
    simp [take_append]
  · refine ⟨.bin content,?_,.inr rfl⟩
    intro rest
    rw [List.append_assoc,node,announces_head Lengths.bin_readAs blob]
    simp [take_append]

theorem yields_text {s : String} (spelled : SpellsData (Text.bytes s) body) :
    Yields body (fun x => x.text? = some s) := by
  apply yields_imp (yields_data spelled)
  rintro x (rfl | rfl)
  · exact Text.ofBytes?_bytes s
  · exact Text.ofBytes?_bytes s

theorem yields_integer {m : Int} (denotes : Denotes body m) : Yields body (fun x => x.integer? = some m) := by
  intro depth deep
  obtain ⟨depth,rfl⟩ := Nat.exists_eq_add_of_lt deep
  obtain ⟨x,found,value⟩ := denotes_head denotes []
  rw [List.append_nil] at found
  refine ⟨x,?_,value⟩
  intro rest
  rw [node,head_carries body (.whole x) [] found rest]
  rfl

theorem items_read {item : Reader β} {spelled : α → List UInt8 → Prop} {held : α → β → Prop} {depth : Nat}
    {xs : List α} (readAs : formats.ReadAs announce) (spells : SpellsItems formats spelled xs body)
    (deep : body.length < depth + 1)
    (each : ∀ x part, spelled x part → part.length < depth → ∃ y, Reads item part y ∧ held x y) :
    ∃ ys, List.Forall₂ held xs ys ∧ ∀ rest, ∃ after,
      head (body ++ rest) = some (announce xs.length,after) ∧ many item xs.length after = some (ys,rest) := by
  obtain ⟨front,parts,announced,row,rfl⟩ := spells
  have positive := announces_length announced
  rw [List.length_append] at deep
  obtain ⟨ys,taken,values⟩ := many_spelled each row (by omega)
  refine ⟨ys,values,fun rest => ⟨parts.flatten ++ rest,?_,taken rest⟩⟩
  rw [List.append_assoc]
  exact announces_head readAs announced (parts.flatten ++ rest)

theorem yields_array {spelled : α → List UInt8 → Prop} {held : α → Node → Prop} {xs : List α}
    (spells : SpellsItems .array spelled xs body) (each : ∀ x part, spelled x part → Yields part (held x)) :
    Yields body (fun x => ∃ ys, x = .array ys ∧ List.Forall₂ held xs ys) := by
  intro depth deep
  obtain ⟨inner,rfl⟩ := Nat.exists_eq_add_of_le' (Nat.le_trans (Nat.le_add_left 1 body.length) deep)
  obtain ⟨ys,values,taken⟩ := items_read Lengths.array_readAs spells deep
    (fun x part spelled short => each x part spelled inner short)
  refine ⟨.array ys,?_,ys,rfl,values⟩
  intro rest
  obtain ⟨after,announced,inside⟩ := taken rest
  simp [node,announced,inside]

theorem yields_map {K V : Type} {keyed : K → List UInt8 → Prop} {spelled : V → List UInt8 → Prop}
    {named : K → Node → Prop} {held : V → Node → Prop} {xs : List (K × V)}
    (spells : SpellsItems .map (SpellsEntry keyed spelled) xs body)
    (keys : ∀ key part, keyed key part → Yields part (named key))
    (each : ∀ x part, spelled x part → Yields part (held x)) :
    Yields body (fun x => ∃ ys, x = .map ys ∧ List.Forall₂ (fun x y => named x.1 y.1 ∧ held x.2 y.2) xs ys) := by
  intro depth deep
  obtain ⟨inner,rfl⟩ := Nat.exists_eq_add_of_le' (Nat.le_trans (Nat.le_add_left 1 body.length) deep)
  have entries : ∀ x part, SpellsEntry keyed spelled x part → part.length < inner →
      ∃ y : Node × Node, Reads (entry (node inner)) part y ∧ named x.1 y.1 ∧ held x.2 y.2 := by
    rintro x _ ⟨front,back,first,second,rfl⟩ short
    rw [List.length_append] at short
    obtain ⟨y,taken,key⟩ := keys x.1 front first inner (by omega)
    obtain ⟨z,followed,value⟩ := each x.2 back second inner (by omega)
    refine ⟨(y,z),?_,key,value⟩
    intro rest
    rw [List.append_assoc,entry,taken]
    simp only [Option.bind_eq_bind,Option.bind_some,followed rest]
    rfl
  obtain ⟨ys,values,taken⟩ := items_read Lengths.map_readAs spells deep entries
  refine ⟨.map ys,?_,ys,rfl,values⟩
  intro rest
  obtain ⟨after,announced,inside⟩ := taken rest
  simp [node,announced,inside]

end Nodes

-- A blob that comes as an array of numbers has brackets of its own.
def spelledBrackets : Brackets := ⟨1,0⟩

theorem yields_key {k : KeyTy} {key : k.Value} {body : List UInt8} (spelled : SpellsKey k key body) :
    Yields body (fun x => ∀ budget, key? k budget x = some key) := by
  cases k with
  | text => exact yields_imp (yields_text spelled) (fun x value _ => value)
  | int k => exact yields_imp (yields_integer spelled) (fun x value _ => int_integer.mpr value)
  | bool | intPair => cases spelled

theorem octet_integer {b : UInt8} {x : Node} (value : x.integer? = some (b.toNat : Int)) :
    (x.int? .u8).map (fun n => UInt8.ofNat n.val.toNat) = some b := by
  have small := b.toNat_lt
  have held : IntKind.u8.Holds b.toNat := by
    simp only [IntKind.Holds,IntKind.least,IntKind.greatest]
    omega
  have read : x.int? .u8 = some ⟨b.toNat,held⟩ := int_integer.mpr value
  rw [read]
  simp

theorem yields_spelled : (t : Ty) → {v : t.Value} → {body : List UInt8} → Spells t v body →
    Yields body (fun x => ∀ budget, t.isWithin spelledBrackets budget = true → read t budget x = some v)
  | .int _,_,_,spelled => yields_imp (yields_integer spelled) (fun _ value _ _ => int_integer.mpr value)
  | .text,_,_,spelled => yields_imp (yields_text spelled) (fun _ value _ _ => value)
  | .bytes,bs,_,spelled => by
      rcases spelled with data | items
      · apply yields_imp (yields_data data)
        rintro x (rfl | rfl) budget _
        · rfl
        · rfl
      · apply yields_imp (yields_array items (fun _ _ denotes => yields_integer denotes))
        rintro x ⟨ys,rfl,values⟩ budget within
        obtain ⟨budget,rfl⟩ := Nat.exists_eq_add_of_le' (of_decide_eq_true within)
        exact mapM_pointwise (values.imp (fun _ _ value => octet_integer value))
  | .list t,vs,_,spelled => by
      apply yields_imp (yields_array spelled (fun _ _ spells => yields_spelled t spells))
      rintro x ⟨ys,rfl,values⟩ budget within
      simp only [Ty.isWithin,Bool.and_eq_true,decide_eq_true_eq] at within
      obtain ⟨budget,rfl⟩ := Nat.exists_eq_add_of_le' within.1
      have back := mapM_pointwise (values.imp (fun _ _ value => value budget within.2))
      simp only [read,sequence?,Option.bind_eq_bind,Option.bind_some,cells_nodes,back]
  | .map k t,map,_,spelled => by
      obtain ⟨entries,same,spells⟩ := spelled
      apply yields_imp (yields_map spells (fun _ _ named => yields_key named) (fun _ _ spells => yields_spelled t spells))
      rintro x ⟨ys,rfl,values⟩ budget within
      simp only [Ty.isWithin,Bool.and_eq_true,decide_eq_true_eq] at within
      obtain ⟨budget,rfl⟩ := Nat.exists_eq_add_of_le' (Nat.le_trans (Nat.le_add_left 1 k.nesting) within.1)
      have back := mapM_pointwise (f := fun entry : Node × Node => do
          let key ← key? k budget entry.1
          let item ← read t budget entry.2
          return (key,item)) (values.imp (fun entry node value => by
        simp [value.1 budget,value.2 budget within.2]))
      rw [read]
      exact (congrArg (Option.map SortedMap.ofList) back).trans (congrArg some (SortedMap.ofList_perm same))
  | .unit,_,_,spelled | .bool,_,_,spelled | .float _,_,_,spelled | .char,_,_,spelled
  | .option _,_,_,spelled | .pair _ _,_,_,spelled | .document,_,_,spelled | .ignored,_,_,spelled
  | .guarded,_,_,spelled | .record _ _ _,_,_,spelled | .choice _ _,_,_,spelled => spelled.elim

theorem decode_spelled {t : Ty} {v : t.Value} {body : List UInt8} (within : t.isWithin spelledBrackets depthLimit = true)
    (spelled : Spells t v body) : decode t body = some v := by
  obtain ⟨x,taken,value⟩ := yields_spelled t spelled (body.length + 1) (Nat.lt_succ_self _)
  have parsed : parse body = some (x,[]) := by
    have alone := taken []
    rwa [List.append_nil] at alone
  rw [decode,parsed]
  exact value depthLimit within

def isPlainKey : KeyTy → Bool
  | .text | .int _ => true
  | .bool | .intPair => false

-- The types whose forms are described.
def isPlain : Ty → Bool
  | .int _ | .text | .bytes => true
  | .list t => isPlain t
  | .map k t => isPlainKey k && isPlain t
  | .unit | .bool | .float _ | .char | .option _ | .pair _ _ | .document | .ignored | .guarded
  | .record _ _ _ | .choice _ _ => false

section Written

variable {α β : Type} {n : Nat}

theorem forall₂_mapM {f : α → Option β} {g : β → List UInt8} {r : α → List UInt8 → Prop} {xs : List α} {ys : List β}
    (mapped : xs.mapM f = some ys) (each : ∀ x ∈ xs, ∀ y, f x = some y → r x (g y)) :
    List.Forall₂ r xs (ys.map g) := by
  induction xs generalizing ys with
  | nil => cases mapped; exact .nil
  | cons x xs ih =>
      obtain ⟨y,rest,first,others,rfl⟩ := mapM_cons_some mapped
      obtain ⟨here,there⟩ := List.forall_mem_cons.mp each
      exact .cons (here y first) (ih others there)

theorem denotes_render {x : Node} (fits : x.Fits) {m : Int} (value : x.integer? = some m) : Denotes x.render m := by
  have whole : head (x.render ++ []) = some (.whole x,[]) := by
    cases fits with
    | natural bounded => exact head_natural [] bounded
    | signed low high => exact head_signed [] low high
    | _ => cases value
  obtain ⟨taken,split,denotes⟩ := head_denotes whole value
  rw [List.append_nil,List.append_nil] at split
  exact split ▸ denotes

theorem integer_ofInt (n : Int) : (ofInt n).integer? = some n := by
  unfold ofInt
  split
  · rfl
  · exact congrArg some (Int.toNat_of_nonneg (by omega))

theorem announces_bigEndian {formats : Lengths} {marker : UInt8} {width : Nat}
    (format : (marker.toNat,width) ∈ formats.wide) (bounded : n < Nat.pow 256 width) :
    Announces formats n (marker :: bigEndian width n) := by
  refine .wide ?_ ?_
  · rw [bigEndian_length]; exact format
  · rw [← ofBigEndian_magnitude,ofBigEndian_bigEndian bounded]

theorem announces_strHead (short : n < 0x1_0000_0000) : Announces .str n (strHead n) := by
  unfold strHead
  split
  · rename_i small; exact .short small (byte_toNat (by omega))
  split
  · rename_i small; exact announces_bigEndian (by decide) small
  split
  · rename_i small; exact announces_bigEndian (by decide) small
  exact announces_bigEndian (by decide) short

theorem announces_binHead (short : n < 0x1_0000_0000) : Announces .bin n (binHead n) := by
  unfold binHead
  split
  · rename_i small; exact announces_bigEndian (by decide) small
  split
  · rename_i small; exact announces_bigEndian (by decide) small
  exact announces_bigEndian (by decide) short

theorem announces_arrayHead (short : n < 0x1_0000_0000) : Announces .array n (arrayHead n) := by
  unfold arrayHead
  split
  · rename_i small; exact .short small (byte_toNat (by omega))
  split
  · rename_i small; exact announces_bigEndian (by decide) small
  exact announces_bigEndian (by decide) short

theorem announces_mapHead (short : n < 0x1_0000_0000) : Announces .map n (mapHead n) := by
  unfold mapHead
  split
  · rename_i small; exact .short small (byte_toNat (by omega))
  split
  · rename_i small; exact announces_bigEndian (by decide) small
  exact announces_bigEndian (by decide) short

end Written

theorem spells_ofKey {k : KeyTy} {key : k.Value} (plain : isPlainKey k = true) (short : ShortKey k key) :
    SpellsKey k key (ofKey k key).render := by
  cases k with
  | text => exact ⟨_,.inl (announces_strHead short),rfl⟩
  | int k => exact denotes_render (bounded_fits key) (integer_ofInt key.val)
  | bool | intPair => cases plain

theorem spells_written : (t : Ty) → (v : t.Value) → {node : Node} → isPlain t = true → Sized t v →
    script.write t v = some node → Spells t v node.render
  | .int _,n,_,_,_,written => by
      cases written
      exact denotes_render (bounded_fits n) (integer_ofInt n.val)
  | .text,_,_,_,sized,written => by
      cases written
      exact ⟨_,.inl (announces_strHead sized),rfl⟩
  | .bytes,_,_,_,sized,written => by
      cases written
      exact .inl ⟨_,.inr (announces_binHead sized),rfl⟩
  | .list t,vs,_,plain,sized,written => by
      obtain ⟨items,mapped,rfl⟩ := Option.map_eq_some_iff.mp written
      have row := forall₂_mapM mapped (fun v member node wrote => spells_written t v plain (sized.2 v member) wrote)
      refine ⟨arrayHead items.length,items.map Node.render,?_,row,?_⟩
      · rw [mapM_length mapped]
        exact announces_arrayHead sized.1
      · rw [Node.render,renderItems_eq,List.flatMap_def]
  | .map k t,map,_,plain,sized,written => by
      obtain ⟨entries,mapped,rfl⟩ := Option.map_eq_some_iff.mp written
      simp only [isPlain,Bool.and_eq_true] at plain
      have row := forall₂_mapM (g := fun entry : Node × Node => entry.1.render ++ entry.2.render)
        (r := SpellsEntry (SpellsKey k) (Spells t)) mapped (by
          intro entry member node wrote
          obtain ⟨key,item⟩ := Script.write_map_entry wrote
          have named := spells_ofKey plain.1 (sized.1.2 entry member)
          rw [Option.some.inj key] at named
          exact ⟨_,_,named,spells_written t entry.2 plain.2 (sized.2 entry member) item,rfl⟩)
      refine ⟨map.entries,.refl _,mapHead entries.length,_,?_,row,?_⟩
      · rw [mapM_length mapped]
        exact announces_mapHead sized.1.1
      · rw [Node.render,renderEntries_eq,List.flatMap_def]
  | .unit,_,_,plain,_,_ | .bool,_,_,plain,_,_ | .float _,_,_,plain,_,_ | .char,_,_,plain,_,_
  | .option _,_,_,plain,_,_ | .pair _ _,_,_,plain,_,_ | .document,_,_,plain,_,_
  | .ignored,_,_,plain,_,_ | .guarded,_,_,plain,_,_ | .record _ _ _,_,_,plain,_,_
  | .choice _ _,_,_,plain,_,_ => by cases plain

theorem msgPack_spelling_exact :
    (∀ name ∈ ["string","bytes","vec_i64","vec_string","map_str_i64","map_u32_str"],
      ∃ t, Catalogue.named? name = some t ∧ isPlain t = true ∧ t.isWithin spelledBrackets depthLimit = true) ∧
    ∀ (t : Ty) (v : t.Value),
      (t.isWithin spelledBrackets depthLimit = true → ∀ p : Payload,
        (∀ given, p.contentType = some given → Serializer.msgPack.accepts given = true) → Spells t v p.body →
          Serializer.msgPack.fromPayload t p = .ok v) ∧
      (isPlain t = true → Sized t v → ∀ p, Serializer.msgPack.toPayload t v = .ok p → Spells t v p.body) := by
  refine ⟨?_,?_⟩
  · simp only [List.forall_mem_cons]
    exact ⟨⟨_,rfl,rfl,rfl⟩,⟨_,rfl,rfl,rfl⟩,⟨_,rfl,rfl,rfl⟩,⟨_,rfl,rfl,rfl⟩,⟨_,rfl,rfl,rfl⟩,⟨_,rfl,rfl,rfl⟩,by simp⟩
  · intro t v
    refine ⟨?_,?_⟩
    · intro within p taken spelled
      exact Serializer.msgPack_ok.mpr ⟨taken,decode_spelled within spelled⟩
    · intro plain sized p written
      obtain ⟨body,encoded,rfl⟩ := Serializer.wrapped_ok.mp written
      obtain ⟨node,wrote,rfl⟩ := Option.map_eq_some_iff.mp encoded
      exact spells_written t v plain sized wrote

def paired : (Ty.map (.int .u32) .text).Value :=
  (SortedMap.empty.insert ⟨1,by decide⟩ "a").insert ⟨2,by decide⟩ "b"

-- The later key first, as a signed number of eight bytes with a bin behind it; then the earlier one.
def pairedWide : List UInt8 :=
  [0xde,0x00,0x02] ++ [[0xd3,0x00,0x00,0x00,0x00,0x00,0x00,0x00,0x02] ++ ([0xc4,0x01] ++ [0x62]),
    [0xcc,0x01] ++ ([0xdb,0x00,0x00,0x00,0x01] ++ [0x61])].flatten

theorem msgPack_wide_unsorted_pairs_read :
    Spells (.map (.int .u32) .text) paired pairedWide ∧
    Serializer.msgPack.fromPayload (.map (.int .u32) .text) (.untyped pairedWide) = .ok paired ∧
    Spells (.map (.int .u32) .text) paired [0x82,0x01,0xa1,0x61,0x02,0xa1,0x62] := by
  have eight : ((0xd3 : UInt8).toNat,[(0x00 : UInt8),0x00,0x00,0x00,0x00,0x00,0x00,0x02].length) ∈ signedFormats := by
    decide
  have two : Denotes [0xd3,0x00,0x00,0x00,0x00,0x00,0x00,0x00,0x02] 2 := .signed eight
  have one : Denotes [0xcc,0x01] 1 :=
    .unsigned (show ((0xcc : UInt8).toNat,[(0x01 : UInt8)].length) ∈ unsignedFormats by decide)
  have wide : Spells (.map (.int .u32) .text) paired pairedWide := by
    refine ⟨[(⟨2,by decide⟩,"b"),(⟨1,by decide⟩,"a")],.swap _ _ _,_,_,.wide (by decide) (by decide),?_,rfl⟩
    refine .cons ⟨_,_,two,⟨_,.inr (.wide (by decide) (by decide)),rfl⟩,rfl⟩ ?_
    exact .cons ⟨_,_,one,⟨_,.inl (.wide (by decide) (by decide)),rfl⟩,rfl⟩ .nil
  have sized : Sized (.map (.int .u32) .text) paired := by
    simp only [Sized,paired,Ty.Throughout,ShortValue,ShortKey,ShortText]
    decide
  obtain ⟨reads,written⟩ := msgPack_spelling_exact.2 (.map (.int .u32) .text) paired
  refine ⟨wide,?_,?_⟩
  · exact reads (by decide) (.untyped pairedWide) (fun _ typed => by cases typed) wide
  · exact written rfl sized (.typed applicationMsgPack _) rfl

end Switchboard.MsgPack
