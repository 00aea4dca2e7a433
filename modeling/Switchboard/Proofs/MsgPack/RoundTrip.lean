import Switchboard.MsgPack.Decode
import Switchboard.MsgPack.Encode
import Switchboard.Proofs.BuiltIn
import Switchboard.Proofs.MsgPack.Wire
import Switchboard.Proofs.Writing

namespace Switchboard.MsgPack

-- Lengths that a head can announce.

def ShortText (s : String) : Prop := (Text.bytes s).length < 0x1_0000_0000

def ShortTree : Tree → Prop
  | .text s => ShortText s
  | .list items => items.length < 0x1_0000_0000
  | .object members => members.length < 0x1_0000_0000 ∧ ∀ member ∈ members, ShortText member.1
  | .null | .bool _ | .whole _ | .real _ => True

def ShortKey : (k : KeyTy) → k.Value → Prop
  | .text,s => ShortText s
  | .int _,_ | .bool,_ | .intPair,_ => True

def ShortValue : (t : Ty) → t.Value → Prop
  | .text,s => ShortText s
  | .bytes,bs => bs.length < 0x1_0000_0000
  | .list _,vs => vs.length < 0x1_0000_0000
  | .map k _,map => map.entries.length < 0x1_0000_0000 ∧ ∀ entry ∈ map.entries, ShortKey k entry.1
  | .document,doc => doc.tree.Throughout ShortTree
  | .record _ _ fields,_ => fields.names.length < 0x1_0000_0000 ∧ ∀ name ∈ fields.names, ShortText name
  | .choice _ variants,_ => ∀ name ∈ variants.names, ShortText name
  | .unit,_ | .bool,_ | .int _,_ | .float _,_ | .char,_ | .option _,_ | .pair _ _,_
  | .ignored,_ | .guarded,_ => True

def Sized (t : Ty) (v : t.Value) : Prop := t.Throughout ShortValue v

theorem ofInt_fits {n : Int} (low : -0x8000_0000_0000_0000 ≤ n) (high : n < 0x1_0000_0000_0000_0000) :
    (ofInt n).Fits := by
  unfold ofInt
  split
  · exact .signed low (by omega)
  · exact .natural (by omega)

theorem bounded_fits {k : IntKind} (n : Bounded k) : (ofInt n.val).Fits :=
  ofInt_fits n.range.1 n.range.2

theorem bytes_length (s : String) : (Text.bytes s).length = s.utf8ByteSize := by simp [Text.bytes]

theorem char_short (c : Char) : ShortText c.toString := by
  have size : c.toString.utf8ByteSize = c.utf8Size := by simp [Char.toString_eq_singleton]
  have small := c.utf8Size_le_four
  rw [ShortText,bytes_length]
  omega

theorem ofKey_fits {k : KeyTy} {key : k.Value} (short : ShortKey k key) : (ofKey k key).Fits := by
  cases k with
  | text => exact .str short
  | int k => exact bounded_fits key
  | bool => exact .bool key
  | intPair =>
      refine .array (show 2 < 0x1_0000_0000 by decide) ?_
      simp [bounded_fits]

theorem ofTrees_eq (items : List Tree) : ofTrees items = items.map ofTree := by
  induction items with
  | nil => rfl
  | cons item rest ih => rw [ofTrees,List.map_cons,ih]

theorem ofMembers_eq (members : List (String × Tree)) :
    ofMembers members = members.map (fun member => (ofString member.1,ofTree member.2)) := by
  induction members with
  | nil => rfl
  | cons member rest ih => rw [ofMembers,List.map_cons,ih]

theorem ofTree_fits {tree : Tree} (short : tree.Throughout ShortTree) : (ofTree tree).Fits := by
  induction tree using Tree.induction with
  | null => exact .nil
  | bool b => exact .bool b
  | whole n => exact ofInt_fits n.held.1 n.held.2
  | real x => exact .float _ _
  | text s => exact .str short
  | list items ih =>
      rw [Tree.Throughout,Tree.eachItem_iff] at short
      rw [ofTree,ofTrees_eq]
      refine .array (by rw [List.length_map]; exact short.1) ?_
      simp only [List.mem_map]
      rintro _ ⟨item,member,rfl⟩
      exact ih item member (short.2 item member)
  | object members ih =>
      rw [Tree.Throughout,Tree.eachMember_iff] at short
      rw [ofTree,ofMembers_eq]
      refine .map (by rw [List.length_map]; exact short.1.1) ?_ ?_
      · simp only [List.mem_map]
        rintro _ ⟨member,inside,rfl⟩
        exact .str (short.1.2 member inside)
      · simp only [List.mem_map]
        rintro _ ⟨member,inside,rfl⟩
        exact ih member inside (short.2 member inside)

mutual
theorem write_fits : (t : Ty) → (v : t.Value) → {node : Node} → Sized t v → script.write t v = some node →
    node.Fits
  | .unit,_,_,_,written => by cases written; exact .nil
  | .bool,b,_,_,written => by cases written; exact .bool b
  | .int _,n,_,_,written => by cases written; exact bounded_fits n
  | .float f,x,_,_,written => by cases written; exact .float f x
  | .char,c,_,_,written => by cases written; exact .str (char_short c)
  | .text,_,_,sized,written => by cases written; exact .str sized
  | .bytes,_,_,sized,written => by cases written; exact .bin sized
  | .option _,none,_,_,written => by cases written; exact .nil
  | .option t,some v,_,sized,written => write_fits t v (sized.2 v rfl) written
  | .list t,vs,_,sized,written => by
      obtain ⟨items,mapped,rfl⟩ := Option.map_eq_some_iff.mp written
      refine .array (by rw [mapM_length mapped]; exact sized.1) ?_
      intro item member
      obtain ⟨v,inside,wrote⟩ := mapM_mem mapped member
      exact write_fits t v (sized.2 v inside) wrote
  | .pair s t,(x,y),_,sized,written => by
      obtain ⟨first,left,written⟩ := Option.bind_eq_some_iff.mp written
      obtain ⟨second,right,written⟩ := Option.bind_eq_some_iff.mp written
      cases written
      refine .array (show 2 < 0x1_0000_0000 by decide) ?_
      simp only [List.forall_mem_cons]
      exact ⟨write_fits s x sized.2.1 left,write_fits t y sized.2.2 right,by simp⟩
  | .map k t,map,_,sized,written => by
      obtain ⟨entries,mapped,rfl⟩ := Option.map_eq_some_iff.mp written
      refine .map (by rw [mapM_length mapped]; exact sized.1.1) ?_ ?_
      · intro entry member
        obtain ⟨held,inside,wrote⟩ := mapM_mem mapped member
        rw [← Option.some.inj (Script.write_map_entry wrote).1]
        exact ofKey_fits (sized.1.2 held inside)
      · intro entry member
        obtain ⟨held,inside,wrote⟩ := mapM_mem mapped member
        exact write_fits t held.2 (sized.2 held inside) (Script.write_map_entry wrote).2
  | .document,_,_,sized,written => by cases written; exact ofTree_fits sized
  | .ignored,_,_,_,written => by cases written; exact .nil
  | .guarded,n,_,_,written => by
      rw [Script.write] at written
      split at written
      · cases written
      · cases written; exact bounded_fits n
  | .record _ _ fields,v,_,sized,written => by
      obtain ⟨entries,wrote,rfl⟩ := Option.map_eq_some_iff.mp written
      rw [Script.writeFields_labelled] at wrote
      obtain ⟨pairs,labelled,rfl⟩ := Option.map_eq_some_iff.mp wrote
      have count := Fields.labelled_length labelled
      refine .map (by rw [List.length_map]; exact Nat.lt_of_le_of_lt count sized.1.1) ?_ ?_
      · simp only [List.mem_map]
        rintro _ ⟨pair,member,rfl⟩
        exact .str (sized.1.2 pair.1 (Fields.labelled_names labelled pair member))
      · simp only [List.mem_map]
        rintro _ ⟨pair,member,rfl⟩
        exact labelled_fits fields v sized.2 labelled pair member
  | .choice _ variants,v,_,sized,written => writeVariant_fits variants v sized.1 sized.2 written

theorem labelled_fits : (fields : Fields) → (v : fields.Value) → {pairs : List (String × Node)} →
    fields.Throughout ShortValue v → fields.labelled script.write v = some pairs →
    ∀ pair ∈ pairs, pair.2.Fits
  | .nil,_,_,_,written => by cases written; simp
  | .cons _ _ t rest,v,_,sized,written => by
      rcases Fields.labelled_cons written with ⟨_,later⟩ | ⟨_,node,others,first,later,rfl⟩
      · exact labelled_fits rest v.2 sized.2 later
      · exact List.forall_mem_cons.mpr
          ⟨write_fits t v.1 sized.1 first,labelled_fits rest v.2 sized.2 later⟩

theorem writeVariant_fits : (variants : Variants) → (v : variants.Value) → {node : Node} →
    (∀ name ∈ variants.names, ShortText name) → variants.Throughout ShortValue v →
    script.writeVariant variants v = some node → node.Fits
  | .bare _ _,.inl _,_,names,_,written => by
      cases written; exact .str (names _ List.mem_cons_self)
  | .bare _ rest,.inr v,_,names,sized,written =>
      writeVariant_fits rest v (List.forall_mem_cons.mp names).2 sized written
  | .holding name t _,.inl v,_,names,sized,written => by
      obtain ⟨content,inner,rfl⟩ := Option.map_eq_some_iff.mp written
      have key : (ofString name).Fits := .str (names name List.mem_cons_self)
      have held := write_fits t v sized inner
      refine .map (show 1 < 0x1_0000_0000 by decide) ?_ ?_ <;> simpa
  | .holding _ _ rest,.inr v,_,names,sized,written =>
      writeVariant_fits rest v (List.forall_mem_cons.mp names).2 sized written
end

theorem int_ofInt {k : IntKind} (n : Bounded k) : (ofInt n.val).int? k = some n := by
  unfold ofInt
  split
  · exact k.ofInt?_val n
  · have natural : (n.val.toNat : Int) = n.val := by omega
    rw [Node.int?,natural,k.ofInt?_val]

theorem text_ofString (s : String) : (ofString s).text? = some s := Text.ofBytes?_bytes s

theorem char_ofString (c : Char) : (ofString c.toString).char? = some c := by
  rw [ofString,Node.char?,Text.ofBytes?_bytes,Option.bind_some,Text.onlyChar_toString]

theorem key_ofKey {k : KeyTy} (key : k.Value) {budget : Nat} (nested : k.nesting ≤ budget) :
    key? k budget (ofKey k key) = some key := by
  cases k with
  | text => exact text_ofString key
  | int k => exact int_ofInt key
  | bool => rfl
  | intPair =>
      obtain ⟨inner,rfl⟩ := Nat.exists_eq_add_of_le' nested
      obtain ⟨i,j⟩ := key
      simp [key?,ofKey,sequence?,Sequence.two?,Cell.read,int_ofInt,KeyTy.nesting]

theorem document_scalar {node : Node} {doc : Document} (scalar : scalar? node = some doc) (budget : Nat) :
    document budget node = some doc := by
  cases budget with
  | zero => exact scalar
  | succ budget => cases node <;> first | exact scalar | cases scalar

-- Where the first key is a str, it is read as the others are.
theorem members_texts (read : Node → Option Document) {entries : List (Node × Node)}
    (strings : ∀ entry ∈ entries, ∃ s, entry.1 = ofString s) :
    members? read entries = entries.mapM (member? Node.text? read) := by
  cases entries with
  | nil => rfl
  | cons first rest =>
      obtain ⟨s,key⟩ := strings first List.mem_cons_self
      have same : member? leadingKey? read first = member? Node.text? read first := by
        simp only [member?,key]; rfl
      rw [members?,same,List.mapM_cons]

theorem document_ofTree {tree : Tree} (ordered : tree.Ordered) {budget : Nat}
    (nested : tree.height ≤ budget) :
    ∃ doc, document budget (ofTree tree) = some doc ∧ doc.tree = tree := by
  induction tree using Tree.induction generalizing budget with
  | null => exact ⟨.null,document_scalar rfl budget,rfl⟩
  | bool b => exact ⟨.bool b,document_scalar rfl budget,rfl⟩
  | whole n =>
      refine ⟨.whole n,document_scalar ?_ budget,rfl⟩
      rw [ofTree,ofInt]
      split
      · simp [scalar?]
      · have natural : (n.val.toNat : Int) = n.val := by omega
        simp [scalar?,natural]
  | real x =>
      refine ⟨.real x.val,document_scalar rfl budget,?_⟩
      simp [Document.real,x.finite]
  | text s =>
      refine ⟨.text s,document_scalar ?_ budget,rfl⟩
      simp [ofTree,ofString,scalar?]
  | list items ih =>
      simp only [Tree.Ordered,Tree.orderedItems_iff] at ordered
      simp only [Tree.height,Tree.itemHeights_eq] at nested
      obtain ⟨inner,rfl,below⟩ := deepest_inside nested
      obtain ⟨docs,read,trees⟩ := mapM_section (fun item member =>
        ih item member (ordered item member) (below item member))
      refine ⟨.list docs,?_,congrArg Tree.list trees⟩
      simp only [ofTree,ofTrees_eq,document,read,Option.map_some]
  | object members ih =>
      simp only [Tree.Ordered,Tree.orderedMembers_iff] at ordered
      simp only [Tree.height,Tree.memberHeights_eq] at nested
      obtain ⟨inner,rfl,below⟩ := deepest_inside nested
      have each : ∀ member ∈ members, ∃ doc : String × Document,
          member? Node.text? (document inner) (ofString member.1,ofTree member.2) = some doc ∧
          (doc.1,doc.2.tree) = member := by
        intro member inside
        obtain ⟨doc,read,same⟩ := ih member inside (ordered.2 member inside) (below member inside)
        exact ⟨(member.1,doc),by simp [member?,text_ofString,read],by rw [same]⟩
      obtain ⟨docs,read,trees⟩ :=
        mapM_section (w := fun member : String × Tree => (ofString member.1,ofTree member.2)) each
      have strings : ∀ entry ∈ members.map (fun member => (ofString member.1,ofTree member.2)),
          ∃ s, entry.1 = ofString s := by
        simp only [List.mem_map]
        rintro _ ⟨member,_,rfl⟩
        exact ⟨member.1,rfl⟩
      refine ⟨.object docs,?_,Document.object_tree trees ordered.1⟩
      simp only [ofTree,ofMembers_eq,document,members_texts _ strings,read,Option.map_some]

theorem cells_nodes {α : Type} (read : Node → Option α) (ofOctet : UInt8 → Option α) (items : List Node) :
    (items.map Cell.node).mapM (Cell.read read ofOctet) = items.mapM read := List.mapM_map

theorem script_solid : Script.Solid script := by
  refine ⟨nofun,fun n => ?_,nofun,nofun,nofun,nofun⟩
  change ofInt n ≠ .nil
  unfold ofInt
  split
  · exact nofun
  · exact nofun

theorem declared_string {names : List String} {name : String} (known : name ∈ names) :
    declared? names (ofString name) = some (some name) := by
  simp [declared?,ofString,known]

theorem fields_declared {names : List String} {pairs : List (String × Node)}
    (known : ∀ pair ∈ pairs, pair.1 ∈ names) :
    (pairs.map (fun pair => (ofString pair.1,pair.2))).mapM (fieldOf? names) =
      some (pairs.map (fun pair => (some pair.1,pair.2))) := by
  induction pairs with
  | nil => rfl
  | cons pair rest ih =>
      obtain ⟨first,others⟩ := List.forall_mem_cons.mp known
      simp [List.mapM_cons,fieldOf?,declared_string first,ih others]

theorem strangers_absent (unknown : UnknownKeys) (budget : Nat) (pairs : List (String × Node)) :
    strangersPass unknown budget (pairs.map (fun pair => (some pair.1,pair.2))) = true := by
  simp [strangersPass]

theorem only_single (entries : List (Option String × Node)) (name : String) :
    only? entries name = single? entries (some name) := by
  unfold only? single?
  cases entries.filter (fun entry => entry.1 == some name) with
  | nil => rfl
  | cons entry rest => cases rest <;> rfl

mutual
theorem read_write : (t : Ty) → (v : t.Value) → {budget : Nat} → {node : Node} → t.isFaithful = true →
    t.nesting brackets v ≤ budget → script.write t v = some node → read t budget node = some v
  | .unit,_,_,_,_,_,written => by cases written; rfl
  | .bool,_,_,_,_,_,written => by cases written; rfl
  | .int _,n,_,_,_,_,written => by cases written; exact int_ofInt n
  | .float f,x,_,_,_,_,written => by
      cases written
      simp [read,Node.float?,Binary.convert]
  | .char,c,_,_,_,_,written => by cases written; exact char_ofString c
  | .text,s,_,_,_,_,written => by cases written; exact text_ofString s
  | .bytes,_,_,_,_,_,written => by cases written; rfl
  | .option _,none,_,_,_,_,written => by cases written; rfl
  | .option t,some v,budget,node,faithful,nested,written => by
      simp only [Ty.isFaithful,Bool.and_eq_true,Bool.not_eq_true'] at faithful
      have inner : read t budget node = some v := read_write t v faithful.2 nested written
      have solid : node ≠ .nil := fun empty =>
        Script.write_solid script_solid faithful.1 nofun v (written.trans (congrArg some empty))
      rw [read,inner,Option.map_some]
      exact solid
  | .list t,vs,budget,_,faithful,nested,written => by
      obtain ⟨items,mapped,rfl⟩ := Option.map_eq_some_iff.mp written
      obtain ⟨inner,rfl,below⟩ := deepest_inside nested
      have back := mapM_inverse mapped (fun v member node wrote =>
        read_write t v faithful (below v member) wrote)
      simp only [read,sequence?,Option.bind_eq_bind,Option.bind_some,cells_nodes,back]
  | .pair s t,(x,y),budget,_,faithful,nested,written => by
      obtain ⟨first,left,written⟩ := Option.bind_eq_some_iff.mp written
      obtain ⟨second,right,written⟩ := Option.bind_eq_some_iff.mp written
      cases written
      simp only [Ty.isFaithful,Bool.and_eq_true] at faithful
      obtain ⟨inner,rfl⟩ := Nat.exists_eq_add_of_le' (Nat.le_trans (Nat.le_add_left 1 _) nested)
      have below := Nat.max_le.mp (Nat.le_of_succ_le_succ nested)
      have left := read_write s x faithful.1 below.1 left
      have right := read_write t y faithful.2 below.2 right
      simp [read,sequence?,Sequence.two?,Cell.read,left,right]
  | .map k t,map,budget,_,faithful,nested,written => by
      obtain ⟨entries,mapped,rfl⟩ := Option.map_eq_some_iff.mp written
      obtain ⟨inner,rfl,below⟩ := deepest_inside nested
      have back := mapM_inverse (g := fun entry : Node × Node => do
          let key ← key? k inner entry.1
          let item ← read t inner entry.2
          return (key,item)) mapped (by
        intro entry member node wrote
        have within := Nat.max_le.mp (below entry member)
        obtain ⟨key,item⟩ := Script.write_map_entry wrote
        simp [← Option.some.inj key,key_ofKey entry.1 within.1,read_write t entry.2 faithful within.2 item])
      rw [read]
      exact (congrArg (Option.map SortedMap.ofList) back).trans (congrArg some (SortedMap.ofList_entries map))
  | .document,doc,_,_,_,nested,written => by
      cases written
      obtain ⟨other,read,same⟩ := document_ofTree doc.ordered nested
      cases other; cases doc; cases same
      exact read
  | .ignored,_,_,_,_,_,written => by cases written; rfl
  | .guarded,n,_,_,_,_,written => by
      rw [Script.write] at written
      split at written
      · cases written
      · cases written; exact int_ofInt n
  | .record _ unknown fields,v,budget,_,faithful,nested,written => by
      obtain ⟨entries,wrote,rfl⟩ := Option.map_eq_some_iff.mp written
      rw [Script.writeFields_labelled] at wrote
      obtain ⟨pairs,labelled,rfl⟩ := Option.map_eq_some_iff.mp wrote
      simp only [Ty.isFaithful,Bool.and_eq_true,decide_eq_true_eq] at faithful
      obtain ⟨inner,rfl⟩ := Nat.exists_eq_add_of_le' (Nat.le_trans (Nat.le_add_left 1 _) nested)
      have found := Fields.found_labelled (only? (pairs.map (fun pair => (some pair.1,pair.2))))
        faithful.1 labelled (fun name _ => by rw [only_single,single_map (fun _ _ => Option.some.inj)])
      have fieldsRead := readEntries_found fields v faithful.2 (Nat.le_of_succ_le_succ nested) found
      have known := Fields.labelled_names labelled
      simp only [read,fields_declared known,strangers_absent,Option.bind_eq_bind,Option.bind_some,
        if_true,fieldsRead]
  | .choice _ variants,v,budget,_,faithful,nested,written => by
      simp only [Ty.isFaithful,Bool.and_eq_true,decide_eq_true_eq] at faithful
      obtain ⟨name,known,shown⟩ := readVariant_written variants v faithful.1 faithful.2 nested written
      have declared := declared_string known
      rcases shown with ⟨rfl,bare⟩ | ⟨content,rfl,held⟩
      · rw [ofString] at declared ⊢
        simp only [read,declared,Option.bind_some,bare]
      · simp only [read,declared,Option.bind_some,held]

theorem readEntries_found : (fields : Fields) → (v : fields.Value) → {budget : Nat} →
    {entries : List (Option String × Node)} → fields.areFaithful = true →
    fields.nesting brackets v ≤ budget → fields.Found script.write (only? entries) v →
    readEntries fields budget entries = some v
  | .nil,_,_,_,_,_,_ => rfl
  | .cons name presence t rest,v,budget,entries,faithful,nested,found => by
      simp only [Fields.areFaithful,Bool.and_eq_true] at faithful
      rw [Fields.nesting] at nested
      have below := Nat.max_le.mp nested
      have others := readEntries_found rest v.2 faithful.2 below.2 found.2
      have here := found.1
      by_cases skipped : presence.skips t v.1 = true
      · rw [if_pos skipped] at here
        simp [readEntries,here,others,Presence.missing_of_skips skipped]
      · rw [if_neg skipped] at here below
        obtain ⟨node,written,held⟩ := here
        simp [readEntries,held,others,read_write t v.1 faithful.1 below.1 written]

theorem readVariant_written : (variants : Variants) → (v : variants.Value) → {budget : Nat} → {node : Node} →
    variants.names.Nodup → variants.areFaithful = true → variants.nesting brackets v ≤ budget →
    script.writeVariant variants v = some node →
    ∃ name ∈ variants.names, (node = ofString name ∧ readBare variants name = some v) ∨
      ∃ content, node = .map [(ofString name,content)] ∧ readContent variants budget name content = some v
  | .bare name _,.inl _,_,_,_,_,_,written => by
      cases written
      exact ⟨name,List.mem_cons_self,.inl ⟨rfl,by simp [readBare]⟩⟩
  | .bare name rest,.inr v,budget,_,distinct,faithful,nested,written => by
      obtain ⟨fresh,distinct⟩ := List.nodup_cons.mp distinct
      obtain ⟨wanted,member,shown⟩ := readVariant_written rest v distinct faithful nested written
      have other : name ≠ wanted := fun same => fresh (same ▸ member)
      refine ⟨wanted,List.mem_cons_of_mem _ member,?_⟩
      simpa [readBare,readContent,other] using shown
  | .holding name t _,.inl v,budget,_,_,faithful,nested,written => by
      obtain ⟨content,inner,rfl⟩ := Option.map_eq_some_iff.mp written
      simp only [Variants.areFaithful,Bool.and_eq_true] at faithful
      have held := read_write t v faithful.1 nested inner
      exact ⟨name,List.mem_cons_self,.inr ⟨content,rfl,by simp [readContent,held]⟩⟩
  | .holding name _ rest,.inr v,_,_,distinct,faithful,nested,written => by
      obtain ⟨fresh,distinct⟩ := List.nodup_cons.mp distinct
      simp only [Variants.areFaithful,Bool.and_eq_true] at faithful
      obtain ⟨wanted,member,shown⟩ := readVariant_written rest v distinct faithful.2 nested written
      have other : name ≠ wanted := fun same => fresh (same ▸ member)
      refine ⟨wanted,List.mem_cons_of_mem _ member,?_⟩
      simpa [readBare,readContent,other] using shown
end

-- Only a guarded number below zero refuses to be written.
def Permitted : (t : Ty) → t.Value → Prop
  | .guarded,n => 0 ≤ n.val
  | .unit,_ | .bool,_ | .int _,_ | .float _,_ | .char,_ | .text,_ | .bytes,_ | .option _,_
  | .list _,_ | .pair _ _,_ | .map _ _,_ | .document,_ | .ignored,_ | .record _ _ _,_
  | .choice _ _,_ => True

theorem permits : Script.Permits script Permitted := by
  refine ⟨fun k t map => ?_,fun n => Iff.rfl,fun t v map guarded => ?_⟩
  · simp [Permitted]
  · cases t with
    | guarded => exact absurd rfl guarded
    | _ => trivial

theorem decode_encode {t : Ty} {v : t.Value} {body : List UInt8} (faithful : t.isFaithful = true)
    (sized : Sized t v) (nested : t.nesting brackets v ≤ depthLimit) (encoded : encode t v = some body) :
    decode t body = some v := by
  obtain ⟨node,written,rfl⟩ := Option.map_eq_some_iff.mp encoded
  have parsed := parse_render (write_fits t v sized written) []
  rw [List.append_nil] at parsed
  rw [decode,parsed]
  exact read_write t v faithful nested written

theorem msgPack_roundtrip_exact :
    (∀ name t, Catalogue.named? name = some t → t.isFaithful = true ∧
      (t = .document ∨ ∀ v, t.nesting brackets v ≤ depthLimit)) ∧
    ∀ t : Ty, t.isFaithful = true → ∀ v : t.Value,
      ((∃ p, Serializer.msgPack.toPayload t v = .ok p) ↔ t.Throughout Permitted v) ∧
      (Sized t v → t.nesting brackets v ≤ depthLimit →
        ∀ p, Serializer.msgPack.toPayload t v = .ok p →
          Serializer.msgPack.fromPayload t p = .ok v ∧ Serializer.standard.fromPayload t p = .ok v) := by
  refine ⟨?_,?_⟩
  · intro name t known
    obtain ⟨faithful,document | within⟩ := Catalogue.named_faithful known
    · exact ⟨faithful,.inl document⟩
    · refine ⟨faithful,.inr (fun v => ?_)⟩
      exact Nat.le_trans (t.nesting_within brackets 4 within.1 v) (by decide)
  · intro t faithful v
    refine ⟨?_,?_⟩
    · show (∃ p, Codec.wrapped applicationMsgPack (encode t v) = .ok p) ↔ _
      rw [Serializer.wrapped_exists,encode,Option.isSome_map,Script.write_isSome permits]
    · intro sized nested p written
      obtain ⟨body,encoded,rfl⟩ := Serializer.wrapped_ok.mp written
      have decoded := decode_encode faithful sized nested encoded
      refine ⟨?_,?_⟩
      · rw [Serializer.fromPayload_msgPack (.inl rfl),decoded]; rfl
      · rw [Serializer.fromPayload_msgPack (.inr rfl),decoded]; rfl

-- A fractional total that is not a number, a field left out, and a variant around a pair.
def busyOrder : Catalogue.order.Value :=
  (⟨0xffff_ffff_ffff_ffff,by decide⟩,["é",""],Binary.quietNaN .double,some "",
    .inr (.inr (.inl (⟨-0x21,by decide⟩,"x"))),SortedMap.empty.insert ⟨0xffff_ffff,by decide⟩ "z",none,())

theorem msgPack_busy_order_read_back :
    Catalogue.order.isFaithful = true ∧ Sized Catalogue.order busyOrder ∧
    Catalogue.order.nesting brackets busyOrder ≤ depthLimit ∧
    ∃ p, Serializer.msgPack.toPayload Catalogue.order busyOrder = .ok p ∧
      Serializer.msgPack.fromPayload Catalogue.order p = .ok busyOrder ∧
      Serializer.standard.fromPayload Catalogue.order p = .ok busyOrder := by
  have faithful : Catalogue.order.isFaithful = true := by decide
  have sized : Sized Catalogue.order busyOrder := by
    simp only [Sized,Catalogue.order,Catalogue.shape,Catalogue.counted,Catalogue.i64,Catalogue.u64,busyOrder,
      Ty.Throughout,Fields.Throughout,Variants.Throughout,ShortValue,ShortKey,ShortText,Fields.names,
      Variants.names]
    decide
  have nested : Catalogue.order.nesting brackets busyOrder ≤ depthLimit := by decide
  obtain ⟨permitted,back⟩ := msgPack_roundtrip_exact.2 Catalogue.order faithful busyOrder
  have allowed : Catalogue.order.Throughout Permitted busyOrder := by
    simp only [Catalogue.order,Catalogue.shape,Catalogue.counted,Catalogue.i64,Catalogue.u64,busyOrder,
      Ty.Throughout,Fields.Throughout,Variants.Throughout,Permitted]
    decide
  obtain ⟨p,written⟩ := permitted.mpr allowed
  exact ⟨faithful,sized,nested,p,written,back sized nested p written⟩

end Switchboard.MsgPack
