import Switchboard.Json.Decode
import Switchboard.Json.Encode
import Switchboard.Proofs.BuiltIn
import Switchboard.Proofs.Json.Shortest
import Switchboard.Proofs.Json.Wire
import Switchboard.Proofs.Writing

namespace Switchboard.Json

def RealFree : Tree → Prop
  | .real _ => False
  | .null | .bool _ | .whole _ | .text _ | .list _ | .object _ => True

def NoFloat : (t : Ty) → t.Value → Prop
  | .float _,_ => False
  | .document,doc => doc.tree.Throughout RealFree
  | .unit,_ | .bool,_ | .int _,_ | .char,_ | .text,_ | .bytes,_ | .option _,_ | .list _,_
  | .pair _ _,_ | .map _ _,_ | .ignored,_ | .guarded,_ | .record _ _ _,_ | .choice _ _,_ => True

def FloatFree (t : Ty) (v : t.Value) : Prop := t.Throughout NoFloat v

namespace Piece

theorem ofByte_wellFormed (b : UInt8) : (ofByte b).WellFormed := by
  unfold ofByte
  split
  · split
    · rename_i named; simp [WellFormed,named]
    · trivial
  · split
    · rename_i special
      rcases Bool.or_eq_true_iff.mp special with quote | slash
      · rw [of_decide_eq_true quote]; rfl
      · rw [of_decide_eq_true slash]; rfl
    · rename_i plain
      simpa [WellFormed,not_or] using plain

theorem ofText_wellFormed (s : String) : ∀ p ∈ ofText s, p.WellFormed := by
  simp only [ofText,List.mem_map]
  rintro _ ⟨b,_,rfl⟩
  exact ofByte_wellFormed b

theorem paired_ofByte (b : UInt8) {rest : List Piece} {bs : List UInt8} (later : pairedBytes? rest = some bs) :
    pairedBytes? (ofByte b :: rest) = some (b :: bs) := by
  unfold ofByte
  split
  · rename_i control
    split
    · simp [pairedBytes?,later]
    · have small : b.toNat < 0x20 := by simpa [isControlByte,UInt8.lt_iff_toNat_lt] using control
      have code : b.toUInt16.toNat = b.toNat := UInt8.toNat_toUInt16 b
      have notHigh : isHighSurrogate b.toUInt16 = false := by
        simp [isHighSurrogate,UInt16.le_iff_toNat_le,code]
        omega
      have notLow : isLowSurrogate b.toUInt16 = false := by
        simp [isLowSurrogate,UInt16.le_iff_toNat_le,code]
        omega
      have byte : Text.codePointBytes b.toNat = [b] := by
        simp [Text.codePointBytes,show b.toNat < 0x80 by omega]
      rw [pairedBytes?.eq_def]
      simp [notHigh,notLow,code,byte,later]
  · rename_i solid
    split
    · simp [pairedBytes?,later]
    · simp [pairedBytes?,solid,later]

theorem text_ofText (s : String) : text? (ofText s) = some s := by
  have paired (bs : List UInt8) : pairedBytes? (bs.map ofByte) = some bs := by
    induction bs with
    | nil => rfl
    | cons b bs ih => exact paired_ofByte b ih
  rw [text?,ofText,paired,Option.bind_some,Text.ofBytes?_bytes]

theorem ofByte_clean (b : UInt8) : (ofByte b).isClean = true := by
  unfold ofByte
  split
  · split <;> rfl
  · split
    · rfl
    · rename_i solid _; simp [isClean,solid]

theorem ofText_clean (s : String) : (ofText s).all isClean = true := by
  simp [ofText,ofByte_clean]

theorem rawBytes_raw (bs : List UInt8) : rawBytes? (bs.map .raw) = some bs := by
  induction bs with
  | nil => rfl
  | cons b bs ih => simp [rawBytes?,ih]

end Piece

theorem number_ofInt {n : Int} (low : -0x8000_0000_0000_0000 ≤ n) (high : n < 0x1_0000_0000_0000_0000) :
    (ofInt n).number? = some (.whole n) := NumberText.value_ofInt low high

theorem int_ofInt {k : IntKind} (n : Bounded k) : (ofInt n.val).int? k = some n := by
  simp [Node.int?,number_ofInt n.range.1 n.range.2]

theorem ofTrees_eq (items : List Tree) : ofTrees items = items.map ofTree := by
  induction items with
  | nil => rfl
  | cons item rest ih => rw [ofTrees,List.map_cons,ih]

theorem ofMembers_eq (members : List (String × Tree)) :
    ofMembers members = members.map (fun member => (Piece.ofText member.1,ofTree member.2)) := by
  induction members with
  | nil => rfl
  | cons member rest ih => rw [ofMembers,List.map_cons,ih]

theorem areSound_iff {items : List Node} :
    areSound items = true ↔ ∀ item ∈ items, item.isSound = true := by
  induction items with
  | nil => simp [areSound]
  | cons item rest ih => simp [areSound,ih]

theorem areSoundMembers_iff {members : List (List Piece × Node)} :
    areSoundMembers members = true ↔
      ∀ member ∈ members, member.1.all Piece.isClean = true ∧ member.2.isSound = true := by
  induction members with
  | nil => simp [areSoundMembers]
  | cons member rest ih => simp [areSoundMembers,ih]

theorem ofInt_raw (n : Int) : ∀ p ∈ (NumberText.ofInt n).render.map Piece.raw, p.WellFormed ∧ p.isClean = true := by
  have digit : ∀ d : Digit, (Digits.byte d ≠ 0x22 ∧ Digits.byte d ≠ 0x5c) ∧ isControlByte (Digits.byte d) = false := by decide
  intro p member
  obtain ⟨b,inside,rfl⟩ := List.mem_map.mp member
  simp only [NumberText.render,NumberText.ofInt,List.append_nil,List.mem_append,List.mem_map] at inside
  rcases inside with sign | ⟨d,_,rfl⟩
  · unfold signBytes at sign
    split at sign
    · cases List.mem_singleton.mp sign
      exact ⟨⟨by decide,by decide⟩,rfl⟩
    · cases sign
  · obtain ⟨plain,visible⟩ := digit d
    exact ⟨plain,by simp [Piece.isClean,visible]⟩

theorem ofKey_spelled {k : KeyTy} {key : k.Value} {ps : List Piece} (written : ofKey? k key = some ps) :
    ∀ p ∈ ps, p.WellFormed ∧ p.isClean = true := by
  cases k with
  | text =>
      cases written
      intro p member
      exact ⟨Piece.ofText_wellFormed key p member,List.all_eq_true.mp (Piece.ofText_clean key) p member⟩
  | int k => cases written; exact ofInt_raw key.val
  | bool => cases written; cases key <;> simp [Node.render,Piece.WellFormed,Piece.isClean,isControlByte]
  | intPair => cases written

-- A tree as a value is written.
inductive Node.Printed : Node → Prop where
  | null : Printed .null
  | bool (b : Bool) : Printed (.bool b)
  | number {t : NumberText} (text : t.WellFormed) : Printed (.number t)
  | string (s : String) : Printed (.string (Piece.ofText s))
  | array {items : List Node} (each : ∀ item ∈ items, item.Printed) : Printed (.array items)
  | object {members : List (List Piece × Node)} (keys : ∀ member ∈ members, ∃ k key, ofKey? k key = some member.1)
      (items : ∀ member ∈ members, member.2.Printed) : Printed (.object members)

theorem printed_wellFormed {n : Node} (printed : n.Printed) : n.WellFormed := by
  induction printed with
  | null => exact .null
  | bool b => exact .bool b
  | number text => exact .number text
  | string s => exact .string (Piece.ofText_wellFormed s)
  | array _ ih => exact .array ih
  | object keys _ ih =>
      refine .object ?_ ih
      intro member inside p piece
      obtain ⟨k,key,written⟩ := keys member inside
      exact (ofKey_spelled written p piece).1

theorem printed_sound {n : Node} (printed : n.Printed) : n.isSound = true := by
  induction printed with
  | null | bool _ | number _ => rfl
  | string s => exact Piece.ofText_clean s
  | array _ ih =>
      rw [Node.isSound,areSound_iff]
      exact ih
  | object keys _ ih =>
      rw [Node.isSound,areSoundMembers_iff]
      intro member inside
      obtain ⟨k,key,written⟩ := keys member inside
      exact ⟨List.all_eq_true.mpr (fun p piece => (ofKey_spelled written p piece).2),ih member inside⟩

theorem ofInt_printed (n : Int) : (ofInt n).Printed := .number (NumberText.ofInt_wellFormed n)

theorem ofFloat_printed {f : Format} (x : Binary f) : (ofFloat x).Printed := by
  unfold ofFloat
  split
  · exact .number (NumberText.ofBinary_wellFormed x)
  · exact .null

theorem object_printed {pairs : List (String × Node)} (each : ∀ pair ∈ pairs, pair.2.Printed) :
    (Node.object (pairs.map (fun pair => (Piece.ofText pair.1,pair.2)))).Printed := by
  refine .object ?_ ?_
  · intro member inside
    obtain ⟨pair,_,rfl⟩ := List.mem_map.mp inside
    exact ⟨.text,pair.1,rfl⟩
  · intro member inside
    obtain ⟨pair,held,rfl⟩ := List.mem_map.mp inside
    exact each pair held

theorem ofTree_printed (tree : Tree) : (ofTree tree).Printed := by
  induction tree using Tree.induction with
  | null => exact .null
  | bool b => exact .bool b
  | whole n => exact ofInt_printed n.val
  | real x => exact ofFloat_printed x.val
  | text s => exact .string s
  | list items ih =>
      rw [ofTree,ofTrees_eq]
      refine .array ?_
      intro node inside
      obtain ⟨item,member,rfl⟩ := List.mem_map.mp inside
      exact ih item member
  | object members ih =>
      have each : ∀ pair ∈ members.map (fun member => (member.1,ofTree member.2)), pair.2.Printed := by
        intro pair inside
        obtain ⟨member,held,rfl⟩ := List.mem_map.mp inside
        exact ih member held
      have printed := object_printed each
      rw [List.map_map] at printed
      rw [ofTree,ofMembers_eq]
      exact printed

theorem ofTree_sound (tree : Tree) : (ofTree tree).isSound = true := printed_sound (ofTree_printed tree)

theorem key_ofKey {k : KeyTy} {key : k.Value} {ps : List Piece} (written : ofKey? k key = some ps) :
    key? k ps = some key := by
  cases k with
  | text => cases written; exact Piece.text_ofText key
  | int k =>
      cases written
      have read := number_render (NumberText.ofInt_wellFormed key.val) ends_nil
      rw [List.append_nil] at read
      simp only [key?,Piece.rawBytes_raw,Option.bind_some,read]
      exact int_ofInt key
  | bool => cases written; cases key <;> rfl
  | intPair => cases written

mutual
theorem write_printed : (t : Ty) → (v : t.Value) → {node : Node} → script.write t v = some node → node.Printed
  | .unit,_,_,written => by cases written; exact .null
  | .bool,b,_,written => by cases written; exact .bool b
  | .int _,n,_,written => by cases written; exact ofInt_printed n.val
  | .float _,x,_,written => by cases written; exact ofFloat_printed x
  | .char,c,_,written => by cases written; exact .string c.toString
  | .text,s,_,written => by cases written; exact .string s
  | .bytes,bs,_,written => by
      cases written
      refine .array ?_
      intro node inside
      obtain ⟨b,_,rfl⟩ := List.mem_map.mp inside
      exact ofInt_printed b.toNat
  | .option _,none,_,written => by cases written; exact .null
  | .option t,some v,_,written => write_printed t v written
  | .list t,vs,_,written => by
      obtain ⟨items,mapped,rfl⟩ := Option.map_eq_some_iff.mp written
      refine .array ?_
      intro item member
      obtain ⟨v,_,wrote⟩ := mapM_mem mapped member
      exact write_printed t v wrote
  | .pair s t,(x,y),_,written => by
      obtain ⟨first,left,written⟩ := Option.bind_eq_some_iff.mp written
      obtain ⟨second,right,written⟩ := Option.bind_eq_some_iff.mp written
      cases written
      refine .array ?_
      simp only [List.forall_mem_cons]
      exact ⟨write_printed s x left,write_printed t y right,by simp⟩
  | .map k t,map,_,written => by
      obtain ⟨entries,mapped,rfl⟩ := Option.map_eq_some_iff.mp written
      refine .object ?_ ?_
      · intro entry member
        obtain ⟨held,_,wrote⟩ := mapM_mem mapped member
        exact ⟨k,held.1,(Script.write_map_entry wrote).1⟩
      · intro entry member
        obtain ⟨held,_,wrote⟩ := mapM_mem mapped member
        exact write_printed t held.2 (Script.write_map_entry wrote).2
  | .document,doc,_,written => by cases written; exact ofTree_printed doc.tree
  | .ignored,_,_,written => by cases written; exact .null
  | .guarded,n,_,written => by
      rw [Script.write] at written
      split at written
      · cases written
      · cases written; exact ofInt_printed n.val
  | .record _ _ fields,v,_,written => by
      obtain ⟨members,wrote,rfl⟩ := Option.map_eq_some_iff.mp written
      rw [Script.writeFields_labelled] at wrote
      obtain ⟨pairs,labelled,rfl⟩ := Option.map_eq_some_iff.mp wrote
      exact object_printed (labelled_printed fields v labelled)
  | .choice _ variants,v,_,written => writeVariant_printed variants v written

theorem labelled_printed : (fields : Fields) → (v : fields.Value) → {pairs : List (String × Node)} →
    fields.labelled script.write v = some pairs → ∀ pair ∈ pairs, pair.2.Printed
  | .nil,_,_,written => by cases written; simp
  | .cons _ _ t rest,v,_,written => by
      rcases Fields.labelled_cons written with ⟨_,later⟩ | ⟨_,node,others,first,later,rfl⟩
      · exact labelled_printed rest v.2 later
      · exact List.forall_mem_cons.mpr ⟨write_printed t v.1 first,labelled_printed rest v.2 later⟩

theorem writeVariant_printed : (variants : Variants) → (v : variants.Value) → {node : Node} →
    script.writeVariant variants v = some node → node.Printed
  | .bare name _,.inl _,_,written => by cases written; exact .string name
  | .bare _ rest,.inr v,_,written => writeVariant_printed rest v written
  | .holding name t _,.inl v,_,written => by
      obtain ⟨content,inner,rfl⟩ := Option.map_eq_some_iff.mp written
      have held : ∀ pair ∈ [(name,content)], pair.2.Printed := by
        simp only [List.forall_mem_singleton]
        exact write_printed t v inner
      exact object_printed held
  | .holding _ _ rest,.inr v,_,written => writeVariant_printed rest v written
end

theorem text_ofString (s : String) : (ofString s).text? = some s := Piece.text_ofText s

theorem char_ofString (c : Char) : (ofString c.toString).char? = some c := by
  rw [Node.char?,text_ofString,Option.bind_some,Text.onlyChar_toString]

theorem octets_ofInt (bs : List UInt8) :
    (bs.map (fun b => ofInt b.toNat)).mapM (fun item => (item.int? .u8).map (fun n => UInt8.ofNat n.val.toNat)) =
      some bs := by
  induction bs with
  | nil => rfl
  | cons b bs ih =>
      have held : IntKind.u8.Holds b.toNat := by
        have bound := b.toNat_lt
        simp only [IntKind.Holds,IntKind.least,IntKind.greatest]
        omega
      have first : (ofInt b.toNat).int? .u8 = some ⟨b.toNat,held⟩ := int_ofInt ⟨b.toNat,held⟩
      simp [List.mapM_cons,first,ih]

theorem document_scalar {node : Node} {doc : Document} (scalar : scalar? node = some doc) (budget : Nat) :
    document budget node = some doc := by
  cases budget with
  | zero => exact scalar
  | succ budget => cases node <;> first | exact scalar | cases scalar

theorem document_ofTree {tree : Tree} (free : tree.Throughout RealFree) (ordered : tree.Ordered) {budget : Nat}
    (nested : tree.height ≤ budget) :
    ∃ doc, document budget (ofTree tree) = some doc ∧ doc.tree = tree := by
  induction tree using Tree.induction generalizing budget with
  | null => exact ⟨.null,document_scalar rfl budget,rfl⟩
  | bool b => exact ⟨.bool b,document_scalar rfl budget,rfl⟩
  | whole n =>
      refine ⟨.whole n,document_scalar ?_ budget,rfl⟩
      have value := NumberText.value_ofInt n.held.1 n.held.2
      simp [ofTree,ofInt,scalar?,value]
  | real x => exact free.elim
  | text s =>
      refine ⟨.text s,document_scalar ?_ budget,rfl⟩
      simp [ofTree,ofString,scalar?,Piece.text_ofText]
  | list items ih =>
      rw [Tree.Throughout,Tree.eachItem_iff] at free
      simp only [Tree.Ordered,Tree.orderedItems_iff] at ordered
      simp only [Tree.height,Tree.itemHeights_eq] at nested
      obtain ⟨inner,rfl,below⟩ := deepest_inside nested
      obtain ⟨docs,read,trees⟩ := mapM_section (fun item member =>
        ih item member (free.2 item member) (ordered item member) (below item member))
      refine ⟨.list docs,?_,congrArg Tree.list trees⟩
      simp only [ofTree,ofTrees_eq,document,read,Option.map_some]
  | object members ih =>
      rw [Tree.Throughout,Tree.eachMember_iff] at free
      simp only [Tree.Ordered,Tree.orderedMembers_iff] at ordered
      simp only [Tree.height,Tree.memberHeights_eq] at nested
      obtain ⟨inner,rfl,below⟩ := deepest_inside nested
      have each : ∀ member ∈ members, ∃ doc : String × Document,
          namedMember? (document inner) (Piece.ofText member.1,ofTree member.2) = some doc ∧
          (doc.1,doc.2.tree) = member := by
        intro member inside
        obtain ⟨doc,read,same⟩ :=
          ih member inside (free.2 member inside) (ordered.2 member inside) (below member inside)
        exact ⟨(member.1,doc),by simp [namedMember?,Piece.text_ofText,read],by rw [same]⟩
      obtain ⟨docs,read,trees⟩ :=
        mapM_section (w := fun member : String × Tree => (Piece.ofText member.1,ofTree member.2)) each
      refine ⟨.object docs,?_,Document.object_tree trees ordered.1⟩
      simp only [ofTree,ofMembers_eq,document,read,Option.map_some]

-- Some member lies too deep, and it alone makes the whole unreadable.
theorem document_deep {tree : Tree} {budget : Nat} (deep : budget < tree.height) :
    document budget (ofTree tree) = none := by
  induction tree using Tree.induction generalizing budget with
  | null | bool _ | whole _ | real _ | text _ => simp [Tree.height] at deep
  | list items ih =>
      simp only [Tree.height,Tree.itemHeights_eq] at deep
      simp only [ofTree,ofTrees_eq]
      cases budget with
      | zero => rfl
      | succ inner =>
          have refused : ¬ ((items.map ofTree).mapM (document inner)).isSome = true := by
            rw [mapM_isSome]
            intro all
            have below : deepest Tree.height items ≤ inner := by
              refine deepest_le.mpr (fun item member => Nat.le_of_not_lt (fun high => ?_))
              have read := all (ofTree item) (List.mem_map_of_mem member)
              rw [ih item member high] at read
              cases read
            omega
          rw [document,Option.not_isSome_iff_eq_none.mp refused]
          rfl
  | object members ih =>
      simp only [Tree.height,Tree.memberHeights_eq] at deep
      simp only [ofTree,ofMembers_eq]
      cases budget with
      | zero => rfl
      | succ inner =>
          have refused : ¬ ((members.map (fun member => (Piece.ofText member.1,ofTree member.2))).mapM
              (namedMember? (document inner))).isSome = true := by
            rw [mapM_isSome]
            intro all
            have below : deepest (fun member => member.2.height) members ≤ inner := by
              refine deepest_le.mpr (fun member inside => Nat.le_of_not_lt (fun high => ?_))
              have read := all _ (List.mem_map_of_mem inside)
              simp [namedMember?,Piece.text_ofText,ih member inside high] at read
            omega
          rw [document,Option.not_isSome_iff_eq_none.mp refused]
          rfl

theorem unreal {t : Ty} {v : t.Value} (free : FloatFree t v) (f : Format) (x : Binary f)
    (_ : script.float x = script.null) : t ≠ .float f := by
  intro same
  subst same
  exact free.elim

theorem script_solid : Script.Solid script :=
  ⟨nofun,nofun,nofun,nofun,nofun,nofun⟩

theorem fields_named (pairs : List (String × Node)) :
    (pairs.map (fun pair => (Piece.ofText pair.1,pair.2))).mapM fieldOf? = some pairs := by
  induction pairs with
  | nil => rfl
  | cons pair rest ih => simp [List.mapM_cons,fieldOf?,Piece.text_ofText,ih]

theorem strangers_absent (unknown : UnknownKeys) {fields : Fields} {pairs : List (String × Node)}
    (known : ∀ pair ∈ pairs, pair.1 ∈ fields.names) : strangersPass unknown fields pairs = true := by
  rw [strangersPass,List.all_eq_true]
  intro pair member
  simp [known pair member]

theorem only_single (entries : List (String × Node)) (name : String) :
    only? entries name = single? entries name := by
  unfold only? single?
  cases entries.filter (fun entry => entry.1 == name) with
  | nil => rfl
  | cons entry rest => cases rest <;> rfl

mutual
theorem read_write : (t : Ty) → (v : t.Value) → {budget : Nat} → {node : Node} → t.isFaithful = true →
    FloatFree t v → t.nesting brackets v ≤ budget → script.write t v = some node → read t budget node = some v
  | .unit,_,_,_,_,_,_,written => by cases written; rfl
  | .bool,_,_,_,_,_,_,written => by cases written; rfl
  | .int _,n,_,_,_,_,_,written => by cases written; exact int_ofInt n
  | .float _,_,_,_,_,free,_,_ => free.elim
  | .char,c,_,_,_,_,_,written => by cases written; exact char_ofString c
  | .text,s,_,_,_,_,_,written => by cases written; exact text_ofString s
  | .bytes,bs,budget,_,_,_,nested,written => by
      cases written
      obtain ⟨inner,rfl⟩ := Nat.exists_eq_add_of_le' (show 1 ≤ budget from nested)
      exact octets_ofInt bs
  | .option _,none,_,_,_,_,_,written => by cases written; rfl
  | .option t,some v,budget,node,faithful,free,nested,written => by
      simp only [Ty.isFaithful,Bool.and_eq_true,Bool.not_eq_true'] at faithful
      have inner : read t budget node = some v := read_write t v faithful.2 (free.2 v rfl) nested written
      have solid : node ≠ .null := fun empty =>
        Script.write_solid script_solid faithful.1 (unreal (free.2 v rfl)) v (written.trans (congrArg some empty))
      rw [read,inner,Option.map_some]
      exact solid
  | .list t,vs,budget,_,faithful,free,nested,written => by
      obtain ⟨items,mapped,rfl⟩ := Option.map_eq_some_iff.mp written
      obtain ⟨inner,rfl,below⟩ := deepest_inside nested
      rw [read]
      exact mapM_inverse mapped (fun v member node wrote =>
        read_write t v faithful (free.2 v member) (below v member) wrote)
  | .pair s t,(x,y),budget,_,faithful,free,nested,written => by
      obtain ⟨first,left,written⟩ := Option.bind_eq_some_iff.mp written
      obtain ⟨second,right,written⟩ := Option.bind_eq_some_iff.mp written
      cases written
      simp only [Ty.isFaithful,Bool.and_eq_true] at faithful
      obtain ⟨inner,rfl⟩ := Nat.exists_eq_add_of_le' (Nat.le_trans (Nat.le_add_left 1 _) nested)
      have below := Nat.max_le.mp (Nat.le_of_succ_le_succ nested)
      have left := read_write s x faithful.1 free.2.1 below.1 left
      have right := read_write t y faithful.2 free.2.2 below.2 right
      simp [read,left,right]
  | .map k t,map,budget,_,faithful,free,nested,written => by
      obtain ⟨entries,mapped,rfl⟩ := Option.map_eq_some_iff.mp written
      obtain ⟨inner,rfl,below⟩ := deepest_inside nested
      have back := mapM_inverse (g := fun entry : List Piece × Node => do
          let key ← key? k entry.1
          let item ← read t inner entry.2
          return (key,item)) mapped (by
        intro entry member node wrote
        have within := Nat.max_le.mp (below entry member)
        obtain ⟨key,item⟩ := Script.write_map_entry wrote
        simp [key_ofKey key,read_write t entry.2 faithful (free.2 entry member) within.2 item])
      rw [read]
      exact (congrArg (Option.map SortedMap.ofList) back).trans (congrArg some (SortedMap.ofList_entries map))
  | .document,doc,_,_,_,free,nested,written => by
      cases written
      obtain ⟨other,read,same⟩ := document_ofTree free doc.ordered nested
      cases other; cases doc; cases same
      exact read
  | .ignored,_,_,_,_,_,_,written => by cases written; rfl
  | .guarded,n,_,_,_,_,_,written => by
      rw [Script.write] at written
      split at written
      · cases written
      · cases written; exact int_ofInt n
  | .record _ unknown fields,v,budget,_,faithful,free,nested,written => by
      obtain ⟨members,wrote,rfl⟩ := Option.map_eq_some_iff.mp written
      rw [Script.writeFields_labelled] at wrote
      obtain ⟨pairs,labelled,rfl⟩ := Option.map_eq_some_iff.mp wrote
      simp only [Ty.isFaithful,Bool.and_eq_true,decide_eq_true_eq] at faithful
      obtain ⟨inner,rfl⟩ := Nat.exists_eq_add_of_le' (Nat.le_trans (Nat.le_add_left 1 _) nested)
      have found := Fields.found_labelled (only? pairs) faithful.1 labelled (fun name _ => only_single pairs name)
      have fieldsRead := readEntries_found fields v faithful.2 free.2 (Nat.le_of_succ_le_succ nested) found
      have known := Fields.labelled_names labelled
      simp only [read,fields_named,strangers_absent unknown known,Option.bind_eq_bind,Option.bind_some,
        if_true,fieldsRead]
  | .choice _ variants,v,budget,_,faithful,free,nested,written => by
      simp only [Ty.isFaithful,Bool.and_eq_true,decide_eq_true_eq] at faithful
      obtain ⟨name,_,shown⟩ := readVariant_written variants v faithful.1 faithful.2 free.2 nested written
      rcases shown with ⟨rfl,bare⟩ | ⟨content,inner,rfl,rfl,held⟩
      · simp only [ofString,read,Piece.text_ofText,Option.bind_some,bare]
      · simp only [read,Piece.text_ofText,Option.bind_some,held]

theorem readEntries_found : (fields : Fields) → (v : fields.Value) → {budget : Nat} →
    {entries : List (String × Node)} → fields.areFaithful = true → fields.Throughout NoFloat v →
    fields.nesting brackets v ≤ budget → fields.Found script.write (only? entries) v →
    readEntries fields budget entries = some v
  | .nil,_,_,_,_,_,_,_ => rfl
  | .cons name presence t rest,v,budget,entries,faithful,free,nested,found => by
      simp only [Fields.areFaithful,Bool.and_eq_true] at faithful
      rw [Fields.nesting] at nested
      have below := Nat.max_le.mp nested
      have others := readEntries_found rest v.2 faithful.2 free.2 below.2 found.2
      have here := found.1
      by_cases skipped : presence.skips t v.1 = true
      · rw [if_pos skipped] at here
        simp [readEntries,here,others,Presence.missing_of_skips skipped]
      · rw [if_neg skipped] at here below
        obtain ⟨node,written,held⟩ := here
        simp [readEntries,held,others,read_write t v.1 faithful.1 free.1 below.1 written]

theorem readVariant_written : (variants : Variants) → (v : variants.Value) → {budget : Nat} → {node : Node} →
    variants.names.Nodup → variants.areFaithful = true → variants.Throughout NoFloat v →
    variants.nesting brackets v ≤ budget → script.writeVariant variants v = some node →
    ∃ name ∈ variants.names, (node = ofString name ∧ readBare variants name = some v) ∨
      ∃ content inner, budget = inner + 1 ∧ node = .object [(Piece.ofText name,content)] ∧
        readContent variants inner name content = some v
  | .bare name _,.inl _,_,_,_,_,_,_,written => by
      cases written
      exact ⟨name,List.mem_cons_self,.inl ⟨rfl,by simp [readBare]⟩⟩
  | .bare name rest,.inr v,budget,_,distinct,faithful,free,nested,written => by
      obtain ⟨fresh,distinct⟩ := List.nodup_cons.mp distinct
      obtain ⟨wanted,member,shown⟩ := readVariant_written rest v distinct faithful free nested written
      have other : name ≠ wanted := fun same => fresh (same ▸ member)
      refine ⟨wanted,List.mem_cons_of_mem _ member,?_⟩
      simpa [readBare,readContent,other] using shown
  | .holding name t _,.inl v,budget,_,_,faithful,free,nested,written => by
      obtain ⟨content,wrote,rfl⟩ := Option.map_eq_some_iff.mp written
      simp only [Variants.areFaithful,Bool.and_eq_true] at faithful
      obtain ⟨inner,rfl⟩ := Nat.exists_eq_add_of_le' (Nat.le_trans (Nat.le_add_left 1 _) nested)
      have held := read_write t v faithful.1 free (Nat.le_of_succ_le_succ nested) wrote
      exact ⟨name,List.mem_cons_self,.inr ⟨content,inner,rfl,rfl,by simp [readContent,held]⟩⟩
  | .holding name _ rest,.inr v,_,_,distinct,faithful,free,nested,written => by
      obtain ⟨fresh,distinct⟩ := List.nodup_cons.mp distinct
      simp only [Variants.areFaithful,Bool.and_eq_true] at faithful
      obtain ⟨wanted,member,shown⟩ := readVariant_written rest v distinct faithful.2 free nested written
      have other : name ≠ wanted := fun same => fresh (same ▸ member)
      refine ⟨wanted,List.mem_cons_of_mem _ member,?_⟩
      simpa [readBare,readContent,other] using shown
end

-- A guarded number below zero refuses to be written, and so does a key that is a pair.
def Permitted : (t : Ty) → t.Value → Prop
  | .guarded,n => 0 ≤ n.val
  | .map .intPair _,map => map.entries = []
  | .unit,_ | .bool,_ | .int _,_ | .float _,_ | .char,_ | .text,_ | .bytes,_ | .option _,_
  | .list _,_ | .pair _ _,_ | .map .text _,_ | .map (.int _) _,_ | .map .bool _,_ | .document,_
  | .ignored,_ | .record _ _ _,_ | .choice _ _,_ => True

theorem permits : Script.Permits script Permitted := by
  refine ⟨fun k t map => ?_,fun n => Iff.rfl,fun t v map guarded => ?_⟩
  · cases k with
    | intPair => simp [Permitted,ofKey?,List.eq_nil_iff_forall_not_mem]
    | text | int _ | bool => simp [Permitted,ofKey?]
  · cases t with
    | map k s => exact absurd rfl (map k s)
    | guarded => exact absurd rfl guarded
    | _ => trivial

theorem decode_encode {t : Ty} {v : t.Value} {body : List UInt8} (faithful : t.isFaithful = true)
    (free : FloatFree t v) (nested : t.nesting brackets v ≤ depthLimit) (encoded : encode t v = some body) :
    decode t body = some v := by
  obtain ⟨node,written,rfl⟩ := Option.map_eq_some_iff.mp encoded
  rw [decode,parse_render (printed_wellFormed (write_printed t v written))]
  exact read_write t v faithful free nested written

theorem json_roundtrip_exact :
    (∀ name t, Catalogue.named? name = some t → t.isFaithful = true ∧
      (t = .document ∨ ∀ v, t.nesting brackets v ≤ 127)) ∧
    (∀ t : Ty, t.isFaithful = true → ∀ v : t.Value,
      ((∃ p, Serializer.json.toPayload t v = .ok p) ↔ t.Throughout Permitted v) ∧
      (FloatFree t v → t.nesting brackets v ≤ 127 →
        ∀ p, Serializer.json.toPayload t v = .ok p →
          Serializer.json.fromPayload t p = .ok v ∧ Serializer.standard.fromPayload t p = .ok v)) ∧
    ∀ doc : Document, doc.tree.Throughout RealFree →
      ∃ p, Serializer.json.toPayload .document doc = .ok p ∧
        ∀ s : Serializer, s = .json ∨ s = .standard →
          (128 ≤ doc.tree.height → s.fromPayload .document p = .error (.decode applicationJson .codec)) ∧
          s.fromPayload .ignored p = .ok () := by
  refine ⟨?_,?_,?_⟩
  · intro name t known
    obtain ⟨faithful,document | within⟩ := Catalogue.named_faithful known
    · exact ⟨faithful,.inl document⟩
    · refine ⟨faithful,.inr (fun v => ?_)⟩
      exact Nat.le_trans (t.nesting_within brackets 4 within.2 v) (by decide)
  · intro t faithful v
    refine ⟨?_,?_⟩
    · show (∃ p, Codec.wrapped applicationJson (encode t v) = .ok p) ↔ _
      rw [Serializer.wrapped_exists,encode,Option.isSome_map,Script.write_isSome permits]
    · intro free nested p written
      obtain ⟨body,encoded,rfl⟩ := Serializer.wrapped_ok.mp written
      have decoded := decode_encode faithful free nested encoded
      refine ⟨?_,?_⟩
      · rw [Serializer.fromPayload_json (.inl rfl),decoded]; rfl
      · rw [Serializer.fromPayload_json (.inr rfl),decoded]; rfl
  · intro doc free
    have parsed := parse_render (printed_wellFormed (ofTree_printed doc.tree))
    refine ⟨.typed applicationJson (ofTree doc.tree).render,rfl,?_⟩
    intro s reads
    refine ⟨?_,?_⟩
    · intro deep
      have tooDeep : depthLimit < doc.tree.height := deep
      rw [Serializer.fromPayload_json reads,decode,parsed,Option.bind_some,read,document_deep tooDeep]
      rfl
    · rw [Serializer.fromPayload_json reads,decode,parsed,Option.bind_some,read,if_pos (ofTree_sound _)]
      rfl

-- A key that needs escapes, a blob, and a variant around the least number there is.
def knotty : (Ty.pair (Catalogue.textMap .bytes) Catalogue.shape).Value :=
  (SortedMap.empty.insert "\x01\"é" [0,255],.inr (.inr (.inl (⟨-0x8000_0000_0000_0000,by decide⟩,"\n"))))

def tower : Nat → Document
  | 0 => .null
  | n + 1 => .list [tower n]

theorem tower_height (n : Nat) : (tower n).tree.height = n := by
  induction n with
  | zero => rfl
  | succ n ih => simp [tower,Document.list,Tree.height,Tree.itemHeights,ih]

theorem tower_realFree (n : Nat) : (tower n).tree.Throughout RealFree := by
  induction n with
  | zero => trivial
  | succ n ih => exact ⟨trivial,ih,trivial⟩

theorem json_knotty_read_back_tower_refused :
    (FloatFree _ knotty ∧ ∃ p, Serializer.json.toPayload _ knotty = .ok p ∧
      Serializer.json.fromPayload _ p = .ok knotty ∧ Serializer.standard.fromPayload _ p = .ok knotty) ∧
    (tower 128).tree.height = 128 ∧ (tower 128).tree.Throughout RealFree ∧
    ∃ p, Serializer.json.toPayload .document (tower 128) = .ok p ∧
      Serializer.standard.fromPayload .document p = .error (.decode applicationJson .codec) ∧
      Serializer.standard.fromPayload .ignored p = .ok () := by
  refine ⟨?_,tower_height 128,tower_realFree 128,?_⟩
  · have free : FloatFree _ knotty := by
      simp only [FloatFree,knotty,Catalogue.textMap,Catalogue.shape,Catalogue.i64,Ty.Throughout,
        Variants.Throughout,NoFloat]
      decide
    have allowed : Ty.Throughout Permitted _ knotty := by
      simp only [knotty,Catalogue.textMap,Catalogue.shape,Catalogue.i64,Ty.Throughout,Variants.Throughout,
        Permitted]
      decide
    obtain ⟨permitted,back⟩ := json_roundtrip_exact.2.1 _ (by decide) knotty
    obtain ⟨p,written⟩ := permitted.mpr allowed
    exact ⟨free,p,written,back free (by decide) p written⟩
  · obtain ⟨p,written,read⟩ := json_roundtrip_exact.2.2 (tower 128) (tower_realFree 128)
    obtain ⟨refused,skipped⟩ := read .standard (.inr rfl)
    exact ⟨p,written,refused (Nat.le_of_eq (tower_height 128).symm),skipped⟩

end Switchboard.Json
