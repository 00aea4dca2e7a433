import Switchboard.MsgPack.Reader
import Switchboard.Schema.Basic
import Switchboard.Text.Utf8

namespace Switchboard.MsgPack

-- The width in which a number or a length came does not matter. A bin stands for text, for a
-- blob, and for a sequence of numbers.

namespace Node

def unit? : Node → Option Unit
  | .nil => some ()
  | _ => none

def bool? : Node → Option Bool
  | .bool b => some b
  | _ => none

def int? (k : IntKind) : Node → Option (Bounded k)
  | .natural n => k.ofInt? n
  | .signed n => k.ofInt? n
  | _ => none

def float? (f : Format) : Node → Option (Binary f)
  | .natural n => some (Binary.ofInt f n)
  | .signed n => some (Binary.ofInt f n)
  | .float _ x => some (x.convert f)
  | _ => none

def text? : Node → Option String
  | .str bytes => Text.ofBytes? bytes
  | .bin bytes => Text.ofBytes? bytes
  | _ => none

def char? : Node → Option Char
  | .str bytes => (Text.ofBytes? bytes).bind Text.onlyChar?
  | _ => none

end Node

inductive Cell where
  | node (node : Node)
  | octet (byte : UInt8)

def ofOctet? : (t : Ty) → UInt8 → Option t.Value
  | .int k,b => k.ofInt? b.toNat
  | .float f,b => some (Binary.ofInt f b.toNat)
  | .document,b => (WholeNumber.ofInt? b.toNat).map .whole
  | .ignored,_ => some ()
  | .guarded,b => IntKind.ofInt? .i64 b.toNat
  | _,_ => none

def Cell.read {α : Type} (ofNode : Node → Option α) (ofOctet : UInt8 → Option α) : Cell → Option α
  | .node item => ofNode item
  | .octet byte => ofOctet byte

structure Sequence where
  cells : List Cell
  openEnded : Bool
  budget : Nat

def sequence? (budget : Nat) (node : Node) : Option Sequence :=
  match node,budget with
  | .array items,budget + 1 => some ⟨items.map .node,false,budget⟩
  | .bin bytes,budget => some ⟨bytes.map .octet,true,budget⟩
  | _,_ => none

def Sequence.two? (s : Sequence) : Option (Cell × Cell) :=
  match s.cells with
  | x :: y :: more => if more.isEmpty || s.openEnded then some (x,y) else none
  | _ => none

def key? : (k : KeyTy) → Nat → Node → Option k.Value
  | .text,_,node => node.text?
  | .int k,_,node => node.int? k
  | .bool,_,node => node.bool?
  | .intPair,budget,node => do
    let s ← sequence? budget node
    let (x,y) ← s.two?
    let i ← x.read (Node.int? .i64) (ofOctet? (.int .i64))
    let j ← y.read (Node.int? .i64) (ofOctet? (.int .i64))
    return (i,j)

def scalar? : Node → Option Document
  | .nil => some .null
  | .bool b => some (.bool b)
  | .natural n => (WholeNumber.ofInt? n).map .whole
  | .signed n => (WholeNumber.ofInt? n).map .whole
  | .float _ x => some (.real (x.convert .double))
  | .str bytes => (Text.ofBytes? bytes).map .text
  | .bin _ | .array _ | .map _ | .ext _ _ => none

-- The first key tells that the keys are texts, and has to be a str.
def leadingKey? : Node → Option String
  | .str bytes => Text.ofBytes? bytes
  | _ => none

def member? (key? : Node → Option String) (read : Node → Option Document) :
    Node × Node → Option (String × Document) :=
  fun (key,node) => do
    let name ← key? key
    let doc ← read node
    return (name,doc)

def members? (read : Node → Option Document) :
    List (Node × Node) → Option (List (String × Document))
  | [] => some []
  | first :: rest => do
    let first ← member? leadingKey? read first
    let rest ← rest.mapM (member? Node.text? read)
    return first :: rest

def document : Nat → Node → Option Document
  | 0,node => scalar? node
  | budget + 1,node =>
    match node with
    | .array items => (items.mapM (document budget)).map .list
    | .map entries => (members? (document budget) entries).map .object
    | other => scalar? other

-- Bytes that are no text and positions past the end stand for no declared name; other nodes for
-- none at all.
def declared? (names : List String) : Node → Option (Option String)
  | .str bytes => some ((Text.ofBytes? bytes).filter names.contains)
  | .bin bytes => some ((Text.ofBytes? bytes).filter names.contains)
  | .natural i => some names[i]?
  | _ => none

def fieldOf? (names : List String) : Node × Node → Option (Option String × Node) :=
  fun (key,node) => (declared? names key).map (fun name => (name,node))

def strangersPass (unknown : UnknownKeys) (budget : Nat) (entries : List (Option String × Node)) :
    Bool :=
  entries.all (fun (name,node) =>
    name.isSome || (unknown == .skipped && node.height ≤ budget))

def only? (entries : List (Option String × Node)) (name : String) : Option (Option Node) :=
  match entries.filter (fun entry => entry.1 == some name) with
  | [] => some none
  | [entry] => some (some entry.2)
  | _ => none

mutual
def read : (t : Ty) → Nat → Node → Option t.Value
  | .unit,_,node => node.unit?
  | .bool,_,node => node.bool?
  | .int k,_,node => node.int? k
  | .float f,_,node => node.float? f
  | .char,_,node => node.char?
  | .text,_,node => node.text?
  | .bytes,budget,node =>
    match node,budget with
    | .str bytes,_ => some bytes
    | .bin bytes,_ => some bytes
    | .array items,_ + 1 => items.mapM (fun item => (item.int? .u8).map (fun n => UInt8.ofNat n.val.toNat))
    | _,_ => none
  | .option t,budget,node =>
    match node with
    | .nil => some none
    | other => (read t budget other).map some
  | .list t,budget,node => do
    let s ← sequence? budget node
    s.cells.mapM (Cell.read (read t s.budget) (ofOctet? t))
  | .pair a b,budget,node => do
    let s ← sequence? budget node
    let (x,y) ← s.two?
    let first ← x.read (read a s.budget) (ofOctet? a)
    let second ← y.read (read b s.budget) (ofOctet? b)
    return (first,second)
  | .map k t,budget,node =>
    match node,budget with
    | .map entries,budget + 1 =>
      (entries.mapM (fun (key,item) => do
        let key ← key? k budget key
        let item ← read t budget item
        return (key,item))).map SortedMap.ofList
    | _,_ => none
  | .document,budget,node => document budget node
  | .ignored,budget,node => if node.height ≤ budget then some () else none
  | .guarded,_,node => node.int? .i64
  | .record _ unknown fields,budget,node =>
    match node,budget with
    | .map entries,budget + 1 => do
      let entries ← entries.mapM (fieldOf? fields.names)
      if strangersPass unknown budget entries then readEntries fields budget entries else none
    | other,budget => do
      let s ← sequence? budget other
      readSequence fields s.budget s.openEnded s.cells
  | .choice _ variants,budget,node =>
    match node with
    | .map [(key,content)] =>
      (declared? variants.names key).bind (fun name =>
        name.bind (fun name => readContent variants budget name content))
    | .map _ => none
    | other => (declared? variants.names other).bind (fun name => name.bind (readBare variants))

def readSequence : (fields : Fields) → Nat → Bool → List Cell → Option fields.Value
  | .nil,_,openEnded,cells => if cells.isEmpty || openEnded then some () else none
  | .cons _ presence t rest,budget,openEnded,cells =>
    match cells with
    | [] => do
      let value ← presence.beyondEnd? t
      let values ← readSequence rest budget openEnded []
      return (value,values)
    | cell :: cells => do
      let value ← cell.read (read t budget) (ofOctet? t)
      let values ← readSequence rest budget openEnded cells
      return (value,values)

def readEntries : (fields : Fields) → Nat → List (Option String × Node) → Option fields.Value
  | .nil,_,_ => some ()
  | .cons name presence t rest,budget,entries => do
    let value ←
      match only? entries name with
      | some none => presence.missing? t
      | some (some node) => read t budget node
      | none => none
    let values ← readEntries rest budget entries
    return (value,values)

def readBare : (variants : Variants) → String → Option variants.Value
  | .nil,_ => none
  | .bare name rest,wanted =>
    if name = wanted then some (.inl ()) else (readBare rest wanted).map .inr
  | .holding name _ rest,wanted =>
    if name = wanted then none else (readBare rest wanted).map .inr

def readContent : (variants : Variants) → Nat → String → Node → Option variants.Value
  | .nil,_,_,_ => none
  | .bare name rest,budget,wanted,content =>
    if name = wanted then content.unit?.map .inl
    else (readContent rest budget wanted content).map .inr
  | .holding name t rest,budget,wanted,content =>
    if name = wanted then (read t budget content).map .inl
    else (readContent rest budget wanted content).map .inr
end

def depthLimit : Nat := 1023

def decode (t : Ty) (body : List UInt8) : Option t.Value :=
  (parse body).bind (fun (node,_) => read t depthLimit node)

end Switchboard.MsgPack
