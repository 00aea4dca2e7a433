import Switchboard.Json.Number
import Switchboard.Json.Reader
import Switchboard.Json.Text
import Switchboard.Schema.Basic

namespace Switchboard.Json

-- There is no coercion: a number is never read from a string, nor a whole number from one with
-- a point. Skipping has no limit on brackets.

namespace Node

def unit? : Node → Option Unit
  | .null => some ()
  | _ => none

def bool? : Node → Option Bool
  | .bool b => some b
  | _ => none

def number? : Node → Option Number
  | .number t => t.value?
  | _ => none

def int? (k : IntKind) (node : Node) : Option (Bounded k) :=
  match node.number? with
  | some (.whole n) => k.ofInt? n
  | _ => none

def float? (f : Format) (node : Node) : Option (Binary f) :=
  match node.number? with
  | some (.whole n) => some (Binary.ofInt f n)
  | some (.real x) => some (x.convert f)
  | none => none

def text? : Node → Option String
  | .string ps => Piece.text? ps
  | _ => none

def char? (node : Node) : Option Char := node.text?.bind Text.onlyChar?

end Node

def wordTrue : List UInt8 := [0x74,0x72,0x75,0x65]

def wordFalse : List UInt8 := [0x66,0x61,0x6c,0x73,0x65]

def key? : (k : KeyTy) → List Piece → Option k.Value
  | .text,ps => Piece.text? ps
  | .int k,ps =>
    match (Piece.rawBytes? ps).bind number with
    | some (t,[]) => (Node.number t).int? k
    | _ => none
  | .bool,ps =>
    match Piece.rawBytes? ps with
    | some bs => if bs = wordTrue then some true else if bs = wordFalse then some false else none
    | none => none
  | .intPair,_ => none

def scalar? : Node → Option Document
  | .null => some .null
  | .bool b => some (.bool b)
  | .number t =>
    match t.value? with
    | some (.whole n) => (WholeNumber.ofInt? n).map .whole
    | some (.real x) => some (.real x)
    | none => none
  | .string ps => (Piece.text? ps).map .text
  | .array _ | .object _ => none

def namedMember? (read : Node → Option Document) :
    List Piece × Node → Option (String × Document) := fun (key,node) => do
  let name ← Piece.text? key
  let doc ← read node
  return (name,doc)

def document : Nat → Node → Option Document
  | 0,node => scalar? node
  | budget + 1,node =>
    match node with
    | .array items => (items.mapM (document budget)).map .list
    | .object members => (members.mapM (namedMember? (document budget))).map .object
    | other => scalar? other

def fieldOf? : List Piece × Node → Option (String × Node) := fun (key,node) =>
  (Piece.text? key).map (fun name => (name,node))

def strangersPass (unknown : UnknownKeys) (fields : Fields) (entries : List (String × Node)) : Bool :=
  entries.all (fun (name,node) =>
    fields.names.contains name || (unknown == .skipped && node.isSound))

def only? (entries : List (String × Node)) (name : String) : Option (Option Node) :=
  match entries.filter (fun entry => entry.1 == name) with
  | [] => some none
  | [entry] => some (some entry.2)
  | _ => none

mutual
def read : (t : Ty) → Nat → Node → Option t.Value
  | .unit,_,node => node.unit?
  | .bool,_,node => node.bool?
  | .int k,_,node => node.int? k
  | .float f,_,node => node.float? f
  | .char,_,node => node.char?
  | .text,_,node => node.text?
  | .bytes,budget,node =>
    match node,budget with
    | .string ps,_ => some (Piece.blob ps)
    | .array items,_ + 1 => items.mapM (fun item => (item.int? .u8).map (fun n => UInt8.ofNat n.val.toNat))
    | _,_ => none
  | .option t,budget,node =>
    match node with
    | .null => some none
    | other => (read t budget other).map some
  | .list t,budget,node =>
    match node,budget with
    | .array items,budget + 1 => items.mapM (read t budget)
    | _,_ => none
  | .pair a b,budget,node =>
    match node,budget with
    | .array [x,y],budget + 1 => do
      let first ← read a budget x
      let second ← read b budget y
      return (first,second)
    | _,_ => none
  | .map k t,budget,node =>
    match node,budget with
    | .object members,budget + 1 =>
      (members.mapM (fun (key,item) => do
        let key ← key? k key
        let item ← read t budget item
        return (key,item))).map SortedMap.ofList
    | _,_ => none
  | .document,budget,node => document budget node
  | .ignored,_,node => if node.isSound then some () else none
  | .guarded,_,node => node.int? .i64
  | .record _ unknown fields,budget,node =>
    match node,budget with
    | .array items,budget + 1 => readSequence fields budget items
    | .object members,budget + 1 => do
      let entries ← members.mapM fieldOf?
      if strangersPass unknown fields entries then readEntries fields budget entries else none
    | _,_ => none
  | .choice _ variants,budget,node =>
    match node,budget with
    | .string ps,_ => (Piece.text? ps).bind (readBare variants)
    | .object [(key,content)],budget + 1 =>
      (Piece.text? key).bind (fun name => readContent variants budget name content)
    | _,_ => none

def readSequence : (fields : Fields) → Nat → List Node → Option fields.Value
  | .nil,_,items => if items.isEmpty then some () else none
  | .cons _ presence t rest,budget,items =>
    match items with
    | [] => do
      let value ← presence.beyondEnd? t
      let values ← readSequence rest budget []
      return (value,values)
    | item :: items => do
      let value ← read t budget item
      let values ← readSequence rest budget items
      return (value,values)

def readEntries : (fields : Fields) → Nat → List (String × Node) → Option fields.Value
  | .nil,_,_ => some ()
  | .cons name presence t rest,budget,entries => do
    let value ←
      match only? entries name with
      | some none => presence.missing? t
      | some (some node) => read t budget node
      | none => none
    let values ← readEntries rest budget entries
    return (value,values)

def readBare : (variants : Variants) → String → Option variants.Value
  | .nil,_ => none
  | .bare name rest,wanted =>
    if name = wanted then some (.inl ()) else (readBare rest wanted).map .inr
  | .holding name _ rest,wanted =>
    if name = wanted then none else (readBare rest wanted).map .inr

-- A variant that holds nothing has null for its content.
def readContent : (variants : Variants) → Nat → String → Node → Option variants.Value
  | .nil,_,_,_ => none
  | .bare name rest,budget,wanted,content =>
    if name = wanted then content.unit?.map .inl
    else (readContent rest budget wanted content).map .inr
  | .holding name t rest,budget,wanted,content =>
    if name = wanted then (read t budget content).map .inl
    else (readContent rest budget wanted content).map .inr
end

def depthLimit : Nat := 127

def decode (t : Ty) (body : List UInt8) : Option t.Value := (parse body).bind (read t depthLimit)

end Switchboard.Json
