import Switchboard.Json.Number
import Switchboard.Json.Text
import Switchboard.Json.Writer
import Switchboard.Schema.Script

namespace Switchboard.Json

def ofString (s : String) : Node := .string (Piece.ofText s)

def ofInt (n : Int) : Node := .number (NumberText.ofInt n)

def ofFloat {f : Format} (x : Binary f) : Node :=
  if x.isFinite then .number (NumberText.ofBinary x) else .null

def ofKey? : (k : KeyTy) → k.Value → Option (List Piece)
  | .text,s => some (Piece.ofText s)
  | .int _,n => some ((NumberText.ofInt n.val).render.map .raw)
  | .bool,b => some (((Node.bool b).render).map .raw)
  | .intPair,_ => none

mutual
def ofTree : Tree → Node
  | .null => .null
  | .bool b => .bool b
  | .whole n => ofInt n.val
  | .real x => ofFloat x.val
  | .text s => ofString s
  | .list items => .array (ofTrees items)
  | .object members => .object (ofMembers members)

def ofTrees : List Tree → List Node
  | [] => []
  | item :: rest => ofTree item :: ofTrees rest

def ofMembers : List (String × Tree) → List (List Piece × Node)
  | [] => []
  | (key,item) :: rest => (Piece.ofText key,ofTree item) :: ofMembers rest
end

abbrev script : Script Node (List Piece) where
  null := .null
  bool := .bool
  int := ofInt
  float := ofFloat
  text := ofString
  bytes := fun bs => .array (bs.map (fun b => ofInt b.toNat))
  array := .array
  object := .object
  name := Piece.ofText
  key? := ofKey?
  tree := ofTree

def encode (t : Ty) (v : t.Value) : Option (List UInt8) := (script.write t v).map Node.render

end Switchboard.Json
