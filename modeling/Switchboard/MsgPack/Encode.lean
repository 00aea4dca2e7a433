import Switchboard.MsgPack.Writer
import Switchboard.Schema.Script
import Switchboard.Text.Utf8

namespace Switchboard.MsgPack

def ofString (s : String) : Node := .str (Text.bytes s)

def ofInt (n : Int) : Node := if n < 0 then .signed n else .natural n.toNat

def ofKey : (k : KeyTy) → k.Value → Node
  | .text,s => ofString s
  | .int _,n => ofInt n.val
  | .bool,b => .bool b
  | .intPair,(i,j) => .array [ofInt i.val,ofInt j.val]

mutual
def ofTree : Tree → Node
  | .null => .nil
  | .bool b => .bool b
  | .whole n => ofInt n.val
  | .real x => .float .double x.val
  | .text s => ofString s
  | .list items => .array (ofTrees items)
  | .object members => .map (ofMembers members)

def ofTrees : List Tree → List Node
  | [] => []
  | item :: rest => ofTree item :: ofTrees rest

def ofMembers : List (String × Tree) → List (Node × Node)
  | [] => []
  | (key,item) :: rest => (ofString key,ofTree item) :: ofMembers rest
end

abbrev script : Script Node Node where
  null := .nil
  bool := .bool
  int := ofInt
  float := fun x => .float _ x
  text := ofString
  bytes := .bin
  array := .array
  object := .map
  name := ofString
  key? := fun k key => some (ofKey k key)
  tree := ofTree

def encode (t : Ty) (v : t.Value) : Option (List UInt8) := (script.write t v).map Node.render

end Switchboard.MsgPack
