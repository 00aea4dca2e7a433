import Switchboard.Number.Binary

namespace Switchboard.MsgPack

-- Numbers from unsigned and from signed formats stay apart, since only the former may stand for
-- the position of a field.

inductive Node where
  | nil
  | bool (b : Bool)
  | natural (n : Nat)
  | signed (n : Int)
  | float (format : Format) (x : Binary format)
  | str (bytes : List UInt8)
  | bin (bytes : List UInt8)
  | array (items : List Node)
  | map (entries : List (Node × Node))
  | ext (tag : UInt8) (bytes : List UInt8)

mutual
def Node.height : Node → Nat
  | .nil | .bool _ | .natural _ | .signed _ | .float _ _ | .str _ | .bin _ => 0
  | .array items => heights items + 1
  | .map entries => entryHeights entries + 1
  | .ext _ _ => 1

def heights : List Node → Nat
  | [] => 0
  | item :: rest => max item.height (heights rest)

def entryHeights : List (Node × Node) → Nat
  | [] => 0
  | (key,item) :: rest => max (max key.height item.height) (entryHeights rest)
end

end Switchboard.MsgPack
