import Switchboard.Schema.Basic

namespace Switchboard

structure Script (N K : Type) where
  null : N
  bool : Bool → N
  int : Int → N
  float : {f : Format} → Binary f → N
  text : String → N
  bytes : List UInt8 → N
  array : List N → N
  object : List (K × N) → N
  name : String → K
  key? : (k : KeyTy) → k.Value → Option K
  tree : Tree → N

namespace Script

variable {N K : Type} (script : Script N K)

-- Only two things can fail: a guarded number below zero, and a key that the format has no sign
-- for.
mutual
def write : (t : Ty) → t.Value → Option N
  | .unit,_ => some script.null
  | .bool,b => some (script.bool b)
  | .int _,n => some (script.int n.val)
  | .float _,x => some (script.float x)
  | .char,c => some (script.text c.toString)
  | .text,s => some (script.text s)
  | .bytes,bs => some (script.bytes bs)
  | .option t,v =>
    match v with
    | none => some script.null
    | some v => write t v
  | .list t,vs => (vs.mapM (write t)).map script.array
  | .pair a b,(x,y) => do
    let first ← write a x
    let second ← write b y
    return script.array [first,second]
  | .map k t,map =>
    (map.entries.mapM (fun (key,item) => do
      let key ← script.key? k key
      let item ← write t item
      return (key,item))).map script.object
  | .document,doc => some (script.tree doc.tree)
  | .ignored,_ => some script.null
  | .guarded,n => if n.val < 0 then none else some (script.int n.val)
  | .record _ _ fields,v => (writeFields fields v).map script.object
  | .choice _ variants,v => writeVariant variants v

def writeFields : (fields : Fields) → fields.Value → Option (List (K × N))
  | .nil,_ => some []
  | .cons name presence t rest,(v,vs) =>
    if presence.skips t v then writeFields rest vs
    else do
      let node ← write t v
      let members ← writeFields rest vs
      return (script.name name,node) :: members

def writeVariant : (variants : Variants) → variants.Value → Option N
  | .nil,v => nomatch v
  | .bare name rest,v =>
    match v with
    | .inl _ => some (script.text name)
    | .inr v => writeVariant rest v
  | .holding name t rest,v =>
    match v with
    | .inl v => (write t v).map (fun node => script.object [(script.name name,node)])
    | .inr v => writeVariant rest v
end

end Script
end Switchboard
