import Switchboard.Number.Bounded
import Switchboard.Schema.Document

namespace Switchboard

-- A type is a value of Ty, and t.Value is the Lean type of its values, so that a law about an
-- encoder or a decoder is one induction.

inductive KeyTy where
  | text
  | int (kind : IntKind)
  | bool
  | intPair
deriving DecidableEq

namespace KeyTy

@[reducible] def Value : KeyTy → Type
  | text => String
  | int k => Bounded k
  | bool => Bool
  | intPair => Bounded .i64 × Bounded .i64

@[reducible] def rank : (k : KeyTy) → k.Value → List Nat
  | text,s => textRank s
  | int k,n => [(n.val - k.least).toNat]
  | bool,b => [b.toNat]
  | intPair,(i,j) => [(i.val - IntKind.i64.least).toNat,(j.val - IntKind.i64.least).toNat]

end KeyTy

inductive Presence where
  | required
  -- A map may leave the field out; a sequence may not.
  | nullable
  -- A map may leave the field out, and a sequence may end before it.
  | defaulted
  -- As for a defaulted field, and an empty value is not written.
  | omitted
deriving DecidableEq

inductive UnknownKeys where
  | skipped
  | refused
deriving DecidableEq

mutual
inductive Ty where
  | unit
  | bool
  | int (kind : IntKind)
  | float (format : Format)
  | char
  | text
  | bytes
  | option (item : Ty)
  | list (item : Ty)
  | pair (first second : Ty)
  | map (key : KeyTy) (item : Ty)
  | document
  | ignored
  -- Refuses to be written when it is negative.
  | guarded
  | record (name : String) (unknown : UnknownKeys) (fields : Fields)
  | choice (name : String) (variants : Variants)

inductive Fields where
  | nil
  | cons (name : String) (presence : Presence) (ty : Ty) (rest : Fields)

inductive Variants where
  | nil
  | bare (name : String) (rest : Variants)
  | holding (name : String) (content : Ty) (rest : Variants)
end

deriving instance DecidableEq for Ty, Fields, Variants

mutual
@[reducible] def Ty.Value : Ty → Type
  | .unit => Unit
  | .bool => Bool
  | .int k => Bounded k
  | .float f => Binary f
  | .char => Char
  | .text => String
  | .bytes => List UInt8
  | .option t => Option t.Value
  | .list t => List t.Value
  | .pair a b => a.Value × b.Value
  | .map k t => SortedMap k.rank t.Value
  | .document => Document
  | .ignored => Unit
  | .guarded => Bounded .i64
  | .record _ _ fields => fields.Value
  | .choice _ variants => variants.Value

@[reducible] def Fields.Value : Fields → Type
  | .nil => Unit
  | .cons _ _ t rest => t.Value × rest.Value

@[reducible] def Variants.Value : Variants → Type
  | .nil => Empty
  | .bare _ rest => Unit ⊕ rest.Value
  | .holding _ t rest => t.Value ⊕ rest.Value
end

namespace Fields

def names : Fields → List String
  | nil => []
  | cons name _ _ rest => name :: rest.names

def nameAt? (fields : Fields) (i : Nat) : Option String := fields.names[i]?

end Fields

namespace Variants

def names : Variants → List String
  | nil => []
  | bare name rest => name :: rest.names
  | holding name _ rest => name :: rest.names

def nameAt? (variants : Variants) (i : Nat) : Option String := variants.names[i]?

end Variants

namespace Ty

def blank? : (t : Ty) → Option t.Value
  | .option _ => some none
  | .list _ => some []
  | _ => none

def isBlank : (t : Ty) → t.Value → Bool
  | .option _,v => v.isNone
  | .list _,v => v.isEmpty
  | _,_ => false

def ofNothing? : (t : Ty) → Option t.Value
  | .unit => some ()
  | .option _ => some none
  | .document => some .null
  | .ignored => some ()
  | _ => none

end Ty

def Presence.missing? (presence : Presence) (t : Ty) : Option t.Value :=
  match presence with
  | .required => none
  | .nullable | .defaulted | .omitted => t.blank?

def Presence.beyondEnd? (presence : Presence) (t : Ty) : Option t.Value :=
  match presence with
  | .required | .nullable => none
  | .defaulted | .omitted => t.blank?

def Presence.skips (presence : Presence) (t : Ty) (v : t.Value) : Bool :=
  presence == .omitted && t.isBlank v

end Switchboard
