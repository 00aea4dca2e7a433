import Switchboard.Collection.SortedMap
import Switchboard.Text.Space

namespace Switchboard

structure Payload where
  contentType : Option String
  headers : Headers
  body : List UInt8
deriving DecidableEq

def lowerKey (key : String) : String := String.ofList (key.toList.map Text.lowerAscii)

def isTypeKey (key : String) : Bool := lowerKey key == "type" || lowerKey key == "content-type"

-- The shorter name wins, then the exact casing, then key order.
def typeKeyRank (key : String) : List Nat :=
  (if lowerKey key == "type" then 0 else 1) :: (if lowerKey key == key then 0 else 1) :: textRank key

def leading? : List (String × String) → Option (String × String)
  | [] => none
  | entry :: rest =>
    match leading? rest with
    | none => some entry
    | some other => if typeKeyRank other.1 < typeKeyRank entry.1 then some other else some entry

def splitContentType (headers : Headers) : Option String × Headers :=
  ((leading? (headers.filterKeys isTypeKey).entries).map Prod.snd,
    headers.filterKeys (fun key => !isTypeKey key))

namespace Payload

def typed (contentType : String) (body : List UInt8) : Payload :=
  ⟨some contentType,SortedMap.empty,body⟩

def untyped (body : List UInt8) : Payload := ⟨none,SortedMap.empty,body⟩

def empty : Payload := untyped []

def ofHeaders (headers : Headers) (body : List UInt8) : Payload :=
  ⟨(splitContentType headers).1,(splitContentType headers).2,body⟩

-- The content type stays as it is, whatever the key.
def withHeader (p : Payload) (key value : String) : Payload :=
  { p with headers := p.headers.insert key value }

def isEmpty (p : Payload) : Bool := p.body.isEmpty

end Payload
end Switchboard
