import Switchboard.Collection.SortedMap
import Switchboard.Registry.Name

namespace Switchboard

-- Nothing here ties the names to the map.
structure Store (α : Type) where
  held : Named α
  order : List String

inductive NameRefusal where
  | invalid (fault : NameFault)
  | duplicate

namespace Store

variable {α : Type}

def empty : Store α := ⟨.empty,[]⟩

def find? (s : Store α) (name : String) : Option α := s.held.find? name

def size (s : Store α) : Nat := s.held.entries.length

def register (s : Store α) (name : String) (a : α) : Except NameRefusal Unit × Store α :=
  match nameFault? name with
  | some fault => (.error (.invalid fault),s)
  | none =>
    match s.find? name with
    | some _ => (.error .duplicate,s)
    | none => (.ok (),⟨s.held.insert name a,s.order ++ [name]⟩)

end Store
end Switchboard
