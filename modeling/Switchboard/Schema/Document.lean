import Switchboard.Collection.SortedMap
import Switchboard.Number.Binary

namespace Switchboard

-- Whole numbers reach from the least signed to the greatest unsigned 64-bit number. Other
-- numbers are finite, since neither NaN nor an infinity can be told apart from an absent value.

structure WholeNumber where
  val : Int
  held : -0x8000_0000_0000_0000 ≤ val ∧ val < 0x1_0000_0000_0000_0000
deriving DecidableEq

def WholeNumber.ofInt? (n : Int) : Option WholeNumber :=
  if held : -0x8000_0000_0000_0000 ≤ n ∧ n < 0x1_0000_0000_0000_0000 then some ⟨n,held⟩ else none

structure FiniteDouble where
  val : Binary .double
  finite : val.isFinite = true
deriving DecidableEq

inductive Tree where
  | null
  | bool (b : Bool)
  | whole (n : WholeNumber)
  | real (x : FiniteDouble)
  | text (s : String)
  | list (items : List Tree)
  | object (members : List (String × Tree))

namespace Tree

mutual
def Ordered : Tree → Prop
  | .list items => OrderedItems items
  | .object members => Entries.Ordered textRank members ∧ OrderedMembers members
  | .null | .bool _ | .whole _ | .real _ | .text _ => True

def OrderedItems : List Tree → Prop
  | [] => True
  | item :: rest => item.Ordered ∧ OrderedItems rest

def OrderedMembers : List (String × Tree) → Prop
  | [] => True
  | (_,item) :: rest => item.Ordered ∧ OrderedMembers rest
end

theorem orderedItems_iff {items : List Tree} :
    OrderedItems items ↔ ∀ item ∈ items, item.Ordered := by
  induction items with
  | nil => simp [OrderedItems]
  | cons item rest ih => simp [OrderedItems,ih]

theorem orderedMembers_iff {members : List (String × Tree)} :
    OrderedMembers members ↔ ∀ member ∈ members, member.2.Ordered := by
  induction members with
  | nil => simp [OrderedMembers]
  | cons member rest ih => simp [OrderedMembers,ih]

end Tree

structure Document where
  tree : Tree
  ordered : tree.Ordered

namespace Document

def null : Document := ⟨.null,by simp [Tree.Ordered]⟩

def bool (b : Bool) : Document := ⟨.bool b,by simp [Tree.Ordered]⟩

def whole (n : WholeNumber) : Document := ⟨.whole n,by simp [Tree.Ordered]⟩

def real (x : Binary .double) : Document :=
  if finite : x.isFinite = true then ⟨.real ⟨x,finite⟩,by simp [Tree.Ordered]⟩ else null

def text (s : String) : Document := ⟨.text s,by simp [Tree.Ordered]⟩

def list (items : List Document) : Document :=
  ⟨.list (items.map Document.tree),by
    simp only [Tree.Ordered,Tree.orderedItems_iff,List.mem_map]
    rintro item ⟨doc,_,rfl⟩
    exact doc.ordered⟩

def object (members : List (String × Document)) : Document :=
  let sorted := (SortedMap.ofList members : SortedMap textRank Document)
  ⟨.object (sorted.entries.map (fun member => (member.1,member.2.tree))),by
    simp only [Tree.Ordered,Tree.orderedMembers_iff,List.mem_map]
    refine ⟨?_,?_⟩
    · exact List.pairwise_map.mpr sorted.ordered
    · rintro member ⟨entry,_,rfl⟩
      exact entry.2.ordered⟩

end Document
end Switchboard
