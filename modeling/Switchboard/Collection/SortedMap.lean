namespace Switchboard

-- A key is ordered by its rank, so that every key type shares one order and one set of lemmas.

namespace Entries

variable {K V : Type}

def Ordered (rank : K → List Nat) (entries : List (K × V)) : Prop :=
  entries.Pairwise (fun a b => rank a.1 < rank b.1)

def put (rank : K → List Nat) (key : K) (value : V) : List (K × V) → List (K × V)
  | [] => [(key,value)]
  | (other,held) :: rest =>
    if rank key < rank other then (key,value) :: (other,held) :: rest
    else if rank other < rank key then (other,held) :: put rank key value rest
    else (key,value) :: rest

theorem mem_put {rank : K → List Nat} {key : K} {value : V} {entries : List (K × V)}
    {entry : K × V} (member : entry ∈ put rank key value entries) :
    entry = (key,value) ∨ entry ∈ entries := by
  induction entries with
  | nil => simpa [put] using member
  | cons first rest ih =>
    unfold put at member
    split at member
    · simpa using member
    · split at member
      · rcases List.mem_cons.mp member with same | later
        · exact .inr (same ▸ List.mem_cons_self)
        · rcases ih later with new | old
          · exact .inl new
          · exact .inr (List.mem_cons_of_mem _ old)
      · rcases List.mem_cons.mp member with new | old
        · exact .inl new
        · exact .inr (List.mem_cons_of_mem _ old)

theorem put_ordered {rank : K → List Nat} {key : K} {value : V} {entries : List (K × V)}
    (ordered : Ordered rank entries) : Ordered rank (put rank key value entries) := by
  induction entries with
  | nil => simp [put,Ordered]
  | cons first rest ih =>
    obtain ⟨above,tail⟩ := List.pairwise_cons.mp ordered
    unfold put
    split
    · rename_i below
      refine List.pairwise_cons.mpr ⟨?_,ordered⟩
      intro entry member
      rcases List.mem_cons.mp member with same | later
      · subst same; exact below
      · exact List.lt_trans below (above entry later)
    · rename_i notBelow
      split
      · rename_i beyond
        refine List.pairwise_cons.mpr ⟨?_,ih tail⟩
        intro entry member
        rcases mem_put member with new | old
        · subst new; exact beyond
        · exact above entry old
      · rename_i notBeyond
        have same : rank key = rank first.1 :=
          List.le_antisymm (List.not_lt.mp notBeyond) (List.not_lt.mp notBelow)
        refine List.pairwise_cons.mpr ⟨?_,tail⟩
        intro entry member
        show rank key < rank entry.1
        rw [same]
        exact above entry member

end Entries

structure SortedMap {K : Type} (rank : K → List Nat) (V : Type) where
  entries : List (K × V)
  ordered : Entries.Ordered rank entries

namespace SortedMap

variable {K V : Type} {rank : K → List Nat}

def empty : SortedMap rank V := ⟨[],List.Pairwise.nil⟩

def insert (map : SortedMap rank V) (key : K) (value : V) : SortedMap rank V :=
  ⟨Entries.put rank key value map.entries,Entries.put_ordered map.ordered⟩

-- Of two equal keys the later wins.
def ofList (entries : List (K × V)) : SortedMap rank V :=
  entries.foldl (fun map entry => map.insert entry.1 entry.2) empty

def filterKeys (map : SortedMap rank V) (keep : K → Bool) : SortedMap rank V :=
  ⟨map.entries.filter (fun entry => keep entry.1),List.Pairwise.filter _ map.ordered⟩

def find? (map : SortedMap rank V) (key : K) : Option V :=
  (map.entries.find? (fun entry => rank entry.1 == rank key)).map Prod.snd

def erase (map : SortedMap rank V) (key : K) : SortedMap rank V :=
  map.filterKeys (fun other => rank other != rank key)

@[ext] theorem ext {a b : SortedMap rank V} (same : a.entries = b.entries) : a = b := by
  cases a; cases b; cases same; rfl

end SortedMap

instance {K V : Type} {rank : K → List Nat} [DecidableEq K] [DecidableEq V] :
    DecidableEq (SortedMap rank V) := fun a b =>
  decidable_of_iff (a.entries = b.entries) ⟨SortedMap.ext,fun same => same ▸ rfl⟩

-- By code point, which is also the order of the UTF-8 bytes.
def textRank (s : String) : List Nat := s.toList.map Char.toNat

abbrev Named (α : Type) := SortedMap textRank α

abbrev Headers := Named String

end Switchboard
