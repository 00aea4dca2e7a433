import Switchboard.Collection.SortedMap

namespace Switchboard

namespace Entries

variable {K V : Type} {rank : K → List Nat}

def held? (rank : K → List Nat) (key : K) (entries : List (K × V)) : Option V :=
  (entries.find? (fun entry => rank entry.1 == rank key)).map Prod.snd

theorem held_cons (key : K) (entry : K × V) (rest : List (K × V)) :
    held? rank key (entry :: rest) =
      if rank entry.1 = rank key then some entry.2 else held? rank key rest := by
  unfold held?
  rw [List.find?_cons]
  split
  · rename_i same; simp [beq_iff_eq.mp same]
  · rename_i other; simp [beq_eq_false_iff_ne.mp other]

theorem held_mem {key : K} {value : V} {entries : List (K × V)}
    (held : held? rank key entries = some value) : ∃ entry ∈ entries, entry.2 = value := by
  obtain ⟨entry,found,same⟩ := Option.map_eq_some_iff.mp held
  exact ⟨entry,List.mem_of_find?_eq_some found,same⟩

theorem held_below {key : K} {entries : List (K × V)}
    (below : ∀ entry ∈ entries, rank key < rank entry.1) : held? rank key entries = none := by
  induction entries with
  | nil => rfl
  | cons entry rest ih =>
      have less := below entry List.mem_cons_self
      have other : rank entry.1 ≠ rank key := fun same => List.lt_irrefl _ (same ▸ less)
      rw [held_cons,if_neg other]
      exact ih (fun entry member => below entry (List.mem_cons_of_mem _ member))

theorem held_put {key other : K} {value : V} {entries : List (K × V)} :
    held? rank other (put rank key value entries) =
      if rank key = rank other then some value else held? rank other entries := by
  induction entries with
  | nil => simp [put,held_cons]
  | cons entry rest ih =>
      unfold put
      split
      · rw [held_cons]
      · rename_i notBelow
        split
        · rename_i beyond
          rw [held_cons,ih,held_cons]
          by_cases same : rank entry.1 = rank other
          · have apart : rank key ≠ rank other := fun equal => by
              rw [equal,same] at beyond; exact List.lt_irrefl _ beyond
            simp [same,apart]
          · simp [same]
        · rename_i notBeyond
          have equal : rank key = rank entry.1 :=
            List.le_antisymm (List.not_lt.mp notBeyond) (List.not_lt.mp notBelow)
          rw [held_cons,held_cons,← equal]
          split <;> rfl

theorem held_exact {key : K} {value : V} {entries : List (K × V)} (ordered : Ordered rank entries) :
    held? rank key entries = some value ↔
      ∃ entry ∈ entries, rank entry.1 = rank key ∧ entry.2 = value := by
  induction entries with
  | nil => simp [held?]
  | cons entry rest ih =>
      obtain ⟨above,tail⟩ := List.pairwise_cons.mp ordered
      rw [held_cons]
      by_cases same : rank entry.1 = rank key
      · have alone : ∀ other ∈ rest, rank other.1 ≠ rank key := by
          intro other member equal
          have less := above other member
          rw [same,equal] at less
          exact List.lt_irrefl _ less
        rw [if_pos same,Option.some.injEq]
        constructor
        · intro held
          exact ⟨entry,List.mem_cons_self,same,held⟩
        · intro found
          obtain ⟨other,member,equal,held⟩ := found
          rcases List.mem_cons.mp member with first | later
          · rw [← first]; exact held
          · exact absurd equal (alone other later)
      · rw [if_neg same,ih tail]
        simp [same]

theorem held_without {key other : K} {entries : List (K × V)} :
    held? rank other (entries.filter (fun entry => rank entry.1 != rank key)) =
      if rank key = rank other then none else held? rank other entries := by
  induction entries with
  | nil => simp [held?]
  | cons entry rest ih =>
      by_cases same : rank entry.1 = rank key
      · rw [List.filter_cons_of_neg (by simp [same]),ih,held_cons,same]
        split <;> rfl
      · rw [List.filter_cons_of_pos (by simp [same]),held_cons,ih,held_cons]
        by_cases asked : rank entry.1 = rank other
        · have apart : rank key ≠ rank other := fun equal => same (asked.trans equal.symm)
          rw [if_pos asked,if_pos asked,if_neg apart]
        · rw [if_neg asked,if_neg asked]

theorem put_perm {key : K} {value : V} {entries : List (K × V)}
    (fresh : ∀ entry ∈ entries, rank entry.1 ≠ rank key) :
    (put rank key value entries).Perm ((key,value) :: entries) := by
  induction entries with
  | nil => exact .refl _
  | cons entry rest ih =>
      obtain ⟨apart,others⟩ := List.forall_mem_cons.mp fresh
      unfold put
      split
      · exact .refl _
      · rename_i notBelow
        split
        · exact ((ih others).cons entry).trans (.swap (key,value) entry rest)
        · rename_i notBeyond
          exact absurd (List.le_antisymm (List.not_lt.mp notBelow) (List.not_lt.mp notBeyond)) apart

def total (weight : V → Nat) : List (K × V) → Nat
  | [] => 0
  | entry :: rest => weight entry.2 + total weight rest

theorem total_zero {weight : V → Nat} {entries : List (K × V)}
    (weightless : ∀ entry ∈ entries, weight entry.2 = 0) : total weight entries = 0 := by
  induction entries with
  | nil => rfl
  | cons entry rest ih =>
      obtain ⟨first,others⟩ := List.forall_mem_cons.mp weightless
      rw [total,first,ih others]

theorem total_count {weight : V → Nat} {entries : List (K × V)}
    (light : ∀ entry ∈ entries, weight entry.2 ≤ 1) :
    total weight entries = (entries.filter (fun entry => weight entry.2 ≠ 0)).length := by
  induction entries with
  | nil => rfl
  | cons entry rest ih =>
      obtain ⟨first,others⟩ := List.forall_mem_cons.mp light
      rw [total,ih others]
      by_cases weightless : weight entry.2 = 0
      · simp [weightless]
      · have one : weight entry.2 = 1 := by omega
        simp [one,Nat.add_comm]

def weightAt (weight : V → Nat) (held : Option V) : Nat := (held.map weight).getD 0

theorem total_put (weight : V → Nat) {key : K} {value : V} {entries : List (K × V)}
    (ordered : Ordered rank entries) :
    total weight (put rank key value entries) + weightAt weight (held? rank key entries) =
      total weight entries + weight value := by
  induction entries with
  | nil => simp [put,total,weightAt,held?]
  | cons entry rest ih =>
      obtain ⟨above,tail⟩ := List.pairwise_cons.mp ordered
      unfold put
      split
      · rename_i below
        have absent : held? rank key (entry :: rest) = none := by
          apply held_below
          intro later member
          rcases List.mem_cons.mp member with rfl | member
          · exact below
          · exact List.lt_trans below (above later member)
        simp [absent,weightAt,total]; omega
      · rename_i notBelow
        split
        · rename_i beyond
          have other : rank entry.1 ≠ rank key := fun same => by
            rw [same] at beyond; exact List.lt_irrefl _ beyond
          have step := ih tail
          rw [held_cons,if_neg other]
          simp only [total]
          omega
        · rename_i notBeyond
          have equal : rank entry.1 = rank key :=
            List.le_antisymm (List.not_lt.mp notBelow) (List.not_lt.mp notBeyond)
          rw [held_cons,if_pos equal]
          simp [total,weightAt]; omega

theorem total_without (weight : V → Nat) {key : K} {entries : List (K × V)}
    (ordered : Ordered rank entries) :
    total weight (entries.filter (fun entry => rank entry.1 != rank key)) +
      weightAt weight (held? rank key entries) = total weight entries := by
  induction entries with
  | nil => rfl
  | cons entry rest ih =>
      obtain ⟨above,tail⟩ := List.pairwise_cons.mp ordered
      have step := ih tail
      rw [held_cons]
      by_cases same : rank entry.1 = rank key
      · have absent : held? rank key rest = none :=
          held_below (fun later member => same ▸ above later member)
        simp only [absent,weightAt] at step
        simp [same,weightAt,total] at step ⊢
        omega
      · simp only [List.filter_cons,bne_iff_ne,ne_eq,same,not_false_eq_true,if_true,if_false,total]
        omega

theorem put_beyond {key : K} {value : V} {entries : List (K × V)}
    (beyond : ∀ entry ∈ entries, rank entry.1 < rank key) :
    put rank key value entries = entries ++ [(key,value)] := by
  induction entries with
  | nil => rfl
  | cons entry rest ih =>
      obtain ⟨first,others⟩ := List.forall_mem_cons.mp beyond
      have notBelow : ¬ rank key < rank entry.1 := List.lt_asymm first
      simp only [put,notBelow,first,if_true,if_false,ih others,List.cons_append]

theorem ordered_valued {W : Type} (f : V → W) {entries : List (K × V)} (ordered : Ordered rank entries) :
    Ordered rank (entries.map (Prod.map id f)) := by
  apply List.pairwise_map.mpr
  exact ordered

theorem total_valued {W : Type} (weight : W → Nat) (f : V → W) (entries : List (K × V)) :
    total weight (entries.map (Prod.map id f)) = total (fun value => weight (f value)) entries := by
  induction entries with
  | nil => rfl
  | cons entry rest ih => rw [List.map_cons,total,ih]; rfl

end Entries

namespace SortedMap

variable {K V : Type} {rank : K → List Nat}

theorem find?_insert (map : SortedMap rank V) (key other : K) (value : V) :
    (map.insert key value).find? other =
      if rank key = rank other then some value else map.find? other := Entries.held_put

theorem find?_erase (map : SortedMap rank V) (key other : K) :
    (map.erase key).find? other = if rank key = rank other then none else map.find? other :=
  Entries.held_without

def All (P : V → Prop) (map : SortedMap rank V) : Prop := ∀ entry ∈ map.entries, P entry.2

theorem all_empty (P : V → Prop) : All P (empty : SortedMap rank V) := by
  intro entry member
  cases member

theorem all_insert {P : V → Prop} {map : SortedMap rank V} (all : All P map) (key : K) {value : V}
    (new : P value) : All P (map.insert key value) := by
  intro entry member
  rcases Entries.mem_put member with same | old
  · rw [same]; exact new
  · exact all entry old

theorem all_erase {P : V → Prop} {map : SortedMap rank V} (all : All P map) (key : K) :
    All P (map.erase key) := by
  intro entry member
  exact all entry (List.mem_filter.mp member).1

theorem find?_mem {map : SortedMap rank V} {key : K} {value : V} (found : map.find? key = some value) :
    ∃ entry ∈ map.entries, entry.2 = value := Entries.held_mem found

theorem all_found {P : V → Prop} {map : SortedMap rank V} (all : All P map) {key : K} {value : V}
    (found : map.find? key = some value) : P value := by
  obtain ⟨entry,member,same⟩ := find?_mem found
  exact same ▸ all entry member

def total (weight : V → Nat) (map : SortedMap rank V) : Nat := Entries.total weight map.entries

-- A value that is replaced takes its weight with it.
theorem total_insert (weight : V → Nat) (map : SortedMap rank V) (key : K) (value : V) :
    (map.insert key value).total weight + Entries.weightAt weight (map.find? key) =
      map.total weight + weight value := Entries.total_put weight map.ordered

theorem total_erase (weight : V → Nat) (map : SortedMap rank V) (key : K) :
    (map.erase key).total weight + Entries.weightAt weight (map.find? key) = map.total weight :=
  Entries.total_without weight map.ordered

theorem filled_entries (start : SortedMap rank V) (entries : List (K × V))
    (ordered : Entries.Ordered rank (start.entries ++ entries)) :
    (entries.foldl (fun map entry => map.insert entry.1 entry.2) start).entries =
      start.entries ++ entries := by
  induction entries generalizing start with
  | nil => simp
  | cons entry rest ih =>
      have beyond : ∀ earlier ∈ start.entries, rank earlier.1 < rank entry.1 :=
        fun earlier member => (List.pairwise_append.mp ordered).2.2 earlier member entry List.mem_cons_self
      have next : (start.insert entry.1 entry.2).entries = start.entries ++ [entry] :=
        Entries.put_beyond beyond
      have same : (start.insert entry.1 entry.2).entries ++ rest = start.entries ++ entry :: rest := by
        rw [next,List.append_assoc,List.singleton_append]
      rw [List.foldl_cons,ih _ (same ▸ ordered),same]

theorem ofList_entries (map : SortedMap rank V) : ofList map.entries = map :=
  ext (filled_entries empty map.entries map.ordered)

theorem filled_perm (start : SortedMap rank V) (entries : List (K × V))
    (distinct : (start.entries ++ entries).Pairwise (fun a b => rank a.1 ≠ rank b.1)) :
    (entries.foldl (fun map entry => map.insert entry.1 entry.2) start).entries.Perm
      (start.entries ++ entries) := by
  induction entries generalizing start with
  | nil => simp
  | cons entry rest ih =>
      have fresh : ∀ earlier ∈ start.entries, rank earlier.1 ≠ rank entry.1 :=
        fun earlier member => (List.pairwise_append.mp distinct).2.2 earlier member entry List.mem_cons_self
      have next : ((start.insert entry.1 entry.2).entries ++ rest).Perm (start.entries ++ entry :: rest) :=
        ((Entries.put_perm fresh).append_right rest).trans List.perm_middle.symm
      have still := distinct.perm next.symm (fun apart => Ne.symm apart)
      exact (ih (start.insert entry.1 entry.2) still).trans next

theorem entries_distinct (map : SortedMap rank V) :
    map.entries.Pairwise (fun a b => rank a.1 ≠ rank b.1) := by
  apply List.Pairwise.imp _ map.ordered
  intro a b less same
  rw [same] at less
  exact List.lt_irrefl _ less

theorem keys_nodup (map : SortedMap rank V) : (map.entries.map Prod.fst).Nodup := by
  apply List.pairwise_map.mpr
  apply List.Pairwise.imp _ map.entries_distinct
  intro a b apart same
  exact apart (congrArg rank same)

theorem ext_perm {a b : SortedMap rank V} (same : a.entries.Perm b.entries) : a = b := by
  apply ext
  apply same.eq_of_pairwise _ a.ordered b.ordered
  intro one two _ _ below above
  exact absurd above (List.lt_asymm below)

-- Whatever the order in which entries come, they fill the same map.
theorem ofList_perm {map : SortedMap rank V} {entries : List (K × V)}
    (same : entries.Perm map.entries) : ofList entries = map := by
  have distinct : entries.Pairwise (fun a b => rank a.1 ≠ rank b.1) :=
    map.entries_distinct.perm same.symm (fun apart => Ne.symm apart)
  exact ext_perm ((filled_perm empty entries distinct).trans same)

def valued {W : Type} (map : SortedMap rank V) (f : V → W) : SortedMap rank W :=
  ⟨map.entries.map (Prod.map id f),Entries.ordered_valued f map.ordered⟩

theorem find?_valued {W : Type} (map : SortedMap rank V) (f : V → W) (key : K) :
    (map.valued f).find? key = (map.find? key).map f := by
  simp only [find?,valued,List.find?_map,Option.map_map,Function.comp_def]
  rfl

theorem total_valued {W : Type} (weight : W → Nat) (map : SortedMap rank V) (f : V → W) :
    (map.valued f).total weight = map.total (fun value => weight (f value)) :=
  Entries.total_valued weight f map.entries

end SortedMap

theorem textRank_inj {a b : String} : textRank a = textRank b ↔ a = b := by
  constructor
  · intro same
    apply String.toList_inj.mp
    exact List.map_inj_right (fun c d equal => Char.toNat_inj.mp equal) |>.mp same
  · intro same
    rw [same]

namespace SortedMap

variable {V : Type} {map : SortedMap textRank V} {key other : String}

theorem find?_insert_other (apart : key ≠ other) (value : V) :
    (map.insert key value).find? other = map.find? other := by
  rw [find?_insert,if_neg]
  intro same
  exact apart (textRank_inj.mp same)

theorem find?_erase_other (apart : key ≠ other) : (map.erase key).find? other = map.find? other := by
  rw [find?_erase,if_neg]
  intro same
  exact apart (textRank_inj.mp same)

theorem find?_text (map : SortedMap textRank V) (key : String) (value : V) :
    map.find? key = some value ↔ (key,value) ∈ map.entries := by
  refine (Entries.held_exact map.ordered).trans ⟨?_,?_⟩
  · intro found
    obtain ⟨entry,member,same,held⟩ := found
    rw [← textRank_inj.mp same,← held]
    exact member
  · intro member
    exact ⟨(key,value),member,rfl,rfl⟩

theorem ext_find? {a b : SortedMap textRank V} (same : ∀ key, a.find? key = b.find? key) : a = b := by
  have distinct : ∀ map : SortedMap textRank V, map.entries.Nodup := fun map =>
    List.Pairwise.of_map Prod.fst (fun _ _ apart same => apart (congrArg Prod.fst same)) map.keys_nodup
  apply ext_perm
  apply (List.perm_ext_iff_of_nodup (distinct a) (distinct b)).mpr
  intro entry
  rw [← find?_text a entry.1 entry.2,same,find?_text b entry.1 entry.2]

theorem insert_found {value : V} (found : map.find? key = some value) : map.insert key value = map := by
  apply ext_find?
  intro other
  rw [find?_insert]
  split
  · rename_i same
    rw [← textRank_inj.mp same,found]
  · rfl

theorem valued_insert {W : Type} (f : V → W) (value : V) :
    (map.insert key value).valued f = (map.valued f).insert key (f value) := by
  apply ext_find?
  intro other
  rw [find?_valued,find?_insert,find?_insert,find?_valued]
  split
  · rfl
  · rfl

theorem valued_erase {W : Type} (f : V → W) : (map.erase key).valued f = (map.valued f).erase key := by
  apply ext_find?
  intro other
  rw [find?_valued,find?_erase,find?_erase,find?_valued]
  split
  · rfl
  · rfl

theorem mem_keys (map : SortedMap textRank V) (key : String) :
    key ∈ map.entries.map Prod.fst ↔ ∃ value, map.find? key = some value := by
  simp only [find?_text,List.mem_map,Prod.exists,exists_and_right,exists_eq_right]

end SortedMap

end Switchboard
