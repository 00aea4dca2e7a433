import Switchboard.Proofs.KeyedEntries
import Switchboard.Schema.Catalogue
import Switchboard.Text.Utf8

namespace Switchboard

section Lists

variable {α β K V : Type}

theorem mapM_cons_some {f : α → Option β} {x : α} {xs : List α} {ys : List β}
    (mapped : (x :: xs).mapM f = some ys) :
    ∃ y rest, f x = some y ∧ xs.mapM f = some rest ∧ ys = y :: rest := by
  rw [List.mapM_cons] at mapped
  obtain ⟨y,first,mapped⟩ := Option.bind_eq_some_iff.mp mapped
  obtain ⟨rest,others,mapped⟩ := Option.bind_eq_some_iff.mp mapped
  cases mapped
  exact ⟨y,rest,first,others,rfl⟩

theorem mapM_inverse {f : α → Option β} {g : β → Option α} {xs : List α} {ys : List β}
    (mapped : xs.mapM f = some ys) (inverse : ∀ x ∈ xs, ∀ y, f x = some y → g y = some x) :
    ys.mapM g = some xs := by
  induction xs generalizing ys with
  | nil => cases mapped; rfl
  | cons x xs ih =>
      obtain ⟨y,rest,first,others,rfl⟩ := mapM_cons_some mapped
      obtain ⟨head,tail⟩ := List.forall_mem_cons.mp inverse
      simp [List.mapM_cons,head y first,ih others tail]

theorem mapM_length {f : α → Option β} {xs : List α} {ys : List β} (mapped : xs.mapM f = some ys) :
    ys.length = xs.length := by
  induction xs generalizing ys with
  | nil => cases mapped; rfl
  | cons x xs ih =>
      obtain ⟨y,rest,_,others,rfl⟩ := mapM_cons_some mapped
      simp [ih others]

theorem mapM_mem {f : α → Option β} {xs : List α} {ys : List β} (mapped : xs.mapM f = some ys)
    {y : β} (member : y ∈ ys) : ∃ x ∈ xs, f x = some y := by
  induction xs generalizing ys with
  | nil => cases mapped; cases member
  | cons x xs ih =>
      obtain ⟨z,rest,first,others,rfl⟩ := mapM_cons_some mapped
      rcases List.mem_cons.mp member with rfl | later
      · exact ⟨x,List.mem_cons_self,first⟩
      · obtain ⟨w,inside,same⟩ := ih others later
        exact ⟨w,List.mem_cons_of_mem _ inside,same⟩

theorem mapM_each {f : α → Option β} {xs : List α} {ys : List β} (mapped : xs.mapM f = some ys)
    {x : α} (member : x ∈ xs) : ∃ y ∈ ys, f x = some y := by
  induction xs generalizing ys with
  | nil => cases member
  | cons z xs ih =>
      obtain ⟨y,rest,first,others,rfl⟩ := mapM_cons_some mapped
      rcases List.mem_cons.mp member with rfl | later
      · exact ⟨y,List.mem_cons_self,first⟩
      · obtain ⟨w,inside,same⟩ := ih others later
        exact ⟨w,List.mem_cons_of_mem _ inside,same⟩

theorem mapM_isSome {f : α → Option β} {xs : List α} :
    (xs.mapM f).isSome = true ↔ ∀ x ∈ xs, (f x).isSome = true := by
  induction xs with
  | nil => simp
  | cons x xs ih =>
      rw [List.forall_mem_cons,← ih,List.mapM_cons]
      cases f x <;> cases xs.mapM f <;> simp

theorem mapM_section {w : α → K} {f : K → Option β} {g : β → α} {xs : List α}
    (each : ∀ x ∈ xs, ∃ y, f (w x) = some y ∧ g y = x) :
    ∃ ys, (xs.map w).mapM f = some ys ∧ ys.map g = xs := by
  induction xs with
  | nil => exact ⟨[],rfl,rfl⟩
  | cons x xs ih =>
      obtain ⟨⟨y,first,back⟩,others⟩ := List.forall_mem_cons.mp each
      obtain ⟨ys,mapped,same⟩ := ih others
      exact ⟨y :: ys,by simp [List.mapM_cons,first,mapped],by simp [back,same]⟩

def deepest (depth : α → Nat) : List α → Nat
  | [] => 0
  | x :: rest => max (depth x) (deepest depth rest)

theorem deepest_le {depth : α → Nat} {bound : Nat} {xs : List α} :
    deepest depth xs ≤ bound ↔ ∀ x ∈ xs, depth x ≤ bound := by
  induction xs with
  | nil => simp [deepest]
  | cons x rest ih => rw [deepest,Nat.max_le,ih,List.forall_mem_cons]

-- A bracket around some values leaves one bracket less for each of them.
theorem deepest_inside {depth : α → Nat} {budget : Nat} {xs : List α} (nested : deepest depth xs + 1 ≤ budget) :
    ∃ inner, budget = inner + 1 ∧ ∀ x ∈ xs, depth x ≤ inner := by
  obtain ⟨inner,rfl⟩ := Nat.exists_eq_add_of_le' (Nat.le_trans (Nat.le_add_left 1 _) nested)
  exact ⟨inner,rfl,deepest_le.mp (Nat.le_of_succ_le_succ nested)⟩

-- The only value under a key, none if there is no such value, and failure if there are several.
def single? [BEq K] (entries : List (K × V)) (key : K) : Option (Option V) :=
  match entries.filter (fun entry => entry.1 == key) with
  | [] => some none
  | [entry] => some (some entry.2)
  | _ => none

variable [BEq K] [LawfulBEq K]

theorem filter_absent {key : K} {entries : List (K × V)} (absent : key ∉ entries.map Prod.fst) :
    entries.filter (fun entry => entry.1 == key) = [] := by
  rw [List.filter_eq_nil_iff]
  intro entry member same
  exact absent (List.mem_map.mpr ⟨entry,member,eq_of_beq same⟩)

theorem single_absent {key : K} {entries : List (K × V)} (absent : key ∉ entries.map Prod.fst) :
    single? entries key = some none := by
  rw [single?,filter_absent absent]

theorem single_first {key : K} {value : V} {entries : List (K × V)}
    (absent : key ∉ entries.map Prod.fst) :
    single? ((key,value) :: entries) key = some (some value) := by
  rw [single?,List.filter_cons_of_pos (by simp),filter_absent absent]

theorem single_later {key other : K} {value : V} {entries : List (K × V)} (apart : other ≠ key) :
    single? ((other,value) :: entries) key = single? entries key := by
  rw [single?,List.filter_cons_of_neg (by simpa using apart),single?]

theorem single_map {J : Type} [BEq J] [LawfulBEq J] {label : K → J} (apart : ∀ a b, label a = label b → a = b)
    (entries : List (K × V)) (key : K) :
    single? (entries.map (fun entry => (label entry.1,entry.2))) (label key) = single? entries key := by
  have same : (fun entry : J × V => entry.1 == label key) ∘ (fun entry : K × V => (label entry.1,entry.2)) =
      fun entry => entry.1 == key := by
    funext entry
    rw [Function.comp_apply,Bool.eq_iff_iff,beq_iff_eq,beq_iff_eq]
    exact ⟨apart _ _,congrArg label⟩
  rw [single?,single?,List.filter_map,same]
  cases entries.filter (fun entry => entry.1 == key) with
  | nil => rfl
  | cons entry rest => cases rest <;> rfl

end Lists

theorem Text.onlyChar_toString (c : Char) : Text.onlyChar? c.toString = some c := by
  simp [Text.onlyChar?,Char.toString_eq_singleton]

theorem Bounded.range {k : IntKind} (n : Bounded k) :
    -0x8000_0000_0000_0000 ≤ n.val ∧ n.val < 0x1_0000_0000_0000_0000 := by
  have held := n.held
  unfold IntKind.Holds at held
  cases k <;> simp only [IntKind.least,IntKind.greatest] at held <;> omega

@[simp] theorem WholeNumber.ofInt?_val (n : WholeNumber) : WholeNumber.ofInt? n.val = some n := by
  simp [WholeNumber.ofInt?,n.held]

namespace Tree

-- An induction hypothesis for every member of a list or an object.
@[elab_as_elim] theorem induction {motive : Tree → Prop} (null : motive .null) (bool : ∀ b, motive (.bool b))
    (whole : ∀ n, motive (.whole n)) (real : ∀ x, motive (.real x)) (text : ∀ s, motive (.text s))
    (list : ∀ items, (∀ item ∈ items, motive item) → motive (.list items))
    (object : ∀ members, (∀ member ∈ members, motive member.2) → motive (.object members))
    (tree : Tree) : motive tree :=
  @Tree.rec motive (fun items => ∀ item ∈ items, motive item)
    (fun members => ∀ member ∈ members, motive member.2) (fun member => motive member.2)
    null bool whole real text list object
    (fun _ member => nomatch member)
    (fun _ _ first others => List.forall_mem_cons.mpr ⟨first,others⟩)
    (fun _ member => nomatch member)
    (fun _ _ first others => List.forall_mem_cons.mpr ⟨first,others⟩)
    (fun _ _ held => held)
    tree

mutual
-- How many lists and objects are nested in each other at most.
def height : Tree → Nat
  | .list items => itemHeights items + 1
  | .object members => memberHeights members + 1
  | .null | .bool _ | .whole _ | .real _ | .text _ => 0

def itemHeights : List Tree → Nat
  | [] => 0
  | item :: rest => max item.height (itemHeights rest)

def memberHeights : List (String × Tree) → Nat
  | [] => 0
  | (_,item) :: rest => max item.height (memberHeights rest)
end

theorem itemHeights_eq (items : List Tree) : itemHeights items = deepest height items := by
  induction items with
  | nil => rfl
  | cons item rest ih => rw [itemHeights,deepest,ih]

theorem memberHeights_eq (members : List (String × Tree)) :
    memberHeights members = deepest (fun member => member.2.height) members := by
  induction members with
  | nil => rfl
  | cons member rest ih => rw [memberHeights,deepest,ih]

mutual
-- A property of a tree and of every tree inside it.
def Throughout (p : Tree → Prop) : Tree → Prop
  | .list items => p (.list items) ∧ EachItem p items
  | .object members => p (.object members) ∧ EachMember p members
  | .null => p .null
  | .bool b => p (.bool b)
  | .whole n => p (.whole n)
  | .real x => p (.real x)
  | .text s => p (.text s)

def EachItem (p : Tree → Prop) : List Tree → Prop
  | [] => True
  | item :: rest => item.Throughout p ∧ EachItem p rest

def EachMember (p : Tree → Prop) : List (String × Tree) → Prop
  | [] => True
  | (_,item) :: rest => item.Throughout p ∧ EachMember p rest
end

theorem eachItem_iff {p : Tree → Prop} {items : List Tree} :
    EachItem p items ↔ ∀ item ∈ items, item.Throughout p := by
  induction items with
  | nil => simp [EachItem]
  | cons item rest ih => simp [EachItem,ih]

theorem eachMember_iff {p : Tree → Prop} {members : List (String × Tree)} :
    EachMember p members ↔ ∀ member ∈ members, member.2.Throughout p := by
  induction members with
  | nil => simp [EachMember]
  | cons member rest ih => simp [EachMember,ih]

end Tree

-- Members that are in key order already stay as they are.
theorem Document.object_tree {docs : List (String × Document)} {members : List (String × Tree)}
    (trees : docs.map (fun member => (member.1,member.2.tree)) = members)
    (ordered : Entries.Ordered textRank members) : (Document.object docs).tree = .object members := by
  subst trees
  have inOrder : Entries.Ordered textRank docs := by
    simpa only [Entries.Ordered,List.pairwise_map] using ordered
  have entries : (SortedMap.ofList docs : SortedMap textRank Document).entries = docs :=
    SortedMap.filled_entries SortedMap.empty docs inOrder
  simp only [Document.object,entries]

mutual
-- A property of a value and of every value inside it.
def Ty.Throughout (p : (t : Ty) → t.Value → Prop) : (t : Ty) → t.Value → Prop
  | .option t,v => p (.option t) v ∧ ∀ item ∈ v, t.Throughout p item
  | .list t,vs => p (.list t) vs ∧ ∀ v ∈ vs, t.Throughout p v
  | .pair a b,v => p (.pair a b) v ∧ a.Throughout p v.1 ∧ b.Throughout p v.2
  | .map k t,map => p (.map k t) map ∧ ∀ entry ∈ map.entries, t.Throughout p entry.2
  | .record name unknown fields,v => p (.record name unknown fields) v ∧ fields.Throughout p v
  | .choice name variants,v => p (.choice name variants) v ∧ variants.Throughout p v
  | .unit,v => p .unit v
  | .bool,v => p .bool v
  | .int k,v => p (.int k) v
  | .float f,v => p (.float f) v
  | .char,v => p .char v
  | .text,v => p .text v
  | .bytes,v => p .bytes v
  | .document,v => p .document v
  | .ignored,v => p .ignored v
  | .guarded,v => p .guarded v

def Fields.Throughout (p : (t : Ty) → t.Value → Prop) : (fields : Fields) → fields.Value → Prop
  | .nil,_ => True
  | .cons _ _ t rest,v => t.Throughout p v.1 ∧ rest.Throughout p v.2

def Variants.Throughout (p : (t : Ty) → t.Value → Prop) : (variants : Variants) → variants.Value → Prop
  | .nil,_ => True
  | .bare _ rest,v =>
    match v with
    | .inl _ => True
    | .inr v => rest.Throughout p v
  | .holding _ t rest,v =>
    match v with
    | .inl v => t.Throughout p v
    | .inr v => rest.Throughout p v
end

-- How many brackets a format puts around a blob and around the content of a variant.
structure Brackets where
  blob : Nat
  wrapper : Nat

def MsgPack.brackets : Brackets := ⟨0,0⟩

def Json.brackets : Brackets := ⟨1,1⟩

-- A key that is a pair has brackets of its own.
def KeyTy.nesting : KeyTy → Nat
  | .intPair => 1
  | .text | .int _ | .bool => 0

mutual
-- How many brackets are nested in each other at most when the value is written.
def Ty.nesting (b : Brackets) : (t : Ty) → t.Value → Nat
  | .unit,_ | .bool,_ | .int _,_ | .float _,_ | .char,_ | .text,_ | .ignored,_ | .guarded,_ => 0
  | .bytes,_ => b.blob
  | .option t,v =>
    match v with
    | none => 0
    | some v => t.nesting b v
  | .list t,vs => deepest (t.nesting b) vs + 1
  | .pair s t,v => max (s.nesting b v.1) (t.nesting b v.2) + 1
  | .map k t,map => deepest (fun entry => max k.nesting (t.nesting b entry.2)) map.entries + 1
  | .document,doc => doc.tree.height
  | .record _ _ fields,v => fields.nesting b v + 1
  | .choice _ variants,v => variants.nesting b v

def Fields.nesting (b : Brackets) : (fields : Fields) → fields.Value → Nat
  | .nil,_ => 0
  | .cons _ presence t rest,v =>
    max (if presence.skips t v.1 then 0 else t.nesting b v.1) (rest.nesting b v.2)

def Variants.nesting (b : Brackets) : (variants : Variants) → variants.Value → Nat
  | .nil,_ => 0
  | .bare _ rest,v =>
    match v with
    | .inl _ => 0
    | .inr v => rest.nesting b v
  | .holding _ t rest,v =>
    match v with
    | .inl v => t.nesting b v + b.wrapper
    | .inr v => rest.nesting b v
end

mutual
-- Whether the type alone keeps its values within a number of brackets.
def Ty.isWithin (b : Brackets) : Ty → Nat → Bool
  | .unit,_ | .bool,_ | .int _,_ | .float _,_ | .char,_ | .text,_ | .ignored,_ | .guarded,_ => true
  | .bytes,n => b.blob ≤ n
  | .option t,n => t.isWithin b n
  | .list t,n => 0 < n && t.isWithin b (n - 1)
  | .pair s t,n => 0 < n && s.isWithin b (n - 1) && t.isWithin b (n - 1)
  | .map k t,n => k.nesting < n && t.isWithin b (n - 1)
  | .document,_ => false
  | .record _ _ fields,n => 0 < n && fields.areWithin b (n - 1)
  | .choice _ variants,n => variants.areWithin b n

def Fields.areWithin (b : Brackets) : Fields → Nat → Bool
  | .nil,_ => true
  | .cons _ _ t rest,n => t.isWithin b n && rest.areWithin b n

def Variants.areWithin (b : Brackets) : Variants → Nat → Bool
  | .nil,_ => true
  | .bare _ rest,n => rest.areWithin b n
  | .holding _ t rest,n => b.wrapper ≤ n && t.isWithin b (n - b.wrapper) && rest.areWithin b n
end

mutual
theorem Ty.nesting_within (b : Brackets) : (t : Ty) → (n : Nat) → t.isWithin b n = true →
    (v : t.Value) → t.nesting b v ≤ n
  | .unit,_,_,_ | .bool,_,_,_ | .int _,_,_,_ | .float _,_,_,_ | .char,_,_,_
  | .text,_,_,_ | .ignored,_,_,_ | .guarded,_,_,_ => Nat.zero_le _
  | .bytes,_,within,_ => of_decide_eq_true within
  | .option _,_,_,none => Nat.zero_le _
  | .option t,n,within,some v => t.nesting_within b n within v
  | .list t,n,within,vs => by
      simp only [Ty.isWithin,Bool.and_eq_true,decide_eq_true_eq] at within
      have inner := deepest_le.mpr (fun v (_ : v ∈ vs) => t.nesting_within b (n - 1) within.2 v)
      rw [Ty.nesting]
      omega
  | .pair s t,n,within,v => by
      simp only [Ty.isWithin,Bool.and_eq_true,decide_eq_true_eq] at within
      have first := s.nesting_within b (n - 1) within.1.2 v.1
      have second := t.nesting_within b (n - 1) within.2 v.2
      rw [Ty.nesting]
      omega
  | .map k t,n,within,map => by
      simp only [Ty.isWithin,Bool.and_eq_true,decide_eq_true_eq] at within
      have inner : deepest (fun entry => max k.nesting (t.nesting b entry.2)) map.entries ≤ n - 1 := by
        refine deepest_le.mpr (fun entry _ => ?_)
        have item := t.nesting_within b (n - 1) within.2 entry.2
        omega
      rw [Ty.nesting]
      omega
  | .record _ _ fields,n,within,v => by
      simp only [Ty.isWithin,Bool.and_eq_true,decide_eq_true_eq] at within
      have inner := fields.nesting_within b (n - 1) within.2 v
      rw [Ty.nesting]
      omega
  | .choice _ variants,n,within,v => variants.nesting_within b n within v

theorem Fields.nesting_within (b : Brackets) : (fields : Fields) → (n : Nat) →
    fields.areWithin b n = true → (v : fields.Value) → fields.nesting b v ≤ n
  | .nil,_,_,_ => Nat.zero_le _
  | .cons _ _ t rest,n,within,v => by
      simp only [Fields.areWithin,Bool.and_eq_true] at within
      have first := t.nesting_within b n within.1 v.1
      have others := rest.nesting_within b n within.2 v.2
      rw [Fields.nesting]
      split <;> omega

theorem Variants.nesting_within (b : Brackets) : (variants : Variants) → (n : Nat) →
    variants.areWithin b n = true → (v : variants.Value) → variants.nesting b v ≤ n
  | .bare _ _,_,_,.inl _ => Nat.zero_le _
  | .bare _ rest,n,within,.inr v => rest.nesting_within b n within v
  | .holding _ t _,n,within,.inl v => by
      simp only [Variants.areWithin,Bool.and_eq_true,decide_eq_true_eq] at within
      have content := t.nesting_within b (n - b.wrapper) within.1.2 v
      rw [Variants.nesting]
      omega
  | .holding _ _ rest,n,within,.inr v => by
      simp only [Variants.areWithin,Bool.and_eq_true] at within
      exact rest.nesting_within b n within.2 v
end

-- Whether a value of the type may be written as the sign for an absent one.
def Ty.mayBeNil : Ty → Bool
  | .unit | .option _ | .document | .ignored => true
  | .bool | .int _ | .float _ | .char | .text | .bytes | .list _ | .pair _ _ | .map _ _ | .guarded
  | .record _ _ _ | .choice _ _ => false

mutual
-- Whether what is written can be told apart again: an optional item is never nil itself, and
-- the names of a record or a choice differ.
def Ty.isFaithful : Ty → Bool
  | .unit | .bool | .int _ | .float _ | .char | .text | .bytes | .document | .ignored | .guarded => true
  | .option t => !t.mayBeNil && t.isFaithful
  | .list t => t.isFaithful
  | .pair s t => s.isFaithful && t.isFaithful
  | .map _ t => t.isFaithful
  | .record _ _ fields => decide fields.names.Nodup && fields.areFaithful
  | .choice _ variants => decide variants.names.Nodup && variants.areFaithful

def Fields.areFaithful : Fields → Bool
  | .nil => true
  | .cons _ _ t rest => t.isFaithful && rest.areFaithful

def Variants.areFaithful : Variants → Bool
  | .nil => true
  | .bare _ rest => rest.areFaithful
  | .holding _ t rest => t.isFaithful && rest.areFaithful
end

-- Every type that a request may name is faithful, and only a document has no bound on its brackets.
theorem Catalogue.named_faithful {name : String} {t : Ty} (known : named? name = some t) :
    t.isFaithful = true ∧
    (t = .document ∨ t.isWithin MsgPack.brackets 4 = true ∧ t.isWithin Json.brackets 4 = true) := by
  unfold named? at known
  split at known <;> cases known <;> decide

-- Nothing is inside a value that stands for an absent one.
theorem Ty.throughout_of_blank {p : (t : Ty) → t.Value → Prop} {t : Ty} {v : t.Value}
    (blank : t.isBlank v = true) (own : p t v) : t.Throughout p v := by
  cases t with
  | option t =>
      cases v with
      | none => exact ⟨own,by simp⟩
      | some v => cases blank
  | list t =>
      cases v with
      | nil => exact ⟨own,by simp⟩
      | cons v vs => cases blank
  | _ => cases blank

theorem Presence.throughout_of_skips {p : (t : Ty) → t.Value → Prop}
    (blank : ∀ t v, Ty.isBlank t v = true → p t v) {presence : Presence} {t : Ty} {v : t.Value}
    (skipped : presence.skips t v = true) : t.Throughout p v := by
  have empty := (Bool.and_eq_true_iff.mp skipped).2
  exact Ty.throughout_of_blank empty (blank t v empty)

theorem Presence.missing_of_skips {presence : Presence} {t : Ty} {v : t.Value}
    (skipped : presence.skips t v = true) : presence.missing? t = some v := by
  simp only [skips,Bool.and_eq_true,beq_iff_eq] at skipped
  obtain ⟨rfl,blank⟩ := skipped
  cases t with
  | option t =>
      cases v with
      | none => rfl
      | some v => cases blank
  | list t =>
      cases v with
      | nil => rfl
      | cons v vs => cases blank
  | _ => cases blank

namespace Fields

variable {N : Type}

-- The fields under their names, as far as they are written.
def labelled (write : (t : Ty) → t.Value → Option N) : (fields : Fields) → fields.Value →
    Option (List (String × N))
  | .nil,_ => some []
  | .cons name presence t rest,v =>
    if presence.skips t v.1 then labelled write rest v.2
    else do
      let node ← write t v.1
      let others ← labelled write rest v.2
      return (name,node) :: others

-- A look-up by name finds each field that is written, and nothing for one that is left out.
def Found (write : (t : Ty) → t.Value → Option N) (find : String → Option (Option N)) :
    (fields : Fields) → fields.Value → Prop
  | .nil,_ => True
  | .cons name presence t rest,v =>
    (if presence.skips t v.1 then find name = some none
      else ∃ node, write t v.1 = some node ∧ find name = some (some node)) ∧
    Found write find rest v.2

variable {write : (t : Ty) → t.Value → Option N}

theorem labelled_cons {name : String} {presence : Presence} {t : Ty} {rest : Fields}
    {v : (Fields.cons name presence t rest).Value} {pairs : List (String × N)}
    (written : labelled write (.cons name presence t rest) v = some pairs) :
    (presence.skips t v.1 = true ∧ labelled write rest v.2 = some pairs) ∨
    (presence.skips t v.1 = false ∧ ∃ node others, write t v.1 = some node ∧
      labelled write rest v.2 = some others ∧ pairs = (name,node) :: others) := by
  rw [labelled] at written
  split at written
  · rename_i skipped
    exact .inl ⟨skipped,written⟩
  · rename_i kept
    obtain ⟨node,first,written⟩ := Option.bind_eq_some_iff.mp written
    obtain ⟨others,later,written⟩ := Option.bind_eq_some_iff.mp written
    cases written
    exact .inr ⟨Bool.eq_false_iff.mpr kept,node,others,first,later,rfl⟩

theorem labelled_names : {fields : Fields} → {v : fields.Value} → {pairs : List (String × N)} →
    labelled write fields v = some pairs → ∀ pair ∈ pairs, pair.1 ∈ fields.names
  | .nil,_,_,written => by cases written; simp
  | .cons name presence t rest,v,pairs,written => by
      intro pair member
      rcases labelled_cons written with ⟨_,later⟩ | ⟨_,node,others,_,later,rfl⟩
      · exact List.mem_cons_of_mem _ (labelled_names later pair member)
      · rcases List.mem_cons.mp member with rfl | inside
        · exact List.mem_cons_self
        · exact List.mem_cons_of_mem _ (labelled_names later pair inside)

theorem labelled_length : {fields : Fields} → {v : fields.Value} → {pairs : List (String × N)} →
    labelled write fields v = some pairs → pairs.length ≤ fields.names.length
  | .nil,_,_,written => by cases written; simp
  | .cons name presence t rest,v,pairs,written => by
      rcases labelled_cons written with ⟨_,later⟩ | ⟨_,node,others,_,later,rfl⟩
      · have := labelled_length later
        simp only [names,List.length_cons]
        omega
      · have := labelled_length later
        simp only [names,List.length_cons]
        omega

-- The look-up only has to agree on the names of the fields, so it may know earlier fields as well.
theorem found_labelled (find : String → Option (Option N)) : {fields : Fields} → {v : fields.Value} →
    {pairs : List (String × N)} → fields.names.Nodup → labelled write fields v = some pairs →
    (∀ name ∈ fields.names, find name = single? pairs name) → Found write find fields v
  | .nil,_,_,_,_,_ => trivial
  | .cons name presence t rest,v,pairs,distinct,written,finds => by
      obtain ⟨fresh,distinct⟩ := List.nodup_cons.mp distinct
      obtain ⟨here,there⟩ := List.forall_mem_cons.mp finds
      have absent {pairs : List (String × N)} (later : labelled write rest v.2 = some pairs) :
          name ∉ pairs.map Prod.fst := by
        intro member
        obtain ⟨pair,inside,rfl⟩ := List.mem_map.mp member
        exact fresh (labelled_names later pair inside)
      rcases labelled_cons written with ⟨skipped,later⟩ | ⟨kept,node,others,first,later,rfl⟩
      · refine ⟨?_,found_labelled find distinct later there⟩
        rw [if_pos skipped,here,single_absent (absent later)]
      · refine ⟨?_,found_labelled find distinct later ?_⟩
        · simp only [kept,Bool.false_eq_true,if_false]
          exact ⟨node,first,here.trans (single_first (absent later))⟩
        · intro other member
          have apart : name ≠ other := fun same => fresh (same ▸ member)
          rw [there other member,single_later apart]

end Fields
end Switchboard
