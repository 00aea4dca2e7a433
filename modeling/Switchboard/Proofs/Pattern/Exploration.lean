import Switchboard.Pattern.Basic

namespace Switchboard.Attempt

variable {at_ : Place}

theorem branches_length (at_ : Place) (a : Attempt) : (branches at_ a).length ≤ 2 := by
  cases a with
  | nil => simp [branches]
  | cons first rest =>
      cases first with
      | empty | set | seq | alt | onceOrMore => simp [branches]
      | anchor | optional | round =>
          simp only [branches]
          split <;> simp

-- Whether an attempt needs a character to go on.
def waits : Attempt → Bool
  | .set _ :: _ => true
  | _ => false

theorem explore_nil (fuel : Nat) (seen : List Attempt) : explore at_ fuel seen [] = [] := by
  cases fuel with
  | zero => rfl
  | succ fuel => rfl

theorem explore_seen {seen : List Attempt} {a : Attempt} (known : a ∈ seen) (fuel : Nat)
    (others : List Attempt) :
    explore at_ (fuel + 1) seen (a :: others) = explore at_ fuel seen others :=
  if_pos (List.contains_iff_mem.mpr known)

theorem explore_matched {seen : List Attempt} (fresh : [] ∉ seen) (fuel : Nat) (others : List Attempt) :
    explore at_ (fuel + 1) seen ([] :: others) = [[]] :=
  if_neg (mt List.contains_iff_mem.mp fresh)

-- An attempt that waits for a character leads to no others, so all attempts that have not
-- matched go alike.
theorem explore_fresh {seen : List Attempt} {first : Pattern} {rest : List Pattern}
    (fresh : first :: rest ∉ seen) (fuel : Nat) (others : List Attempt) :
    explore at_ (fuel + 1) seen ((first :: rest) :: others) =
      (if waits (first :: rest) then [first :: rest] else []) ++
        explore at_ fuel ((first :: rest) :: seen) (branches at_ (first :: rest) ++ others) := by
  have unknown := mt List.contains_iff_mem.mp fresh
  cases first with
  | _ => exact (if_neg unknown).trans rfl

section Fuel

variable {scope : List Attempt} (closed : ∀ a ∈ scope, ∀ b ∈ branches at_ a, b ∈ scope)

def unseen (scope seen : List Attempt) : Nat := (scope.filter (fun a => a ∉ seen)).length

theorem unseen_cons {a : Attempt} {seen : List Attempt} (inside : a ∈ scope) (fresh : a ∉ seen) :
    unseen scope (a :: seen) < unseen scope seen := by
  have fewer : scope.filter (fun b => b ∉ a :: seen) =
      (scope.filter (fun b => b ∉ seen)).filter (fun b => b ≠ a) := by
    rw [List.filter_filter]
    apply List.filter_congr
    intro b _
    simp
  rw [unseen,unseen,fewer]
  apply List.length_filter_lt_length_iff_exists.mpr
  exact ⟨a,List.mem_filter.mpr ⟨inside,by simpa using fresh⟩,by simp⟩

include closed

-- Each attempt of the scope is taken up once and leads to two others at most; an attempt that
-- is known already only leaves the list.
theorem explore_enough {fuel other : Nat} {seen attempts : List Attempt}
    (inside : ∀ a ∈ attempts, a ∈ scope) (enough : attempts.length + 2 * unseen scope seen ≤ fuel)
    (also : attempts.length + 2 * unseen scope seen ≤ other) :
    explore at_ fuel seen attempts = explore at_ other seen attempts := by
  induction fuel generalizing other seen attempts with
  | zero =>
      have none : attempts = [] := List.length_eq_zero_iff.mp (by omega)
      rw [none,explore_nil,explore_nil]
  | succ fuel ih =>
      cases attempts with
      | nil => rw [explore_nil,explore_nil]
      | cons a others =>
          obtain ⟨own,later⟩ := List.forall_mem_cons.mp inside
          rw [List.length_cons] at enough also
          obtain ⟨less,rfl⟩ := Nat.exists_eq_add_of_le' (show 1 ≤ other by omega)
          by_cases known : a ∈ seen
          · rw [explore_seen known,explore_seen known]
            exact ih later (by omega) (by omega)
          · cases a with
            | nil => rw [explore_matched known,explore_matched known]
            | cons first rest =>
                have down := unseen_cons own known
                have two := branches_length at_ (first :: rest)
                have next : ∀ b ∈ branches at_ (first :: rest) ++ others, b ∈ scope :=
                  List.forall_mem_append.mpr ⟨closed _ own,later⟩
                rw [explore_fresh known,explore_fresh known]
                congr 1
                apply ih next
                · rw [List.length_append]; omega
                · rw [List.length_append]; omega

end Fuel

-- What an attempt comes down to at a place, by any number of branches.
inductive Leads (at_ : Place) : Attempt → Attempt → Prop where
  | refl (a : Attempt) : Leads at_ a a
  | step {a b c : Attempt} (branch : b ∈ branches at_ a) (leads : Leads at_ b c) : Leads at_ a c

theorem Leads.trans {a b c : Attempt} (first : Leads at_ a b) (second : Leads at_ b c) : Leads at_ a c := by
  induction first with
  | refl => exact second
  | step branch _ ih => exact .step branch (ih second)

theorem explore_sound {fuel : Nat} {seen attempts : List Attempt} {b : Attempt}
    (found : b ∈ explore at_ fuel seen attempts) : ∃ a ∈ attempts, Leads at_ a b := by
  induction fuel generalizing seen attempts with
  | zero => cases found
  | succ fuel ih =>
      cases attempts with
      | nil => rw [explore_nil] at found; cases found
      | cons a others =>
          by_cases known : a ∈ seen
          · rw [explore_seen known] at found
            obtain ⟨from_,member,leads⟩ := ih found
            exact ⟨from_,List.mem_cons_of_mem _ member,leads⟩
          · cases a with
            | nil =>
                rw [explore_matched known,List.mem_singleton] at found
                subst found
                exact ⟨[],List.mem_cons_self,.refl []⟩
            | cons first rest =>
                rw [explore_fresh known] at found
                rcases List.mem_append.mp found with own | later
                · have same : b = first :: rest := by
                    split at own
                    · exact List.mem_singleton.mp own
                    · cases own
                  exact ⟨first :: rest,List.mem_cons_self,same ▸ .refl _⟩
                · obtain ⟨from_,member,leads⟩ := ih later
                  rcases List.mem_append.mp member with branch | old
                  · exact ⟨first :: rest,List.mem_cons_self,.step branch leads⟩
                  · exact ⟨from_,List.mem_cons_of_mem _ old,leads⟩

theorem closed_leads {seen : List Attempt} (closed : ∀ a ∈ seen, ∀ b ∈ branches at_ a, b ∈ seen)
    {a b : Attempt} (member : a ∈ seen) (leads : Leads at_ a b) : b ∈ seen := by
  induction leads with
  | refl => exact member
  | step branch _ ih => exact ih (closed _ member _ branch)

def Known (seen attempts : List Attempt) (a : Attempt) : Prop := a ∈ seen ∨ a ∈ attempts

theorem known_again {seen others : List Attempt} {next a : Attempt} (again : next ∈ seen)
    (known : Known seen (next :: others) a) : Known seen others a := by
  rcases known with old | listed
  · exact .inl old
  · rcases List.mem_cons.mp listed with rfl | later
    · exact .inl again
    · exact .inr later

theorem known_taken {seen others : List Attempt} {next a : Attempt} (new : List Attempt)
    (known : Known seen (next :: others) a) : Known (next :: seen) (new ++ others) a := by
  rcases known with old | listed
  · exact .inl (List.mem_cons_of_mem _ old)
  · rcases List.mem_cons.mp listed with rfl | later
    · exact .inl List.mem_cons_self
    · exact .inr (List.mem_append_right _ later)

-- What was seen leads to nothing but what was seen or is still on the list, so a search that
-- ends without a match has found everything that needs a character, and there was no match.
theorem explore_complete {scope : List Attempt}
    (closed : ∀ a ∈ scope, ∀ b ∈ branches at_ a, b ∈ scope) {fuel : Nat} {seen attempts : List Attempt}
    (inside : ∀ a ∈ attempts, a ∈ scope) (enough : attempts.length + 2 * unseen scope seen ≤ fuel)
    (pending : ∀ a ∈ seen, ∀ b ∈ branches at_ a, Known seen attempts b)
    (unmatched : [] ∉ explore at_ fuel seen attempts) {a b : Attempt} (known : Known seen attempts a)
    (leads : Leads at_ a b) (settled : b = [] ∨ waits b = true) :
    b ∈ seen ∨ b ∈ explore at_ fuel seen attempts := by
  induction fuel generalizing seen attempts with
  | zero =>
      have none : attempts = [] := List.length_eq_zero_iff.mp (by omega)
      subst none
      simp only [Known,List.not_mem_nil,or_false] at pending known
      exact .inl (closed_leads pending known leads)
  | succ fuel ih =>
      cases attempts with
      | nil =>
          simp only [Known,List.not_mem_nil,or_false] at pending known
          exact .inl (closed_leads pending known leads)
      | cons next others =>
          obtain ⟨own,later⟩ := List.forall_mem_cons.mp inside
          rw [List.length_cons] at enough
          by_cases again : next ∈ seen
          · rw [explore_seen again] at unmatched ⊢
            exact ih later (by omega) (fun a held b branch => known_again again (pending a held b branch))
              unmatched (known_again again known)
          · cases next with
            | nil =>
                rw [explore_matched again] at unmatched
                exact absurd List.mem_cons_self unmatched
            | cons first rest =>
                rw [explore_fresh again,List.mem_append,not_or] at unmatched
                rw [explore_fresh again]
                have down := unseen_cons own again
                have two := branches_length at_ (first :: rest)
                have found : b ∈ (first :: rest) :: seen ∨
                    b ∈ explore at_ fuel ((first :: rest) :: seen)
                      (branches at_ (first :: rest) ++ others) := by
                  apply ih _ _ _ unmatched.2 (known_taken _ known)
                  · exact List.forall_mem_append.mpr ⟨closed _ own,later⟩
                  · rw [List.length_append]; omega
                  · intro a held b branch
                    rcases List.mem_cons.mp held with rfl | old
                    · exact .inr (List.mem_append_left _ branch)
                    · exact known_taken _ (pending a old b branch)
                rcases found with taken | later
                · rcases List.mem_cons.mp taken with rfl | old
                  · have waiting := settled.resolve_left (List.cons_ne_nil _ _)
                    exact .inr (List.mem_append_left _ (by simp [waiting]))
                  · exact .inl old
                · exact .inr (List.mem_append_right _ later)

end Switchboard.Attempt

namespace Switchboard.Pattern
open Attempt

-- All that a pattern comes down to, with characters or without, before what follows it.
def sites : Pattern → Attempt → List Attempt
  | .empty,rest => [.empty :: rest]
  | .set s,rest => [.set s :: rest]
  | .anchor a,rest => [.anchor a :: rest]
  | .seq p q,rest => (.seq p q :: rest) :: (p.sites (q :: rest) ++ q.sites rest)
  | .alt p q,rest => (.alt p q :: rest) :: (p.sites rest ++ q.sites rest)
  | .optional greedy p,rest => (.optional greedy p :: rest) :: p.sites rest
  | .onceOrMore greedy p,rest =>
    (.onceOrMore greedy p :: rest) :: (.round greedy p :: rest) :: p.sites (.round greedy p :: rest)
  | .round greedy p,rest => (.round greedy p :: rest) :: p.sites (.round greedy p :: rest)

def scope (p : Pattern) : List Attempt := [] :: p.sites []

theorem sites_length (p : Pattern) (rest : Attempt) : (p.sites rest).length ≤ 2 * p.size := by
  induction p generalizing rest with
  | empty | set | anchor => simp [sites,size]
  | seq p q left right =>
      have first := left (q :: rest)
      have second := right rest
      simp only [sites,size,List.length_cons,List.length_append]
      omega
  | alt p q left right =>
      have first := left rest
      have second := right rest
      simp only [sites,size,List.length_cons,List.length_append]
      omega
  | optional greedy p inner =>
      have held := inner rest
      simp only [sites,size,List.length_cons]
      omega
  | onceOrMore greedy p inner | round greedy p inner =>
      have held := inner (.round greedy p :: rest)
      simp only [sites,size,List.length_cons]
      omega

theorem sites_self (p : Pattern) (rest : Attempt) : p :: rest ∈ p.sites rest := by
  cases p with
  | _ => exact List.mem_cons_self

-- Where an attempt may get to by one branch or by one character, whatever the place.
def successors : Attempt → List Attempt
  | [] => []
  | .empty :: rest | .set _ :: rest | .anchor _ :: rest => [rest]
  | .seq p q :: rest => [p :: q :: rest]
  | .alt p q :: rest => [p :: rest,q :: rest]
  | .optional _ p :: rest => [p :: rest,rest]
  | .onceOrMore greedy p :: rest => [p :: .round greedy p :: rest]
  | .round greedy p :: rest => [p :: .round greedy p :: rest,rest]

theorem branches_successors {at_ : Place} {a b : Attempt} (branch : b ∈ branches at_ a) :
    b ∈ successors a := by
  cases a with
  | nil => cases branch
  | cons first rest =>
      cases first with
      | set => cases branch
      | empty | seq | alt | onceOrMore => exact branch
      | anchor a =>
          simp only [branches] at branch
          split at branch
          · exact branch
          · cases branch
      | optional greedy p | round greedy p =>
          cases greedy with
          | true => exact branch
          | false => simpa [branches,successors,or_comm] using branch

theorem after_successors {c : Char} {a b : Attempt} (after : after? c a = some b) : b ∈ successors a := by
  unfold after? at after
  split at after
  · split at after
    · cases after; exact List.mem_cons_self
    · cases after
  · cases after

theorem one_of_two {a b c : Attempt} (member : a ∈ [b,c]) : a = b ∨ a = c := by
  simpa using member

theorem sites_closed (p : Pattern) {rest a b : Attempt} (member : a ∈ p.sites rest)
    (next : b ∈ successors a) : b = rest ∨ b ∈ p.sites rest := by
  induction p generalizing rest with
  | empty | set | anchor =>
      cases List.mem_singleton.mp member
      exact .inl (List.mem_singleton.mp next)
  | seq p q left right =>
      simp only [sites,List.mem_cons,List.mem_append] at member ⊢
      rcases member with rfl | first | second
      · rw [List.mem_singleton.mp next]
        exact .inr (.inr (.inl (sites_self p _)))
      · rcases left first with rfl | inner
        · exact .inr (.inr (.inr (sites_self q rest)))
        · exact .inr (.inr (.inl inner))
      · rcases right second with rfl | inner
        · exact .inl rfl
        · exact .inr (.inr (.inr inner))
  | alt p q left right =>
      simp only [sites,List.mem_cons,List.mem_append] at member ⊢
      rcases member with rfl | first | second
      · rcases one_of_two next with rfl | rfl
        · exact .inr (.inr (.inl (sites_self p rest)))
        · exact .inr (.inr (.inr (sites_self q rest)))
      · exact (left first).imp_right (fun inner => .inr (.inl inner))
      · exact (right second).imp_right (fun inner => .inr (.inr inner))
  | optional greedy p inner =>
      simp only [sites,List.mem_cons] at member ⊢
      rcases member with rfl | held
      · rcases one_of_two next with rfl | rfl
        · exact .inr (.inr (sites_self p rest))
        · exact .inl rfl
      · exact (inner held).imp_right .inr
  | onceOrMore greedy p inner =>
      simp only [sites,List.mem_cons] at member ⊢
      rcases member with rfl | rfl | held
      · rw [List.mem_singleton.mp next]
        exact .inr (.inr (.inr (sites_self p _)))
      · rcases one_of_two next with rfl | rfl
        · exact .inr (.inr (.inr (sites_self p _)))
        · exact .inl rfl
      · exact .inr (.inr (inner held))
  | round greedy p inner =>
      simp only [sites,List.mem_cons] at member ⊢
      rcases member with rfl | held
      · rcases one_of_two next with rfl | rfl
        · exact .inr (.inr (sites_self p _))
        · exact .inl rfl
      · exact .inr (inner held)

theorem scope_closed (p : Pattern) {a b : Attempt} (member : a ∈ p.scope) (next : b ∈ successors a) :
    b ∈ p.scope := by
  rcases List.mem_cons.mp member with rfl | held
  · cases next
  · exact List.mem_cons.mpr (sites_closed p held next)

theorem scope_branches (p : Pattern) {at_ : Place} :
    ∀ a ∈ p.scope, ∀ b ∈ branches at_ a, b ∈ p.scope :=
  fun _ member _ branch => scope_closed p member (branches_successors branch)

theorem scope_leads (p : Pattern) {at_ : Place} {a b : Attempt} (member : a ∈ p.scope)
    (leads : Leads at_ a b) : b ∈ p.scope := by
  induction leads with
  | refl => exact member
  | step branch _ ih => exact ih (scope_branches p _ member _ branch)

theorem scope_length (p : Pattern) (seen : List Attempt) : unseen p.scope seen ≤ 2 * p.size + 1 := by
  have sites := sites_length p []
  have fewer : unseen p.scope seen ≤ (p.sites []).length + 1 := List.length_filter_le _ _
  omega

section Place

variable {p : Pattern} {at_ : Place} {attempts : List Attempt} (inside : ∀ a ∈ attempts, a ∈ p.scope)

include inside

-- More fuel than a search has at a place changes nothing.
theorem reached_enough (more : Nat) :
    explore at_ (8 * (p.size + 2) + attempts.length + more) [] attempts = p.reached at_ attempts := by
  have few := scope_length p []
  apply explore_enough (scope_branches p) inside
  · omega
  · omega

-- The attempts of the next place: those that took the character, and a new one.
theorem next_inside (c : Char) :
    ∀ a ∈ (p.reached at_ attempts).filterMap (after? c) ++ [[p]], a ∈ p.scope := by
  intro next member
  rcases List.mem_append.mp member with old | new
  · obtain ⟨b,found,after⟩ := List.mem_filterMap.mp old
    obtain ⟨a,started,leads⟩ := explore_sound found
    exact scope_closed p (scope_leads p (inside a started) leads) (after_successors after)
  · rw [List.mem_singleton.mp new]
    exact List.mem_cons_of_mem _ (sites_self p [])

theorem reached_complete (unmatched : [] ∉ p.reached at_ attempts) {a b : Attempt} (member : a ∈ attempts)
    (leads : Leads at_ a b) (settled : b = [] ∨ waits b = true) : b ∈ p.reached at_ attempts := by
  have few := scope_length p []
  have enough : attempts.length + 2 * unseen p.scope [] ≤ 8 * (p.size + 2) + attempts.length := by omega
  have found := explore_complete (scope_branches p) inside enough (fun a held => by cases held) unmatched
    (.inr member) leads settled
  exact found.resolve_left List.not_mem_nil

theorem reached_match : [] ∈ p.reached at_ attempts ↔ ∃ a ∈ attempts, Leads at_ a [] := by
  refine ⟨explore_sound,fun matching => ?_⟩
  obtain ⟨a,member,leads⟩ := matching
  apply Decidable.byContradiction
  intro unmatched
  exact unmatched (reached_complete inside unmatched member leads (.inl rfl))

end Place

end Switchboard.Pattern
