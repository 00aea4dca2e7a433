import Switchboard.Proofs.Pattern.Exploration

namespace Switchboard.Pattern
open Attempt

-- The character before what follows a word.
def lastOf (before : Option Char) (word : List Char) : Option Char := word.getLast?.or before

theorem lastOf_append (before : Option Char) (u v : List Char) :
    lastOf (lastOf before u) v = lastOf before (u ++ v) := by
  unfold lastOf
  rw [List.getLast?_append,Option.or_assoc]

-- A pattern matches a word, given the character before it and the text after it. How the
-- search prefers one match to another is not in here.
inductive Matches : Pattern → Option Char → List Char → List Char → Prop where
  | empty {before : Option Char} {after : List Char} : Matches .empty before [] after
  | set {s : CharSet} {c : Char} {before : Option Char} {after : List Char} (held : s.holds c = true) :
      Matches (.set s) before [c] after
  | anchor {a : Anchor} {before : Option Char} {after : List Char}
      (held : a.holds ⟨before,after.head?⟩ = true) : Matches (.anchor a) before [] after
  | seq {p q : Pattern} {before : Option Char} {u v after : List Char}
      (first : Matches p before u (v ++ after)) (second : Matches q (lastOf before u) v after) :
      Matches (.seq p q) before (u ++ v) after
  | left {p q : Pattern} {before : Option Char} {word after : List Char}
      (own : Matches p before word after) : Matches (.alt p q) before word after
  | right {p q : Pattern} {before : Option Char} {word after : List Char}
      (own : Matches q before word after) : Matches (.alt p q) before word after
  | absent {greedy : Bool} {p : Pattern} {before : Option Char} {after : List Char} :
      Matches (.optional greedy p) before [] after
  | present {greedy : Bool} {p : Pattern} {before : Option Char} {word after : List Char}
      (own : Matches p before word after) : Matches (.optional greedy p) before word after
  | once {greedy : Bool} {p : Pattern} {before : Option Char} {u v after : List Char}
      (first : Matches p before u (v ++ after))
      (others : Matches (.round greedy p) (lastOf before u) v after) :
      Matches (.onceOrMore greedy p) before (u ++ v) after
  | ended {greedy : Bool} {p : Pattern} {before : Option Char} {after : List Char} :
      Matches (.round greedy p) before [] after
  | again {greedy : Bool} {p : Pattern} {before : Option Char} {u v after : List Char}
      (first : Matches p before u (v ++ after))
      (others : Matches (.round greedy p) (lastOf before u) v after) :
      Matches (.round greedy p) before (u ++ v) after

inductive MatchesAll : Attempt → Option Char → List Char → List Char → Prop where
  | nil {before : Option Char} {after : List Char} : MatchesAll [] before [] after
  | cons {p : Pattern} {rest : Attempt} {before : Option Char} {u v after : List Char}
      (first : Matches p before u (v ++ after)) (others : MatchesAll rest (lastOf before u) v after) :
      MatchesAll (p :: rest) before (u ++ v) after

section Branches

variable {before : Option Char} {word after : List Char}

theorem matches_two {p q : Pattern} {rest : Attempt} (all : MatchesAll (p :: q :: rest) before word after) :
    ∃ u v w, word = u ++ v ++ w ∧ Matches p before u (v ++ (w ++ after)) ∧
      Matches q (lastOf before u) v (w ++ after) ∧ MatchesAll rest (lastOf before (u ++ v)) w after := by
  cases all with
  | @cons _ _ _ u _ _ first others =>
      cases others with
      | @cons _ _ _ v w _ second others =>
          rw [lastOf_append] at others
          refine ⟨u,v,w,(List.append_assoc u v w).symm,?_,second,others⟩
          rw [List.append_assoc] at first
          exact first

theorem matches_single {p : Pattern} :
    MatchesAll [p] before word after ↔ Matches p before word after := by
  constructor
  · intro all
    cases all with
    | cons first others =>
        cases others with
        | nil => rw [List.append_nil]; exact first
  · intro own
    rw [← List.append_nil word]
    exact .cons own .nil

theorem matches_first {p q : Pattern} {rest : Attempt}
    (same : ∀ {word after}, Matches p before word after → Matches q before word after)
    (all : MatchesAll (p :: rest) before word after) : MatchesAll (q :: rest) before word after := by
  cases all with
  | cons first others => exact .cons (same first) others

theorem matches_joined {p q r : Pattern} {rest : Attempt}
    (join : ∀ {u v after}, Matches p before u (v ++ after) → Matches q (lastOf before u) v after →
      Matches r before (u ++ v) after)
    (all : MatchesAll (p :: q :: rest) before word after) : MatchesAll (r :: rest) before word after := by
  obtain ⟨u,v,w,rfl,first,second,others⟩ := matches_two all
  exact .cons (join first second) others

theorem matches_skipped {p : Pattern} {rest : Attempt} (own : Matches p before [] (word ++ after))
    (all : MatchesAll rest before word after) : MatchesAll (p :: rest) before word after :=
  .cons (u := []) own all

-- What one branch leaves undone, the pattern that it came from does.
theorem branch_matches {a b : Attempt} (branch : b ∈ branches ⟨before,(word ++ after).head?⟩ a)
    (all : MatchesAll b before word after) : MatchesAll a before word after := by
  cases a with
  | nil => cases branch
  | cons first rest =>
      cases first with
      | set => cases branch
      | empty =>
          cases List.mem_singleton.mp branch
          exact matches_skipped .empty all
      | anchor a =>
          simp only [branches] at branch
          split at branch
          · rename_i held
            cases List.mem_singleton.mp branch
            exact matches_skipped (.anchor held) all
          · cases branch
      | seq p q =>
          cases List.mem_singleton.mp branch
          exact matches_joined .seq all
      | alt p q =>
          rcases one_of_two branch with rfl | rfl
          · exact matches_first .left all
          · exact matches_first .right all
      | optional greedy p =>
          rcases one_of_two (branches_successors branch) with rfl | rfl
          · exact matches_first .present all
          · exact matches_skipped .absent all
      | onceOrMore greedy p =>
          cases List.mem_singleton.mp branch
          exact matches_joined .once all
      | round greedy p =>
          rcases one_of_two (branches_successors branch) with rfl | rfl
          · exact matches_joined .again all
          · exact matches_skipped .ended all

theorem leads_matches {a b : Attempt} (all : MatchesAll b before word after)
    (leads : Leads ⟨before,(word ++ after).head?⟩ a b) : MatchesAll a before word after := by
  induction leads with
  | refl => exact all
  | step branch _ ih => exact branch_matches branch (ih all)

theorem leads_match {a : Attempt} (leads : Leads ⟨before,after.head?⟩ a []) :
    MatchesAll a before [] after :=
  leads_matches .nil leads

-- Without a character there are only branches to take.
theorem matches_leads {p : Pattern} (own : Matches p before word after) (unmoved : word = [])
    (rest : Attempt) : Leads ⟨before,after.head?⟩ (p :: rest) rest := by
  induction own generalizing rest with
  | empty => exact .step List.mem_cons_self (.refl rest)
  | set => cases unmoved
  | anchor held => exact .step (by simp [branches,held]) (.refl rest)
  | seq _ _ left right =>
      obtain ⟨rfl,rfl⟩ := List.append_eq_nil_iff.mp unmoved
      exact .step List.mem_cons_self ((left rfl _).trans (right rfl rest))
  | left _ ih => exact .step List.mem_cons_self (ih unmoved rest)
  | right _ ih => exact .step (List.mem_cons_of_mem _ List.mem_cons_self) (ih unmoved rest)
  | @absent greedy => exact .step (by cases greedy <;> simp [branches]) (.refl rest)
  | @present greedy _ _ _ _ _ ih => exact .step (by cases greedy <;> simp [branches]) (ih unmoved rest)
  | once _ _ first others =>
      obtain ⟨rfl,rfl⟩ := List.append_eq_nil_iff.mp unmoved
      exact .step List.mem_cons_self ((first rfl _).trans (others rfl rest))
  | @ended greedy => exact .step (by cases greedy <;> simp [branches]) (.refl rest)
  | @again greedy _ _ _ _ _ _ _ first others =>
      obtain ⟨rfl,rfl⟩ := List.append_eq_nil_iff.mp unmoved
      exact .step (by cases greedy <;> simp [branches]) ((first rfl _).trans (others rfl rest))

theorem all_leads {a : Attempt} (all : MatchesAll a before word after) (unmoved : word = [])
    (rest : Attempt) : Leads ⟨before,after.head?⟩ (a ++ rest) rest := by
  induction all with
  | nil => exact .refl rest
  | cons first _ ih =>
      obtain ⟨rfl,rfl⟩ := List.append_eq_nil_iff.mp unmoved
      exact (matches_leads first rfl _).trans (ih rfl)

end Branches

-- At one place the search misses no match and makes none up.
theorem reached_exact {p : Pattern} {attempts : List Attempt}
    (inside : ∀ a ∈ attempts, a ∈ p.scope) (before : Option Char) (after : List Char) :
    [] ∈ p.reached ⟨before,after.head?⟩ attempts ↔ ∃ a ∈ attempts, MatchesAll a before [] after := by
  rw [reached_match inside]
  constructor
  · intro found
    obtain ⟨a,member,leads⟩ := found
    exact ⟨a,member,leads_match leads⟩
  · intro matching
    obtain ⟨a,member,all⟩ := matching
    exact ⟨a,member,List.append_nil a ▸ all_leads all rfl []⟩

theorem all_joined {a b : Attempt} {before : Option Char} {u v after : List Char}
    (first : MatchesAll a before u (v ++ after)) (second : MatchesAll b (lastOf before u) v after) :
    MatchesAll (a ++ b) before (u ++ v) after := by
  generalize followed : v ++ after = behind at first
  induction first with
  | nil => exact second
  | @cons p rest before u w behind own _ ih =>
      subst followed
      rw [List.append_assoc,List.cons_append]
      refine .cons (by rw [List.append_assoc]; exact own) (ih ?_ rfl)
      rw [lastOf_append]
      exact second

-- An attempt whose match begins with a character comes down to one that waits for it, and what
-- is left then matches what is left of the word.
def Moves (a : Attempt) (before : Option Char) (c : Char) (word after : List Char) : Prop :=
  ∃ s left, s.holds c = true ∧ MatchesAll left (some c) word after ∧
    ∀ rest, Leads ⟨before,some c⟩ (a ++ rest) (.set s :: (left ++ rest))

section Moving

variable {before : Option Char} {c : Char} {word after : List Char}

theorem moves_branch {a b : Attempt} (moves : Moves b before c word after)
    (branch : ∀ rest, b ++ rest ∈ branches ⟨before,some c⟩ (a ++ rest)) : Moves a before c word after := by
  obtain ⟨s,left,held,all,leads⟩ := moves
  exact ⟨s,left,held,all,fun rest => .step (branch rest) (leads rest)⟩

-- The character is the first part's, or that matches without one and it is the second's.
theorem moves_joined {a b : Attempt} {u v : List Char} (split : u ++ v = c :: word)
    (first : MatchesAll a before u (v ++ after)) (second : MatchesAll b (lastOf before u) v after)
    (left : ∀ {w}, u = c :: w → Moves a before c w (v ++ after))
    (right : ∀ {w}, v = c :: w → Moves b (lastOf before u) c w after) :
    Moves (a ++ b) before c word after := by
  cases u with
  | nil =>
      obtain ⟨s,kept,held,all,leads⟩ := right split
      refine ⟨s,kept,held,all,fun rest => ?_⟩
      have skipped := all_leads first rfl (b ++ rest)
      rw [show v = c :: word from split] at skipped
      rw [List.append_assoc]
      exact skipped.trans (leads rest)
  | cons d u =>
      obtain ⟨rfl,rfl⟩ := List.cons_eq_cons.mp split
      obtain ⟨s,kept,held,all,leads⟩ := left rfl
      refine ⟨s,kept ++ b,held,all_joined all (lastOf_append before [d] u ▸ second),fun rest => ?_⟩
      rw [List.append_assoc,List.append_assoc]
      exact leads (b ++ rest)

theorem matches_moves {p : Pattern} {w : List Char} (own : Matches p before w after)
    (moved : w = c :: word) : Moves [p] before c word after := by
  induction own generalizing word with
  | empty | anchor | absent | ended => cases moved
  | @set s _ _ _ held =>
      cases moved
      exact ⟨s,[],held,.nil,fun rest => .refl _⟩
  | seq first second left right =>
      have moves := moves_joined moved (matches_single.mpr first) (matches_single.mpr second) left right
      exact moves_branch moves (fun rest => List.mem_cons_self)
  | left _ ih => exact moves_branch (ih moved) (fun rest => List.mem_cons_self)
  | right _ ih => exact moves_branch (ih moved) (fun rest => List.mem_cons_of_mem _ List.mem_cons_self)
  | @present greedy _ _ _ _ _ ih =>
      exact moves_branch (ih moved) (fun rest => by cases greedy <;> simp [branches])
  | once first others left right =>
      have moves := moves_joined moved (matches_single.mpr first) (matches_single.mpr others) left right
      exact moves_branch moves (fun rest => List.mem_cons_self)
  | @again greedy _ _ _ _ _ first others left right =>
      have moves := moves_joined moved (matches_single.mpr first) (matches_single.mpr others) left right
      exact moves_branch moves (fun rest => by cases greedy <;> simp [branches])

theorem all_moves {a : Attempt} {w : List Char} (all : MatchesAll a before w after)
    (moved : w = c :: word) : Moves a before c word after := by
  induction all generalizing word with
  | nil => cases moved
  | cons first others ih =>
      exact moves_joined moved (matches_single.mpr first) others (matches_moves first) ih

end Moving

theorem after_matches {c : Char} {a b : Attempt} (taken : after? c a = some b) {before : Option Char}
    {word after : List Char} (all : MatchesAll b (some c) word after) :
    MatchesAll a before (c :: word) after := by
  unfold after? at taken
  split at taken
  · split at taken
    · rename_i held
      cases taken
      exact .cons (u := [c]) (.set held) all
    · cases taken
  · cases taken

section Search

variable {p : Pattern} {attempts : List Attempt} {before : Option Char} {c : Char} {word after : List Char}

theorem next_sound {next : Attempt}
    (member : next ∈ (p.reached ⟨before,some c⟩ attempts).filterMap (after? c))
    (all : MatchesAll next (some c) word after) :
    ∃ a ∈ attempts, MatchesAll a before (c :: word) after := by
  obtain ⟨b,reached,taken⟩ := List.mem_filterMap.mp member
  obtain ⟨a,started,leads⟩ := explore_sound reached
  have whole : MatchesAll b before (c :: word) after := after_matches taken all
  exact ⟨a,started,leads_matches whole leads⟩

theorem next_complete (inside : ∀ a ∈ attempts, a ∈ p.scope)
    (unmatched : [] ∉ p.reached ⟨before,some c⟩ attempts) {a : Attempt} (member : a ∈ attempts)
    (all : MatchesAll a before (c :: word) after) :
    ∃ next ∈ (p.reached ⟨before,some c⟩ attempts).filterMap (after? c),
      MatchesAll next (some c) word after := by
  obtain ⟨s,left,held,others,leads⟩ := all_moves all rfl
  have down : Leads ⟨before,some c⟩ a (.set s :: left) := by
    have bare := leads []
    rwa [List.append_nil,List.append_nil] at bare
  refine ⟨left,List.mem_filterMap.mpr ⟨.set s :: left,?_,if_pos held⟩,others⟩
  exact reached_complete inside unmatched member down (.inr rfl)

-- Either an attempt that was under way matches the rest of the text, or one that begins later.
theorem search_sound {searching : Bool} {text : List Char}
    (found : searchFrom p searching attempts before text = true) :
    (∃ a ∈ attempts, MatchesAll a before text []) ∨
      ∃ u v, u ≠ [] ∧ text = u ++ v ∧ Matches p (lastOf before u) v [] := by
  induction text generalizing searching attempts before with
  | nil =>
      obtain ⟨a,member,leads⟩ := explore_sound (List.contains_iff_mem.mp found)
      have all : MatchesAll a before [] [] := leads_match leads
      exact .inl ⟨a,member,all⟩
  | cons c rest ih =>
      rw [searchFrom] at found
      rcases ih found with ⟨a,member,all⟩ | ⟨u,v,_,rfl,own⟩
      · have next : a ∈ (p.reached ⟨before,some c⟩ attempts).filterMap (after? c) ++ [[p]] := by
          split at member
          · exact member
          · exact List.mem_append_left _ member
        rcases List.mem_append.mp next with old | new
        · exact .inl (next_sound old all)
        · rw [List.mem_singleton.mp new] at all
          exact .inr ⟨[c],rest,List.cons_ne_nil _ _,rfl,matches_single.mp all⟩
      · exact .inr ⟨c :: u,v,List.cons_ne_nil _ _,rfl,lastOf_append before [c] u ▸ own⟩

-- Where no match ends before the text does, the search comes to the end with all attempts.
theorem search_complete {text : List Char} (inside : ∀ a ∈ attempts, a ∈ p.scope)
    (late : ∀ a ∈ attempts, ∀ u v, text = u ++ v → MatchesAll a before u v → v = [])
    (later : ∀ u v w, text = u ++ v ++ w → Matches p (lastOf before u) v w → w = [])
    (whole : ∀ c ∈ text, p.matchesInside c = false)
    (matching : (∃ a ∈ attempts, MatchesAll a before text []) ∨
      ∃ u v, u ≠ [] ∧ text = u ++ v ∧ Matches p (lastOf before u) v []) :
    searchFrom p true attempts before text = true := by
  induction text generalizing attempts before with
  | nil =>
      rcases matching with ⟨a,member,all⟩ | ⟨u,v,moved,split,_⟩
      · exact List.contains_iff_mem.mpr ((reached_exact inside before []).mpr ⟨a,member,all⟩)
      · exact absurd (List.append_eq_nil_iff.mp split.symm).1 moved
  | cons c rest ih =>
      have unmatched : [] ∉ p.reached ⟨before,some c⟩ attempts := by
        intro found
        obtain ⟨a,member,all⟩ := (reached_exact inside before (c :: rest)).mp found
        cases late a member [] (c :: rest) rfl all
      have goes : (true && !(p.reached ⟨before,some c⟩ attempts).contains [] &&
          !p.matchesInside c) = true := by
        rw [whole c List.mem_cons_self]
        simpa using unmatched
      rw [searchFrom]
      simp only [goes,if_true]
      apply ih (next_inside inside c)
      · intro a member u v split all
        rcases List.mem_append.mp member with old | new
        · obtain ⟨from_,started,longer⟩ := next_sound old all
          exact late from_ started (c :: u) v (congrArg (c :: ·) split) longer
        · rw [List.mem_singleton.mp new] at all
          exact later [c] u v (congrArg (c :: ·) split) (matches_single.mp all)
      · intro u v w split own
        exact later (c :: u) v w (congrArg (c :: ·) split) (lastOf_append before [c] u ▸ own)
      · exact fun d member => whole d (List.mem_cons_of_mem c member)
      · rcases matching with ⟨a,member,all⟩ | ⟨u,v,moved,split,own⟩
        · obtain ⟨next,held,others⟩ := next_complete inside unmatched member all
          exact .inl ⟨next,List.mem_append_left _ held,others⟩
        · cases u with
          | nil => exact absurd rfl moved
          | cons d u =>
              obtain ⟨rfl,rfl⟩ := List.cons_eq_cons.mp split
              cases u with
              | nil => exact .inl ⟨[p],List.mem_append_right _ List.mem_cons_self,matches_single.mpr own⟩
              | cons d u =>
                  rw [← List.singleton_append,← lastOf_append] at own
                  exact .inr ⟨d :: u,v,List.cons_ne_nil _ _,rfl,own⟩

end Search

theorem endsIn_sound {p : Pattern} {s : String} (found : p.endsIn s = true) :
    ∃ u v, s.toList = u ++ v ∧ Matches p u.getLast? v [] := by
  rcases search_sound found with ⟨a,member,all⟩ | ⟨u,v,_,split,own⟩
  · rw [List.mem_singleton.mp member] at all
    exact ⟨[],s.toList,rfl,matches_single.mp all⟩
  · rw [lastOf,Option.or_none] at own
    exact ⟨u,v,split,own⟩

theorem endsIn_exact {p : Pattern} {s : String}
    (late : ∀ u v w, s.toList = u ++ v ++ w → Matches p u.getLast? v w → w = [])
    (whole : ∀ c ∈ s.toList, p.matchesInside c = false) :
    p.endsIn s = true ↔ ∃ u v, s.toList = u ++ v ∧ Matches p u.getLast? v [] := by
  refine ⟨endsIn_sound,?_⟩
  intro matching
  obtain ⟨u,v,split,own⟩ := matching
  apply search_complete
  · intro a member
    rw [List.mem_singleton.mp member]
    exact List.mem_cons_of_mem _ (sites_self p [])
  · intro a member v w split all
    rw [List.mem_singleton.mp member] at all
    exact late [] v w split (matches_single.mp all)
  · intro u v w split own
    rw [lastOf,Option.or_none] at own
    exact late u v w split own
  · exact whole
  · cases u with
    | nil => exact .inl ⟨[p],List.mem_cons_self,matches_single.mpr (split ▸ own)⟩
    | cons c u =>
        refine .inr ⟨c :: u,v,List.cons_ne_nil _ _,split,?_⟩
        rw [lastOf,Option.or_none]
        exact own

theorem matches_textEnd {p : Pattern} {before : Option Char} {word after : List Char} :
    Matches (.seq p (.anchor .textEnd)) before word after ↔ after = [] ∧ Matches p before word [] := by
  constructor
  · intro own
    cases own with
    | seq first second =>
        cases second with
        | anchor held =>
            cases after with
            | nil => exact ⟨rfl,(List.append_nil _).symm ▸ first⟩
            | cons => cases held
  · intro whole
    obtain ⟨rfl,own⟩ := whole
    rw [← List.append_nil word]
    exact .seq own (.anchor rfl)

-- A match that has to reach the end of the text is preferred to no shorter one, so the search
-- finds it if there is one at all.
theorem anchored_exact (p : Pattern) (s : String) :
    (Pattern.seq p (.anchor .textEnd)).endsIn s = true ↔
      ∃ u v, s.toList = u ++ v ∧ Matches p u.getLast? v [] := by
  rw [endsIn_exact]
  · simp only [matches_textEnd,true_and]
  · exact fun u v w _ own => (matches_textEnd.mp own).1
  · intro c _
    rw [← Bool.not_eq_true]
    intro found
    obtain ⟨a,member,leads⟩ := explore_sound (List.contains_iff_mem.mp (Bool.and_eq_true_iff.mp found).2)
    have all : MatchesAll a (some c) [] [c] := leads_match leads
    rw [List.mem_singleton.mp member] at all
    cases (matches_textEnd.mp (matches_single.mp all)).1

end Switchboard.Pattern
