import Mathlib.Data.List.Induction
import Mathlib.Data.Prod.Lex
import Mathlib.Data.String.Basic
import Mathlib.Order.WithBot
import Switchboard.Telemetry.Line

namespace Switchboard.Directive

def fieldRank : Option FieldTest → WithBot String
  | none => ⊥
  | some t => t.name

-- How much a directive says: the length of its target, then its field, if there is one.
def rank (d : Directive) : Nat ×ₗ WithBot String := toLex (d.target.length,fieldRank d.field)

theorem outranks_rank (d e : Directive) : d.outranks e = true ↔ e.rank < d.rank := by
  unfold outranks rank
  rw [Prod.Lex.toLex_lt_toLex,Bool.or_eq_true,Bool.and_eq_true,beq_iff_eq,decide_eq_true_iff,
    eq_comm]
  apply or_congr_right
  apply and_congr_right
  intro _
  cases d.field with
  | none => simp [fieldRank]
  | some t =>
      cases e.field with
      | none => simp [fieldRank]
      | some u => simp [fieldRank]

end Switchboard.Directive

namespace Switchboard.Filter

section Deciding

variable (concerns : Directive → Bool)

-- Whether a directive has a say by itself.
def speaks (d : Directive) : Bool := d.isPlain && concerns d

-- The last of the directives that say most.
def Decides (f : Filter) (d : Directive) : Prop :=
  ∃ before after, f = before ++ d :: after ∧ speaks concerns d = true ∧
    (∀ e ∈ before, speaks concerns e = true → e.rank ≤ d.rank) ∧
    ∀ e ∈ after, speaks concerns e = true → e.rank < d.rank

variable {concerns}

theorem Decides.most {f : Filter} {d e : Directive} (decides : Decides concerns f d) (member : e ∈ f)
    (speaking : speaks concerns e = true) : e.rank ≤ d.rank := by
  obtain ⟨before,after,rfl,_,earlier,later⟩ := decides
  rcases List.mem_append.mp member with old | rest
  · exact earlier e old speaking
  · rcases List.mem_cons.mp rest with rfl | new
    · exact le_refl _
    · exact (later e new speaking).le

theorem Decides.member {f : Filter} {d : Directive} (decides : Decides concerns f d) :
    d ∈ f ∧ speaks concerns d = true := by
  obtain ⟨before,after,rfl,speaking,_,_⟩ := decides
  exact ⟨List.mem_append_right _ List.mem_cons_self,speaking⟩

theorem decides_snoc {f : Filter} {d x : Directive} :
    Decides concerns (f ++ [x]) d ↔
      (d = x ∧ speaks concerns x = true ∧ ∀ e ∈ f, speaks concerns e = true → e.rank ≤ x.rank) ∨
        (Decides concerns f d ∧ (speaks concerns x = true → x.rank < d.rank)) := by
  constructor
  · intro decides
    obtain ⟨before,after,split,speaking,earlier,later⟩ := decides
    rcases List.eq_nil_or_concat' after with rfl | ⟨front,last,rfl⟩
    · obtain ⟨rfl,rfl⟩ := List.append_singleton_inj.mp split
      exact .inl ⟨rfl,speaking,earlier⟩
    · rw [← List.cons_append,← List.append_assoc] at split
      obtain ⟨rfl,rfl⟩ := List.append_singleton_inj.mp split
      obtain ⟨others,last⟩ := List.forall_mem_append.mp later
      exact .inr ⟨⟨before,front,rfl,speaking,earlier,others⟩,last x List.mem_cons_self⟩
  · intro either
    rcases either with ⟨rfl,speaking,most⟩ | ⟨⟨before,after,rfl,speaking,earlier,later⟩,last⟩
    · exact ⟨f,[],rfl,speaking,most,fun e member => absurd member List.not_mem_nil⟩
    · refine ⟨before,after ++ [x],by simp,speaking,earlier,?_⟩
      intro e member
      rcases List.mem_append.mp member with old | new
      · exact later e old
      · rw [List.mem_singleton.mp new]
        exact last

theorem deciding_snoc (f : Filter) (x : Directive) :
    deciding? (f ++ [x]) concerns = preferred concerns (f.deciding? concerns) x := by
  unfold deciding?
  rw [List.foldl_append]
  rfl

theorem preferred_silent {x : Directive} (silent : ¬ speaks concerns x = true) (best : Option Directive) :
    preferred concerns best x = best :=
  if_neg silent

theorem preferred_first {x : Directive} (speaking : speaks concerns x = true) :
    preferred concerns none x = some x :=
  if_pos speaking

theorem preferred_second {x : Directive} (speaking : speaks concerns x = true) (other : Directive) :
    preferred concerns (some other) x = some (if x.rank < other.rank then other else x) := by
  have second : preferred concerns (some other) x = if other.outranks x then some other else some x :=
    if_pos speaking
  rw [second]
  simp only [Directive.outranks_rank]
  split
  · rfl
  · rfl

theorem deciding_none (f : Filter) :
    f.deciding? concerns = none ↔ ∀ e ∈ f, ¬ speaks concerns e = true := by
  induction f using List.reverseRecOn with
  | nil => exact iff_of_true rfl (fun e member => absurd member List.not_mem_nil)
  | append_singleton f x ih =>
      rw [deciding_snoc]
      by_cases speaking : speaks concerns x = true
      · have last : ¬ ∀ e ∈ f ++ [x], ¬ speaks concerns e = true :=
          fun silent => silent x (List.mem_append_right _ List.mem_cons_self) speaking
        refine iff_of_false ?_ last
        cases deciding? f concerns with
        | none => rw [preferred_first speaking]; exact Option.some_ne_none _
        | some other => rw [preferred_second speaking]; exact Option.some_ne_none _
      · rw [preferred_silent speaking,ih,List.forall_mem_append,List.forall_mem_singleton]
        exact (and_iff_left speaking).symm

-- By induction over the filter from its end, as the search goes.
theorem deciding_exact (f : Filter) (d : Directive) :
    f.deciding? concerns = some d ↔ Decides concerns f d := by
  induction f using List.reverseRecOn generalizing d with
  | nil =>
      exact iff_of_false (fun found => by cases found) (fun decides => absurd decides.member.1 List.not_mem_nil)
  | append_singleton f x ih =>
      rw [deciding_snoc,decides_snoc,← ih]
      by_cases speaking : speaks concerns x = true
      · cases found : deciding? f concerns with
        | none =>
            have silent := (deciding_none f).mp found
            rw [preferred_first speaking]
            constructor
            · intro found
              cases found
              exact .inl ⟨rfl,speaking,fun e member spoken => absurd spoken (silent e member)⟩
            · intro either
              rcases either with ⟨rfl,_⟩ | ⟨⟨⟩,_⟩
              rfl
        | some other =>
            have decides := (ih other).mp found
            rw [preferred_second speaking]
            split
            · rename_i less
              constructor
              · intro found
                cases found
                exact .inr ⟨rfl,fun _ => less⟩
              · intro either
                rcases either with ⟨rfl,_,most⟩ | ⟨same,_⟩
                · exact absurd (most other decides.member.1 decides.member.2) (not_le.mpr less)
                · exact same
            · rename_i more
              constructor
              · intro found
                cases found
                refine .inl ⟨rfl,speaking,?_⟩
                exact fun e member spoken => (decides.most member spoken).trans (not_lt.mp more)
              · intro either
                rcases either with ⟨rfl,_⟩ | ⟨⟨rfl⟩,less⟩
                · rfl
                · exact absurd (less speaking) more
      · rw [preferred_silent speaking]
        constructor
        · exact fun same => .inr ⟨same,fun spoken => absurd spoken speaking⟩
        · intro either
          rcases either with ⟨_,spoken,_⟩ | ⟨same,_⟩
          · exact absurd spoken speaking
          · exact same

theorem passesPlainly_exact (f : Filter) (level : Level) :
    f.passesPlainly concerns level = true ↔
      ∃ d, Decides concerns f d ∧ level.detail ≤ detailOf d.level := by
  unfold passesPlainly
  cases found : f.deciding? concerns with
  | none =>
      refine iff_of_false Bool.false_ne_true ?_
      intro passing
      obtain ⟨d,decides,_⟩ := passing
      exact (deciding_none f).mp found d decides.member.1 decides.member.2
  | some d =>
      have own := (deciding_exact f d).mp found
      rw [decide_eq_true_iff]
      constructor
      · exact fun enough => ⟨d,own,enough⟩
      · intro passing
        obtain ⟨e,decides,enough⟩ := passing
        cases found.symm.trans ((deciding_exact f e).mpr decides)
        exact enough

end Deciding

section Detail

variable {f : Filter}

theorem inForce_mem {d : Directive} {directives : List Directive} (member : d ∈ inForce directives) :
    d ∈ directives := by
  induction directives with
  | nil => cases member
  | cons first rest ih =>
      rw [inForce] at member
      split at member
      · exact List.mem_cons_of_mem _ (ih member)
      · rcases List.mem_cons.mp member with rfl | later
        · exact List.mem_cons_self
        · exact List.mem_cons_of_mem _ (ih later)

theorem asked_most {directives : List Directive} {least detail : Nat}
    (enough : detail ≤ directives.foldl (fun most d => max most (detailOf d.level)) least) :
    detail ≤ least ∨ ∃ d ∈ directives, detail ≤ detailOf d.level := by
  induction directives generalizing least with
  | nil => exact .inl enough
  | cons d rest ih =>
      rcases ih enough with less | ⟨e,member,asked⟩
      · exact (le_max_iff.mp less).imp_right (fun asked => ⟨d,List.mem_cons_self,asked⟩)
      · exact .inr ⟨e,List.mem_cons_of_mem _ member,asked⟩

theorem detail_positive (level : Level) : 0 < level.detail := by
  cases level with
  | _ => decide

-- A line says nothing that is more detailed than some directive asks for.
theorem passes_detail {e : Event} {spans : List Span} (passing : f.passes e spans = true) :
    ∃ d ∈ f, e.level.detail ≤ detailOf d.level := by
  rcases Bool.or_eq_true_iff.mp passing with plainly | watched
  · obtain ⟨d,decides,enough⟩ := (passesPlainly_exact f e.level).mp plainly
    exact ⟨d,decides.member.1,enough⟩
  · obtain ⟨s,_,enough⟩ := List.any_eq_true.mp watched
    obtain ⟨d,member,asked⟩ :=
      (asked_most (of_decide_eq_true enough)).resolve_left (not_le.mpr (detail_positive e.level))
    exact ⟨d,inForce_mem (List.mem_of_mem_filter member),asked⟩

-- Without directives for spans the spans around an event are nothing to it.
theorem passes_plain (plain : ∀ d ∈ f, d.watches = false) (e : Event) (spans : List Span) :
    f.passes e spans = f.passesPlainly (fun d => d.concernsEvent e) e.level := by
  have none (s : Span) : f.detailIn s = 0 := by
    have unwatched : (inForce f).filter
        (fun d => d.watchesSpan && d.field.all (fun t => t.holdsIn s)) = [] := by
      apply List.filter_eq_nil_iff.mpr
      intro d member
      simp [Directive.watchesSpan,plain d (inForce_mem member)]
    rw [detailIn,unwatched]
    rfl
  have silent : spans.any (fun s => decide (e.level.detail ≤ f.detailIn s)) = false := by
    rw [List.any_eq_false]
    intro s _
    rw [none,decide_eq_true_iff]
    exact not_le.mpr (detail_positive e.level)
  rw [passes,silent,Bool.or_false]

end Detail

end Switchboard.Filter

namespace Switchboard

-- A directive that asks for a field is not passed over for one that an event has.
theorem Event.fields_named (e : Event) : ∀ field ∈ e.fields, field.1 ∈ e.fieldNames := by
  cases e with
  | decodingInput contentType | dispatching _ _ _ contentType =>
      cases contentType with
      | none => simp [fields,optionalField,fieldNames]
      | some text => simp [fields,optionalField,fieldNames]
  | _ => simp [fields,fieldNames]

theorem Span.fields_named (s : Span) : ∀ field ∈ s.fields, field.1 ∈ Span.fieldNames := by
  unfold fields
  cases s.outcome with
  | none => simp [fieldNames]
  | some outcome => simp [fieldNames]

end Switchboard

namespace Switchboard.Logging

theorem lines_detail {l : Logging} {entries : List LogEntry} {line : Line} (told : line ∈ l.lines entries) :
    ∃ d ∈ l.filter, line.level.detail ≤ detailOf d.level := by
  obtain ⟨entry,_,shown⟩ := List.mem_filterMap.mp told
  unfold line? at shown
  split at shown
  · cases shown
  · obtain ⟨passing,same⟩ := Option.ite_none_right_eq_some.mp shown
    cases same
    exact Filter.passes_detail passing

end Switchboard.Logging
