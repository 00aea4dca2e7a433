import Switchboard.Proofs.Stepping

namespace Switchboard.Outcomes
open Stepping

-- An operation may speak of a completion too, but only the layer does so from within a span
-- that has its outcome already.
def told? : LogEntry → Option String
  | .event (.complete label) spans =>
    if spans.getLast?.bind Span.outcome = some label then some label else none
  | _ => none

def closed? : LogEntry → Option String
  | .closed span => span.outcome
  | .event _ _ => none

def Unended (spans : List Span) : Prop := ∀ span ∈ spans, span.outcome = none

theorem unended_nil : Unended [] := by
  intro span member
  cases member

def endedAs (span : Span) (label : String) : Span := { span with outcome := some label }

-- A way to find outcomes in the log: one for each end of a measured call, and none elsewhere.
structure Finds (f : LogEntry → Option String) : Prop where
  event : ∀ event spans, Unended spans → f (.event event spans) = none
  closed : ∀ span, span.outcome = none → f (.closed span) = none
  ended : ∀ label outer span,
    [LogEntry.event (.complete label) (outer ++ [endedAs span label]),
      .closed (endedAs span label)].filterMap f = [label]

theorem told_finds : Finds told? := by
  refine ⟨?_,fun span unended => rfl,?_⟩
  · intro event spans unended
    cases event with
    | complete label =>
        have silent : spans.getLast?.bind Span.outcome ≠ some label := by
          intro said
          obtain ⟨span,last,outcome⟩ := Option.bind_eq_some_iff.mp said
          rw [unended span (List.mem_of_getLast? last)] at outcome
          cases outcome
        exact if_neg silent
    | _ => rfl
  · intro label outer span
    simp [told?,endedAs]

theorem closed_finds : Finds closed? := by
  refine ⟨fun event spans unended => rfl,fun span unended => unended,?_⟩
  intro label outer span
  rfl

section Call

variable {f : LogEntry → Option String} (finds : Finds f)

include finds

theorem finds_told {spans : List Span} (unended : Unended spans) (events : List Event) :
    (toldIn spans events).filterMap f = [] := by
  apply List.filterMap_eq_nil_iff.mpr
  intro entry member
  obtain ⟨event,_,same⟩ := List.mem_map.mp member
  rw [← same]
  exact finds.event event spans unended

theorem finish_outcomes (label : String) (frames : List Frame) (outer : List Span) (w : World) :
    (finish label frames outer w).log.filterMap f =
      w.log.filterMap f ++ List.replicate (spansOf frames).length label := by
  induction frames generalizing outer with
  | nil => simp [finish,spansOf]
  | cons frame inner ih =>
      cases frame with
      | measured span =>
          have log : (finish label (.measured span :: inner) outer w).log =
              (finish label inner (outer ++ [span]) w).log ++
                [.event (.complete label) (outer ++ [endedAs span label]),.closed (endedAs span label)] := by
            simp [finish,World.logged,endedAs]
          rw [log,List.filterMap_append,ih,finds.ended,spansOf,List.length_cons,List.append_assoc,
            List.replicate_succ']
      | slot pool => exact ih outer

theorem abandon_outcomes {frames : List Frame} (unended : Unended (spansOf frames)) (w : World) :
    (abandon frames w).log.filterMap f = w.log.filterMap f := by
  induction frames with
  | nil => rfl
  | cons frame inner ih =>
      cases frame with
      | measured span =>
          obtain ⟨first,others⟩ := List.forall_mem_cons.mp unended
          have log : (abandon (.measured span :: inner) w).log = (abandon inner w).log ++ [.closed span] := rfl
          rw [log,List.filterMap_append,ih others]
          simp [finds.closed span first]
      | slot pool => exact ih unended

theorem drop_outcomes {c : Call} (unended : Unended (spansOf c.frames)) (w : World) :
    (c.drop w).log.filterMap f = w.log.filterMap f := by
  rw [Call.drop,abandon_outcomes finds unended,releasing_log]

theorem givenUp_outcomes {c : Option Call}
    (unended : ∀ earlier, c = some earlier → Unended (spansOf earlier.frames)) (w : World) :
    (givenUp c w).log.filterMap f = w.log.filterMap f := by
  cases c with
  | none => rfl
  | some earlier => exact drop_outcomes finds (unended earlier rfl) w

theorem enter_outcomes (h : Handler) (r : Request) (layers : List Layer) (spans : List Span)
    (unended : Unended spans) (w : World) :
    (enter h r layers spans w).world.log.filterMap f = w.log.filterMap f := by
  induction layers generalizing spans w with
  | nil => rfl
  | cons layer rest ih =>
      cases layer with
      | metrics =>
          have inner : Unended (spans ++ [r.span]) := by
            intro span member
            rcases List.mem_append.mp member with old | new
            · exact unended span old
            · rw [List.mem_singleton.mp new]; rfl
          exact ih (spans ++ [r.span]) inner w
      | shed pool =>
          unfold enter
          split
          · change (w.log ++ toldIn spans [.rejecting r.service r.operation]).filterMap f = _
            rw [List.filterMap_append,finds_told finds unended,List.append_nil]
          · exact ih spans unended (w.takeSlot pool)

theorem call_outcomes (p : Pipe) (r : Request) (token : Token) (w : World) :
    (p.call r token w).2.log.filterMap f = w.log.filterMap f := by
  have entered := enter_outcomes finds p.handler r p.layers [] unended_nil w
  unfold Pipe.call
  cases core : (enter p.handler r p.layers [] w).core with
  | running work => simpa [core] using entered
  | shed => simpa [core,releasing_log] using entered

-- A call that waits has no outcome yet; one that ends has its own, once for each span of its own.
theorem poll_outcomes {c : Call} (unended : Unended (spansOf c.frames)) (w : World) :
    (∃ next after, c.poll w = (.waiting next,after) ∧ next.frames = c.frames ∧
      after.log.filterMap f = w.log.filterMap f) ∨
    ∃ response after, c.poll w = (.answered response,after) ∧
      after.log.filterMap f =
        w.log.filterMap f ++ List.replicate (spansOf c.frames).length (outcomeLabel response) := by
  rcases poll_told c w with ⟨next,after,events,polled,frames,log⟩ | ⟨response,last,events,polled,log⟩
  · refine .inl ⟨next,after,polled,frames,?_⟩
    rw [log,List.filterMap_append,finds_told finds unended,List.append_nil]
  · refine .inr ⟨response,_,polled,?_⟩
    rw [finish_outcomes finds,log,List.filterMap_append,finds_told finds unended,List.append_nil]

end Call

def Once (c : Call) : Prop := ∃ span, spansOf c.frames = [span] ∧ span.outcome = none

theorem once_unended {c : Call} (once : Once c) : Unended (spansOf c.frames) := by
  obtain ⟨span,spans,unended⟩ := once
  rw [spans]
  intro other member
  rw [List.mem_singleton.mp member]
  exact unended

-- Every pipe of the session measures once, on the outside.
structure Measured (s : Session) : Prop where
  pipes : s.pipes.All (fun p => ∃ pool, p.layers = [.metrics,.shed pool])
  calls : s.calls.All Once

theorem measured_call {p : Pipe} (layers : ∃ pool, p.layers = [.metrics,.shed pool]) (r : Request)
    (token : Token) (w : World) : Once (p.call r token w).1 := by
  obtain ⟨pool,same⟩ := layers
  refine ⟨r.span,?_,rfl⟩
  unfold Pipe.call
  rw [same]
  by_cases full : w.free pool = 0
  · simp [enter,full,spansOf]
  · simp [enter,full,spansOf]

section Step

variable {s t : Session} {step : Step} {answer : Answer}

theorem does_measured (does : Does s step answer t) (plain : ∀ id names, step ≠ .stack id names)
    (measured : Measured s) : Measured t := by
  obtain ⟨pipes,calls⟩ := measured
  cases does with
  | idle _ _ _ sameCalls samePipes => exact ⟨samePipes ▸ pipes,sameCalls ▸ calls⟩
  | unknown | unpolled | undropped => exact ⟨pipes,calls⟩
  | layered => exact ⟨pipes,calls⟩
  | pipelined => exact ⟨SortedMap.all_insert pipes _ ⟨_,rfl⟩,calls⟩
  | stacked => exact absurd rfl (plain _ _)
  | cloned found => exact ⟨SortedMap.all_insert pipes _ (SortedMap.all_found pipes found),calls⟩
  | @called key name r token p _ found =>
      obtain ⟨tokens,same⟩ := tokenFor_same s token
      refine ⟨?_,SortedMap.all_insert calls _ (measured_call (SortedMap.all_found pipes found) _ _ _)⟩
      change (s.tokenFor token).2.pipes.All _
      rw [same]
      exact pipes
  | waited found polled =>
      refine ⟨pipes,SortedMap.all_insert calls _ ?_⟩
      unfold Once
      rw [waiting_frames polled]
      exact SortedMap.all_found calls found
  | ended | dropped => exact ⟨pipes,SortedMap.all_erase calls _⟩

theorem does_outcomes {f : LogEntry → Option String} (finds : Finds f) (does : Does s step answer t)
    (measured : Measured s) :
    t.world.log.filterMap f = s.world.log.filterMap f ++ (response? answer).toList.map outcomeLabel := by
  have unended : ∀ {key c}, s.calls.find? key = some c → Unended (spansOf c.frames) :=
    fun found => once_unended (SortedMap.all_found measured.calls found)
  cases does with
  | idle events _ quiet _ _ _ _ log =>
      rw [log,quiet,List.filterMap_append,finds_told finds unended_nil]
      rfl
  | unknown | unpolled | undropped => exact (List.append_nil _).symm
  | layered | pipelined | stacked | cloned => exact (List.append_nil _).symm
  | @called key name r token p _ found =>
      obtain ⟨tokens,same⟩ := tokenFor_same s token
      have made := call_outcomes finds p r (s.tokenFor token).1 (s.tokenFor token).2.world
      change (givenUp _ _).log.filterMap f = _
      rw [givenUp_outcomes finds (fun earlier there => unended there),callOn,made,same]
      exact (List.append_nil _).symm
  | waited found polled =>
      rcases poll_outcomes finds (unended found) s.world with ⟨_,_,again,_,log⟩ | ⟨_,_,again,_⟩
      · cases polled.symm.trans again
        exact log.trans (List.append_nil _).symm
      · cases polled.symm.trans again
  | @ended key c _ _ _ _ found polled =>
      obtain ⟨span,spans,_⟩ := SortedMap.all_found measured.calls found
      rcases poll_outcomes finds (unended found) s.world with ⟨_,_,again,_⟩ | ⟨_,_,again,log⟩
      · cases polled.symm.trans again
      · cases polled.symm.trans again
        rw [spans] at log
        exact log
  | dropped found =>
      change (Call.drop _ _).log.filterMap f = _
      rw [drop_outcomes finds (unended found)]
      exact (List.append_nil _).symm

end Step

def outcomes (f : LogEntry → Option String) (answers : List (Answer × List LogEntry)) : List String :=
  answers.flatMap (fun answer => answer.2.filterMap f)

def completed (answers : List (Answer × List LogEntry)) : List Response :=
  answers.filterMap (fun answer => response? answer.1)

theorem run_outcomes {f : LogEntry → Option String} (finds : Finds f) {s : Session} (steps : List Step)
    (plain : ∀ id names, Step.stack id names ∉ steps) (measured : Measured s) :
    outcomes f (s.run steps).1 = (completed (s.run steps).1).map outcomeLabel := by
  induction steps generalizing s with
  | nil => rfl
  | cons step rest ih =>
      have does := stepLogged_does s step
      have also : Measured (unlogged s) := ⟨measured.pipes,measured.calls⟩
      have here : (s.stepLogged step).2.1.filterMap f =
          (response? (s.stepLogged step).1).toList.map outcomeLabel := does_outcomes finds does also
      have next : Measured (s.stepLogged step).2.2 :=
        does_measured does (fun id names same => plain id names (same ▸ List.mem_cons_self)) also
      have later := ih (fun id names member => plain id names (List.mem_cons_of_mem _ member)) next
      unfold outcomes completed at later ⊢
      simp only [Session.run,List.flatMap_cons,List.filterMap_cons,here,later]
      cases response? (s.stepLogged step).1 with
      | none => rfl
      | some response => rfl

end Switchboard.Outcomes
