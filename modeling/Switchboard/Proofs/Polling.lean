import Switchboard.Input.LazyValue

namespace Switchboard.Polling

section Course

variable {α β : Type}

-- What happens between two polls is up to everybody else, so each poll finds a turn of its
-- own. Second comes how many operations' own functions were started on the way.
def course : Work α → List Turn → Option α × Nat
  | _,[] => (none,0)
  | work,turn :: turns =>
    match work.advance turn with
    | (.finished a,after) => (some a,after.invoked - turn.invoked)
    | (.blocked next,after) =>
      ((course next turns).1,after.invoked - turn.invoked + (course next turns).2)

def answerIn (work : Work α) (turns : List Turn) : Option α := (course work turns).1

def startsIn (work : Work α) (turns : List Turn) : Nat := (course work turns).2

theorem bind_done (work : Work α) : work.bind .done = work := by
  induction work with
  | done a => rfl
  | log event next ih | invoke next ih | ticket gate next ih | cancellation next ih =>
      simp only [Work.bind,ih]
  | drain reader next ih | isCancelled next ih => simp only [Work.bind,ih]

theorem bind_assoc {γ : Type} (work : Work α) (f : α → Work β) (g : β → Work γ) :
    (work.bind f).bind g = work.bind (fun a => (f a).bind g) := by
  induction work with
  | done a => rfl
  | log event next ih | invoke next ih | ticket gate next ih | cancellation next ih =>
      simp only [Work.bind,ih]
  | drain reader next ih | isCancelled next ih => simp only [Work.bind,ih]

theorem advance_bind (work : Work α) (f : α → Work β) (turn : Turn) :
    (work.bind f).advance turn =
      match work.advance turn with
      | (.finished a,after) => (f a).advance after
      | (.blocked next,after) => (.blocked (next.bind f),after) := by
  induction work generalizing turn with
  | done a => rfl
  | log event next ih => exact ih (turn.logged event)
  | invoke next ih => exact ih turn.invocation
  | drain reader next ih =>
      simp only [Work.bind,Work.advance]
      cases reader.poll with
      | blocked reader => rfl
      | ready result => exact ih result turn.released
  | ticket gate next ih =>
      simp only [Work.bind,Work.advance]
      split
      · exact ih (turn.withoutTicket gate)
      · rfl
  | cancellation next ih =>
      simp only [Work.bind,Work.advance]
      split
      · exact ih turn
      · rfl
  | isCancelled next ih => exact ih turn.cancelled turn

theorem released_tickets (turn : Turn) : turn.released.tickets = turn.tickets := by
  unfold Turn.released; split <;> rfl

theorem released_cancelled (turn : Turn) : turn.released.cancelled = turn.cancelled := by
  unfold Turn.released; split <;> rfl

theorem released_invoked (turn : Turn) : turn.released.invoked = turn.invoked := by
  unfold Turn.released; split <;> rfl

-- Work looks at nothing of a turn but tickets and cancellation, and only adds to the count.
theorem advance_alike (work : Work α) (one two : Turn) (tickets : one.tickets = two.tickets)
    (cancelled : one.cancelled = two.cancelled) :
    (work.advance one).1 = (work.advance two).1 ∧
      ∃ started, (work.advance one).2.invoked = one.invoked + started ∧
        (work.advance two).2.invoked = two.invoked + started := by
  induction work generalizing one two with
  | done a => exact ⟨rfl,0,rfl,rfl⟩
  | log event next ih => exact ih (one.logged event) (two.logged event) tickets cancelled
  | invoke next ih =>
      obtain ⟨same,started,left,right⟩ := ih one.invocation two.invocation tickets cancelled
      refine ⟨same,started+1,left.trans ?_,right.trans ?_⟩ <;> simp only [Turn.invocation] <;> omega
  | drain reader next ih =>
      simp only [Work.advance]
      cases reader.poll with
      | blocked reader => exact ⟨rfl,0,rfl,rfl⟩
      | ready result =>
          have next := ih result one.released two.released
            (by rw [released_tickets,released_tickets,tickets])
            (by rw [released_cancelled,released_cancelled,cancelled])
          rwa [released_invoked,released_invoked] at next
  | ticket gate next ih =>
      simp only [Work.advance,tickets]
      split
      · exact ih (one.withoutTicket gate) (two.withoutTicket gate)
          (by simp only [Turn.withoutTicket,tickets]) cancelled
      · exact ⟨rfl,0,rfl,rfl⟩
  | cancellation next ih =>
      simp only [Work.advance,cancelled]
      split
      · exact ih one two tickets cancelled
      · exact ⟨rfl,0,rfl,rfl⟩
  | isCancelled next ih =>
      simp only [Work.advance,cancelled]
      exact ih two.cancelled one two tickets cancelled

-- A step within a poll may start functions of its own; the rest of the poll goes on from there.
theorem course_step {work next : Work α} {turn after : Turn} (turns : List Turn) (started : Nat)
    (step : work.advance turn = next.advance after) (count : after.invoked = turn.invoked + started)
    (tickets : after.tickets = turn.tickets) (cancelled : after.cancelled = turn.cancelled) :
    course work (turn :: turns) =
      ((course next (turn :: turns)).1,started + (course next (turn :: turns)).2) := by
  obtain ⟨same,more,left,right⟩ := advance_alike next after turn tickets cancelled
  have now : (next.advance after).2.invoked - turn.invoked =
      started + ((next.advance turn).2.invoked - turn.invoked) := by omega
  unfold course
  rw [step]
  revert same now
  cases next.advance after with
  | mk progress later =>
      cases next.advance turn with
      | mk other last =>
          intro same now
          cases same
          cases progress with
          | finished a => simp only [now]
          | blocked waiting => simp only [now,Nat.add_assoc]

@[simp] theorem course_log (event : Event) (next : Work α) (turns : List Turn) :
    course (.log event next) turns = course next turns := by
  cases turns with
  | nil => rfl
  | cons turn turns =>
      have step : (Work.log event next).advance turn = next.advance (turn.logged event) := rfl
      rw [course_step turns 0 step rfl rfl rfl,Nat.zero_add]

theorem course_invoke (next : Work α) (turn : Turn) (turns : List Turn) :
    course (.invoke next) (turn :: turns) =
      ((course next (turn :: turns)).1,1 + (course next (turn :: turns)).2) := by
  have step : (Work.invoke next).advance turn = next.advance turn.invocation := rfl
  exact course_step turns 1 step rfl rfl rfl

theorem course_done (a : α) (turns : List Turn) :
    course (.done a) turns = (if turns = [] then none else some a,0) := by
  cases turns with
  | nil => rfl
  | cons turn turns => simp [course,Work.advance]

theorem answer_done (a : α) (turns : List Turn) (n : Nat) :
    answerIn (.done a) (turns.drop n) = if n < turns.length then some a else none := by
  rw [answerIn,course_done]
  by_cases there : n < turns.length
  · simp [there]
  · simp [there,Nat.le_of_not_lt there]

theorem course_map (work : Work α) (f : α → β) (turns : List Turn) :
    course (work.bind (fun a => .done (f a))) turns = ((course work turns).1.map f,(course work turns).2) := by
  induction turns generalizing work with
  | nil => rfl
  | cons turn turns ih =>
      unfold course
      rw [advance_bind]
      cases work.advance turn with
      | mk progress after =>
          cases progress with
          | finished a => rfl
          | blocked next => simp only [ih]

-- Nothing that a job can do starts another function.
theorem job_advance (job : Job α) (turn : Turn) :
    ((Work.ofJob job).advance turn).2.invoked = turn.invoked ∧
      ∀ next, ((Work.ofJob job).advance turn).1 = .blocked next → ∃ rest, next = Work.ofJob rest := by
  induction job generalizing turn with
  | done a => exact ⟨rfl,fun next blocked => by cases blocked⟩
  | ticket gate rest ih =>
      simp only [Work.ofJob,Work.advance]
      split
      · exact ih (turn.withoutTicket gate)
      · exact ⟨rfl,fun next blocked => by cases blocked; exact ⟨.ticket gate rest,rfl⟩⟩
  | cancellation rest ih =>
      simp only [Work.ofJob,Work.advance]
      split
      · exact ih turn
      · exact ⟨rfl,fun next blocked => by cases blocked; exact ⟨.cancellation rest,rfl⟩⟩
  | isCancelled rest ih => exact ih turn.cancelled turn

theorem course_job (job : Job α) (turns : List Turn) : (course (Work.ofJob job) turns).2 = 0 := by
  induction turns generalizing job with
  | nil => rfl
  | cons turn turns ih =>
      obtain ⟨quiet,waiting⟩ := job_advance job turn
      rw [course]
      cases ran : (Work.ofJob job).advance turn with
      | mk progress after =>
          rw [ran] at quiet waiting
          have none : after.invoked - turn.invoked = 0 := Nat.sub_eq_zero_of_le (Nat.le_of_eq quiet)
          cases progress with
          | finished a => exact none
          | blocked next =>
              obtain ⟨rest,rfl⟩ := waiting next rfl
              simp [none,ih rest]

end Course

-- How often one comes for a body and finds that it is not all there yet.
def waits : List Chunk → Nat
  | [] => 0
  | .data [] :: _ => 0
  | .data (_ :: _) :: rest => waits rest
  | .pending :: rest => waits rest + 1
  | .interrupted :: rest => waits rest
  | .failure _ :: _ => 0

theorem pollFrom_waits (gathered : List UInt8) (chunks : List Chunk) :
    (waits chunks = 0 ∧
      Reader.pollFrom gathered chunks = .ready (Reader.contentsFrom gathered chunks)) ∨
    ∃ reader : Reader, waits chunks = waits reader.chunks + 1 ∧
      Reader.pollFrom gathered chunks = .blocked reader ∧
      reader.contents = Reader.contentsFrom gathered chunks := by
  fun_induction waits chunks generalizing gathered with
  | case1 => exact .inl ⟨rfl,rfl⟩
  | case2 rest => exact .inl ⟨rfl,rfl⟩
  | case3 b bs rest ih => exact ih (gathered ++ b :: bs)
  | case4 rest => exact .inr ⟨⟨gathered,rest⟩,rfl,rfl,rfl⟩
  | case5 rest ih => exact ih gathered
  | case6 message rest => exact .inl ⟨rfl,rfl⟩

theorem course_drain {α : Type} (reader : Reader) (next : Except String (List UInt8) → Work α)
    (turns : List Turn) :
    course (.drain reader next) turns = course (next reader.contents) (turns.drop (waits reader.chunks)) := by
  induction turns generalizing reader with
  | nil => simp [course]
  | cons turn turns ih =>
      rcases pollFrom_waits reader.gathered reader.chunks with ⟨now,polled⟩ | ⟨later,more,polled,same⟩
      · have step : (Work.drain reader next).advance turn = (next reader.contents).advance turn.released := by
          simp only [Work.advance,Reader.poll,polled,Reader.contents]
        rw [course_step turns 0 step (released_invoked turn) (released_tickets turn)
          (released_cancelled turn),now,Nat.zero_add,List.drop_zero]
      · have step : (Work.drain reader next).advance turn = (.blocked (.drain later next),turn) := by
          simp only [Work.advance,Reader.poll,polled]
        have contents : later.contents = reader.contents := same
        rw [course,step,more,List.drop_succ_cons,← contents,← ih later]
        simp

end Switchboard.Polling

namespace Switchboard.LazyValue
open Polling

def waits (v : LazyValue) : Nat :=
  match v.source with
  | .buffered _ => 0
  | .streaming _ _ reader => Polling.waits reader.chunks

variable {α : Type}

theorem course_intoPayload (v : LazyValue) (next : Except SerializationError Payload → Work α)
    (turns : List Turn) :
    course (v.intoPayload.bind next) turns = course (next v.payload) (turns.drop v.waits) := by
  obtain ⟨serializer,source⟩ := v
  cases source with
  | buffered payload => rfl
  | streaming contentType headers reader =>
      exact course_drain reader (fun result => next (gathered contentType headers result)) turns

theorem course_tellRefusal (s : Serializer) (p : Payload) (next : Work α) (turns : List Turn) :
    course ((tellRefusal s p).bind (fun _ => next)) turns = course next turns := by
  unfold tellRefusal
  cases s.refusedType? p with
  | none => rfl
  | some given => exact course_log (.noSerializer given) next turns

-- What a consumer says on the way does not matter to what comes after it.
theorem course_consume (v : LazyValue) (t : Ty) (next : Except SerializationError t.Value → Work α)
    (turns : List Turn) :
    course ((v.consume t).bind next) turns = course (next (v.consumed t)) (turns.drop v.waits) := by
  change course ((v.intoPayload.bind _).bind next) turns = _
  rw [bind_assoc,course_intoPayload,consumed]
  cases v.payload with
  | error e => rfl
  | ok p =>
      change course (.log _ (((tellRefusal v.serializer p).bind _).bind next)) _ = _
      rw [course_log,bind_assoc]
      exact course_tellRefusal v.serializer p (next (v.serializer.fromPayload t p)) (turns.drop v.waits)

theorem answer_intoPayload (v : LazyValue) (turns : List Turn) :
    answerIn v.intoPayload turns = if v.waits < turns.length then some v.payload else none := by
  have all := course_intoPayload v .done turns
  rw [bind_done] at all
  rw [answerIn,all]
  exact answer_done v.payload turns v.waits

theorem answer_consume (v : LazyValue) (t : Ty) (turns : List Turn) :
    answerIn (v.consume t) turns = if v.waits < turns.length then some (v.consumed t) else none := by
  have all := course_consume v t .done turns
  rw [bind_done] at all
  rw [answerIn,all]
  exact answer_done (v.consumed t) turns v.waits

end Switchboard.LazyValue
