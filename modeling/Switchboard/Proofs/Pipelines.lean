import Switchboard.Proofs.Dispatching
import Switchboard.Proofs.Faithful
import Switchboard.Proofs.Outcomes
import Switchboard.Proofs.Shedding

namespace Switchboard.Pipelines
open Outcomes Shedding Slots Stepping

def pipeline (h : Handler) (pool : Nat) : Pipe := ⟨h,[.metrics,.shed pool]⟩

-- It has nothing to run and nothing of the input.
def refused (span : Span) (token : Token) : Call := ⟨[.measured span],.shed,false,token⟩

def accepted (h : Handler) (pool : Nat) (r : Request) (token : Token) : Call :=
  ⟨[.measured r.span,.slot pool],.running (h.start r.service r.operation r.input r.options),
    r.input.isStreaming,token⟩

-- The calls that were let through and are neither answered nor given up.
def admitted (pool : Nat) (history : List Step) : List String :=
  ((ledger pool .empty .empty history).entries.filter (fun entry => entry.2 ≠ 0)).map Prod.fst

section Request

variable (h : Handler) (pool : Nat) (r : Request) (token : Token)

theorem pipeline_call (w : World) :
    (pipeline h pool).call r token w =
      if w.free pool = 0 then
        (refused r.span token,
          (w.logged (.event (.rejecting r.service r.operation) [r.span])).releasing r.input.isStreaming)
      else (accepted h pool r token,w.takeSlot pool) := by
  unfold Pipe.call pipeline
  by_cases full : w.free pool = 0
  · simp [enter,full,refused]
  · simp [enter,full,accepted]

theorem refused_poll (span : Span) (w : World) :
    ∃ log, (refused span token).poll w = (.answered (.error .overloaded),{ w with log := log }) :=
  ⟨_,rfl⟩

theorem refused_answer (span : Span) (worlds : List World) :
    answerIn (refused span token) worlds = worlds.head?.map (fun _ => .error .overloaded) := by
  cases worlds with
  | nil => rfl
  | cons w rest => rfl

-- What a look at the world shows to work that holds no reader.
def glance (w : World) : Turn := ⟨w.tickets,w.isCancelled token,false,w.drops,w.invoked,[]⟩

theorem running_answer (frames : List Frame) (work : Work Response) (holds : Bool) (worlds : List World) :
    answerIn ⟨frames,.running work,holds,token⟩ worlds = Polling.answerIn work (worlds.map (glance token)) := by
  induction worlds generalizing work holds with
  | nil => rfl
  | cons w rest ih =>
      have same := (Polling.advance_alike work
        (Call.turn ⟨frames,.running work,holds,token⟩ w) (glance token w) rfl rfl).1
      rw [List.map_cons,Polling.answerIn,Polling.course,answerIn]
      unfold Call.poll
      dsimp only
      revert same
      cases work.advance (Call.turn ⟨frames,.running work,holds,token⟩ w) with
      | mk progress turn =>
          cases work.advance (glance token w) with
          | mk other last =>
              intro same
              cases same
              cases progress with
              | finished response => rfl
              | blocked next => exact ih next turn.holdsReader

end Request

-- One step of the name that is followed: a look at its call, or the end of it.
def look (w : World) (later : List World × Option Response) : Answer → List World × Option Response
  | .answered response _ _ => ([w],some response)
  | .waiting _ _ => (w :: later.1,later.2)
  | .unknownName => later
  | _ => ([],none)

-- The worlds in which the call under a name is polled, up to its answer, as far as it is not
-- given up before.
def followed (key : String) : Session → List Step → List World × Option Response
  | _,[] => ([],none)
  | s,step :: rest =>
    if concerns? step = some key then
      look s.world (followed key (s.stepLogged step).2.2 rest) (s.stepLogged step).1
    else followed key (s.stepLogged step).2.2 rest

theorem followed_answer {key : String} {s : Session} {c : Call} (held : s.calls.find? key = some c)
    (steps : List Step) : (followed key s steps).2 = answerIn c (followed key s steps).1 := by
  induction steps generalizing s c with
  | nil => rfl
  | cons step rest ih =>
      have does := stepLogged_does s step
      have apart : ∀ {other : String}, other ≠ key → ¬ some other = some key :=
        fun differs same => differs (Option.some.inj same)
      unfold followed
      generalize (s.stepLogged step).1 = answer at does ⊢
      generalize (s.stepLogged step).2.2 = t at does ⊢
      cases does with
      | idle _ apart _ calls =>
          rw [apart]
          exact ih (calls ▸ held)
      | unknown =>
          split
          · exact ih held
          · exact ih held
      | @unpolled other missing | @undropped other _ missing =>
          have differs : other ≠ key := by
            intro same
            subst same
            cases missing.symm.trans held
          rw [concerns?,if_neg (apart differs)]
          exact ih held
      | layered | pipelined | stacked | cloned => exact ih held
      | @called other name r token p _ found =>
          by_cases same : other = key
          · rw [concerns?,if_pos (congrArg some same)]
            rfl
          · rw [concerns?,if_neg (apart same)]
            exact ih ((SortedMap.find?_insert_other same _).trans held)
      | @waited other _ next _ _ _ found polled =>
          by_cases same : other = key
          · subst same
            cases found.symm.trans held
            have waiting : (c.poll s.world).1 = .waiting next := by rw [← poll_unlogged,polled]
            rw [concerns?,if_pos rfl,look]
            rw [answerIn,waiting]
            exact ih ((SortedMap.find?_insert _ _ _ _).trans (if_pos rfl))
          · rw [concerns?,if_neg (apart same)]
            exact ih ((SortedMap.find?_insert_other same _).trans held)
      | @ended other _ response _ _ _ found polled =>
          by_cases same : other = key
          · subst same
            cases found.symm.trans held
            have answered : (c.poll s.world).1 = .answered response := by rw [← poll_unlogged,polled]
            rw [concerns?,if_pos rfl,look]
            rw [answerIn,answered]
          · rw [concerns?,if_neg (apart same)]
            exact ih ((SortedMap.find?_erase_other same).trans held)
      | @dropped other _ _ found =>
          by_cases same : other = key
          · rw [concerns?,if_pos (congrArg some same)]
            rfl
          · rw [concerns?,if_neg (apart same)]
            exact ih ((SortedMap.find?_erase_other same).trans held)

-- A layer of one's own can never be of the pipeline's pool, so the pipeline shares it with
-- its clones only.
structure Reserved (h : Handler) (pool : Nat) (s : Session) : Prop where
  pipes : s.pipes.All (fun p => .shed pool ∈ p.layers → p = pipeline h pool)
  layers : s.layers.All (· ≠ pool)
  calls : s.calls.All (fun c => held pool c.frames ≤ 1)

theorem enter_slot {h : Handler} {r : Request} {layers : List Layer} {spans : List Span} {w : World}
    {pool : Nat} (member : .slot pool ∈ (enter h r layers spans w).frames) : .shed pool ∈ layers := by
  induction layers generalizing spans w with
  | nil => cases member
  | cons layer rest ih =>
      cases layer with
      | metrics =>
          rcases List.mem_cons.mp member with same | inner
          · cases same
          · exact List.mem_cons_of_mem _ (ih inner)
      | shed own =>
          unfold enter at member
          split at member
          · cases member
          · rcases List.mem_cons.mp member with same | inner
            · cases same
              exact List.mem_cons_self
            · exact List.mem_cons_of_mem _ (ih inner)

theorem call_held {h : Handler} {pool : Nat} {p : Pipe}
    (own : .shed pool ∈ p.layers → p = pipeline h pool) (r : Request) (token : Token) (w : World) :
    held pool (p.call r token w).1.frames ≤ 1 := by
  by_cases layer : .shed pool ∈ p.layers
  · rw [own layer,pipeline_call]
    split
    · simp [refused]
    · simp [accepted]
  · have unheld : held pool (p.call r token w).1.frames = 0 := by
      apply List.count_eq_zero.mpr
      intro member
      rw [call_frames] at member
      exact layer (enter_slot member)
    rw [unheld]
    exact Nat.zero_le 1

section Step

variable {h : Handler} {pool : Nat}

theorem does_reserved {s t : Session} {step : Step} {answer : Answer} (does : Does s step answer t)
    (bound : t.world.pools.length ≤ pool ∨ pool < s.world.pools.length) (reserved : Reserved h pool s) :
    Reserved h pool t := by
  obtain ⟨pipes,layers,calls⟩ := reserved
  have fresh : t.world.pools.length = s.world.pools.length + 1 → s.world.pools.length ≠ pool := by omega
  cases does with
  | idle _ _ _ sameCalls samePipes sameLayers =>
      exact ⟨samePipes ▸ pipes,sameLayers ▸ layers,sameCalls ▸ calls⟩
  | unknown | unpolled | undropped => exact ⟨pipes,layers,calls⟩
  | layered =>
      exact ⟨pipes,SortedMap.all_insert layers _ (fresh (by simp [World.newPool])),calls⟩
  | pipelined =>
      refine ⟨SortedMap.all_insert pipes _ ?_,layers,calls⟩
      intro member
      have same : pool = s.world.pools.length := by simpa using member
      exact absurd same.symm (fresh (by simp [World.newPool]))
  | @stacked _ _ names _ known =>
      refine ⟨SortedMap.all_insert pipes _ ?_,layers,calls⟩
      intro member
      obtain ⟨name,_,found⟩ := mapM_mem known member
      cases name with
      | metrics => cases found
      | pool other =>
          obtain ⟨own,held,same⟩ := Option.map_eq_some_iff.mp found
          cases same
          exact absurd rfl (SortedMap.all_found layers held)
  | cloned found => exact ⟨SortedMap.all_insert pipes _ (SortedMap.all_found pipes found),layers,calls⟩
  | @called key name r token p _ found =>
      obtain ⟨tokens,same⟩ := tokenFor_same s token
      rw [same]
      exact ⟨pipes,layers,SortedMap.all_insert calls _ (call_held (SortedMap.all_found pipes found) _ _ _)⟩
  | waited found polled =>
      refine ⟨pipes,layers,SortedMap.all_insert calls _ ?_⟩
      rw [waiting_frames polled]
      exact SortedMap.all_found calls found
  | ended | dropped => exact ⟨pipes,layers,SortedMap.all_erase calls _⟩

theorem run_pools {s : Session} (grounded : Grounded s) (steps : List Step) :
    s.world.pools.length ≤ (s.run steps).2.world.pools.length := by
  induction steps generalizing s with
  | nil => exact Nat.le_refl _
  | cons step rest ih =>
      have flow := stepLogged_flow grounded step
      exact Nat.le_trans (flow_pools flow) (ih (flow_grounded flow grounded))

theorem run_reserved {s : Session} (grounded : Grounded s) (steps : List Step)
    (bound : (s.run steps).2.world.pools.length ≤ pool ∨ pool < s.world.pools.length)
    (reserved : Reserved h pool s) : Reserved h pool (s.run steps).2 := by
  induction steps generalizing s with
  | nil => exact reserved
  | cons step rest ih =>
      have flow := stepLogged_flow grounded step
      have next := flow_grounded flow grounded
      have grown := flow_pools flow
      have later : (s.stepLogged step).2.2.world.pools.length ≤ (s.run (step :: rest)).2.world.pools.length :=
        run_pools next rest
      have here : Reserved h pool (unlogged s) := ⟨reserved.pipes,reserved.layers,reserved.calls⟩
      apply ih next
      · exact bound.imp_right (fun inside => Nat.lt_of_lt_of_le inside grown)
      · apply does_reserved (stepLogged_does s step) _ here
        exact bound.imp_left (fun outside => Nat.le_trans later outside)

-- A call passes the layer or it does not, so admissions and calls that have one are as many.
theorem admitted_count {history : List Step} (reserved : Reserved h pool (Session.empty.run history).2) :
    (admitted pool history).length = inFlight pool history := by
  have whole : ledger pool .empty .empty history = weights pool (Session.empty.run history).2 :=
    ledger_exact pool .empty history
  have light : ∀ entry ∈ (ledger pool .empty .empty history).entries, id entry.2 ≤ 1 := by
    rw [whole]
    intro entry member
    obtain ⟨call,kept,same⟩ := List.mem_map.mp member
    rw [← same]
    exact reserved.calls call kept
  rw [admitted,List.length_map]
  exact (Entries.total_count light).symm

theorem pipeline_opened {s : Session} (compiled : s.handler = some h) (id : String) (m : Nat) :
    (s.stepLogged (.pipeline id m)).2.2 =
      { s with
        world := { (s.world.newPool m).2 with log := [] }
        pipes := s.pipes.insert id (pipeline h s.world.pools.length) } := by
  simp only [Session.stepLogged,Session.step,Session.pipeline,compiled]
  rfl

theorem releasing_invoked (w : World) (held : Bool) : (w.releasing held).invoked = w.invoked := by
  cases held with
  | false => rfl
  | true => rfl

theorem givenUp_invoked (c : Option Call) (w : World) : (givenUp c w).invoked = w.invoked := by
  have abandoned : ∀ (frames : List Frame) (w : World), (abandon frames w).invoked = w.invoked := by
    intro frames w
    induction frames with
    | nil => rfl
    | cons frame inner ih =>
        cases frame with
        | measured span => exact ih
        | slot pool => exact ih
  cases c with
  | none => rfl
  | some earlier => exact (abandoned _ _).trans (releasing_invoked w earlier.holdsReader)

-- Whether a call gets through is settled when it is made, by how many are in flight then.
-- Neither kind of call starts an operation's own function before it is polled.
theorem called_pipeline {s : Session} {m count : Nat} (balance : s.world.free pool + count = m)
    {name : String} (found : s.pipes.find? name = some (pipeline h pool))
    (key : String) (r : Request) (token : Option String) :
    let asked := (s.tokenFor token).1
    let made := (s.stepLogged (.call key name r token)).2.2
    made.world.invoked = s.world.invoked ∧
    made.calls.find? key = some
      (if count = m then refused r.span asked else accepted h pool r asked) := by
  intro asked made
  obtain ⟨tokens,same⟩ := tokenFor_same (unlogged s) token
  have full : ((unlogged s).tokenFor token).2.world.free pool = 0 ↔ count = m := by
    have free : ((unlogged s).tokenFor token).2.world.free pool = s.world.free pool := by
      rw [same]
      rfl
    omega
  obtain ⟨drops,call⟩ := call_made (unlogged s) found key r token
  have after : made = ((unlogged s).call key name r token).2 := rfl
  have first : asked = ((unlogged s).tokenFor token).1 := (tokenFor_unlogged s token).symm
  have on : callOn (unlogged s) (pipeline h pool) r token = _ := pipeline_call h pool r _ _
  simp only [full] at on
  rw [after,call,first]
  refine ⟨?_,?_⟩
  · change (givenUp _ _).invoked = _
    rw [givenUp_invoked,on,same]
    split
    · exact releasing_invoked _ _
    · rfl
  · refine (SortedMap.find?_insert _ key key _).trans ((if_pos rfl).trans ?_)
    rw [on]
    split
    · rfl
    · rfl

theorem opened_reserved {s : Session} (reserved : Reserved h s.world.pools.length s)
    (compiled : s.handler = some h) (id : String) (m : Nat) :
    Reserved h s.world.pools.length (s.stepLogged (.pipeline id m)).2.2 := by
  rw [pipeline_opened compiled]
  exact ⟨SortedMap.all_insert reserved.pipes id (fun _ => rfl),reserved.layers,reserved.calls⟩

end Step

theorem empty_reserved (h : Handler) (pool : Nat) : Reserved h pool Session.empty :=
  ⟨SortedMap.all_empty _,SortedMap.all_empty _,SortedMap.all_empty _⟩

theorem empty_measured : Measured Session.empty := ⟨SortedMap.all_empty _,SortedMap.all_empty _⟩

def desk : Handler :=
  ⟨SortedMap.empty.insert "Desk" ((Service.named "Desk").attempt (.sync "until" _ _ Readymade.untilCancelled))⟩

def deskMade : List Step :=
  [.service "s" "Desk",.register "s" (.sync "until" _ _ Readymade.untilCancelled),.add "s",.compile,
    .token "t" none]

def visit : Request := ⟨"Desk","until",Dispatching.slowly,Dispatching.plainly⟩

def arriving : List Step := [.clone "p" "q",.call "a" "p" visit (some "t"),.poll "a"]

def leaving : List Step := [.poll "b",.cancel "t",.poll "a",.call "c" "q" visit none,.drop "c"]

end Switchboard.Pipelines
