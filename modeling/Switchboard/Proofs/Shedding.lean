import Switchboard.Proofs.Stepping

namespace Switchboard.Shedding
open Slots Stepping

-- How many layers of a pool let a call through. What it finds at one of them is what those
-- outside of it have left.
def admissions (pool : Nat) : List Layer → World → Nat
  | [],_ => 0
  | .metrics :: rest,w => admissions pool rest w
  | .shed own :: rest,w =>
    if w.free own = 0 then 0
    else admissions pool rest (w.takeSlot own) + if own = pool then 1 else 0

-- A call is noted as it is made and struck out as it is answered or given up. One more call
-- under a name gives up the one before.
def noted (pool : Nat) (s : Session) (ledger : Named Nat) : Step → Answer → Named Nat
  | .call key name _ _,.called _ =>
    ledger.insert key (admissions pool (((s.pipes.find? name).map Pipe.layers).getD []) s.world)
  | .poll key,.answered _ _ _ => ledger.erase key
  | .drop key,.dropped true _ => ledger.erase key
  | _,_ => ledger

def ledger (pool : Nat) : Session → Named Nat → List Step → Named Nat
  | _,entries,[] => entries
  | s,entries,step :: rest =>
    ledger pool (s.stepLogged step).2.2 (noted pool s entries step (s.stepLogged step).1) rest

-- A call may pass several layers of one pool, and is then admitted by each.
def inFlight (pool : Nat) (history : List Step) : Nat :=
  (ledger pool .empty .empty history).total id

section Ledger

variable (pool : Nat)

theorem admissions_pools (layers : List Layer) {v w : World} (same : v.pools = w.pools) :
    admissions pool layers v = admissions pool layers w := by
  induction layers generalizing v w with
  | nil => rfl
  | cons layer rest ih =>
      cases layer with
      | metrics => exact ih same
      | shed own =>
          have free : v.free own = w.free own := by rw [World.free,World.free,same]
          have taken : (v.takeSlot own).pools = (w.takeSlot own).pools := by
            rw [World.takeSlot,World.takeSlot,free,same]
          rw [admissions,admissions,free,ih taken]

theorem enter_admissions (h : Handler) (r : Request) (layers : List Layer) (spans : List Span) (w : World) :
    held pool (enter h r layers spans w).frames = admissions pool layers w := by
  induction layers generalizing spans w with
  | nil => rfl
  | cons layer rest ih =>
      cases layer with
      | metrics => exact (held_measured _ _ _).trans (ih (spans ++ [r.span]) w)
      | shed own =>
          unfold enter admissions
          split
          · rfl
          · rw [held_slot,ih]

theorem call_frames (p : Pipe) (r : Request) (token : Token) (w : World) :
    (p.call r token w).1.frames = (enter p.handler r p.layers [] w).frames := by
  unfold Pipe.call
  dsimp only
  cases (enter p.handler r p.layers [] w).core with
  | running work => rfl
  | shed => rfl

theorem callOn_admissions (s : Session) (p : Pipe) (r : Request) (token : Option String) :
    held pool (callOn s p r token).1.frames = admissions pool p.layers s.world := by
  rw [callOn,call_frames,enter_admissions]
  exact admissions_pools pool p.layers (tokenFor_pools s token).1

def weights (s : Session) : Named Nat := s.calls.valued (fun c => held pool c.frames)

theorem noted_apart {step : Step} (apart : concerns? step = none) (s : Session) (entries : Named Nat)
    (answer : Answer) : noted pool s entries step answer = entries := by
  cases step with
  | call | poll | drop => cases apart
  | _ => rfl

theorem noted_unknown (s : Session) (entries : Named Nat) (step : Step) :
    noted pool s entries step .unknownName = entries := by
  cases step with
  | _ => rfl

-- Waiting changes nothing: a call keeps what it was admitted to until it ends.
theorem does_noted {s t : Session} {step : Step} {answer : Answer} (does : Does s step answer t) :
    noted pool s (weights pool s) step answer = weights pool t := by
  cases does with
  | idle _ apart _ calls => rw [noted_apart pool apart,weights,weights,calls]
  | unknown => exact noted_unknown pool s _ step
  | unpolled | undropped | layered | pipelined | stacked | cloned => rfl
  | @called key name r token p _ found =>
      rw [noted,found,weights,weights,SortedMap.valued_insert,callOn_admissions]
      rfl
  | @waited key c next _ _ _ found polled =>
      have kept : (weights pool s).find? key = some (held pool next.frames) := by
        rw [weights,SortedMap.find?_valued,found,waiting_frames polled]
        rfl
      exact (SortedMap.insert_found kept).symm.trans (SortedMap.valued_insert _ next).symm
  | ended | dropped => exact (SortedMap.valued_erase _).symm

theorem noted_unlogged (s : Session) (entries : Named Nat) (step : Step) (answer : Answer) :
    noted pool (unlogged s) entries step answer = noted pool s entries step answer := by
  unfold noted
  split
  · rw [admissions_pools pool _ (show (unlogged s).world.pools = s.world.pools from rfl)]
    rfl
  · rfl
  · rfl
  · rfl

theorem ledger_exact (s : Session) (steps : List Step) :
    ledger pool s (weights pool s) steps = weights pool (s.run steps).2 := by
  induction steps generalizing s with
  | nil => rfl
  | cons step rest ih =>
      have here : noted pool s (weights pool s) step (s.stepLogged step).1 =
          weights pool (s.stepLogged step).2.2 := by
        rw [← noted_unlogged]
        exact does_noted pool (stepLogged_does s step)
      rw [ledger,here,ih]
      rfl

end Ledger

-- What the calls that the session keeps hold of a pool.
def carried (pool : Nat) (s : Session) : Nat := s.calls.total (fun c => held pool c.frames)

theorem inFlight_carried (pool : Nat) (history : List Step) :
    inFlight pool history = carried pool (Session.empty.run history).2 := by
  have whole : ledger pool .empty .empty history = weights pool (Session.empty.run history).2 :=
    ledger_exact pool .empty history
  rw [inFlight,whole]
  exact SortedMap.total_valued id _ _

def Grounded (s : Session) : Prop := ∀ entry ∈ s.calls.entries, Opened s.world entry.2.frames

theorem grounded_found {s : Session} {id : String} {c : Call} (grounded : Grounded s)
    (found : s.calls.find? id = some c) : Opened s.world c.frames := by
  obtain ⟨entry,member,rfl⟩ := SortedMap.find?_mem found
  exact grounded entry member

def exchanged (calls : Named Call) (id : String) : Option Call → Named Call
  | some c => calls.insert id c
  | none => calls.erase id

theorem exchanged_total (weight : Call → Nat) (calls : Named Call) (id : String) (c : Option Call) :
    (exchanged calls id c).total weight + Entries.weightAt weight (calls.find? id) =
      calls.total weight + Entries.weightAt weight c := by
  cases c with
  | none => exact SortedMap.total_erase weight calls id
  | some c => exact SortedMap.total_insert weight calls id c

theorem exchanged_mem {calls : Named Call} {id : String} {c : Option Call} {entry : String × Call}
    (member : entry ∈ (exchanged calls id c).entries) : c = some entry.2 ∨ entry ∈ calls.entries := by
  cases c with
  | none => exact .inr (List.mem_filter.mp member).1
  | some c =>
      rcases Entries.mem_put member with rfl | old
      · exact .inl rfl
      · exact .inr old

def heldBy (pool : Nat) (c : Option Call) : Nat := Entries.weightAt (fun c => held pool c.frames) c

-- All that a step can do to pools and calls. In an exchange slots change hands, and none
-- appears or disappears.
inductive Flow (s t : Session) : Prop where
  | still (pools : Returned [] s.world t.world) (calls : t.calls = s.calls)
  | opened (slots : Nat) (pools : t.world.pools = s.world.pools ++ [slots]) (calls : t.calls = s.calls)
  | exchange (id : String) (c : Option Call) (pools : t.world.pools.length = s.world.pools.length)
      (balance : ∀ pool, t.world.free pool + heldBy pool c =
        s.world.free pool + heldBy pool (s.calls.find? id))
      (grounded : ∀ next, c = some next → Opened t.world next.frames)
      (calls : t.calls = exchanged s.calls id c)

theorem flow_pools {s t : Session} (flow : Flow s t) : s.world.pools.length ≤ t.world.pools.length := by
  cases flow with
  | still same => exact Nat.le_of_eq same.pools.symm
  | opened slots pools => simp [pools]
  | exchange id c pools => exact Nat.le_of_eq pools.symm

theorem flow_grounded {s t : Session} (flow : Flow s t) (grounded : Grounded s) : Grounded t := by
  have more := flow_pools flow
  intro entry member
  cases flow with
  | still _ calls | opened _ _ calls => exact opened_mono (grounded entry (calls ▸ member)) more
  | exchange id c _ _ new calls =>
      rcases exchanged_mem (calls ▸ member) with now | old
      · exact new entry.2 now
      · exact opened_mono (grounded entry old) more

theorem flow_balanced {s t : Session} (flow : Flow s t) {pool : Nat}
    (inside : pool < s.world.pools.length) :
    t.world.free pool + carried pool t = s.world.free pool + carried pool s := by
  cases flow with
  | still same calls => simp only [same.free pool,held_nil,carried,calls,Nat.add_zero]
  | opened slots pools calls =>
      have same : t.world.free pool = s.world.free pool := by
        simp [World.free,pools,List.getElem?_append_left inside]
      simp only [same,carried,calls]
  | exchange id c _ balance _ calls =>
      have total := exchanged_total (fun c => held pool c.frames) s.calls id c
      have free := balance pool
      unfold heldBy at free
      simp only [carried,calls]
      omega

theorem givenUp_pools {c : Option Call} {w : World}
    (opened : ∀ earlier, c = some earlier → Opened w earlier.frames) :
    (givenUp c w).pools.length = w.pools.length ∧
      ∀ pool, (givenUp c w).free pool = w.free pool + heldBy pool c := by
  cases c with
  | none => exact ⟨rfl,fun pool => rfl⟩
  | some earlier =>
      have returned := drop_returned (opened earlier rfl)
      exact ⟨returned.pools,returned.free⟩

theorem gone_flow {s t : Session} {key : String} {c : Call} (found : s.calls.find? key = some c)
    (returned : Returned c.frames s.world t.world) (calls : t.calls = s.calls.erase key) : Flow s t := by
  refine .exchange key none returned.pools ?_ (fun _ gone => by cases gone) calls
  intro pool
  simpa [found,heldBy,Entries.weightAt] using returned.free pool

section Step

variable {s t : Session} (grounded : Grounded s)

include grounded

-- A new call takes its slots before the one it replaces gives its own back.
theorem called_flow {p : Pipe} {r : Request} {token : Option String} {key : String}
    (calls : t.calls = s.calls.insert key (callOn s p r token).1)
    (world : t.world = givenUp (s.calls.find? key) (callOn s p r token).2) : Flow s t := by
  have pools := (tokenFor_pools s token).1
  have taken : Taken (callOn s p r token).1.frames (s.tokenFor token).2.world (callOn s p r token).2 :=
    call_taken _ _ _ _
  have length := taken.pools.trans (congrArg List.length pools)
  have opened : ∀ earlier, s.calls.find? key = some earlier →
      Opened (callOn s p r token).2 earlier.frames :=
    fun earlier found => opened_mono (grounded_found grounded found) (Nat.le_of_eq length.symm)
  obtain ⟨kept,returned⟩ := givenUp_pools opened
  refine .exchange key (some (callOn s p r token).1) ?_ ?_ ?_ calls
  · rw [world,kept,length]
  · intro pool
    have free := taken.free pool
    have before : (s.tokenFor token).2.world.free pool = s.world.free pool := by
      rw [World.free,World.free,pools]
    have now : heldBy pool (some (callOn s p r token).1) = held pool (callOn s p r token).1.frames := rfl
    rw [world,returned pool,now]
    omega
  · intro next same
    cases same
    rw [world]
    exact opened_mono taken.opened (Nat.le_of_eq kept.symm)

theorem waited_flow {key : String} {c next : Call} (found : s.calls.find? key = some c)
    (polled : c.poll s.world = (.waiting next,t.world)) (calls : t.calls = s.calls.insert key next) :
    Flow s t := by
  have opened := grounded_found grounded found
  rcases poll_cases c s.world with ⟨_,_,again,frames,pools⟩ | ⟨_,_,again,_⟩
  · cases polled.symm.trans again
    refine .exchange key (some next) (congrArg List.length pools) ?_ ?_ calls
    · intro pool
      simp [found,heldBy,Entries.weightAt,frames,World.free,pools]
    · intro other same
      cases same
      intro pool member
      simpa [pools] using opened pool (frames ▸ member)
  · cases polled.symm.trans again

theorem does_flow {step : Step} {answer : Answer} (does : Does s step answer t) : Flow s t := by
  cases does with
  | idle _ _ _ calls _ _ pools => exact .still pools calls
  | unknown | unpolled | undropped | stacked | cloned => exact .still (returned_of_pools rfl) rfl
  | layered id slots | pipelined _ id slots => exact .opened slots rfl rfl
  | called => exact called_flow grounded rfl rfl
  | waited found polled => exact waited_flow grounded found polled rfl
  | @ended key c _ _ _ _ found polled =>
      rcases poll_cases c s.world with ⟨_,_,again,_⟩ | ⟨_,_,again,returned⟩
      · cases polled.symm.trans again
      · cases polled.symm.trans again
        exact gone_flow found (returned (grounded_found grounded found)) rfl
  | dropped found => exact gone_flow found (drop_returned (grounded_found grounded found)) rfl

end Step

theorem stepLogged_flow {s : Session} (grounded : Grounded s) (step : Step) :
    Flow s (s.stepLogged step).2.2 := by
  have flow : Flow (unlogged s) (s.stepLogged step).2.2 :=
    does_flow (s := unlogged s) grounded (stepLogged_does s step)
  cases flow with
  | still same calls =>
      have kept : (unlogged s).world.pools = s.world.pools := rfl
      exact .still (returned_from kept same) calls
  | opened slots pools calls => exact .opened slots pools calls
  | exchange id c pools balance grounded calls => exact .exchange id c pools balance grounded calls

theorem run_grounded {s : Session} (grounded : Grounded s) (steps : List Step) :
    Grounded (s.run steps).2 := by
  induction steps generalizing s with
  | nil => exact grounded
  | cons step rest ih => exact ih (flow_grounded (stepLogged_flow grounded step) grounded)

structure Account (pool m : Nat) (s : Session) : Prop where
  grounded : Grounded s
  inside : pool < s.world.pools.length
  balance : s.world.free pool + carried pool s = m

theorem step_account {pool m : Nat} {s : Session} (account : Account pool m s) (step : Step) :
    Account pool m (s.stepLogged step).2.2 := by
  have flow := stepLogged_flow account.grounded step
  refine ⟨flow_grounded flow account.grounded,?_,?_⟩
  · exact Nat.lt_of_lt_of_le account.inside (flow_pools flow)
  · rw [flow_balanced flow account.inside,account.balance]

theorem run_account {pool m : Nat} {s : Session} (account : Account pool m s) (steps : List Step) :
    Account pool m (s.run steps).2 := by
  induction steps generalizing s with
  | nil => exact account
  | cons step rest ih => exact ih (step_account account step)

-- Nobody can have held a slot of a pool before it was opened.
theorem new_account {s t : Session} (grounded : Grounded s) {m : Nat}
    (pools : t.world.pools = s.world.pools ++ [m]) (calls : t.calls = s.calls) :
    Account s.world.pools.length m t := by
  have unheld : carried s.world.pools.length t = 0 := by
    apply Entries.total_zero
    intro entry member
    exact opened_unheld (grounded entry (calls ▸ member))
  refine ⟨flow_grounded (.opened m pools calls) grounded,by simp [pools],?_⟩
  have free : t.world.free s.world.pools.length = m := by simp [World.free,pools]
  rw [free,unheld,Nat.add_zero]

theorem opened_account {s : Session} (grounded : Grounded s) (layer : String) (m : Nat) :
    Account s.world.pools.length m (s.stepLogged (.layer layer m)).2.2 := new_account grounded rfl rfl

-- It holds nothing any more, not even its input.
def turnedAway (token : Token) : Call := ⟨[],.shed,false,token⟩

-- A call of the service behind the layer, with a slot to give back at its end.
def behind (pool : Nat) (c : Call) : Call := { c with frames := .slot pool :: c.frames }

theorem turnedAway_poll (token : Token) (w : World) :
    (turnedAway token).poll w = (.answered (.error .overloaded),w) := rfl

theorem call_shed (handler : Handler) (pool : Nat) (inner : List Layer) (r : Request) (token : Token)
    (w : World) :
    Pipe.call ⟨handler,.shed pool :: inner⟩ r token w =
      if w.free pool = 0 then
        (turnedAway token,
          (w.logged (.event (.rejecting r.service r.operation) [])).releasing r.input.isStreaming)
      else
        (behind pool (Pipe.call ⟨handler,inner⟩ r token (w.takeSlot pool)).1,
          (Pipe.call ⟨handler,inner⟩ r token (w.takeSlot pool)).2) := by
  unfold Pipe.call
  by_cases full : w.free pool = 0
  · simp [enter,full,turnedAway]
  · simp only [enter,full,if_false]
    cases (enter handler r inner [] (w.takeSlot pool)).core with
    | running work => rfl
    | shed => rfl

theorem behind_poll (pool : Nat) (c : Call) (w : World) :
    (behind pool c).poll w =
      match c.poll w with
      | (.waiting next,after) => (.waiting (behind pool next),after)
      | (.answered response,after) => (.answered response,after.returnSlot pool) := by
  cases core : c.core with
  | shed => simp [Call.poll,behind,core,finish]
  | running work =>
      simp only [Call.poll,behind,core]
      have same : Call.turn ⟨.slot pool :: c.frames,c.core,c.holdsReader,c.token⟩ w = c.turn w := rfl
      rw [← core,same]
      cases work.advance (c.turn w) with
      | mk progress turn => cases progress <;> rfl

-- What becomes of the world between two looks is up to everybody else, so any worlds do.
def answerIn : Call → List World → Option Response
  | _,[] => none
  | c,w :: worlds =>
    match (c.poll w).1 with
    | .waiting next => answerIn next worlds
    | .answered response => some response

theorem behind_answerIn (pool : Nat) (c : Call) (worlds : List World) :
    answerIn (behind pool c) worlds = answerIn c worlds := by
  induction worlds generalizing c with
  | nil => rfl
  | cons w rest ih =>
      simp only [answerIn,behind_poll]
      cases c.poll w with
      | mk progress after =>
          cases progress with
          | waiting next => exact ih next
          | answered response => rfl

end Switchboard.Shedding
