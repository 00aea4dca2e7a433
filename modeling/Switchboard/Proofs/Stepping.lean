import Switchboard.Proofs.KeyedEntries
import Switchboard.Proofs.Slots
import Switchboard.Session.Basic

namespace Switchboard.Stepping
open Slots

def response? : Answer → Option Response
  | .answered response _ _ => some response
  | _ => none

-- The name of the call that a step is about.
def concerns? : Step → Option String
  | .call key _ _ _ => some key
  | .poll key => some key
  | .drop key => some key
  | _ => none

section Events

def toldIn (spans : List Span) (events : List Event) : List LogEntry :=
  events.map (fun event => .event event spans)

-- What a call says while it runs is said within its own spans, and comes before anything
-- that its end adds.
theorem poll_told (c : Call) (w : World) :
    (∃ next after events, c.poll w = (.waiting next,after) ∧ next.frames = c.frames ∧
      after.log = w.log ++ toldIn (spansOf c.frames) events) ∨
    ∃ response last events,
      c.poll w = (.answered response,finish (outcomeLabel response) c.frames [] last) ∧
      last.log = w.log ++ toldIn (spansOf c.frames) events := by
  unfold Call.poll
  split
  · exact .inr ⟨_,w,[],rfl,(List.append_nil w.log).symm⟩
  · rename_i work _
    cases work.advance (c.turn w) with
    | mk progress turn =>
        cases progress with
        | blocked later => exact .inl ⟨_,_,turn.events,rfl,rfl,rfl⟩
        | finished response => exact .inr ⟨response,_,turn.released.events,rfl,rfl⟩

theorem waiting_frames {c next : Call} {w after : World} (polled : c.poll w = (.waiting next,after)) :
    next.frames = c.frames := by
  rcases poll_told c w with ⟨_,_,_,again,frames,_⟩ | ⟨_,_,_,again,_⟩
  · cases polled.symm.trans again
    exact frames
  · cases polled.symm.trans again

theorem releasing_log (w : World) (held : Bool) : (w.releasing held).log = w.log := by
  cases held with
  | false => rfl
  | true => rfl

theorem run_told (left polls : Nat) {c : Call} (bare : c.frames = []) (w : World) :
    ∃ events, (c.run left polls w).2.2.log = w.log ++ toldIn [] events := by
  induction left generalizing polls c w with
  | zero =>
      refine ⟨[],?_⟩
      change (abandon c.frames (w.releasing c.holdsReader)).log = w.log ++ []
      rw [bare,List.append_nil]
      exact releasing_log w c.holdsReader
  | succ left ih =>
      unfold Call.run
      rcases poll_told c w with ⟨next,after,events,polled,frames,log⟩ | ⟨response,last,events,polled,log⟩
      · obtain ⟨more,ran⟩ := ih (polls+1) (frames.trans bare) after
        refine ⟨events ++ more,?_⟩
        rw [polled,ran,log,bare,List.append_assoc,toldIn,toldIn,toldIn,List.map_append]
        rfl
      · refine ⟨events,?_⟩
        rw [bare] at log polled
        rw [polled]
        exact log

end Events

-- The session that a call is made in: the same but for a token that may be new.
theorem tokenFor_same (s : Session) (name : Option String) :
    ∃ tokens, (s.tokenFor name).2 = { s with world := { s.world with tokens := tokens } } := by
  unfold Session.tokenFor
  split
  · exact ⟨s.world.tokens,rfl⟩
  · exact ⟨s.world.tokens + 1,rfl⟩

theorem tokenFor_pools (s : Session) (name : Option String) :
    (s.tokenFor name).2.world.pools = s.world.pools ∧ (s.tokenFor name).2.calls = s.calls := by
  obtain ⟨tokens,same⟩ := tokenFor_same s name
  rw [same]
  exact ⟨rfl,rfl⟩

def givenUp (c : Option Call) (w : World) : World :=
  match c with
  | some c => c.drop w
  | none => w

def callOn (s : Session) (p : Pipe) (r : Request) (token : Option String) : Call × World :=
  p.call r (s.tokenFor token).1 (s.tokenFor token).2.world

-- All that a step can do to calls, pipes, layers, pools and the log.
inductive Does (s : Session) : Step → Answer → Session → Prop where
  | idle {step : Step} {answer : Answer} {t : Session} (events : List Event)
      (apart : concerns? step = none) (quiet : response? answer = none) (calls : t.calls = s.calls)
      (pipes : t.pipes = s.pipes) (layers : t.layers = s.layers) (pools : Returned [] s.world t.world)
      (log : t.world.log = s.world.log ++ toldIn [] events) : Does s step answer t
  | unknown (step : Step) : Does s step .unknownName s
  | unpolled {key : String} (missing : s.calls.find? key = none) : Does s (.poll key) .noSuchCall s
  | undropped {key : String} {drops : Nat} (missing : s.calls.find? key = none) :
      Does s (.drop key) (.dropped false drops) s
  | layered (id : String) (slots : Nat) :
      Does s (.layer id slots) (.available slots)
        { s with world := (s.world.newPool slots).2,layers := s.layers.insert id s.world.pools.length }
  | pipelined {h : Handler} (compiled : s.handler = some h) (id : String) (slots : Nat) :
      Does s (.pipeline id slots) .done
        { s with
          world := (s.world.newPool slots).2
          pipes := s.pipes.insert id ⟨h,[.metrics,.shed s.world.pools.length]⟩ }
  | stacked {h : Handler} {id : String} {names : List LayerName} {layers : List Layer}
      (known : names.mapM s.layerOf? = some layers) :
      Does s (.stack id names) .done { s with pipes := s.pipes.insert id ⟨h,layers⟩ }
  | cloned {id copy : String} {p : Pipe} (found : s.pipes.find? id = some p) :
      Does s (.clone id copy) .done { s with pipes := s.pipes.insert copy p }
  | called {key name : String} {r : Request} {token : Option String} {p : Pipe} {drops : Nat}
      (found : s.pipes.find? name = some p) :
      Does s (.call key name r token) (.called drops)
        { (s.tokenFor token).2 with
          world := givenUp (s.calls.find? key) (callOn s p r token).2
          calls := s.calls.insert key (callOn s p r token).1 }
  | waited {key : String} {c next : Call} {after : World} {invoked drops : Nat}
      (found : s.calls.find? key = some c) (polled : c.poll s.world = (.waiting next,after)) :
      Does s (.poll key) (.waiting invoked drops)
        { s with world := after,calls := s.calls.insert key next }
  | ended {key : String} {c : Call} {response : Response} {after : World} {invoked drops : Nat}
      (found : s.calls.find? key = some c) (polled : c.poll s.world = (.answered response,after)) :
      Does s (.poll key) (.answered response invoked drops)
        { s with world := after,calls := s.calls.erase key }
  | dropped {key : String} {c : Call} {drops : Nat} (found : s.calls.find? key = some c) :
      Does s (.drop key) (.dropped true drops)
        { s with world := c.drop s.world,calls := s.calls.erase key }

section Step

variable (s : Session)

theorem idle_logged {step : Step} {answer : Answer} {t : Session} (apart : concerns? step = none)
    (quiet : response? answer = none) (calls : t.calls = s.calls) (pipes : t.pipes = s.pipes)
    (layers : t.layers = s.layers) (pools : t.world.pools = s.world.pools)
    (log : t.world.log = s.world.log) : Does s step answer t :=
  .idle [] apart quiet calls pipes layers (returned_of_pools pools) (log.trans (List.append_nil _).symm)

theorem start_does (r : Request) (token : Option String) :
    Does s (.start r token) (s.start r token).1 (s.start r token).2 := by
  unfold Session.start
  split
  · exact .unknown _
  · rename_i h _
    obtain ⟨tokens,same⟩ := tokenFor_same s token
    let made := Pipe.call ⟨h,[]⟩ r (s.tokenFor token).1 (s.tokenFor token).2.world
    have bare : made.1.frames = [] := rfl
    obtain ⟨events,log⟩ := run_told Session.pollLimit 0 bare made.2
    have before : made.2.log = s.world.log := by
      change (s.tokenFor token).2.world.log = s.world.log
      rw [same]
    rw [before] at log
    -- No layers, so no frames: whatever the call does, it ends without a slot.
    have opened : Opened made.2 made.1.frames := fun pool member => by cases member
    have ran := run_returned Session.pollLimit 0 opened
    rw [bare] at ran
    have pools : made.2.pools = s.world.pools := (tokenFor_pools s token).1
    refine .idle events rfl rfl ?_ ?_ ?_ (returned_from pools ran) log
    · change (s.tokenFor token).2.calls = s.calls
      rw [same]
    · change (s.tokenFor token).2.pipes = s.pipes
      rw [same]
    · change (s.tokenFor token).2.layers = s.layers
      rw [same]

theorem call_made {name : String} {p : Pipe} (found : s.pipes.find? name = some p) (key : String)
    (r : Request) (token : Option String) :
    ∃ drops, s.call key name r token = (.called drops,
      { (s.tokenFor token).2 with
        world := givenUp (s.calls.find? key) (callOn s p r token).2
        calls := s.calls.insert key (callOn s p r token).1 }) := by
  have calls : (s.tokenFor token).2.calls = s.calls := (tokenFor_pools s token).2
  unfold Session.call
  rw [found]
  dsimp only
  rw [calls]
  exact ⟨_,rfl⟩

theorem call_does (key name : String) (r : Request) (token : Option String) :
    Does s (.call key name r token) (s.call key name r token).1 (s.call key name r token).2 := by
  cases found : s.pipes.find? name with
  | none =>
      rw [Session.call,found]
      exact .unknown _
  | some p =>
      obtain ⟨drops,made⟩ := call_made s found key r token
      rw [made]
      exact .called found

theorem poll_does (key : String) : Does s (.poll key) (s.poll key).1 (s.poll key).2 := by
  unfold Session.poll
  split
  · rename_i missing
    exact .unpolled missing
  · rename_i c found
    cases polled : c.poll s.world with
    | mk progress after =>
        cases progress with
        | waiting next => exact .waited found polled
        | answered response => exact .ended found polled

theorem drop_does (key : String) : Does s (.drop key) (s.drop key).1 (s.drop key).2 := by
  unfold Session.drop
  split
  · rename_i missing
    exact .undropped missing
  · rename_i c found
    exact .dropped found

theorem step_does (step : Step) : Does s step (s.step step).1 (s.step step).2 := by
  cases step with
  | service | serviceOfDefinition | registryInfo | token | release =>
      exact idle_logged s rfl rfl rfl rfl rfl rfl rfl
  | register id op =>
      simp only [Session.step,Session.register]
      split
      · exact .unknown _
      · exact idle_logged s rfl rfl rfl rfl rfl rfl rfl
  | add id =>
      simp only [Session.step,Session.add]
      split
      · exact .unknown _
      · exact idle_logged s rfl rfl rfl rfl rfl rfl rfl
  | resolve service operation =>
      simp only [Session.step,Session.resolve]
      split
      · exact .unknown _
      · split
        · exact idle_logged s rfl rfl rfl rfl rfl rfl rfl
        · exact .idle [_] rfl rfl rfl rfl rfl (returned_of_pools rfl) rfl
  | compile =>
      simp only [Session.step,Session.compile]
      split
      · exact .idle s.registry.registrationEvents rfl rfl rfl rfl rfl (returned_of_pools rfl) rfl
      · exact idle_logged s rfl rfl rfl rfl rfl rfl rfl
  | cancel id =>
      simp only [Session.step,Session.cancel]
      split
      · exact .unknown _
      · exact idle_logged s rfl rfl rfl rfl rfl rfl rfl
  | serviceInfo | serviceOperation | handlerInfo | handlerService | handlerOperation | available =>
      simp only [Session.step]
      split
      · exact idle_logged s rfl rfl rfl rfl rfl rfl rfl
      · exact .unknown _
  | layer id slots => exact .layered id slots
  | pipeline id slots =>
      simp only [Session.step,Session.pipeline]
      split
      · exact .unknown _
      · rename_i h compiled
        exact .pipelined compiled id slots
  | stack id names =>
      simp only [Session.step,Session.stack]
      split
      · rename_i known
        exact .stacked known
      · exact .unknown _
  | clone id copy =>
      simp only [Session.step]
      split
      · rename_i p found
        exact .cloned found
      · exact .unknown _
  | start r token => exact start_does s r token
  | call key name r token => exact call_does s key name r token
  | poll key => exact poll_does s key
  | drop key => exact drop_does s key

end Step

def unlogged (s : Session) : Session := { s with world := { s.world with log := [] } }

theorem stepLogged_does (s : Session) (step : Step) :
    Does (unlogged s) step (s.stepLogged step).1 (s.stepLogged step).2.2 :=
  step_does (unlogged s) step

theorem poll_unlogged (c : Call) (s : Session) : (c.poll (unlogged s).world).1 = (c.poll s.world).1 := by
  unfold Call.poll
  cases c.core with
  | shed => rfl
  | running work =>
      have same : c.turn (unlogged s).world = c.turn s.world := rfl
      dsimp only
      rw [same]
      cases work.advance (c.turn s.world) with
      | mk progress turn =>
          cases progress with
          | blocked next => rfl
          | finished response => rfl

theorem tokenFor_unlogged (s : Session) (token : Option String) :
    ((unlogged s).tokenFor token).1 = (s.tokenFor token).1 := by
  have same : (unlogged s).tokens = s.tokens := rfl
  unfold Session.tokenFor
  rw [same]
  cases token.bind s.tokens.find? with
  | some token => rfl
  | none => rfl

end Switchboard.Stepping
