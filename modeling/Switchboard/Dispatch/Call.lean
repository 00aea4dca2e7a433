import Switchboard.Dispatch.World
import Switchboard.Registry.Handler

namespace Switchboard

-- What a layer took or opened is kept with the call as frames, outermost first.

inductive Layer where
  | metrics
  | shed (pool : Nat)
deriving DecidableEq

structure Pipe where
  handler : Handler
  layers : List Layer

structure Request where
  service : String
  operation : String
  input : LazyValue
  options : StartOptions

inductive Frame where
  | measured (span : Span)
  | slot (pool : Nat)
deriving DecidableEq

inductive Core where
  | running (work : Work Response)
  | shed

structure Call where
  frames : List Frame
  core : Core
  holdsReader : Bool
  token : Token

def Request.span (r : Request) : Span := ⟨r.service,r.operation,r.options.requestId,none⟩

def spansOf : List Frame → List Span
  | [] => []
  | .measured span :: rest => span :: spansOf rest
  | .slot _ :: rest => spansOf rest

structure Entered where
  frames : List Frame
  core : Core
  world : World

def enter (handler : Handler) (r : Request) : List Layer → List Span → World → Entered
  | [],_,w => ⟨[],.running (handler.start r.service r.operation r.input r.options),w⟩
  | .metrics :: rest,spans,w =>
    let inner := enter handler r rest (spans ++ [r.span]) w
    { inner with frames := .measured r.span :: inner.frames }
  | .shed pool :: rest,spans,w =>
    if w.free pool = 0 then
      ⟨[],.shed,w.logged (.event (.rejecting r.service r.operation) spans)⟩
    else
      let inner := enter handler r rest spans (w.takeSlot pool)
      { inner with frames := .slot pool :: inner.frames }

def World.releasing (w : World) (held : Bool) : World :=
  if held then { w with drops := w.drops + 1 } else w

namespace Pipe

-- A call that is turned away lets go of its input at once.
def call (p : Pipe) (r : Request) (token : Token) (w : World) : Call × World :=
  let entered := enter p.handler r p.layers [] w
  match entered.core with
  | .running work =>
    (⟨entered.frames,.running work,r.input.isStreaming,token⟩,entered.world)
  | .shed => (⟨entered.frames,.shed,false,token⟩,entered.world.releasing r.input.isStreaming)

end Pipe

def finish (label : String) : List Frame → List Span → World → World
  | [],_,w => w
  | .measured span :: inner,outer,w =>
    let ended := { span with outcome := some label }
    ((finish label inner (outer ++ [span]) w).logged
      (.event (.complete label) (outer ++ [ended]))).logged (.closed ended)
  | .slot pool :: inner,outer,w => (finish label inner outer w).returnSlot pool

def abandon : List Frame → World → World
  | [],w => w
  | .measured span :: inner,w => (abandon inner w).logged (.closed span)
  | .slot pool :: inner,w => (abandon inner w).returnSlot pool

inductive CallProgress where
  | waiting (call : Call)
  | answered (response : Response)

namespace Call

def turn (c : Call) (w : World) : Turn :=
  ⟨w.tickets,w.isCancelled c.token,c.holdsReader,w.drops,w.invoked,[]⟩

def afterTurn (c : Call) (w : World) (turn : Turn) : World :=
  { w with
    tickets := turn.tickets
    drops := turn.drops
    invoked := turn.invoked
    log := w.log ++ turn.events.map (fun event => .event event (spansOf c.frames)) }

def poll (c : Call) (w : World) : CallProgress × World :=
  match c.core with
  | .shed =>
    let response : Response := .error .overloaded
    (.answered response,finish (outcomeLabel response) c.frames [] w)
  | .running work =>
    match work.advance (c.turn w) with
    | (.blocked work,turn) =>
      (.waiting { c with core := .running work,holdsReader := turn.holdsReader },c.afterTurn w turn)
    | (.finished response,turn) =>
      (.answered response,finish (outcomeLabel response) c.frames [] (c.afterTurn w turn.released))

def drop (c : Call) (w : World) : World := abandon c.frames (w.releasing c.holdsReader)

def run : Nat → Nat → Call → World → Nat × Option Response × World
  | 0,polls,c,w => (polls,none,c.drop w)
  | left + 1,polls,c,w =>
    match c.poll w with
    | (.answered response,w) => (polls + 1,some response,w)
    | (.waiting c,w) => run left (polls + 1) c w

end Call
end Switchboard
