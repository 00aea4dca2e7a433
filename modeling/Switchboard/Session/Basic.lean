import Switchboard.Dispatch.Call
import Switchboard.Registry.Basic

namespace Switchboard

structure Session where
  services : Named Service
  registry : Registry
  handler : Option Handler
  tokens : Named Token
  layers : Named Nat
  pipes : Named Pipe
  calls : Named Call
  world : World

def Session.empty : Session :=
  ⟨SortedMap.empty,Registry.empty,none,SortedMap.empty,SortedMap.empty,SortedMap.empty,
    SortedMap.empty,World.empty⟩

inductive LayerName where
  | metrics
  | pool (id : String)

inductive Step where
  | service (id name : String)
  | serviceOfDefinition (id : String) (definition : ServiceDefinition)
  | register (id : String) (operation : Operation)
  | serviceInfo (id : String)
  | serviceOperation (id name : String)
  | add (id : String)
  | registryInfo
  | compile
  | handlerInfo
  | handlerService (name : String)
  | handlerOperation (service name : String)
  | resolve (service operation : String)
  | token (id : String) (parent : Option String)
  | cancel (id : String)
  | release (gate : String) (count : Nat)
  | start (request : Request) (token : Option String)
  | layer (id : String) (slots : Nat)
  | available (id : String)
  | pipeline (id : String) (slots : Nat)
  | stack (id : String) (layers : List LayerName)
  | clone (id copy : String)
  | call (id pipe : String) (request : Request) (token : Option String)
  | poll (id : String)
  | drop (id : String)

inductive Answer where
  | service (service : Option Service)
  | added (result : Except ConfigurationError Unit) (size : Nat)
  | descriptor (descriptor : Option OperationDescriptor)
  | registry (registry : Registry)
  | compiled (result : Except ConfigurationError Unit)
  | handler (handler : Handler)
  | resolved (result : Except NotFound Operation)
  | cancelled (answer : Bool)
  | cancellations (answers : List (String × Bool))
  | tickets (count : Nat)
  | started (response : Option Response) (polls invoked drops : Nat)
  | available (slots : Nat)
  | done
  | called (drops : Nat)
  | waiting (invoked drops : Nat)
  | answered (response : Response) (invoked drops : Nat)
  | noSuchCall
  | dropped (existed : Bool) (drops : Nat)
  | unknownName

namespace Session

def logged (s : Session) (events : List Event) : Session :=
  { s with world := s.world.loggedAll events }

def tokenFor (s : Session) (name : Option String) : Token × Session :=
  match name.bind s.tokens.find? with
  | some token => (token,s)
  | none =>
    let (token,world) := s.world.newToken none
    (token,{ s with world := world })

def layerOf? (s : Session) : LayerName → Option Layer
  | .metrics => some .metrics
  | .pool id => (s.layers.find? id).map .shed

def pollLimit : Nat := 64

def register (s : Session) (id : String) (op : Operation) : Answer × Session :=
  match s.services.find? id with
  | none => (.unknownName,s)
  | some service =>
    let (result,next) := service.register op
    (.added result next.size,{ s with services := s.services.insert id next })

-- The service is gone even if the registry refuses it.
def add (s : Session) (id : String) : Answer × Session :=
  match s.services.find? id with
  | none => (.unknownName,s)
  | some service =>
    let s := { s with services := s.services.erase id }
    let (result,next) := s.registry.register service
    (.added result next.size,{ s with registry := next })

-- A handler that cannot be made leaves the earlier one in place.
def compile (s : Session) : Answer × Session :=
  let spent := { s with registry := Registry.empty }
  match s.registry.newHandler with
  | .ok handler =>
    (.compiled (.ok ()),{ spent.logged s.registry.registrationEvents with handler := some handler })
  | .error e => (.compiled (.error e),spent)

def resolve (s : Session) (service operation : String) : Answer × Session :=
  match s.handler with
  | none => (.unknownName,s)
  | some handler =>
    match handler.resolve service operation with
    | .ok op => (.resolved (.ok op),s)
    | .error e => (.resolved (.error e),s.logged [e.event])

def start (s : Session) (request : Request) (token : Option String) : Answer × Session :=
  match s.handler with
  | none => (.unknownName,s)
  | some handler =>
    let (token,s) := s.tokenFor token
    let (call,world) := Pipe.call ⟨handler,[]⟩ request token s.world
    let (polls,response,world) := call.run pollLimit 0 world
    (.started response polls (world.invoked - s.world.invoked) world.drops,{ s with world := world })

-- Measured from the outside, so that calls turned away count too.
def pipeline (s : Session) (id : String) (slots : Nat) : Answer × Session :=
  match s.handler with
  | none => (.unknownName,s)
  | some handler =>
    let (pool,world) := s.world.newPool slots
    (.done,{ s with world := world,pipes := s.pipes.insert id ⟨handler,[.metrics,.shed pool]⟩ })

def stack (s : Session) (id : String) (names : List LayerName) : Answer × Session :=
  match s.handler,names.mapM s.layerOf? with
  | some handler,some layers => (.done,{ s with pipes := s.pipes.insert id ⟨handler,layers⟩ })
  | _,_ => (.unknownName,s)

-- A call that was there before is given up.
def call (s : Session) (id pipe : String) (request : Request) (token : Option String) :
    Answer × Session :=
  match s.pipes.find? pipe with
  | none => (.unknownName,s)
  | some pipe =>
    let (token,s) := s.tokenFor token
    let (call,world) := pipe.call request token s.world
    let world :=
      match s.calls.find? id with
      | some earlier => earlier.drop world
      | none => world
    (.called world.drops,{ s with world := world,calls := s.calls.insert id call })

def poll (s : Session) (id : String) : Answer × Session :=
  match s.calls.find? id with
  | none => (.noSuchCall,s)
  | some call =>
    match call.poll s.world with
    | (.waiting call,world) =>
      (.waiting world.invoked world.drops,{ s with world := world,calls := s.calls.insert id call })
    | (.answered response,world) =>
      (.answered response world.invoked world.drops,
        { s with world := world,calls := s.calls.erase id })

def drop (s : Session) (id : String) : Answer × Session :=
  match s.calls.find? id with
  | none => (.dropped false s.world.drops,s)
  | some call =>
    let world := call.drop s.world
    (.dropped true world.drops,{ s with world := world,calls := s.calls.erase id })

def cancel (s : Session) (id : String) : Answer × Session :=
  match s.tokens.find? id with
  | none => (.unknownName,s)
  | some token =>
    let world := s.world.cancel token
    (.cancellations (s.tokens.entries.map (fun entry => (entry.1,world.isCancelled entry.2))),
      { s with world := world })

def step (s : Session) : Step → Answer × Session
  | .service id name =>
    let service := Service.named name
    (.service (some service),{ s with services := s.services.insert id service })
  | .serviceOfDefinition id definition =>
    let service := Service.ofDefinition definition
    (.service (some service),{ s with services := s.services.insert id service })
  | .register id op => s.register id op
  | .serviceInfo id =>
    match s.services.find? id with
    | some service => (.service (some service),s)
    | none => (.unknownName,s)
  | .serviceOperation id name =>
    match s.services.find? id with
    | some service => (.descriptor ((service.operation? name).map Operation.descriptor),s)
    | none => (.unknownName,s)
  | .add id => s.add id
  | .registryInfo => (.registry s.registry,s)
  | .compile => s.compile
  | .handlerInfo =>
    match s.handler with
    | some handler => (.handler handler,s)
    | none => (.unknownName,s)
  | .handlerService name =>
    match s.handler with
    | some handler => (.service (handler.service? name),s)
    | none => (.unknownName,s)
  | .handlerOperation service name =>
    match s.handler with
    | some handler => (.descriptor ((handler.operation? service name).map Operation.descriptor),s)
    | none => (.unknownName,s)
  | .resolve service operation => s.resolve service operation
  | .token id parent =>
    let (token,world) := s.world.newToken (parent.bind s.tokens.find?)
    (.cancelled (world.isCancelled token),
      { s with world := world,tokens := s.tokens.insert id token })
  | .cancel id => s.cancel id
  | .release gate count =>
    let world := s.world.addTickets gate count
    (.tickets (world.tickets gate),{ s with world := world })
  | .start request token => s.start request token
  | .layer id slots =>
    let (pool,world) := s.world.newPool slots
    (.available slots,{ s with world := world,layers := s.layers.insert id pool })
  | .available id =>
    match s.layers.find? id with
    | some pool => (.available (s.world.free pool),s)
    | none => (.unknownName,s)
  | .pipeline id slots => s.pipeline id slots
  | .stack id names => s.stack id names
  | .clone id copy =>
    match s.pipes.find? id with
    | some pipe => (.done,{ s with pipes := s.pipes.insert copy pipe })
    | none => (.unknownName,s)
  | .call id pipe request token => s.call id pipe request token
  | .poll id => s.poll id
  | .drop id => s.drop id

def stepLogged (s : Session) (step : Step) : Answer × List LogEntry × Session :=
  let fresh := { s with world := { s.world with log := [] } }
  let (answer,next) := fresh.step step
  (answer,next.world.log,next)

def run : Session → List Step → List (Answer × List LogEntry) × Session
  | s,[] => ([],s)
  | s,step :: rest =>
    let (answer,entries,next) := s.stepLogged step
    let (answers,last) := run next rest
    ((answer,entries) :: answers,last)

theorem run_append (s : Session) (first second : List Step) :
    s.run (first ++ second) =
      ((s.run first).1 ++ ((s.run first).2.run second).1,((s.run first).2.run second).2) := by
  induction first generalizing s with
  | nil => rfl
  | cons step rest ih => simp [run,ih]

end Session
end Switchboard
