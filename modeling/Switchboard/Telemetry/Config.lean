import Switchboard.Number.Digits
import Switchboard.Telemetry.Filter
import Switchboard.Text.Quoted
import Switchboard.Text.Utf8

namespace Switchboard

structure LogConfig where
  filter : String
  json : Bool
deriving DecidableEq

structure HandlerConfig where
  maxConcurrentOperations : Nat
  log : LogConfig
deriving DecidableEq

def LogConfig.standard : LogConfig := ⟨"info",false⟩

def HandlerConfig.standard : HandlerConfig := ⟨1000,LogConfig.standard⟩

def LogConfig.shown (c : LogConfig) : String :=
  Text.braced "LogConfig" [("filter",Text.quoted c.filter),("json",if c.json then "true" else "false")]

def HandlerConfig.shown (c : HandlerConfig) : String :=
  Text.braced "HandlerConfig"
    [("max_concurrent_operations",natText c.maxConcurrentOperations),("log",c.log.shown)]

inductive SetupError where
  | unreadableVariable
  | badVariable (filter : String)
  | badFilter (filter : String)
  | splitFilter (fault : SplitCharacter)
  | alreadySetUp
deriving DecidableEq

namespace SetupError

def variableName : String := "RUST_LOG"

def badFilterText (filter : String) : String := "invalid log filter: " ++ filter

def chain : SetupError → List String
  | unreadableVariable => [variableName,"<cause>"]
  | badVariable filter => [variableName,badFilterText filter,"<cause>"]
  | badFilter filter => [badFilterText filter,"<cause>"]
  | splitFilter fault => [fault.message]
  | alreadySetUp =>
    ["failed to install tracing subscriber: a global default trace dispatcher has already been set"]

def message (e : SetupError) : String := e.chain.headD ""

end SetupError

structure Logging where
  filter : Filter
  json : Bool

namespace Logging

def readFilter (text : String) (malformed : SetupError) : Except SetupError Filter :=
  match Filter.parse text with
  | .ok filter => .ok filter
  | .error .malformed => .error malformed
  | .error (.split fault) => .error (.splitFilter fault)

-- The environment, if it says anything, wins over the configured filter.
def filterFor (setting : Option (List UInt8)) (config : LogConfig) : Except SetupError Filter :=
  match setting with
  | none => readFilter config.filter (.badFilter config.filter)
  | some bytes =>
    match Text.ofBytes? bytes with
    | none => .error .unreadableVariable
    | some text => readFilter text (.badVariable text)

-- The filter is looked at before it is noticed that logging is set up already.
def setUp (setting : Option (List UInt8)) (current : Option Logging) (config : LogConfig) :
    Except SetupError Logging :=
  match filterFor setting config with
  | .error e => .error e
  | .ok filter =>
    match current with
    | some _ => .error .alreadySetUp
    | none => .ok ⟨filter,config.json⟩

def setUpAll (setting : Option (List UInt8)) (current : Option Logging) :
    List LogConfig → List (Except SetupError Unit) × Option Logging
  | [] => ([],current)
  | config :: rest =>
    match setUp setting current config with
    | .ok logging =>
      let (results,final) := setUpAll setting (some logging) rest
      (.ok () :: results,final)
    | .error e =>
      let (results,final) := setUpAll setting current rest
      (.error e :: results,final)

end Logging
end Switchboard
