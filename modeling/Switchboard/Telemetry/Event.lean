import Switchboard.Number.Digits
import Switchboard.Text.Quoted

namespace Switchboard

inductive Level where
  | error
  | warn
  | info
  | debug
  | trace
deriving DecidableEq

namespace Level

def name : Level → String
  | error => "ERROR"
  | warn => "WARN"
  | info => "INFO"
  | debug => "DEBUG"
  | trace => "TRACE"

def detail : Level → Nat
  | error => 1
  | warn => 2
  | info => 3
  | debug => 4
  | trace => 5

end Level

inductive FieldValue where
  | text (s : String)
  | plain (s : String)
  | count (n : Nat)
  | elapsed
deriving DecidableEq

abbrev EventFields := List (String × FieldValue)

inductive Event where
  | decodingInput (contentType : Option String) (length : Nat) (target : String)
  | noSerializer (contentType : String)
  | serviceRegistered (service : String) (operations : List String)
  | serviceNotFound (service operation : String)
  | operationNotFound (service operation : String)
  | dispatching (service operation requestId : String) (contentType : Option String)
  | rejecting (service operation : String)
  | complete (outcome : String)
deriving DecidableEq

namespace Event

def level : Event → Level
  | decodingInput _ _ _ => .trace
  | noSerializer _ => .debug
  | serviceRegistered _ _ => .info
  | serviceNotFound _ _ => .warn
  | operationNotFound _ _ => .warn
  | dispatching _ _ _ _ => .debug
  | rejecting _ _ => .warn
  | complete _ => .info

def target : Event → String
  | decodingInput _ _ _ => "nexus_core::lazy"
  | noSerializer _ => "nexus_core::serializer"
  | serviceRegistered _ _ => "nexus_handler::service::registry"
  | serviceNotFound _ _ => "nexus_handler::service::router"
  | operationNotFound _ _ => "nexus_handler::service::router"
  | dispatching _ _ _ _ => "nexus_handler::service::router"
  | rejecting _ _ => "nexus_handler::service::middleware::load_shed"
  | complete _ => "nexus_handler::service::middleware::metrics"

def message : Event → String
  | decodingInput _ _ _ => "decoding lazy value"
  | noSerializer _ => "no serializer accepts content type"
  | serviceRegistered _ _ => "service registered"
  | serviceNotFound _ _ => "service not found"
  | operationNotFound _ _ => "operation not found"
  | dispatching _ _ _ _ => "dispatching operation"
  | rejecting _ _ => "no dispatch slot free, rejecting"
  | complete _ => "operation complete"

def optionalField (name : String) : Option String → EventFields
  | none => []
  | some s => [(name,.text s)]

def fields : Event → EventFields
  | decodingInput contentType length target =>
    optionalField "content_type" contentType ++ [("len",.count length),("target",.text target)]
  | noSerializer contentType => [("content_type",.text contentType)]
  | serviceRegistered service operations =>
    [("service",.plain service),
      ("operations",.plain (Text.bracketed (operations.map Text.quoted)))]
  | serviceNotFound service operation => [("service",.text service),("operation",.text operation)]
  | operationNotFound service operation =>
    [("service",.text service),("operation",.text operation)]
  | dispatching service operation requestId contentType =>
    [("service",.text service),("operation",.text operation),("request_id",.plain requestId)] ++
      optionalField "content_type" contentType
  | rejecting service operation => [("service",.plain service),("operation",.plain operation)]
  | complete outcome => [("duration_ms",.elapsed),("outcome",.text outcome)]

def fieldNames : Event → List String
  | decodingInput _ _ _ => ["message","content_type","len","target"]
  | noSerializer _ => ["message","content_type"]
  | serviceRegistered _ _ => ["message","service","operations"]
  | serviceNotFound _ _ => ["message","service","operation"]
  | operationNotFound _ _ => ["message","service","operation"]
  | dispatching _ _ _ _ => ["message","service","operation","request_id","content_type"]
  | rejecting _ _ => ["message","service","operation"]
  | complete _ => ["message","duration_ms","outcome"]

end Event

structure Span where
  service : String
  operation : String
  requestId : String
  outcome : Option String
deriving DecidableEq

namespace Span

def name : String := "operation"

def level : Level := .info

def target : String := "nexus_handler::service::middleware::metrics"

def fieldNames : List String := ["service","operation","request_id","duration_ms","outcome"]

def fields (s : Span) : EventFields :=
  [("service",.plain s.service),("operation",.plain s.operation),("request_id",.plain s.requestId)] ++
    match s.outcome with
    | none => []
    | some outcome => [("duration_ms",.elapsed),("outcome",.text outcome)]

end Span

inductive LogEntry where
  | event (event : Event) (spans : List Span)
  | closed (span : Span)
deriving DecidableEq

end Switchboard
