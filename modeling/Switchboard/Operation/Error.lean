import Switchboard.Serializer.Error

namespace Switchboard

inductive ErrorKind where
  | badRequest
  | unauthenticated
  | unauthorized
  | notFound
  | resourceExhausted
  | internal
  | notImplemented
  | unavailable
  | peerTimeout
deriving DecidableEq

namespace ErrorKind

def name : ErrorKind → String
  | badRequest => "BAD_REQUEST"
  | unauthenticated => "UNAUTHENTICATED"
  | unauthorized => "UNAUTHORIZED"
  | notFound => "NOT_FOUND"
  | resourceExhausted => "RESOURCE_EXHAUSTED"
  | internal => "INTERNAL"
  | notImplemented => "NOT_IMPLEMENTED"
  | unavailable => "UNAVAILABLE"
  | peerTimeout => "UPSTREAM_TIMEOUT"

def shown : ErrorKind → String
  | badRequest => "BadRequest"
  | unauthenticated => "Unauthenticated"
  | unauthorized => "Unauthorized"
  | notFound => "NotFound"
  | resourceExhausted => "ResourceExhausted"
  | internal => "Internal"
  | notImplemented => "NotImplemented"
  | unavailable => "Unavailable"
  | peerTimeout => "UpstreamTimeout"

def all : List ErrorKind :=
  [badRequest,unauthenticated,unauthorized,notFound,resourceExhausted,internal,notImplemented,
    unavailable,peerTimeout]

def named? (name : String) : Option ErrorKind := all.find? (fun kind => kind.name == name)

def isRetryable : ErrorKind → Bool
  | resourceExhausted | internal | unavailable | peerTimeout => true
  | badRequest | unauthenticated | unauthorized | notFound | notImplemented => false

end ErrorKind

inductive OperationState where
  | failed
  | canceled
deriving DecidableEq

def OperationState.name : OperationState → String
  | failed => "failed"
  | canceled => "canceled"

structure OperationError where
  state : OperationState
  text : String
  causes : List String
deriving DecidableEq

def OperationError.message (e : OperationError) : String :=
  "operation " ++ e.state.name ++ ": " ++ e.text

inductive HandlerError where
  | request (kind : ErrorKind) (text : String) (causes : List String)
  | operation (error : OperationError)
deriving DecidableEq

namespace HandlerError

def message : HandlerError → String
  | .request kind text _ => kind.name ++ ": " ++ text
  | .operation e => e.message

def causes : HandlerError → List String
  | .request _ _ causes => causes
  | .operation e => e.causes

def kind : HandlerError → ErrorKind
  | .request kind _ _ => kind
  | .operation _ => .internal

def badRequest (text : String) : HandlerError := .request .badRequest text []

def internal (text : String) : HandlerError := .request .internal text []

def failed (text : String) (causes : List String) : HandlerError := .operation ⟨.failed,text,causes⟩

def canceled (text : String) (causes : List String) : HandlerError :=
  .operation ⟨.canceled,text,causes⟩

-- An error of no known kind is internal, and is its own first cause.
def ofUnknown (text : String) (causes : List String) : HandlerError :=
  .request .internal text (text :: causes)

def described? (how text : String) (causes : List String) : Option HandlerError :=
  match how with
  | "bad_request" => some (badRequest text)
  | "not_found" => some (.request .notFound text [])
  | "internal" => some (internal text)
  | "not_implemented" => some (.request .notImplemented text [])
  | "unavailable" => some (.request .unavailable text [])
  | "anyhow" => some (ofUnknown text causes)
  | "failed" => some (failed text causes)
  | "canceled" | "literal_canceled" => some (canceled text causes)
  | wire => (ErrorKind.named? wire).map (fun kind => .request kind text causes)

end HandlerError

inductive Missing where
  | service
  | operation
deriving DecidableEq

def Missing.name : Missing → String
  | service => "service"
  | operation => "operation"

structure NotFound where
  missing : Missing
  service : String
  operation : String
deriving DecidableEq

def NotFound.message (e : NotFound) : String :=
  match e.missing with
  | .service => "service not found: " ++ e.service
  | .operation => "operation not found: " ++ e.operation ++ " in service " ++ e.service

inductive StartError where
  | notFound (error : NotFound)
  | serialization (error : SerializationError)
  | handler (error : HandlerError)
  | overloaded
deriving DecidableEq

namespace StartError

def message : StartError → String
  | .notFound e => e.message
  | .serialization e => e.message
  | .handler e => e.message
  | .overloaded => "handler overloaded, try again later"

def causes : StartError → List String
  | .notFound _ => []
  | .serialization e => e.causes
  | .handler e => e.causes
  | .overloaded => []

-- A body that cannot be decoded is the caller's fault; one that cannot be read or written is
-- not.
def kind : StartError → ErrorKind
  | .notFound _ => .notFound
  | .serialization (.read _) => .internal
  | .serialization e =>
    match e.direction with
    | .decode => .badRequest
    | .encode => .internal
  | .handler e => e.kind
  | .overloaded => .resourceExhausted

end StartError
end Switchboard
