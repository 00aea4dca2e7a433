namespace Switchboard

inductive Direction where
  | encode
  | decode
deriving DecidableEq

def Direction.name : Direction → String
  | encode => "encode"
  | decode => "decode"

inductive Cause where
  | codec
  | text (message : String)
deriving DecidableEq

def Cause.message : Cause → String
  | codec => "<codec>"
  | text message => message

inductive SerializationError where
  | encode (contentType : String) (cause : Cause)
  | decode (contentType : String) (cause : Cause)
  | unsupported (contentType : String) (direction : Direction)
  | read (message : String)
deriving DecidableEq

namespace SerializationError

def message : SerializationError → String
  | .encode contentType cause => "failed to encode value as " ++ contentType ++ ": " ++ cause.message
  | .decode contentType cause =>
    "failed to decode " ++ contentType ++ " payload: " ++ cause.message
  | .unsupported contentType direction =>
    "unsupported content type for " ++ direction.name ++ ": " ++ contentType
  | .read message => "failed to read payload body: " ++ message

def causes : SerializationError → List String
  | .encode _ cause => [cause.message]
  | .decode _ cause => [cause.message]
  | .unsupported _ _ => []
  | .read message => [message]

def direction : SerializationError → Direction
  | .encode _ _ => .encode
  | .decode _ _ => .decode
  | .unsupported _ direction => direction
  | .read _ => .decode

end SerializationError
end Switchboard
