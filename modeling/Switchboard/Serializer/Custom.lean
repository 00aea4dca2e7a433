import Switchboard.Serializer.Builtin

namespace Switchboard

inductive CustomMode where
  | silent
  | refuse
  | failing
  | json
  | greedy
deriving DecidableEq

namespace CustomMode

def name : CustomMode → String
  | silent => "silent"
  | refuse => "refuse"
  | failing => "failing"
  | json => "json"
  | greedy => "greedy"

def named? : String → Option CustomMode
  | "silent" => some silent
  | "refuse" => some refuse
  | "failing" => some failing
  | "json" => some json
  | "greedy" => some greedy
  | _ => none

end CustomMode

namespace Codec

def retagged (contentType : String) (mode : CustomMode) (t : Ty) (v : t.Value) :
    Except SerializationError Payload :=
  match Codec.json.encode t v with
  | .ok p => .ok ((Payload.typed contentType p.body).withHeader "x-mode" mode.name)
  | .error e => .error e

def custom (contentType : String) (mode : CustomMode) : Codec where
  contentType := contentType
  shown :=
    let plain :=
      Text.braced "Custom" [("content_type",Text.quoted contentType),("mode",Text.quoted mode.name)]
    if mode = .greedy then "Greedy(" ++ plain ++ ")" else plain
  accepts given := mode == .greedy || sameEssence contentType given
  encode t v :=
    match mode with
    | .silent => .ok (.typed contentType [])
    | .refuse => .error (.unsupported contentType .encode)
    | .failing => .error (.encode contentType (.text "cannot encode"))
    | .json | .greedy => retagged contentType mode t v
  decode t p :=
    match mode with
    | .silent => .ok none
    | .refuse => .error (.decode contentType (.text "refused"))
    | .failing => .error (.read "cannot read")
    | .json | .greedy => Codec.json.decode t (.untyped p.body)

end Codec
end Switchboard
