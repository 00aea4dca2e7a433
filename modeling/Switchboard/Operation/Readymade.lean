import Switchboard.Operation.Basic
import Switchboard.Schema.Catalogue

namespace Switchboard.Readymade

open Operation (Function)

def plainly {input output : Ty} (f : input.Value → Except HandlerError output.Value) :
    Function input output :=
  fun _ v _ => pure (f v)

def charCount (s : String) : Bounded .i64 := IntKind.nearest .i64 s.length

def echo : Function .text .text := plainly .ok

def count : Function .text Catalogue.i64 := fun _ s _ => do
  if ← Job.askCancelled then return .error (.canceled "caller went away" [])
  return .ok (charCount s)

def length : Function .text Catalogue.u64 :=
  plainly (fun s => .ok (IntKind.nearest .u64 s.utf8ByteSize))

def double : Function Catalogue.i64 Catalogue.i64 :=
  plainly (fun n =>
    match IntKind.ofInt? .i64 (2 * n.val) with
    | some m => .ok m
    | none => .error (.badRequest ("overflow doubling " ++ intText n.val)))

def half : Function (.float .double) (.float .double) :=
  plainly (fun x => .ok (x.div (Binary.ofInt .double 2)))

def nothing : Function .unit .unit := plainly .ok

def present : Function (.option .text) .bool := plainly (fun v => .ok v.isSome)

def addAll (start : Bounded .i64) : List (Bounded .i64) → Option (Bounded .i64)
  | [] => some start
  | n :: rest => (IntKind.ofInt? .i64 (start.val + n.val)).bind (fun next => addAll next rest)

def sum : Function (.list Catalogue.i64) Catalogue.i64 :=
  plainly (fun ns =>
    match addAll (IntKind.nearest .i64 0) ns with
    | some n => .ok n
    | none => .error (.internal "sum overflow"))

def inline : Function Catalogue.inlineInput Catalogue.inlineOutput :=
  plainly (fun (s,_) => .ok (s.map charCount,()))

def table : Function (.map (.int .u32) .text) (.map (.int .u32) .text) := plainly .ok

def blob : Function .bytes .bytes := plainly .ok

def any : Function .document .document := plainly .ok

def picky : Function Catalogue.i64 .guarded := plainly .ok

def whoami : Function .unit Catalogue.seen := fun context _ options => do
  let cancelled ← Job.askCancelled
  return .ok
    (context.service,context.operation,context.requestId,context.headers,cancelled,
      options.requestId,options.headers,options.callbackUrl,options.callbackHeaders,
      options.links.map (fun link => (link.url,link.type)),())

def fail : Function Catalogue.failInput .unit :=
  plainly (fun (how,text,causes,_) =>
    .error ((HandlerError.described? how text causes).getD (.badRequest "unknown kind")))

def truthText (b : Bool) : String := if b then "true" else "false"

def wait : Function .text .text := fun _ gate _ => do
  Job.awaitTicket gate
  let cancelled ← Job.askCancelled
  return .ok (gate ++ ":" ++ truthText cancelled)

def untilCancelled : Function .text .text := fun _ text _ => do
  Job.awaitCancellation
  return .error (.canceled text [])

def raw (name : String) : Operation where
  descriptor := ⟨name,.bytes,.document⟩
  start _ value _ := do
    match ← value.intoPayload with
    | .error e => return .error (.serialization e)
    | .ok p =>
      return .ok (.sync (.of Catalogue.rawSeen
        (value.contentType,value.headers,IntKind.nearest .u64 p.body.length,
          Text.hexBytes p.body,())))

def selfEncoding (name : String) : Operation where
  descriptor := ⟨name,Catalogue.i64,.text⟩
  start _ value _ := do
    match ← value.consume Catalogue.i64 with
    | .error e => return .error (.serialization e)
    | .ok n =>
      match Serializer.json.toPayload .guarded n with
      | .error e => return .error (.serialization e)
      | .ok p => return .ok (.sync (.of .text (Text.hexBytes p.body)))

def named? (function name : String) : Option Operation :=
  match function with
  | "echo" => some (.sync name _ _ echo)
  | "count" => some (.sync name _ _ count)
  | "length" => some (.sync name _ _ length)
  | "double" => some (.sync name _ _ double)
  | "half" => some (.sync name _ _ half)
  | "nothing" => some (.sync name _ _ nothing)
  | "present" => some (.sync name _ _ present)
  | "sum" => some (.sync name _ _ sum)
  | "inline" => some (.sync name _ _ inline)
  | "table" => some (.sync name _ _ table)
  | "blob" => some (.sync name _ _ blob)
  | "any" => some (.sync name _ _ any)
  | "picky" => some (.sync name _ _ picky)
  | "whoami" => some (.sync name _ _ whoami)
  | "fail" => some (.sync name _ _ fail)
  | "wait" => some (.sync name _ _ wait)
  | "until_cancelled" => some (.sync name _ _ untilCancelled)
  | "raw" => some (raw name)
  | "self_encoding" => some (selfEncoding name)
  | _ => none

end Switchboard.Readymade
