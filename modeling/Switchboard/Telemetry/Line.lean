import Switchboard.Telemetry.Config

namespace Switchboard

structure Line where
  level : Level
  message : String
  fields : EventFields
  spans : List Span

namespace Line

def fieldText : String × FieldValue → String
  | (name,.text s) => name ++ "=" ++ Text.quoted s
  | (name,.plain s) => name ++ "=" ++ s
  | (name,.count n) => name ++ "=" ++ natText n
  | (name,.elapsed) => name ++ "=_"

def levelText (level : Level) : String :=
  String.ofList (List.replicate (5 - level.name.length) ' ') ++ level.name

def spanNames (spans : List Span) : String :=
  if spans.isEmpty then ""
  else String.intercalate ":" (spans.map (fun _ => Span.name)) ++ ": "

def compact (l : Line) : String :=
  let fields := l.fields ++ l.spans.flatMap Span.fields
  levelText l.level ++ " " ++ spanNames l.spans ++ l.message ++
    String.join (fields.map (fun field => " " ++ fieldText field))

end Line

namespace Logging

def line? (l : Logging) : LogEntry → Option Line
  | .closed _ => none
  | .event event spans =>
    let spans := if l.filter.spansPass then spans else []
    if l.filter.passes event spans then some ⟨event.level,event.message,event.fields,spans⟩
    else none

def lines (l : Logging) (entries : List LogEntry) : List Line := entries.filterMap l.line?

end Logging
end Switchboard
