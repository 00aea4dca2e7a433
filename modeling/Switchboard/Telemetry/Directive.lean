import Switchboard.Number.Digits
import Switchboard.Pattern.Reader
import Switchboard.Telemetry.Event
import Switchboard.Text.Alphanumeric
import Switchboard.Text.Space

namespace Switchboard

inductive Wanted where
  | scalar (text : String)
  | pattern (source : String) (p : Pattern)
deriving DecidableEq

structure FieldTest where
  name : String
  value : Option Wanted
deriving DecidableEq

structure Directive where
  target : String
  span : Option String
  field : Option FieldTest
  -- None passes nothing.
  level : Option Level
deriving DecidableEq

inductive Edge where
  | start
  | stop
deriving DecidableEq

structure SplitCharacter where
  edge : Edge
  index : Nat
  character : Char
  first : Nat
deriving DecidableEq

inductive FilterError where
  | malformed
  | split (fault : SplitCharacter)
deriving DecidableEq

namespace SplitCharacter

def message (s : SplitCharacter) : String :=
  let edge :=
    match s.edge with
    | .start => "start"
    | .stop => "end"
  edge ++ " byte index " ++ natText s.index ++ " is not a char boundary; it is inside '" ++
    String.ofList (Text.quotedChar s.character) ++ "' (bytes " ++ natText s.first ++ ".." ++
    natText (s.first + s.character.utf8Size) ++ " of string)"

end SplitCharacter

abbrev Placed := List (Nat × Char)

namespace Placed

def ofChars (start : Nat) : List Char → Placed
  | [] => []
  | c :: rest => (start,c) :: ofChars (start + c.utf8Size) rest

def straddling? (p : Placed) (index : Nat) : Option (Nat × Char) :=
  p.find? (fun (first,c) => first < index && index < first + c.utf8Size)

def textFrom (p : Placed) (start : Nat) : Except FilterError String :=
  match p.straddling? start with
  | some (first,c) => .error (.split ⟨.start,start,c,first⟩)
  | none => .ok (String.ofList ((p.filter (fun at_ => start ≤ at_.1)).map Prod.snd))

def text (p : Placed) (start stop : Nat) : Except FilterError String :=
  match p.straddling? start,p.straddling? stop with
  | some (first,c),_ => .error (.split ⟨.start,start,c,first⟩)
  | none,some (first,c) => .error (.split ⟨.stop,stop,c,first⟩)
  | none,none =>
    .ok (String.ofList ((p.filter (fun at_ => start ≤ at_.1 && at_.1 < stop)).map Prod.snd))

end Placed

namespace Wanted

def isDigit (c : Char) : Bool := 0x30 ≤ c.toNat && c.toNat ≤ 0x39

def unsigned : List Char → List Char
  | '+' :: rest => rest
  | '-' :: rest => rest
  | cs => cs

def isExponent : List Char → Bool
  | [] => true
  | c :: rest => (c == 'e' || c == 'E') && !(unsigned rest).isEmpty && (unsigned rest).all isDigit

def isDecimal (cs : List Char) : Bool :=
  let whole := cs.takeWhile isDigit
  let (fraction,rest) :=
    match cs.dropWhile isDigit with
    | '.' :: rest => (rest.takeWhile isDigit,rest.dropWhile isDigit)
    | rest => ([],rest)
  !(whole.isEmpty && fraction.isEmpty) && isExponent rest

def isScalar (s : String) : Bool :=
  let cs := unsigned s.toList
  s == "true" || s == "false" || isDecimal cs ||
    ["inf","infinity","nan"].contains (String.ofList (cs.map Text.lowerAscii))

def ofText? (s : String) : Option Wanted :=
  if isScalar s then some (.scalar s) else (Pattern.read? s).map (.pattern s)

def isMetBy (text : String) : Wanted → Bool
  | scalar _ => false
  | pattern _ p => p.endsIn text

def source : Wanted → String
  | scalar text => text
  | pattern source _ => source

end Wanted

namespace FieldTest

-- What comes after a second equals sign does not count.
def ofText? (s : String) : Option FieldTest :=
  let name := String.ofList (s.toList.takeWhile (· != '='))
  match s.toList.dropWhile (· != '=') with
  | [] => some ⟨name,none⟩
  | _ :: rest =>
    (Wanted.ofText? (String.ofList (rest.takeWhile (· != '=')))).map (fun value => ⟨name,some value⟩)

def sameAs (t u : FieldTest) : Bool :=
  t.name == u.name && t.value.map Wanted.source == u.value.map Wanted.source

end FieldTest

namespace Directive

def number? (s : String) : Option Nat :=
  let digits :=
    match s.toList with
    | '+' :: rest => rest
    | cs => cs
  if digits.isEmpty then none
  else (digits.mapM (fun c => if c.toNat < 0x80 then Digits.ofByte? (UInt8.ofNat c.toNat) else none)).map
    Digits.toNat

def levelNumbered? : Nat → Option (Option Level)
  | 0 => some none
  | 1 => some (some .error)
  | 2 => some (some .warn)
  | 3 => some (some .info)
  | 4 => some (some .debug)
  | 5 => some (some .trace)
  | _ => none

def levelNamed? (s : String) : Option (Option Level) :=
  match String.ofList (s.toList.map Text.lowerAscii) with
  | "off" => some none
  | "error" => some (some .error)
  | "warn" => some (some .warn)
  | "info" => some (some .info)
  | "debug" => some (some .debug)
  | "trace" => some (some .trace)
  | _ => none

def level? (s : String) : Option (Option Level) :=
  match number? s with
  | some n => levelNumbered? n
  | none => levelNamed? s

def everything : Directive := ⟨"",none,none,some .trace⟩

inductive Scan where
  | start
  | word (first : Nat)
  | span (first : Nat)
  | field (first : Nat)
  | afterField
  | afterSpan
  | level (first : Nat)
deriving DecidableEq

def beginsWord (c : Char) : Bool := c == '-' || c == ':' || c == '_' || Text.isAlphanumeric c

def advance (whole : Placed) (d : Directive) (scan : Scan) (i : Nat) (c : Char) :
    Except FilterError (Directive × Scan) :=
  match scan with
  | .start =>
    if c == '[' then .ok (d,.span (i + 1))
    else if beginsWord c then .ok (d,.word i)
    else .error .malformed
  | .word first =>
    if c == '=' then (whole.text first i).map (fun target => ({ d with target := target },.level (i + 1)))
    else if c == '[' then
      (whole.text first i).map (fun target => ({ d with target := target },.span (i + 1)))
    else .ok (d,scan)
  | .span first =>
    if c == ']' then (whole.text first i).map (fun name => ({ d with span := some name },.afterSpan))
    else if c == '\x7b' then
      (whole.text first i).map (fun name =>
        ({ d with span := if name.isEmpty then none else some name },.field (i + 1)))
    else .ok (d,scan)
  | .field first =>
    if c == '\x7d' then
      match whole.text first i with
      | .error e => .error e
      | .ok test =>
        match if test.isEmpty then none else FieldTest.ofText? test with
        | some test => .ok ({ d with field := some test },.afterField)
        | none => .error .malformed
    else .ok (d,scan)
  | .afterField => if c == ']' then .ok (d,.afterSpan) else .error .malformed
  | .afterSpan => if c == '=' then .ok (d,.level (i + 1)) else .error .malformed
  | .level _ => .ok (d,scan)

def finish (whole : Placed) (d : Directive) : Scan → Except FilterError Directive
  | .word first =>
    match whole.textFrom first with
    | .error e => .error e
    | .ok word =>
      match level? word with
      | some level => .ok { d with target := "",level := level }
      | none => .ok { d with target := word,level := some .trace }
  | .level first =>
    match whole.textFrom first with
    | .error e => .error e
    | .ok word =>
      if word.isEmpty then .ok { d with level := some .trace }
      else
        match level? word with
        | some level => .ok { d with level := level }
        | none => .error .malformed
  | .afterSpan => .ok d
  | _ => .error .malformed

def scanFrom (whole : Placed) : Directive → Scan → Placed → Except FilterError Directive
  | d,scan,[] => finish whole d scan
  | d,scan,(i,c) :: rest =>
    match advance whole d scan i c with
    | .error e => .error e
    | .ok (d,scan) => scanFrom whole d scan rest

-- The text is scanned without the white space around it, and its parts are cut at the positions
-- so found out of the text with the white space: in front it shifts every part, and behind it
-- belongs to the last one.
def ofChars (cs : List Char) : Except FilterError Directive :=
  scanFrom (.ofChars 0 cs) everything .start (.ofChars 0 (Text.trimChars cs))

end Directive
end Switchboard
