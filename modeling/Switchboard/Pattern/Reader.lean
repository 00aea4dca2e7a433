import Switchboard.Pattern.Basic
import Switchboard.Text.Alphanumeric
import Switchboard.Text.Space

namespace Switchboard.Pattern

-- Characters beyond ASCII are known by their numbers only. What asks for more is refused unless
-- it is read for ASCII alone.

structure Flags where
  caseless : Bool
  multiline : Bool
  dotAll : Bool
  swapped : Bool
  unicode : Bool
  returns : Bool
  spaced : Bool
deriving DecidableEq

namespace Flags

def standard : Flags := ⟨false,false,false,false,true,false,false⟩

def set? (f : Flags) (value : Bool) : Char → Option Flags
  | 'i' => some { f with caseless := value }
  | 'm' => some { f with multiline := value }
  | 's' => some { f with dotAll := value }
  | 'U' => some { f with swapped := value }
  | 'u' => some { f with unicode := value }
  | 'R' => some { f with returns := value }
  | 'x' => some { f with spaced := value }
  | _ => none

def skipBlank (inRemark : Bool) : List Char → List Char
  | [] => []
  | c :: rest =>
    if inRemark then skipBlank (c != '\n') rest
    else if Text.isSpace c then skipBlank false rest
    else if c == '#' then skipBlank true rest
    else c :: rest

def trim (f : Flags) (cs : List Char) : List Char := if f.spaced then skipBlank false cs else cs

def folded? (f : Flags) (s : CharSet) : Option CharSet :=
  if !f.caseless then some s
  else if !f.unicode then some (.anyCase s)
  else if s.namesNone then some s
  else none

def meant? (f : Flags) (negated : Bool) (s : CharSet) : Option CharSet := do
  let s ← f.folded? s
  let s := if negated then .outside s else s
  if f.unicode then some s else s.ofBytes?

end Flags

inductive Atom where
  | char (c : Char) (asByte : Bool)
  | set (s : CharSet)
  | anchor (a : Anchor)

def hexValue? (c : Char) : Option Nat :=
  let n := c.toNat
  if 0x30 ≤ n && n ≤ 0x39 then some (n - 0x30)
  else if 0x41 ≤ n && n ≤ 0x46 then some (n - 0x37)
  else if 0x61 ≤ n && n ≤ 0x66 then some (n - 0x57)
  else none

def hexDigits? (f : Flags) : Nat → Nat → List Char → Option (Nat × List Char)
  | 0,value,cs => some (value,cs)
  | count + 1,value,cs =>
    match f.trim cs with
    | [] => none
    | c :: rest => (hexValue? c).bind (fun digit => hexDigits? f count (16 * value + digit) rest)

def hexChar? (f : Flags) (digits : Nat) (cs : List Char) : Option (Atom × List Char) := do
  let (value,rest) ← hexDigits? f digits 0 cs
  if value.isValidChar then some (.char (Char.ofNat value) (digits == 2),f.trim rest) else none

def shorthand? (f : Flags) (negated : Bool) (name : String) : Option CharSet :=
  if f.unicode then none
  else (CharSet.ascii? name).bind (fun s => (if negated then CharSet.outside s else s).ofBytes?)

def wordAnchor? (f : Flags) (a : Anchor) : Option Atom := if f.unicode then none else some (.anchor a)

def isPlainEscape (c : Char) : Bool :=
  let n := c.toNat
  n < 0x80 && !((0x30 ≤ n && n ≤ 0x39) || (0x41 ≤ n && n ≤ 0x5a) || (0x61 ≤ n && n ≤ 0x7a) ||
    c == '<' || c == '>')

def escape? (f : Flags) : List Char → Option (Atom × List Char)
  | [] => none
  | c :: rest =>
    match c with
    | 'x' => hexChar? f 2 rest
    | 'u' => hexChar? f 4 rest
    | 'U' => hexChar? f 8 rest
    | 'd' => (shorthand? f false "digit").map (fun s => (.set s,rest))
    | 'D' => (shorthand? f true "digit").map (fun s => (.set s,rest))
    | 's' => (shorthand? f false "space").map (fun s => (.set s,rest))
    | 'S' => (shorthand? f true "space").map (fun s => (.set s,rest))
    | 'w' => (shorthand? f false "word").map (fun s => (.set s,rest))
    | 'W' => (shorthand? f true "word").map (fun s => (.set s,rest))
    | 'a' => some (.char '\x07' false,rest)
    | 'f' => some (.char '\x0c' false,rest)
    | 't' => some (.char '\t' false,rest)
    | 'n' => some (.char '\n' false,rest)
    | 'r' => some (.char '\r' false,rest)
    | 'v' => some (.char '\x0b' false,rest)
    | 'A' => some (.anchor .textStart,rest)
    | 'z' => some (.anchor .textEnd,rest)
    | 'b' => (wordAnchor? f .wordEdge).map (fun a => (a,rest))
    | 'B' => (wordAnchor? f .noWordEdge).map (fun a => (a,rest))
    | '<' => (wordAnchor? f .wordStart).map (fun a => (a,rest))
    | '>' => (wordAnchor? f .wordEnd).map (fun a => (a,rest))
    | c => if isPlainEscape c then some (.char c false,rest) else none

inductive SetOperation where
  | inter
  | without
  | either

structure Nested where
  set : CharSet
  depth : Nat

structure Members where
  set : CharSet
  count : Nat
  depth : Nat

inductive SetFrame where
  | bracket (before : Members) (negated : Bool)
  | operation (o : SetOperation) (left : Nested)

namespace Members

def none : Members := ⟨.nothing,0,0⟩

def add (m : Members) (s : Nested) : Members :=
  ⟨if m.count == 0 then s.set else .union m.set s.set,m.count + 1,max m.depth s.depth⟩

def nested (m : Members) : Nested := ⟨m.set,if m.count ≤ 1 then m.depth else m.depth + 1⟩

end Members

def SetOperation.apply : SetOperation → CharSet → CharSet → CharSet
  | inter => .inter
  | without => .without
  | either => .either

def settle? (f : Flags) (s : Nested) : List SetFrame → Option (Nested × List SetFrame)
  | .operation o left :: frames => do
    let t ← f.folded? left.set
    let u ← f.folded? s.set
    return (⟨o.apply t u,max left.depth s.depth + 1⟩,frames)
  | frames => some (s,frames)

def hyphens (f : Flags) : Nat → Members → List Char → Members × List Char
  | 0,m,cs => (m,cs)
  | fuel + 1,m,cs =>
    match cs with
    | '-' :: rest => hyphens f fuel (m.add ⟨.single '-',0⟩) (f.trim rest)
    | _ => (m,cs)

def circumflex : List Char → Bool × List Char
  | '^' :: rest => (true,rest)
  | cs => (false,cs)

def openBracket (f : Flags) (cs : List Char) : Bool × Members × List Char :=
  let (negated,cs) := circumflex (f.trim cs)
  let cs := f.trim cs
  let (m,cs) := hyphens f cs.length .none cs
  match cs with
  | ']' :: rest =>
    if m.count == 0 then (negated,m.add ⟨.single ']',0⟩,f.trim rest) else (negated,m,cs)
  | _ => (negated,m,cs)

def namedSet? : List Char → Option (Bool × CharSet × List Char)
  | ':' :: rest =>
    let (negated,name) := circumflex rest
    match name.dropWhile (· != ':') with
    | ':' :: ']' :: after =>
      (CharSet.ascii? (String.ofList (name.takeWhile (· != ':')))).map (fun s => (negated,s,after))
    | _ => none
  | _ => none

def setItem? (f : Flags) : List Char → Option (Atom × List Char)
  | [] => none
  | '\\' :: rest => escape? f rest
  | c :: rest => some (.char c false,rest)

def charInSet? (f : Flags) : Atom → Option Char
  | .char c _ => if f.unicode || c.toNat < 0x80 then some c else none
  | _ => none

def setOfItem? (f : Flags) : Atom → Option CharSet
  | .set s => some s
  | atom => (charInSet? f atom).map CharSet.single

-- White space in front is passed over and so is a number sign, but the remark after a number
-- sign counts.
def inView? (f : Flags) (cs : List Char) : Option Char :=
  if f.spaced then
    match cs.dropWhile Text.isSpace with
    | '#' :: rest => (rest.dropWhile Text.isSpace).head?
    | rest => rest.head?
  else cs.head?

def makesRange (f : Flags) (afterHyphen : List Char) : Bool :=
  match inView? f afterHyphen with
  | some ']' | some '-' => false
  | _ => true

def rangeOrItem? (f : Flags) (cs : List Char) : Option (CharSet × List Char) := do
  let (first,rest) ← setItem? f cs
  match f.trim rest with
  | [] => none
  | '-' :: after =>
    if makesRange f after then
      let (last,rest) ← setItem? f (f.trim after)
      let low ← charInSet? f first
      let high ← charInSet? f last
      if low.toNat ≤ high.toNat then some (.range low.toNat high.toNat,rest) else none
    else (setOfItem? f first).map (fun s => (s,'-' :: after))
  | rest => (setOfItem? f first).map (fun s => (s,rest))

def setIn? (f : Flags) : Nat → Members → List SetFrame → List Char → Option (Nested × List Char)
  | 0,_,_,_ => none
  | fuel + 1,m,frames,cs =>
    let operation (o : SetOperation) (rest : List Char) : Option (Nested × List Char) := do
      let (s,frames) ← settle? f m.nested frames
      setIn? f fuel .none (.operation o s :: frames) rest
    match f.trim cs with
    | [] => none
    | '[' :: rest =>
      match namedSet? rest with
      | some (negated,named,rest) => do
        let s ← f.meant? negated named
        setIn? f fuel (m.add ⟨s,0⟩) frames rest
      | none =>
        let (negated,inner,rest) := openBracket f rest
        setIn? f fuel inner (.bracket m negated :: frames) rest
    | ']' :: rest => do
      match ← settle? f m.nested frames with
      | (s,.bracket before negated :: frames) =>
        let set ← f.meant? negated s.set
        let s : Nested := ⟨set,s.depth + 1⟩
        if frames.isEmpty then some (s,rest) else setIn? f fuel (before.add s) frames rest
      | _ => none
    | '&' :: '&' :: rest => operation .inter rest
    | '-' :: '-' :: rest => operation .without rest
    | '~' :: '~' :: rest => operation .either rest
    | cs => do
      let (item,rest) ← rangeOrItem? f cs
      setIn? f fuel (m.add ⟨item,0⟩) frames rest

def bracketed? (f : Flags) (cs : List Char) : Option (Nested × List Char) :=
  let (negated,m,rest) := openBracket f cs
  setIn? f (rest.length + 1) m [.bracket .none negated] rest

-- None is named twice, and a hyphen, after which they are taken back, stands before some flag.
def flags? (f : Flags) (named : List Char) (off afterHyphen : Bool) :
    List Char → Option (Flags × List Char × Char × List Char)
  | [] => none
  | c :: rest =>
    if c == ':' || c == ')' then if afterHyphen then none else some (f,named,c,rest)
    else if c == '-' then if off then none else flags? f named true true rest
    else if named.contains c then none
    else (f.set? (!off) c).bind (fun f => flags? f (c :: named) off false rest)

def beginsName (c : Char) : Bool := c == '_' || Text.isAlphabetic c

def continuesName (c : Char) : Bool :=
  c == '_' || c == '.' || c == '[' || c == ']' || Text.isAlphanumeric c

def groupName? (cs : List Char) : Option (String × List Char) :=
  match cs.takeWhile (· != '>'),cs.dropWhile (· != '>') with
  | first :: more,_ :: rest =>
    if beginsName first && more.all continuesName then some (String.ofList (first :: more),rest)
    else none
  | _,_ => none

structure Part where
  pattern : Pattern
  depth : Nat

-- A change of flags is no pattern, and cannot be repeated.
inductive Item where
  | change
  | part (p : Part)

def Item.content : Item → Part
  | change => ⟨.empty,0⟩
  | part p => p

def deepest (parts : List Part) : Nat := parts.foldl (fun depth p => max depth p.depth) 0

structure Group where
  flags : Flags
  earlier : List Part
  items : List Item

namespace Group

def begun (f : Flags) : Group := ⟨f,[],[]⟩

def add (g : Group) (p : Part) : Group := { g with items := .part p :: g.items }

def sequence (g : Group) : Part :=
  let parts := g.items.reverse.map Item.content
  let depth := if parts.length ≤ 1 then deepest parts else deepest parts + 1
  match (parts.map Part.pattern).filter (· != .empty) with
  | [] => ⟨.empty,depth⟩
  | first :: more => ⟨more.foldl .seq first,depth⟩

def divided (g : Group) : Group := { g with earlier := g.earlier ++ [g.sequence],items := [] }

def closed (g : Group) : Part :=
  let last := g.sequence
  if g.earlier.isEmpty then last
  else ⟨(g.earlier.map Part.pattern).foldr .alt last.pattern,deepest (last :: g.earlier) + 1⟩

def repeated? (g : Group) (repetition : Bool → Pattern → Pattern) (reluctant : Bool) : Option Group :=
  match g.items with
  | .part p :: items =>
    let repeated : Part := ⟨repetition (reluctant == g.flags.swapped) p.pattern,p.depth + 1⟩
    some { g with items := .part repeated :: items }
  | _ => none

end Group

structure Reading where
  group : Group
  outer : List Group
  names : List String

def Reading.begun (f : Flags) : Reading := ⟨.begun f,[],[]⟩

def Reading.opened (r : Reading) (f : Flags) : Reading :=
  { r with group := .begun f,outer := r.group :: r.outer }

def openNamed? (r : Reading) (cs : List Char) : Option (Reading × List Char) := do
  let (name,rest) ← groupName? cs
  if r.names.contains name then none
  else some ({ r.opened r.group.flags with names := name :: r.names },rest)

def openGroup? (r : Reading) (cs : List Char) : Option (Reading × List Char) :=
  let f := r.group.flags
  match f.trim cs with
  | '?' :: '=' :: _ | '?' :: '!' :: _ | '?' :: '<' :: '=' :: _ | '?' :: '<' :: '!' :: _ => none
  | '?' :: 'P' :: '<' :: rest => openNamed? r rest
  | '?' :: '<' :: rest => openNamed? r rest
  | '?' :: rest =>
    match flags? f [] false false rest with
    | some (changed,_,':',rest) => some (r.opened changed,rest)
    | some (changed,_ :: _,_,rest) =>
      some ({ r with group := { r.group with flags := changed,items := .change :: r.group.items } },rest)
    | _ => none
  | rest => some (r.opened f,rest)

def closeGroup? (r : Reading) : Option Reading :=
  match r.outer with
  | [] => none
  | parent :: outer =>
    let inner := r.group.closed
    some { r with group := parent.add ⟨inner.pattern,inner.depth + 1⟩,outer := outer }

def charPattern? (f : Flags) (c : Char) : Option Pattern := (f.folded? (.single c)).map .set

def atomPattern? (f : Flags) : Atom → Option Pattern
  | .char c asByte => if asByte && !f.unicode && 0x80 ≤ c.toNat then none else charPattern? f c
  | .set s => some (.set s)
  | .anchor a => some (.anchor a)

def dot? (f : Flags) : Option Pattern :=
  if !f.unicode then none
  else if f.dotAll then some (.set .anything)
  else if f.returns then some (.set (.outside (.union (.single '\n') (.single '\r'))))
  else some (.set (.outside (.single '\n')))

def lineStart (f : Flags) : Anchor :=
  if !f.multiline then .textStart else if f.returns then .returnStart else .lineStart

def lineEnd (f : Flags) : Anchor :=
  if !f.multiline then .textEnd else if f.returns then .returnEnd else .lineEnd

def Reading.add (r : Reading) (p : Pattern) : Reading := { r with group := r.group.add ⟨p,0⟩ }

def repeat? (r : Reading) (repetition : Bool → Pattern → Pattern) (cs : List Char) :
    Option (Reading × List Char) :=
  match cs with
  | '?' :: rest => (r.group.repeated? repetition true).map (fun g => ({ r with group := g },rest))
  | rest => (r.group.repeated? repetition false).map (fun g => ({ r with group := g },rest))

-- A brace, which would count rounds, is never closed here.
def next? (r : Reading) : List Char → Option (Reading × List Char)
  | [] => none
  | '(' :: rest => openGroup? r rest
  | ')' :: rest => (closeGroup? r).map (fun r => (r,rest))
  | '|' :: rest => some ({ r with group := r.group.divided },rest)
  | '[' :: rest => do
    let (s,rest) ← bracketed? r.group.flags rest
    return ({ r with group := r.group.add ⟨.set s.set,s.depth⟩ },rest)
  | '?' :: rest => repeat? r .optional rest
  | '*' :: rest => repeat? r .many rest
  | '+' :: rest => repeat? r .onceOrMore rest
  | '\x7b' :: _ => none
  | '\\' :: rest => do
    let (atom,rest) ← escape? r.group.flags rest
    let p ← atomPattern? r.group.flags atom
    return (r.add p,rest)
  | '.' :: rest => (dot? r.group.flags).map (fun p => (r.add p,rest))
  | '^' :: rest => some (r.add (.anchor (lineStart r.group.flags)),rest)
  | '$' :: rest => some (r.add (.anchor (lineEnd r.group.flags)),rest)
  | c :: rest => (charPattern? r.group.flags c).map (fun p => (r.add p,rest))

def readIn? : Nat → Reading → List Char → Option Part
  | 0,_,_ => none
  | fuel + 1,r,cs =>
    match r.group.flags.trim cs with
    | [] => if r.outer.isEmpty then some r.group.closed else none
    | cs => (next? r cs).bind (fun (r,rest) => readIn? fuel r rest)

def depthLimit : Nat := 250

def read? (s : String) : Option Pattern := do
  let part ← readIn? (s.length + 1) (.begun .standard) s.toList
  if part.depth ≤ depthLimit then some part.pattern else none

end Switchboard.Pattern
