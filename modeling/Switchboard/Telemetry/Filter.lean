import Switchboard.Telemetry.Directive

namespace Switchboard

-- A watched span is told about whatever its own level, and inside of it events pass that would
-- not pass outside.

def detailOf : Option Level → Nat
  | none => 0
  | some level => level.detail

abbrev Filter := List Directive

-- The values of a span are known when it begins, but for how it ended.
def FieldTest.holdsIn (t : FieldTest) (s : Span) : Bool :=
  match t.value with
  | none => true
  | some wanted =>
    match ({ s with outcome := none } : Span).fields.lookup t.name with
    | some (.plain text) => wanted.isMetBy text
    | _ => false

namespace Directive

def watches (d : Directive) : Bool := d.span.isSome || d.field.isSome

def isPlain (d : Directive) : Bool := d.span.isNone && d.field.all (fun t => t.value.isNone)

def means (d : Directive) (target : String) : Bool := d.target.toList.isPrefixOf target.toList

def asksFor (d : Directive) (names : List String) : Bool :=
  d.field.all (fun t => names.contains t.name)

def concernsEvent (d : Directive) (e : Event) : Bool := d.means e.target && d.asksFor e.fieldNames

def watchesSpan (d : Directive) : Bool :=
  d.watches && d.means Span.target && d.span.all (· == Span.name) && d.asksFor Span.fieldNames

def outranks (d e : Directive) : Bool :=
  decide (e.target.length < d.target.length) ||
    (d.target.length == e.target.length &&
      match d.field,e.field with
      | some t,some u => decide (u.name < t.name)
      | some _,none => true
      | none,_ => false)

def sameScope (d e : Directive) : Bool :=
  d.target == e.target && d.span == e.span &&
    match d.field,e.field with
    | some t,some u => t.sameAs u
    | none,none => true
    | _,_ => false

end Directive

namespace Filter

def putBefore (c : Char) : List (List Char) → List (List Char)
  | [] => if c == ',' then [[],[]] else [[c]]
  | part :: rest => if c == ',' then [] :: part :: rest else (c :: part) :: rest

def parts (cs : List Char) : List (List Char) := cs.foldr putBefore []

-- Without any directive only errors pass.
def parse (s : String) : Except FilterError Filter :=
  match (parts s.toList).filter (fun part => !part.isEmpty) with
  | [] => .ok [{ Directive.everything with level := some .error }]
  | some_ => some_.mapM Directive.ofChars

def preferred (concerns : Directive → Bool) (best : Option Directive) (d : Directive) : Option Directive :=
  if d.isPlain && concerns d then
    match best with
    | none => some d
    | some other => if other.outranks d then some other else some d
  else best

-- Of those that say most the last decides.
def deciding? (f : Filter) (concerns : Directive → Bool) : Option Directive :=
  f.foldl (preferred concerns) none

def passesPlainly (f : Filter) (concerns : Directive → Bool) (level : Level) : Bool :=
  match f.deciding? concerns with
  | some d => decide (level.detail ≤ detailOf d.level)
  | none => false

def inForce : List Directive → List Directive
  | [] => []
  | d :: rest => if rest.any d.sameScope then inForce rest else d :: inForce rest

def mostAsked (directives : List Directive) : Nat :=
  directives.foldl (fun most d => max most (detailOf d.level)) 0

-- The values of fields come with all detail only.
def mostDetail (f : Filter) : Nat :=
  if f.any (fun d => d.field.any (fun t => t.value.isSome)) then Level.trace.detail
  else mostAsked f

def spansPass (f : Filter) : Bool :=
  decide (Span.level.detail ≤ f.mostDetail) &&
    (f.any Directive.watchesSpan || f.passesPlainly (fun d => d.means Span.target) Span.level)

def detailIn (f : Filter) (s : Span) : Nat :=
  mostAsked ((inForce f).filter (fun d => d.watchesSpan && d.field.all (fun t => t.holdsIn s)))

def passes (f : Filter) (e : Event) (spans : List Span) : Bool :=
  f.passesPlainly (fun d => d.concernsEvent e) e.level ||
    spans.any (fun s => decide (e.level.detail ≤ f.detailIn s))

end Filter
end Switchboard
