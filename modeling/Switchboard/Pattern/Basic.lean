import Switchboard.Pattern.CharSet

namespace Switchboard

-- A match that begins earlier is preferred to one that begins later, then the first alternative
-- to the second, and another round of a repetition to its end, unless it is a reluctant one.

inductive Anchor where
  | textStart
  | textEnd
  | lineStart
  | lineEnd
  | returnStart
  | returnEnd
  | wordEdge
  | noWordEdge
  | wordStart
  | wordEnd
deriving DecidableEq

structure Place where
  before : Option Char
  after : Option Char

def isAsciiWord (c : Char) : Bool :=
  let n := c.toNat
  (0x30 ≤ n && n ≤ 0x39) || (0x41 ≤ n && n ≤ 0x5a) || n == 0x5f || (0x61 ≤ n && n ≤ 0x7a)

namespace Anchor

def holds (p : Place) : Anchor → Bool
  | textStart => p.before.isNone
  | textEnd => p.after.isNone
  | lineStart => p.before.all (· == '\n')
  | lineEnd => p.after.all (· == '\n')
  | returnStart => p.before.all (fun c => c == '\n' || (c == '\r' && p.after != some '\n'))
  | returnEnd => p.after.all (fun c => c == '\r' || (c == '\n' && p.before != some '\r'))
  | wordEdge => p.before.any isAsciiWord != p.after.any isAsciiWord
  | noWordEdge => p.before.any isAsciiWord == p.after.any isAsciiWord
  | wordStart => !p.before.any isAsciiWord && p.after.any isAsciiWord
  | wordEnd => p.before.any isAsciiWord && !p.after.any isAsciiWord

end Anchor

inductive Pattern where
  | empty
  | set (s : CharSet)
  | anchor (a : Anchor)
  | seq (p q : Pattern)
  | alt (p q : Pattern)
  | optional (greedy : Bool) (p : Pattern)
  | onceOrMore (greedy : Bool) (p : Pattern)
  | round (greedy : Bool) (p : Pattern)
deriving DecidableEq

namespace Pattern

def mayBeEmpty : Pattern → Bool
  | empty => true
  | set _ => false
  | anchor _ => true
  | seq p q => p.mayBeEmpty && q.mayBeEmpty
  | alt p q => p.mayBeEmpty || q.mayBeEmpty
  | optional _ _ => true
  | onceOrMore _ p => p.mayBeEmpty
  | round _ _ => true

-- With a body that may match without a character this is one round or more, or nothing, so that
-- an empty first round counts where it is preferred.
def many (greedy : Bool) (p : Pattern) : Pattern :=
  if p.mayBeEmpty then optional greedy (onceOrMore greedy p) else round greedy p

def size : Pattern → Nat
  | empty => 1
  | set _ => 1
  | anchor _ => 1
  | seq p q => p.size + q.size + 1
  | alt p q => p.size + q.size + 1
  | optional _ p => p.size + 1
  | onceOrMore _ p => p.size + 1
  | round _ p => p.size + 1

end Pattern

abbrev Attempt := List Pattern

namespace Attempt

def branches (at_ : Place) : Attempt → List Attempt
  | [] => []
  | .empty :: rest => [rest]
  | .set _ :: _ => []
  | .anchor a :: rest => if a.holds at_ then [rest] else []
  | .seq p q :: rest => [p :: q :: rest]
  | .alt p q :: rest => [p :: rest,q :: rest]
  | .optional greedy p :: rest => if greedy then [p :: rest,rest] else [rest,p :: rest]
  | .onceOrMore greedy p :: rest => [p :: .round greedy p :: rest]
  | .round greedy p :: rest =>
    if greedy then [p :: .round greedy p :: rest,rest] else [rest,p :: .round greedy p :: rest]

-- An attempt that has been seen before keeps its rank, so a round that took no character does
-- not begin anew.
def explore (at_ : Place) : Nat → List Attempt → List Attempt → List Attempt
  | 0,_,_ => []
  | _ + 1,_,[] => []
  | fuel + 1,seen,attempt :: others =>
    if seen.contains attempt then explore at_ fuel seen others
    else
      match attempt with
      | [] => [[]]
      | .set s :: rest => (.set s :: rest) :: explore at_ fuel ((.set s :: rest) :: seen) others
      | first :: rest =>
        explore at_ fuel ((first :: rest) :: seen) (branches at_ (first :: rest) ++ others)

def after? (c : Char) : Attempt → Option Attempt
  | .set s :: rest => if s.holds c then some rest else none
  | _ => none

end Attempt

namespace Pattern

def reached (p : Pattern) (at_ : Place) (attempts : List Attempt) : List Attempt :=
  Attempt.explore at_ (8 * (p.size + 2) + attempts.length) [] attempts

-- Between two bytes of one character there is none to take, and neither byte is in an ASCII
-- word.
def matchesInside (p : Pattern) (c : Char) : Bool :=
  decide (0x80 ≤ c.toNat) && (p.reached ⟨some c,some c⟩ [[p]]).contains []

-- An attempt that has matched ends all those after it, and only those before it go on.
def searchFrom (p : Pattern) (searching : Bool) (attempts : List Attempt) (before : Option Char) :
    List Char → Bool
  | [] => (p.reached ⟨before,none⟩ attempts).contains []
  | c :: rest =>
    let reached := p.reached ⟨before,some c⟩ attempts
    let searching := searching && !reached.contains [] && !p.matchesInside c
    let next := reached.filterMap (Attempt.after? c)
    searchFrom p searching (if searching then next ++ [[p]] else next) (some c) rest

def endsIn (p : Pattern) (s : String) : Bool := searchFrom p true [[p]] none s.toList

end Pattern
end Switchboard
