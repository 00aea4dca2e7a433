namespace Switchboard

inductive CharSet where
  | nothing
  | range (low high : Nat)
  | outside (s : CharSet)
  | union (s t : CharSet)
  | inter (s t : CharSet)
  | without (s t : CharSet)
  | either (s t : CharSet)
  | anyCase (s : CharSet)
deriving DecidableEq

def otherCase (c : Char) : Char :=
  let n := c.toNat
  if 0x41 ≤ n && n ≤ 0x5a then Char.ofNat (n + 0x20)
  else if 0x61 ≤ n && n ≤ 0x7a then Char.ofNat (n - 0x20)
  else c

namespace CharSet

def holds : CharSet → Char → Bool
  | nothing,_ => false
  | range low high,c => decide (low ≤ c.toNat) && decide (c.toNat ≤ high)
  | outside s,c => !s.holds c
  | union s t,c => s.holds c || t.holds c
  | inter s t,c => s.holds c && t.holds c
  | without s t,c => s.holds c && !t.holds c
  | either s t,c => s.holds c != t.holds c
  | anyCase s,c => s.holds c || s.holds (otherCase c)

def single (c : Char) : CharSet := range c.toNat c.toNat

def anything : CharSet := range 0 0x10ffff

def ofRanges (ranges : List (Nat × Nat)) : CharSet :=
  ranges.foldr (fun r rest => union (range r.1 r.2) rest) nothing

-- Such a set is empty or holds everything, and case is nothing to it.
def namesNone : CharSet → Bool
  | nothing => true
  | range _ _ => false
  | outside s => s.namesNone
  | union s t => s.namesNone && t.namesNone
  | inter s t => s.namesNone && t.namesNone
  | without s t => s.namesNone && t.namesNone
  | either s t => s.namesNone && t.namesNone
  | anyCase s => s.namesNone

def asciiRanges? : String → Option (List (Nat × Nat))
  | "alnum" => some [(0x30,0x39),(0x41,0x5a),(0x61,0x7a)]
  | "alpha" => some [(0x41,0x5a),(0x61,0x7a)]
  | "ascii" => some [(0x00,0x7f)]
  | "blank" => some [(0x09,0x09),(0x20,0x20)]
  | "cntrl" => some [(0x00,0x1f),(0x7f,0x7f)]
  | "digit" => some [(0x30,0x39)]
  | "graph" => some [(0x21,0x7e)]
  | "lower" => some [(0x61,0x7a)]
  | "print" => some [(0x20,0x7e)]
  | "punct" => some [(0x21,0x2f),(0x3a,0x40),(0x5b,0x60),(0x7b,0x7e)]
  | "space" => some [(0x09,0x0d),(0x20,0x20)]
  | "upper" => some [(0x41,0x5a)]
  | "word" => some [(0x30,0x39),(0x41,0x5a),(0x5f,0x5f),(0x61,0x7a)]
  | "xdigit" => some [(0x30,0x39),(0x41,0x46),(0x61,0x66)]
  | _ => none

def ascii? (name : String) : Option CharSet := (asciiRanges? name).map ofRanges

def ofBytes? (s : CharSet) : Option CharSet :=
  if (List.range 0x80).any (fun n => s.holds (Char.ofNat (0x80 + n))) then none
  else some (inter s (range 0 0x7f))

end CharSet
end Switchboard
