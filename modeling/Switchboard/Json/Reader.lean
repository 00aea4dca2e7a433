import Switchboard.Json.Node

namespace Switchboard.Json

-- None of the readers looks at types, depth or UTF-8.

abbrev Reader (α : Type) := List UInt8 → Option (α × List UInt8)

def digits : List UInt8 → List Digit × List UInt8
  | [] => ([],[])
  | b :: rest =>
    match Digits.ofByte? b with
    | none => ([],b :: rest)
    | some d =>
      let (ds,after) := digits rest
      (d :: ds,after)

def someDigits : Reader (List Digit) := fun bs =>
  match digits bs with
  | ([],_) => none
  | (d :: ds,rest) => some (d :: ds,rest)

def wholePart : Reader (List Digit) := fun bs =>
  match digits bs with
  | ([],_) => none
  | ([d],rest) => some ([d],rest)
  | (d :: ds,rest) => if d = 0 then none else some (d :: ds,rest)

def fractionPart : Reader (Option (List Digit))
  | [] => some (none,[])
  | b :: rest =>
    if b = 0x2e then (someDigits rest).map (fun (ds,after) => (some ds,after))
    else some (none,b :: rest)

def exponentSign : List UInt8 → ExponentSign × List UInt8
  | [] => (.bare,[])
  | b :: rest =>
    if b = 0x2b then (.plus,rest)
    else if b = 0x2d then (.minus,rest)
    else (.bare,b :: rest)

def exponentPart : Reader (Option Exponent)
  | [] => some (none,[])
  | b :: rest =>
    if b = 0x65 || b = 0x45 then
      (someDigits (exponentSign rest).2).map
        (fun (ds,after) => (some ⟨b == 0x45,(exponentSign rest).1,ds⟩,after))
    else some (none,b :: rest)

def minusSign : List UInt8 → Bool × List UInt8
  | [] => (false,[])
  | b :: rest => if b = 0x2d then (true,rest) else (false,b :: rest)

def number : Reader NumberText := fun bs => do
  let (whole,afterWhole) ← wholePart (minusSign bs).2
  let (fraction,afterFraction) ← fractionPart afterWhole
  let (exponent,rest) ← exponentPart afterFraction
  return (⟨(minusSign bs).1,whole,fraction,exponent⟩,rest)

def hexDigit? (b : UInt8) : Option Nat :=
  if 0x30 ≤ b && b ≤ 0x39 then some (b.toNat - 0x30)
  else if 0x61 ≤ b && b ≤ 0x66 then some (b.toNat - 0x57)
  else if 0x41 ≤ b && b ≤ 0x46 then some (b.toNat - 0x37)
  else none

def hexUnit? (a b c d : UInt8) : Option UInt16 := do
  let a ← hexDigit? a
  let b ← hexDigit? b
  let c ← hexDigit? c
  let d ← hexDigit? d
  return UInt16.ofNat (((a * 16 + b) * 16 + c) * 16 + d)

def pieces : Reader (List Piece)
  | [] => none
  | b :: rest =>
    if b = 0x22 then some ([],rest)
    else if b = 0x5c then
      match rest with
      | [] => none
      | letter :: rest =>
        if letter = 0x75 then
          match rest with
          | h :: i :: j :: k :: rest => do
            let code ← hexUnit? h i j k
            let (ps,after) ← pieces rest
            return (.unit code :: ps,after)
          | _ => none
        else do
          let byte ← escaped? letter
          let (ps,after) ← pieces rest
          return (.short byte :: ps,after)
    else do
      let (ps,after) ← pieces rest
      return (.raw b :: ps,after)

def word : List UInt8 → List UInt8 → Option (List UInt8)
  | [],bs => some bs
  | _ :: _,[] => none
  | w :: ws,b :: bs => if w = b then word ws bs else none

def commaList {α : Type} (item : Reader α) (close : UInt8) : Nat → Reader (List α)
  | 0,_ => none
  | fuel + 1,bs => do
    let (x,rest) ← item bs
    match skipSpace rest with
    | [] => none
    | b :: rest =>
      if b = 0x2c then do
        let (xs,after) ← commaList item close fuel rest
        return (x :: xs,after)
      else if b = close then some ([x],rest)
      else none

def bracketed {α : Type} (item : Reader α) (close : UInt8) : Reader (List α) := fun bs =>
  match skipSpace bs with
  | [] => none
  | b :: rest =>
    if b = close then some ([],rest) else commaList item close bs.length (b :: rest)

def member (value : Reader Node) : Reader (List Piece × Node) := fun bs =>
  match skipSpace bs with
  | [] => none
  | b :: rest =>
    if b = 0x22 then do
      let (key,rest) ← pieces rest
      match skipSpace rest with
      | [] => none
      | b :: rest =>
        if b = 0x3a then do
          let (node,after) ← value rest
          return ((key,node),after)
        else none
    else none

def value : Nat → Reader Node
  | 0,_ => none
  | depth + 1,bs =>
    match skipSpace bs with
    | [] => none
    | b :: rest =>
      if b = 0x22 then (pieces rest).map (fun (ps,after) => (.string ps,after))
      else if b = 0x5b then
        (bracketed (value depth) 0x5d rest).map (fun (items,after) => (.array items,after))
      else if b = 0x7b then
        (bracketed (member (value depth)) 0x7d rest).map
          (fun (members,after) => (.object members,after))
      else if b = 0x6e then (word [0x75,0x6c,0x6c] rest).map (fun after => (.null,after))
      else if b = 0x74 then (word [0x72,0x75,0x65] rest).map (fun after => (.bool true,after))
      else if b = 0x66 then
        (word [0x61,0x6c,0x73,0x65] rest).map (fun after => (.bool false,after))
      else (number (b :: rest)).map (fun (text,after) => (.number text,after))

def parse (bs : List UInt8) : Option Node := do
  let (node,rest) ← value (bs.length + 1) bs
  if skipSpace rest = [] then some node else none

end Switchboard.Json
