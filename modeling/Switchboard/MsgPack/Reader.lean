import Switchboard.MsgPack.Node

namespace Switchboard.MsgPack

abbrev Reader (α : Type) := List UInt8 → Option (α × List UInt8)

def take (count : Nat) : Reader (List UInt8) := fun bs =>
  if count ≤ bs.length then some (bs.take count,bs.drop count) else none

def ofBigEndian (bs : List UInt8) : Nat := bs.foldl (fun sum b => 256 * sum + b.toNat) 0

def natural (width : Nat) : Reader Nat := fun bs =>
  (take width bs).map (fun (taken,rest) => (ofBigEndian taken,rest))

def signed (width : Nat) : Reader Int := fun bs =>
  (natural width bs).map (fun (n,rest) =>
    (if 2 * n < Nat.pow 256 width then (n : Int) else (n : Int) - Nat.pow 256 width,rest))

inductive Head where
  | whole (node : Node)
  | str (length : Nat)
  | bin (length : Nat)
  | array (count : Nat)
  | map (count : Nat)
  | ext (length : Nat)

def Head.sized (head : Nat → Head) (width : Nat) : Reader Head := fun bs =>
  (natural width bs).map (fun (n,rest) => (head n,rest))

def Head.signed (width : Nat) : Reader Head := fun bs =>
  (MsgPack.signed width bs).map (fun (n,rest) => (.whole (.signed n),rest))

def Head.float (f : Format) : Reader Head := fun bs =>
  (natural f.octets bs).map (fun (n,rest) => (.whole (.float f ⟨BitVec.ofNat f.width n⟩),rest))

def Head.ofMarker : Nat → Reader Head
  | 0xc0 => fun bs => some (.whole .nil,bs)
  | 0xc2 => fun bs => some (.whole (.bool false),bs)
  | 0xc3 => fun bs => some (.whole (.bool true),bs)
  | 0xc4 => sized .bin 1
  | 0xc5 => sized .bin 2
  | 0xc6 => sized .bin 4
  | 0xc7 => sized .ext 1
  | 0xc8 => sized .ext 2
  | 0xc9 => sized .ext 4
  | 0xca => float .single
  | 0xcb => float .double
  | 0xcc => sized (fun n => .whole (.natural n)) 1
  | 0xcd => sized (fun n => .whole (.natural n)) 2
  | 0xce => sized (fun n => .whole (.natural n)) 4
  | 0xcf => sized (fun n => .whole (.natural n)) 8
  | 0xd0 => signed 1
  | 0xd1 => signed 2
  | 0xd2 => signed 4
  | 0xd3 => signed 8
  | 0xd4 => fun bs => some (.ext 1,bs)
  | 0xd5 => fun bs => some (.ext 2,bs)
  | 0xd6 => fun bs => some (.ext 4,bs)
  | 0xd7 => fun bs => some (.ext 8,bs)
  | 0xd8 => fun bs => some (.ext 16,bs)
  | 0xd9 => sized .str 1
  | 0xda => sized .str 2
  | 0xdb => sized .str 4
  | 0xdc => sized .array 2
  | 0xdd => sized .array 4
  | 0xde => sized .map 2
  | 0xdf => sized .map 4
  | _ => fun _ => none

def head : Reader Head
  | [] => none
  | b :: rest =>
    let n := b.toNat
    if n < 0x80 then some (.whole (.natural n),rest)
    else if n < 0x90 then some (.map (n - 0x80),rest)
    else if n < 0xa0 then some (.array (n - 0x90),rest)
    else if n < 0xc0 then some (.str (n - 0xa0),rest)
    else if n < 0xe0 then Head.ofMarker n rest
    else some (.whole (.signed ((n : Int) - 0x100)),rest)

def many {α : Type} (item : Reader α) : Nat → Reader (List α)
  | 0,bs => some ([],bs)
  | count + 1,bs => do
    let (x,rest) ← item bs
    let (xs,after) ← many item count rest
    return (x :: xs,after)

def entry (item : Reader Node) : Reader (Node × Node) := fun bs => do
  let (key,rest) ← item bs
  let (value,after) ← item rest
  return ((key,value),after)

def extension (length : Nat) : Reader Node
  | [] => none
  | tag :: rest => (take length rest).map (fun (data,after) => (.ext tag data,after))

def node : Nat → Reader Node
  | 0,_ => none
  | depth + 1,bs => do
    let (announced,rest) ← head bs
    match announced with
    | .whole x => some (x,rest)
    | .str length => (take length rest).map (fun (data,after) => (.str data,after))
    | .bin length => (take length rest).map (fun (data,after) => (.bin data,after))
    | .array count => (many (node depth) count rest).map (fun (items,after) => (.array items,after))
    | .map count =>
      (many (entry (node depth)) count rest).map (fun (entries,after) => (.map entries,after))
    | .ext length => extension length rest

def parse (bs : List UInt8) : Option (Node × List UInt8) := node (bs.length + 1) bs

end Switchboard.MsgPack
