import Switchboard.MsgPack.Reader
import Switchboard.MsgPack.Writer
import Switchboard.Proofs.Faithful

namespace Switchboard.MsgPack

-- Nodes that have a written form: numbers of at most 64 bits, and lengths of at most 32.
inductive Node.Fits : Node → Prop where
  | nil : Fits .nil
  | bool (b : Bool) : Fits (.bool b)
  | natural {n : Nat} (bounded : n < 0x1_0000_0000_0000_0000) : Fits (.natural n)
  | signed {n : Int} (low : -0x8000_0000_0000_0000 ≤ n) (high : n < 0x8000_0000_0000_0000) :
      Fits (.signed n)
  | float (f : Format) (x : Binary f) : Fits (.float f x)
  | str {bytes : List UInt8} (short : bytes.length < 0x1_0000_0000) : Fits (.str bytes)
  | bin {bytes : List UInt8} (short : bytes.length < 0x1_0000_0000) : Fits (.bin bytes)
  | array {items : List Node} (short : items.length < 0x1_0000_0000)
      (each : ∀ item ∈ items, item.Fits) : Fits (.array items)
  | map {entries : List (Node × Node)} (short : entries.length < 0x1_0000_0000)
      (keys : ∀ entry ∈ entries, entry.1.Fits) (items : ∀ entry ∈ entries, entry.2.Fits) :
      Fits (.map entries)
  | ext (tag : UInt8) {bytes : List UInt8} (short : bytes.length < 0x1_0000_0000) : Fits (.ext tag bytes)

theorem bigEndian_length (width n : Nat) : (bigEndian width n).length = width := by
  induction width generalizing n with
  | zero => rfl
  | succ width ih => simp [bigEndian,ih]

theorem ofBigEndian_bigEndian {width n : Nat} (bounded : n < Nat.pow 256 width) :
    ofBigEndian (bigEndian width n) = n := by
  induction width generalizing n with
  | zero =>
      have zero : n = 0 := by simpa using bounded
      subst zero; rfl
  | succ width ih =>
      have high : n / 256 < Nat.pow 256 width := Nat.div_lt_of_lt_mul (by
        rw [Nat.mul_comm]; exact bounded)
      have low : (UInt8.ofNat (n % 256)).toNat = n % 256 := by simp
      have spelled := ih high
      unfold ofBigEndian at spelled ⊢
      rw [bigEndian,List.foldl_append,spelled,List.foldl_cons,List.foldl_nil,low]
      omega

theorem take_append (taken rest : List UInt8) : take taken.length (taken ++ rest) = some (taken,rest) := by
  simp [take]

theorem natural_bigEndian {width n : Nat} (bounded : n < Nat.pow 256 width) (rest : List UInt8) :
    natural width (bigEndian width n ++ rest) = some (n,rest) := by
  have taken := take_append (bigEndian width n) rest
  rw [bigEndian_length] at taken
  simp only [natural,taken,Option.map_some,ofBigEndian_bigEndian bounded]

-- A pattern below the middle is the number itself, one from the middle up lies a whole turn above it.
theorem signed_bigEndian {width half : Nat} (even : Nat.pow 256 width = 2 * half) {n : Int}
    (low : -half ≤ n) (high : n < half) (rest : List UInt8) :
    signed width (bigEndian width (n % Nat.pow 256 width).toNat ++ rest) = some (n,rest) := by
  have pattern : (n % Nat.pow 256 width).toNat = (if 0 ≤ n then n else n + 2 * half).toNat := by
    rw [even]
    split
    · rw [Int.emod_eq_of_lt ‹_› (by omega)]
    · rw [← Int.add_emod_right,Int.emod_eq_of_lt (by omega) (by omega)]; rfl
  rw [pattern]
  have bounded : (if 0 ≤ n then n else n + 2 * half).toNat < Nat.pow 256 width := by
    rw [even]
    split <;> omega
  simp only [signed,natural_bigEndian bounded,Option.map_some,even]
  congr 2
  split <;> split <;> omega

namespace Head

theorem sized_bigEndian (width : Nat) (announce : Nat → Head) {n : Nat} (bounded : n < Nat.pow 256 width)
    (rest : List UInt8) : sized announce width (bigEndian width n ++ rest) = some (announce n,rest) := by
  rw [sized,natural_bigEndian bounded,Option.map_some]

theorem signed_pattern {width half : Nat} (even : Nat.pow 256 width = 2 * half) {n : Int}
    (low : -half ≤ n) (high : n < half) (rest : List UInt8) :
    Head.signed width (bigEndian width (n % Nat.pow 256 width).toNat ++ rest) =
      some (.whole (.signed n),rest) := by
  rw [Head.signed,signed_bigEndian even low high,Option.map_some]

theorem float_bigEndian (f : Format) (x : Binary f) (rest : List UInt8) :
    Head.float f (bigEndian f.octets x.bits.toNat ++ rest) = some (.whole (.float f x),rest) := by
  have bounded : x.bits.toNat < Nat.pow 256 f.octets := by
    have fits := x.bits.isLt
    cases f <;> exact fits
  simp only [Head.float,natural_bigEndian bounded,Option.map_some,BitVec.ofNat_toNat,BitVec.setWidth_eq]

end Head

-- What each written head announces, whatever bytes follow it.

section Heads

variable (rest : List UInt8)

theorem byte_toNat {n : Nat} (small : n < 0x100) : (UInt8.ofNat n).toNat = n := UInt8.toNat_ofNat_of_lt' small

theorem head_natural {n : Nat} (bounded : n < 0x1_0000_0000_0000_0000) :
    head (renderNatural n ++ rest) = some (.whole (.natural n),rest) := by
  unfold renderNatural
  split
  · rename_i small
    simp [head,byte_toNat (Nat.lt_trans small (by decide)),small]
  split
  · rename_i small; exact Head.sized_bigEndian 1 (fun n => .whole (.natural n)) small rest
  split
  · rename_i small; exact Head.sized_bigEndian 2 (fun n => .whole (.natural n)) small rest
  split
  · rename_i small; exact Head.sized_bigEndian 4 (fun n => .whole (.natural n)) small rest
  exact Head.sized_bigEndian 8 (fun n => .whole (.natural n)) bounded rest

theorem head_signed {n : Int} (low : -0x8000_0000_0000_0000 ≤ n) (high : n < 0x8000_0000_0000_0000) :
    head (renderSigned n ++ rest) = some (.whole (.signed n),rest) := by
  unfold renderSigned
  dsimp only
  split
  · rename_i small
    have pattern : (n % Nat.pow 256 1).toNat % 256 = (n + 0x100).toNat := by
      show (n % 256).toNat % 256 = _; omega
    have byte := byte_toNat (show (n + 0x100).toNat < 0x100 by omega)
    simp only [bigEndian,List.nil_append,pattern,List.singleton_append,head,byte]
    grind
  split
  · rename_i small; exact Head.signed_pattern (rfl : Nat.pow 256 1 = 2 * 0x80) small.1 small.2 rest
  split
  · rename_i small; exact Head.signed_pattern (rfl : Nat.pow 256 2 = 2 * 0x8000) small.1 small.2 rest
  split
  · rename_i small; exact Head.signed_pattern (rfl : Nat.pow 256 4 = 2 * 0x8000_0000) small.1 small.2 rest
  exact Head.signed_pattern (rfl : Nat.pow 256 8 = 2 * 0x8000_0000_0000_0000) low high rest

theorem head_float (f : Format) (x : Binary f) :
    head (renderFloat f x ++ rest) = some (.whole (.float f x),rest) := by
  cases f with
  | single => exact Head.float_bigEndian .single x rest
  | double => exact Head.float_bigEndian .double x rest

theorem head_str {n : Nat} (short : n < 0x1_0000_0000) :
    head (strHead n ++ rest) = some (.str n,rest) := by
  unfold strHead
  split
  · rename_i small
    have byte := byte_toNat (show 0xa0 + n < 0x100 by omega)
    simp only [List.singleton_append,head,byte]
    grind
  split
  · rename_i small; exact Head.sized_bigEndian 1 .str small rest
  split
  · rename_i small; exact Head.sized_bigEndian 2 .str small rest
  exact Head.sized_bigEndian 4 .str short rest

theorem head_bin {n : Nat} (short : n < 0x1_0000_0000) :
    head (binHead n ++ rest) = some (.bin n,rest) := by
  unfold binHead
  split
  · rename_i small; exact Head.sized_bigEndian 1 .bin small rest
  split
  · rename_i small; exact Head.sized_bigEndian 2 .bin small rest
  exact Head.sized_bigEndian 4 .bin short rest

theorem head_array {n : Nat} (short : n < 0x1_0000_0000) :
    head (arrayHead n ++ rest) = some (.array n,rest) := by
  unfold arrayHead
  split
  · rename_i small
    have byte := byte_toNat (show 0x90 + n < 0x100 by omega)
    simp only [List.singleton_append,head,byte]
    grind
  split
  · rename_i small; exact Head.sized_bigEndian 2 .array small rest
  exact Head.sized_bigEndian 4 .array short rest

theorem head_map {n : Nat} (short : n < 0x1_0000_0000) :
    head (mapHead n ++ rest) = some (.map n,rest) := by
  unfold mapHead
  split
  · rename_i small
    have byte := byte_toNat (show 0x80 + n < 0x100 by omega)
    simp only [List.singleton_append,head,byte]
    grind
  split
  · rename_i small; exact Head.sized_bigEndian 2 .map small rest
  exact Head.sized_bigEndian 4 .map short rest

theorem head_ext {n : Nat} (short : n < 0x1_0000_0000) :
    head (extHead n ++ rest) = some (.ext n,rest) := by
  unfold extHead
  iterate 5
    split
    · rename_i exactly; subst exactly; rfl
  split
  · rename_i small; exact Head.sized_bigEndian 1 .ext small rest
  split
  · rename_i small; exact Head.sized_bigEndian 2 .ext small rest
  exact Head.sized_bigEndian 4 .ext short rest

end Heads

theorem renderItems_eq (items : List Node) : renderItems items = items.flatMap Node.render := by
  induction items with
  | nil => rfl
  | cons item rest ih => rw [renderItems,List.flatMap_cons,ih]

theorem renderEntries_eq (entries : List (Node × Node)) :
    renderEntries entries = entries.flatMap (fun entry => entry.1.render ++ entry.2.render) := by
  induction entries with
  | nil => rfl
  | cons entry rest ih => rw [renderEntries,List.flatMap_cons,ih]

theorem part_length {α : Type} (render : α → List UInt8) {xs : List α} {x : α} (member : x ∈ xs) :
    (render x).length ≤ (xs.flatMap render).length := by
  obtain ⟨before,after,rfl⟩ := List.append_of_mem member
  simp only [List.flatMap_append,List.flatMap_cons,List.length_append]
  omega

theorem head_length (n : Nat) : 0 < (arrayHead n).length ∧ 0 < (mapHead n).length := by
  unfold arrayHead mapHead
  grind

theorem many_flatMap {α : Type} {item : Reader α} {render : α → List UInt8} {xs : List α}
    (each : ∀ x ∈ xs, ∀ rest, item (render x ++ rest) = some (x,rest)) (rest : List UInt8) :
    many item xs.length (xs.flatMap render ++ rest) = some (xs,rest) := by
  induction xs with
  | nil => rfl
  | cons x xs ih =>
      obtain ⟨first,others⟩ := List.forall_mem_cons.mp each
      simp only [List.length_cons,List.flatMap_cons,List.append_assoc,many,first,
        Option.bind_eq_bind,Option.bind_some,ih others]
      rfl

theorem entry_append {item : Reader Node} {key value : Node}
    (keyRead : ∀ rest, item (key.render ++ rest) = some (key,rest))
    (valueRead : ∀ rest, item (value.render ++ rest) = some (value,rest)) (rest : List UInt8) :
    entry item (key.render ++ value.render ++ rest) = some ((key,value),rest) := by
  simp only [entry,List.append_assoc,keyRead,valueRead,Option.bind_eq_bind,Option.bind_some]
  rfl

-- What is inside brackets is shorter than the whole, so the length of the whole is depth enough.
theorem node_render {depth : Nat} {n : Node} (fits : n.Fits) (deep : n.render.length < depth)
    (rest : List UInt8) : node depth (n.render ++ rest) = some (n,rest) := by
  induction depth generalizing n rest with
  | zero => omega
  | succ depth ih =>
      cases fits with
      | nil => rfl
      | bool b => cases b <;> rfl
      | natural bounded => simp [node,Node.render,head_natural rest bounded]
      | signed low high => simp [node,Node.render,head_signed rest low high]
      | float f x => simp [node,Node.render,head_float rest f x]
      | str short => simp [node,Node.render,head_str _ short,take_append]
      | bin short => simp [node,Node.render,head_bin _ short,take_append]
      | ext tag short => simp [node,Node.render,head_ext _ short,extension,take_append]
      | @array items short each =>
          rw [Node.render,renderItems_eq,List.length_append] at deep
          have head := (head_length items.length).1
          have children : many (node depth) items.length (items.flatMap Node.render ++ rest) =
              some (items,rest) := by
            apply many_flatMap
            intro item member rest
            have shorter := part_length Node.render member
            exact ih (each item member) (by omega) rest
          simp [node,Node.render,renderItems_eq,head_array _ short,children]
      | @map entries short keys items =>
          rw [Node.render,renderEntries_eq,List.length_append] at deep
          have head := (head_length entries.length).2
          have children : many (entry (node depth)) entries.length
              (entries.flatMap (fun entry => entry.1.render ++ entry.2.render) ++ rest) =
              some (entries,rest) := by
            apply many_flatMap
            intro entry member rest
            have shorter := part_length (fun entry : Node × Node => entry.1.render ++ entry.2.render) member
            rw [List.length_append] at shorter
            exact entry_append (ih (keys entry member) (by omega)) (ih (items entry member) (by omega)) rest
          rw [Node.render,renderEntries_eq,List.append_assoc,node,head_map _ short]
          simp [children]

theorem parse_render {n : Node} (fits : n.Fits) (rest : List UInt8) :
    parse (n.render ++ rest) = some (n,rest) := by
  have enough : n.render.length < (n.render ++ rest).length + 1 := by
    rw [List.length_append]
    omega
  exact node_render fits enough rest

end Switchboard.MsgPack
