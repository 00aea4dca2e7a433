namespace Switchboard

inductive IntKind where
  | i8
  | i16
  | i32
  | i64
  | u8
  | u16
  | u32
  | u64
deriving DecidableEq

namespace IntKind

def least : IntKind → Int
  | i8 => -0x80
  | i16 => -0x8000
  | i32 => -0x8000_0000
  | i64 => -0x8000_0000_0000_0000
  | u8 | u16 | u32 | u64 => 0

def greatest : IntKind → Int
  | i8 => 0x7f
  | i16 => 0x7fff
  | i32 => 0x7fff_ffff
  | i64 => 0x7fff_ffff_ffff_ffff
  | u8 => 0xff
  | u16 => 0xffff
  | u32 => 0xffff_ffff
  | u64 => 0xffff_ffff_ffff_ffff

def Holds (k : IntKind) (n : Int) : Prop := k.least ≤ n ∧ n ≤ k.greatest

instance (k : IntKind) (n : Int) : Decidable (k.Holds n) :=
  inferInstanceAs (Decidable (k.least ≤ n ∧ n ≤ k.greatest))

def name : IntKind → String
  | i8 => "i8"
  | i16 => "i16"
  | i32 => "i32"
  | i64 => "i64"
  | u8 => "u8"
  | u16 => "u16"
  | u32 => "u32"
  | u64 => "u64"

end IntKind

structure Bounded (k : IntKind) where
  val : Int
  held : k.Holds val
deriving DecidableEq

def IntKind.ofInt? (k : IntKind) (n : Int) : Option (Bounded k) :=
  if held : k.Holds n then some ⟨n,held⟩ else none

theorem IntKind.least_le_greatest (k : IntKind) : k.least ≤ k.greatest := by cases k <;> decide

def IntKind.nearest (k : IntKind) (n : Int) : Bounded k :=
  ⟨max k.least (min n k.greatest),by
    have := k.least_le_greatest
    unfold IntKind.Holds
    omega⟩

@[simp] theorem IntKind.ofInt?_val (k : IntKind) (n : Bounded k) : k.ofInt? n.val = some n := by
  simp [IntKind.ofInt?,n.held]

theorem IntKind.ofInt?_eq_some {k : IntKind} {n : Int} {m : Bounded k} :
    k.ofInt? n = some m ↔ m.val = n := by
  constructor
  · intro accepted
    unfold IntKind.ofInt? at accepted
    split at accepted
    · cases accepted; rfl
    · cases accepted
  · intro same
    subst same
    exact k.ofInt?_val m

end Switchboard
