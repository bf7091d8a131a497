import Mathlib.Algebra.Group.Nat.Defs
import Mathlib.Data.List.Basic

namespace Posix

/-- A file that is open: its bytes, and the offset. -/
structure Fd where
  bytes : List UInt8
  pos : Nat
  deriving DecidableEq

namespace Fd

/-- A file that was just opened, with what is in it. -/
def opened (old : List UInt8) : Fd := ⟨old, 0⟩

/-- What is from the offset on. -/
def rest (f : Fd) : List UInt8 :=
  f.bytes.drop f.pos

/-- Up to `n` bytes, fewer at the end of the file. -/
def read (f : Fd) (n : Nat) : List UInt8 × Fd :=
  (f.rest.take n, { f with pos := f.pos + min n f.rest.length })

/-- The bytes go over what is there; a gap before the offset is filled with zeros. -/
def write (f : Fd) (data : List UInt8) : Fd where
  bytes := f.bytes.take f.pos ++ List.replicate (f.pos - f.bytes.length) 0 ++ data ++
    f.bytes.drop (f.pos + data.length)
  pos := f.pos + data.length

/-- The offset may lie beyond the end of the file, but not before its beginning. -/
def lseek (f : Fd) (position : Int) : Option Fd :=
  if position < 0 then none else some { f with pos := position.toNat }

theorem write_at_end {f : Fd} (atEnd : f.pos = f.bytes.length) (data : List UInt8) :
    f.write data = ⟨f.bytes ++ data, f.bytes.length + data.length⟩ := by
  simp [write, atEnd]

theorem write_at_start {f : Fd} (atStart : f.pos = 0) (data : List UInt8) :
    f.write data = ⟨data ++ f.bytes.drop data.length, data.length⟩ := by
  simp [write, atStart]

@[simp] theorem write_pos (f : Fd) (data : List UInt8) : (f.write data).pos = f.pos + data.length := rfl

/-- The file, where there was one with the bytes `old` before: of these it still has what is behind its end. -/
def overwriting (old : List UInt8) (f : Fd) : Fd :=
  { f with bytes := f.bytes ++ old.drop f.bytes.length }

@[simp] theorem overwriting_pos (old : List UInt8) (f : Fd) : (f.overwriting old).pos = f.pos := rfl

theorem read_exact {f : Fd} {data more : List UInt8} (here : f.rest = data ++ more) :
    f.read data.length = (data, { f with pos := f.pos + data.length }) := by
  simp [read, here]

end Fd

/-- The `n` lowest bytes of a number, the lowest first. -/
def littleEndian : Nat → Nat → List UInt8
  | 0, _ => []
  | n + 1, value => value.toUInt8 :: littleEndian n (value / 256)

def ofLittleEndian : List UInt8 → Nat
  | [] => 0
  | byte :: bytes => byte.toNat + 256 * ofLittleEndian bytes

@[simp] theorem littleEndian_length (n value : Nat) : (littleEndian n value).length = n := by
  induction n generalizing value with
  | zero => rfl
  | succ n ih => rw [littleEndian, List.length_cons, ih]

theorem ofLittleEndian_littleEndian (n value : Nat) : ofLittleEndian (littleEndian n value) = value % 256 ^ n := by
  induction n generalizing value with
  | zero => simp [littleEndian, ofLittleEndian, Nat.mod_one]
  | succ n ih =>
    rw [littleEndian, ofLittleEndian, ih, pow_succ, mul_comm (256 ^ n) 256, Nat.mod_mul]
    simp

theorem ofLittleEndian_lt (bytes : List UInt8) : ofLittleEndian bytes < 256 ^ bytes.length := by
  induction bytes with
  | nil => exact Nat.one_pos
  | cons byte bytes ih =>
    have small := byte.toNat_lt
    rw [ofLittleEndian, List.length_cons, pow_succ]
    omega

theorem littleEndian_ofLittleEndian (bytes : List UInt8) :
    littleEndian bytes.length (ofLittleEndian bytes) = bytes := by
  induction bytes with
  | nil => rfl
  | cons byte bytes ih =>
    have small : byte.toNat < 256 := byte.toNat_lt
    have first : (byte.toNat + 256 * ofLittleEndian bytes).toUInt8 = byte := by
      refine UInt8.toNat_inj.mp ?_
      rw [Nat.toUInt8_eq, UInt8.toNat_ofNat', show 2 ^ 8 = 256 from rfl, Nat.add_mul_mod_self_left, Nat.mod_eq_of_lt small]
    have others : (byte.toNat + 256 * ofLittleEndian bytes) / 256 = ofLittleEndian bytes := by omega
    rw [List.length_cons, ofLittleEndian, littleEndian, first, others, ih]

end Posix
