import CyberRT.Lib.Fd

namespace Ram
open Posix

abbrev Word := BitVec 64

/-- Memory, a byte at every address. -/
abbrev Bytes := Word → UInt8

/-- An address is one of the `n` from a base on, which may wrap around. -/
def Within (base : Word) (n : Nat) (a : Word) : Prop :=
  (a - base).toNat < n

def storeBytes (m : Bytes) (a : Word) (bytes : List UInt8) : Bytes :=
  fun b => bytes[(b - a).toNat]?.getD (m b)

def loadBytes (m : Bytes) (a : Word) (n : Nat) : List UInt8 :=
  (List.range n).map fun i => m (a + BitVec.ofNat 64 i)

/-- A word is stored with its lowest byte first. -/
def store (m : Bytes) (a v : Word) : Bytes :=
  storeBytes m a (littleEndian 8 v.toNat)

def load (m : Bytes) (a : Word) : Word :=
  BitVec.ofNat 64 (ofLittleEndian (loadBytes m a 8))

variable {m m' : Bytes} {a b : Word}

theorem storeBytes_outside {bytes : List UInt8} (outside : ¬ Within a bytes.length b) :
    storeBytes m a bytes b = m b := by
  rw [storeBytes, List.getElem?_eq_none (Nat.not_lt.mp outside), Option.getD_none]

theorem store_outside {v : Word} (outside : ¬ Within a 8 b) : store m a v b = m b :=
  storeBytes_outside (by rwa [littleEndian_length])

theorem loadBytes_storeBytes {bytes : List UInt8} (short : bytes.length ≤ 2 ^ 64) :
    loadBytes (storeBytes m a bytes) a bytes.length = bytes := by
  refine List.ext_getElem (by simp [loadBytes]) fun i bound bound' => ?_
  have offset : (a + BitVec.ofNat 64 i - a).toNat = i := by
    rw [BitVec.add_comm, BitVec.add_sub_cancel, BitVec.toNat_ofNat, Nat.mod_eq_of_lt (by omega)]
  simp only [loadBytes, List.getElem_map, List.getElem_range]
  rw [storeBytes, offset, List.getElem?_eq_getElem bound',
    Option.getD_some]

theorem load_store (m : Bytes) (a v : Word) : load (store m a v) a = v := by
  have length : (littleEndian 8 v.toNat).length = 8 := littleEndian_length ..
  have bytes : loadBytes (store m a v) a 8 = littleEndian 8 v.toNat := by
    conv => lhs; rw [← length]
    exact loadBytes_storeBytes (by rw [length]; decide)
  rw [load, bytes, ofLittleEndian_littleEndian, show 256 ^ 8 = 2 ^ 64 from rfl, Nat.mod_eq_of_lt v.isLt, BitVec.ofNat_toNat, BitVec.setWidth_eq]

theorem load_congr (same : ∀ b, Within a 8 b → m b = m' b) : load m a = load m' a := by
  have bytes : loadBytes m a 8 = loadBytes m' a 8 := by
    refine List.map_congr_left fun i inside => same _ ?_
    have bound := List.mem_range.mp inside
    rw [Within, BitVec.add_comm, BitVec.add_sub_cancel, BitVec.toNat_ofNat]
    omega
  rw [load, load, bytes]

theorem load_zero (a : Word) : load (fun _ => 0) a = 0 := by
  have bytes : loadBytes (fun _ => 0) a 8 = List.replicate 8 0 := by
    simp only [loadBytes, List.map_const', List.length_range]
  rw [load, bytes]
  decide

/-- Two ranges of addresses have none in common. -/
def Apart (a : Word) (n : Nat) (b : Word) (k : Nat) : Prop :=
  ∀ x, Within a n x → ¬ Within b k x

theorem Apart.symm {n k : Nat} (apart : Apart a n b k) : Apart b k a n :=
  fun x inside inside' => apart x inside' inside

theorem load_store_apart {v : Word} (apart : Apart a 8 b 8) : load (store m b v) a = load m a :=
  load_congr fun x inside => store_outside (apart x inside)

end Ram
