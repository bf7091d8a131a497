import Mathlib.Algebra.Group.Nat.Defs
import Mathlib.Data.List.Basic
import Mathlib.Logic.Function.Iterate

namespace Crc
variable {w : Nat}

/-- One step of a feedback shift register that shifts towards its lowest bit. -/
def shift (poly c : BitVec w) : BitVec w :=
  if c.getLsbD 0 then c >>> 1 ^^^ poly else c >>> 1

def shifts (poly : BitVec w) (n : Nat) : BitVec w → BitVec w :=
  (shift poly)^[n]

/-- The register after one more bit of a message. -/
def feed (poly c : BitVec w) (bit : Bool) : BitVec w :=
  shift poly (c ^^^ (BitVec.ofBool bit).setWidth w)

/-- The bits of a byte in the order in which they are sent, the lowest first. -/
def byteBits (byte : UInt8) : List Bool :=
  (List.range 8).map byte.toBitVec.getLsbD

def bits (bytes : List UInt8) : List Bool :=
  bytes.flatMap byteBits

/-- The register after a message. -/
def run (poly c : BitVec w) (bytes : List UInt8) : BitVec w :=
  (bits bytes).foldl (feed poly) c

/-- The bits of a word of the register, the lowest first. -/
def ofBits (w : Nat) (bs : List Bool) : BitVec w :=
  (BitVec.ofBoolListLE bs).setWidth w

variable {poly : BitVec w}

theorem getLsbD_shift (c : BitVec w) (i : Nat) :
    (shift poly c).getLsbD i = (c.getLsbD (i + 1) ^^ (c.getLsbD 0 && poly.getLsbD i)) := by
  unfold shift
  cases c.getLsbD 0 <;> simp [Nat.add_comm 1 i]

theorem getLsbD_ofBits (bs : List Bool) (i : Nat) :
    (ofBits w bs).getLsbD i = (decide (i < w) && bs[i]?.getD false) := by
  simp [ofBits]

theorem shift_xor (c d : BitVec w) : shift poly (c ^^^ d) = shift poly c ^^^ shift poly d := by
  refine BitVec.eq_of_getLsbD_eq fun i _ => ?_
  simp only [getLsbD_shift, BitVec.getLsbD_xor]
  cases c.getLsbD 0 <;> cases d.getLsbD 0 <;> cases poly.getLsbD i <;> simp

theorem shifts_xor (n : Nat) (c d : BitVec w) :
    shifts poly n (c ^^^ d) = shifts poly n c ^^^ shifts poly n d := by
  induction n generalizing c d with
  | zero => rfl
  | succ n ih =>
    simp only [shifts, Function.iterate_succ_apply] at ih ⊢
    rw [shift_xor, ih]

theorem shifts_zero (n : Nat) : shifts poly n 0#w = 0#w := by
  have doubled : shifts poly n (0#w ^^^ 0#w) = _ := shifts_xor n 0#w 0#w
  rwa [BitVec.xor_self, BitVec.xor_self] at doubled

theorem shifts_add (m n : Nat) (c : BitVec w) : shifts poly (m + n) c = shifts poly m (shifts poly n c) :=
  Function.iterate_add_apply ..

/-- The feedback starts when the first bit that is set arrives at the low end. -/
theorem shifts_of_low {n : Nat} {c : BitVec w} (clear : ∀ i, i < n → c.getLsbD i = false) :
    shifts poly n c = c >>> n := by
  induction n with
  | zero => rfl
  | succ n ih =>
    have low : (c >>> n).getLsbD 0 = false := by
      rw [BitVec.getLsbD_ushiftRight]
      exact clear n (Nat.lt_succ_self n)
    rw [Nat.add_comm n 1, shifts_add, ih fun i before => clear i (by omega)]
    change shift poly (c >>> n) = _
    rw [shift, low, if_neg Bool.false_ne_true, ← BitVec.shiftRight_add, Nat.add_comm 1 n]

theorem shift_ofBits_cons {bs : List Bool} (room : bs.length < w) (c : BitVec w) (bit : Bool) :
    shift poly (c ^^^ ofBits w (bit :: bs)) = feed poly c bit ^^^ ofBits w bs := by
  refine BitVec.eq_of_getLsbD_eq fun i bound => ?_
  have first : (ofBits w (bit :: bs)).getLsbD 0 = bit := by
    rw [getLsbD_ofBits, List.getElem?_cons_zero, Option.getD_some, decide_eq_true (Nat.zero_lt_of_lt room),
      Bool.true_and]
  have next : (ofBits w (bit :: bs)).getLsbD (i + 1) = (ofBits w bs).getLsbD i := by
    rw [getLsbD_ofBits, getLsbD_ofBits, List.getElem?_cons_succ]
    by_cases inside : i + 1 < w
    · rw [decide_eq_true inside, decide_eq_true bound]
    · have beyond : bs.length ≤ i := by omega
      rw [List.getElem?_eq_none beyond, Option.getD_none, Bool.and_false, Bool.and_false]
  have single : ∀ j, ((BitVec.ofBool bit).setWidth w).getLsbD j = (decide (j = 0) && bit) := by
    intro j
    cases j with
    | zero => simp [Nat.zero_lt_of_lt room]
    | succ j => simp
  rw [feed, BitVec.getLsbD_xor, getLsbD_shift, getLsbD_shift, BitVec.getLsbD_xor, BitVec.getLsbD_xor,
    BitVec.getLsbD_xor, BitVec.getLsbD_xor, first, next, single, single]
  cases c.getLsbD (i + 1) <;> cases (ofBits w bs).getLsbD i <;> simp

/-- Up to `w` bits may be added to the register before it is shifted. -/
theorem foldl_feed {bs : List Bool} (room : bs.length ≤ w) (c : BitVec w) :
    bs.foldl (feed poly) c = shifts poly bs.length (c ^^^ ofBits w bs) := by
  induction bs generalizing c with
  | nil =>
    have none : ofBits w [] = 0#w := BitVec.eq_of_getLsbD_eq fun i _ => by simp [getLsbD_ofBits]
    rw [none, BitVec.xor_zero]
    rfl
  | cons bit bs ih =>
    rw [List.foldl_cons, ih (Nat.le_of_succ_le room), ← shift_ofBits_cons room]
    rfl

@[simp] theorem byteBits_length (byte : UInt8) : (byteBits byte).length = 8 := rfl

theorem getElem?_byteBits {byte : UInt8} {i : Nat} (inside : i < 8) :
    (byteBits byte)[i]? = some (byte.toBitVec.getLsbD i) := by
  rw [byteBits, List.getElem?_map, List.getElem?_range inside, Option.map_some]

theorem bits_length (bytes : List UInt8) : (bits bytes).length = 8 * bytes.length := by
  simp [bits, List.length_flatMap, Nat.mul_comm]

theorem bits_append (xs ys : List UInt8) : bits (xs ++ ys) = bits xs ++ bits ys :=
  List.flatMap_append

theorem ofBits_byteBits (byte : UInt8) : ofBits w (byteBits byte) = byte.toBitVec.setWidth w := by
  refine BitVec.eq_of_getLsbD_eq fun i bound => ?_
  rw [getLsbD_ofBits, BitVec.getLsbD_setWidth]
  by_cases inside : i < 8
  · rw [getElem?_byteBits inside, Option.getD_some, decide_eq_true bound]
  · have beyond : (byteBits byte).length ≤ i := by
      rw [byteBits_length]
      omega
    rw [List.getElem?_eq_none beyond, Option.getD_none, BitVec.getLsbD_of_ge _ _ (by omega)]

theorem run_append (c : BitVec w) (xs ys : List UInt8) : run poly c (xs ++ ys) = run poly (run poly c xs) ys := by
  rw [run, bits_append, List.foldl_append]
  rfl

theorem run_singleton (wide : 8 ≤ w) (c : BitVec w) (byte : UInt8) :
    run poly c [byte] = shifts poly 8 (c ^^^ byte.toBitVec.setWidth w) := by
  have one : bits [byte] = byteBits byte := List.append_nil _
  rw [run, one, foldl_feed (by simpa using wide), ofBits_byteBits, byteBits_length]

theorem run_cons (wide : 8 ≤ w) (c : BitVec w) (byte : UInt8) (bytes : List UInt8) :
    run poly c (byte :: bytes) = run poly (shifts poly 8 (c ^^^ byte.toBitVec.setWidth w)) bytes := by
  rw [← run_singleton wide, ← run_append, List.singleton_append]

/-- What the low bits of the register leave of it can be taken from a table. -/
theorem shifts_split {n : Nat} (within : n ≤ w) (c : BitVec w) :
    shifts poly n c = c >>> n ^^^ shifts poly n ((c.setWidth n).setWidth w) := by
  have low : ∀ i, ((c.setWidth n).setWidth w).getLsbD i = (decide (i < n) && c.getLsbD i) := by
    intro i
    rw [BitVec.getLsbD_setWidth, BitVec.getLsbD_setWidth]
    by_cases inside : i < n
    · simp [inside, Nat.lt_of_lt_of_le inside within]
    · simp [inside]
  have clear : ∀ i, i < n → (c ^^^ (c.setWidth n).setWidth w).getLsbD i = false := by
    intro i inside
    rw [BitVec.getLsbD_xor, low, decide_eq_true inside, Bool.true_and, Bool.xor_self]
  have high : (c ^^^ (c.setWidth n).setWidth w) >>> n = c >>> n := by
    refine BitVec.eq_of_getLsbD_eq fun i _ => ?_
    have above : ¬ n + i < n := by omega
    rw [BitVec.getLsbD_ushiftRight, BitVec.getLsbD_ushiftRight, BitVec.getLsbD_xor, low, decide_eq_false above,
      Bool.false_and, Bool.xor_false]
  have whole : c = (c ^^^ (c.setWidth n).setWidth w) ^^^ (c.setWidth n).setWidth w := by
    rw [BitVec.xor_assoc, BitVec.xor_self, BitVec.xor_zero]
  conv => lhs; rw [whole]
  rw [shifts_xor, shifts_of_low clear, high]

theorem run_table (wide : 8 ≤ w) (c : BitVec w) (byte : UInt8) :
    run poly c [byte] = c >>> 8 ^^^ shifts poly 8 ((c.setWidth 8 ^^^ byte.toBitVec).setWidth w) := by
  have none : (byte.toBitVec.setWidth w) >>> 8 = 0#w := by
    refine BitVec.eq_of_getLsbD_eq fun i _ => ?_
    rw [BitVec.getLsbD_ushiftRight, BitVec.getLsbD_setWidth, BitVec.getLsbD_of_ge _ _ (by omega), Bool.and_false,
      BitVec.getLsbD_zero]
  have narrow : (byte.toBitVec.setWidth w).setWidth 8 = byte.toBitVec := by
    rw [BitVec.setWidth_setWidth_of_le _ wide, BitVec.setWidth_eq]
  rw [run_singleton wide, shifts_split wide, BitVec.ushiftRight_xor_distrib, none, BitVec.xor_zero,
    BitVec.setWidth_xor, narrow]

/-- Nothing is lost in the register if its last tap is set. -/
theorem shift_injective (last : poly.getLsbD (w - 1) = true) : Function.Injective (shift poly) := by
  intro c d same
  have equal : ∀ i, (shift poly c).getLsbD i = (shift poly d).getLsbD i := fun i => by rw [same]
  have low : c.getLsbD 0 = d.getLsbD 0 := by
    have top := equal (w - 1)
    have beyond : w ≤ w - 1 + 1 := by omega
    simpa only [getLsbD_shift, last, BitVec.getLsbD_of_ge _ _ beyond, Bool.false_xor, Bool.and_true] using top
  refine BitVec.eq_of_getLsbD_eq fun i _ => ?_
  cases i with
  | zero => exact low
  | succ i =>
    have next := equal i
    rw [getLsbD_shift, getLsbD_shift, low] at next
    exact Bool.xor_left_inj.mp next

theorem shifts_injective (last : poly.getLsbD (w - 1) = true) (n : Nat) : Function.Injective (shifts poly n) :=
  (shift_injective last).iterate n

/-- A register is cleared by its own bits alone. -/
theorem foldl_feed_eq_zero_iff (last : poly.getLsbD (w - 1) = true) {bs : List Bool} (length : bs.length = w)
    (c : BitVec w) : bs.foldl (feed poly) c = 0#w ↔ ofBits w bs = c := by
  rw [foldl_feed (Nat.le_of_eq length), ← @shifts_zero w poly bs.length, (shifts_injective last _).eq_iff,
    BitVec.xor_eq_zero_iff]
  exact eq_comm

/-- Different registers stay different whatever message follows. -/
theorem foldl_feed_injective (last : poly.getLsbD (w - 1) = true) (bs : List Bool) :
    Function.Injective fun c => bs.foldl (feed poly) c := by
  induction bs with
  | nil => exact fun _ _ same => same
  | cons bit bs ih =>
    intro c d same
    have fed : feed poly c bit = feed poly d bit := ih same
    exact (BitVec.xor_left_inj _).mp (shift_injective last fed)

theorem ofBits_injective {bs bs' : List Bool} (room : bs.length ≤ w) (length : bs.length = bs'.length)
    (same : ofBits w bs = ofBits w bs') : bs = bs' := by
  refine List.ext_getElem length fun i bound bound' => ?_
  have equal : (ofBits w bs).getLsbD i = (ofBits w bs').getLsbD i := by rw [same]
  simpa only [getLsbD_ofBits, decide_eq_true (Nat.lt_of_lt_of_le bound room), Bool.true_and,
    List.getElem?_eq_getElem bound, List.getElem?_eq_getElem bound', Option.getD_some] using equal

/-- Two messages are equal outside a window of `k` bits. -/
def SameOutside (k : Nat) (bs bs' : List Bool) : Prop :=
  ∃ first, bs.take first = bs'.take first ∧ bs.drop (first + k) = bs'.drop (first + k)

theorem SameOutside.mono {k k' : Nat} {bs bs' : List Bool} (near : SameOutside k bs bs') (wider : k ≤ k') :
    SameOutside k' bs bs' := by
  obtain ⟨first, before, after⟩ := near
  refine ⟨first, before, ?_⟩
  have further : first + k' = first + k + (k' - k) := by omega
  rw [further, ← List.drop_drop, after, List.drop_drop]

theorem SameOutside.take {k : Nat} {bs bs' : List Bool} (near : SameOutside k bs bs') (n : Nat) :
    SameOutside k (bs.take n) (bs'.take n) := by
  obtain ⟨first, before, after⟩ := near
  refine ⟨first, ?_, ?_⟩
  · rw [List.take_take, List.take_take, Nat.min_comm, ← List.take_take, before, List.take_take]
  · rw [List.drop_take, List.drop_take, after]

/-- A burst of errors that is no longer than the register changes what the register holds at the end. -/
theorem burst_detected (last : poly.getLsbD (w - 1) = true) {bs bs' : List Bool} (length : bs.length = bs'.length)
    (near : SameOutside w bs bs') (c : BitVec w) (same : bs.foldl (feed poly) c = bs'.foldl (feed poly) c) :
    bs = bs' := by
  obtain ⟨first, before, after⟩ := near
  have parts : ∀ xs : List Bool, xs = xs.take first ++ ((xs.drop first).take w ++ xs.drop (first + w)) := by
    intro xs
    rw [← List.drop_drop, List.take_append_drop, List.take_append_drop]
  have middleLength : ((bs.drop first).take w).length = ((bs'.drop first).take w).length := by
    simp only [List.length_take, List.length_drop, length]
  have room : ∀ xs : List Bool, (xs.take w).length ≤ w := fun xs => List.length_take_le ..
  rw [parts bs, parts bs', List.foldl_append, List.foldl_append, List.foldl_append, List.foldl_append, before,
    after] at same
  have middle := foldl_feed_injective last _ same
  rw [foldl_feed (room (bs.drop first)), foldl_feed (room (bs'.drop first)), middleLength] at middle
  have equal := ofBits_injective (room _) middleLength ((BitVec.xor_right_inj _).mp (shifts_injective last _ middle))
  rw [parts bs, parts bs', before, after, equal]

theorem bits_injective {xs ys : List UInt8} (same : bits xs = bits ys) : xs = ys := by
  have single : ∀ x y : UInt8, byteBits x = byteBits y → x = y := by
    intro x y equal
    have word : ofBits 8 (byteBits x) = ofBits 8 (byteBits y) := by rw [equal]
    rw [ofBits_byteBits, ofBits_byteBits, BitVec.setWidth_eq, BitVec.setWidth_eq] at word
    exact UInt8.toBitVec_inj.mp word
  induction xs generalizing ys with
  | nil =>
    cases ys with
    | nil => rfl
    | cons y ys => cases same
  | cons x xs ih =>
    cases ys with
    | nil => cases same
    | cons y ys =>
      rw [bits, bits, List.flatMap_cons, List.flatMap_cons] at same
      obtain ⟨head, tail⟩ := List.append_inj same rfl
      rw [single x y head, ih tail]

/-- Two messages of bytes of which only `k` consecutive bits may differ. -/
def Near (k : Nat) (xs ys : List UInt8) : Prop :=
  SameOutside k (bits xs) (bits ys)

theorem Near.mono {k k' : Nat} {xs ys : List UInt8} (near : Near k xs ys) (wider : k ≤ k') : Near k' xs ys :=
  SameOutside.mono near wider

theorem bits_take (n : Nat) (bytes : List UInt8) : bits (bytes.take n) = (bits bytes).take (8 * n) := by
  induction bytes generalizing n with
  | nil => simp [bits]
  | cons byte bytes ih =>
    cases n with
    | zero => rfl
    | succ n =>
      have more : 8 * (n + 1) = (byteBits byte).length + 8 * n := by
        rw [byteBits_length]
        omega
      calc bits ((byte :: bytes).take (n + 1)) = byteBits byte ++ bits (bytes.take n) := rfl
        _ = byteBits byte ++ (bits bytes).take (8 * n) := by rw [ih]
        _ = (byteBits byte ++ bits bytes).take (8 * (n + 1)) := by rw [more, List.take_length_add_append]

theorem Near.take {k : Nat} {xs ys : List UInt8} (near : Near k xs ys) (n : Nat) : Near k (xs.take n) (ys.take n) := by
  have both := SameOutside.take near (8 * n)
  rwa [← bits_take, ← bits_take] at both

theorem run_burst (last : poly.getLsbD (w - 1) = true) {xs ys : List UInt8} (length : xs.length = ys.length)
    (near : Near w xs ys) (c : BitVec w) (same : run poly c xs = run poly c ys) : xs = ys :=
  bits_injective (burst_detected last (by rw [bits_length, bits_length, length]) near c same)

end Crc
