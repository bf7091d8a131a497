import Mathlib.Algebra.Group.Int.Defs
import Mathlib.Data.List.TakeWhile
import Mathlib.Order.Basic
import Mathlib.Order.Nat

namespace Text

def INT_MIN : Int := -2 ^ 31

def INT_MAX : Int := 2 ^ 31 - 1

def isSpace (c : Char) : Bool :=
  c ∈ [' ', '\t', '\n', '\x0b', '\x0c', '\r']

/-- The value of a string of digits. -/
def value (digits : List Char) : Nat :=
  Nat.ofDigitChars 10 digits 0

/-- `strtol` without bounds, base 10: spaces, a sign, and digits, of which there has to be one. What follows them is
left over. -/
def strtol (s : List Char) : Option Int :=
  let s := s.dropWhile isSpace
  let unsigned (s : List Char) : Option Int :=
    let digits := s.takeWhile Char.isDigit
    if digits.isEmpty then none else some (value digits : Int)
  match s with
  | '-' :: s => (unsigned s).map fun n => -n
  | '+' :: s => unsigned s
  | s => unsigned s

/-- `std::stoi`: `none` stands for an exception. -/
def stoi (s : List Char) : Option Int :=
  (strtol s).bind fun n => if INT_MIN ≤ n ∧ n ≤ INT_MAX then some n else none

/-- `std::to_string` of an `int`. -/
def ofInt : Int → List Char
  | .ofNat n => Nat.toDigits 10 n
  | .negSucc n => '-' :: Nat.toDigits 10 (n + 1)

/-- The decimal digits of some number. -/
structure Digits (s : List Char) : Prop where
  some_ : s ≠ []
  digits : ∀ c ∈ s, c.isDigit = true

theorem digits_toDigits (n : Nat) : Digits (Nat.toDigits 10 n) :=
  ⟨Nat.toDigits_ne_nil, fun _ member => Nat.isDigit_of_mem_toDigits (by decide) (by decide) member⟩

theorem not_isSpace_of_isDigit {c : Char} (digit : c.isDigit = true) : isSpace c = false := by
  by_contra space
  simp only [isSpace, List.mem_cons, List.not_mem_nil, or_false, decide_eq_true_eq, Bool.not_eq_false] at space
  rcases space with rfl | rfl | rfl | rfl | rfl | rfl <;> exact absurd digit (by decide)

theorem strtol_digits {s : List Char} (digits : Digits s) : strtol s = some (value s : Int) := by
  obtain ⟨some_, all⟩ := digits
  have whole : s.takeWhile Char.isDigit = s := List.takeWhile_eq_self_iff.mpr all
  have full : s.isEmpty = false := by simpa using some_
  cases s with
  | nil => exact absurd rfl some_
  | cons c cs =>
    have first := all c List.mem_cons_self
    have start : (c :: cs).dropWhile isSpace = c :: cs := by
      rw [List.dropWhile_cons, not_isSpace_of_isDigit first, if_neg (by decide)]
    have minus : c ≠ '-' := by
      rintro rfl
      exact absurd first (by decide)
    have plus : c ≠ '+' := by
      rintro rfl
      exact absurd first (by decide)
    unfold strtol
    simp only [start]
    split
    · rename_i heads
      exact absurd (List.cons.inj heads).1 minus
    · rename_i heads
      exact absurd (List.cons.inj heads).1 plus
    · rw [whole, full, if_neg (by decide)]

theorem stoi_digits {s : List Char} (digits : Digits s) (small : (value s : Int) ≤ INT_MAX) :
    stoi s = some (value s : Int) := by
  have least : INT_MIN ≤ (value s : Int) := by
    unfold INT_MIN
    omega
  rw [stoi, strtol_digits digits, Option.bind_some, if_pos ⟨least, small⟩]

theorem strtol_negative {s : List Char} (digits : Digits s) : strtol ('-' :: s) = some (-(value s : Int)) := by
  have whole : s.takeWhile Char.isDigit = s := List.takeWhile_eq_self_iff.mpr digits.digits
  have full : s.isEmpty = false := by simpa using digits.some_
  have start : ('-' :: s).dropWhile isSpace = '-' :: s := rfl
  simp only [strtol, start, whole, full, Bool.false_eq_true, if_false, Option.map_some]

/-- A number is read back from its text. -/
theorem stoi_ofInt {n : Int} (inRange : INT_MIN ≤ n ∧ n ≤ INT_MAX) : stoi (ofInt n) = some n := by
  have reads : strtol (ofInt n) = some n := by
    cases n with
    | ofNat n =>
      rw [ofInt, strtol_digits (digits_toDigits n), value, Nat.ofDigitChars_ten_toDigits]
      rfl
    | negSucc n =>
      rw [ofInt, strtol_negative (digits_toDigits _), value, Nat.ofDigitChars_ten_toDigits]
      rfl
  rw [stoi, reads, Option.bind_some, if_pos inRange]

theorem stoi_bounds {s : List Char} {n : Int} (reads : stoi s = some n) : INT_MIN ≤ n ∧ n ≤ INT_MAX := by
  obtain ⟨m, -, bounded⟩ := Option.bind_eq_some_iff.mp reads
  split at bounded
  · rename_i inRange
    rwa [Option.some.inj bounded] at inRange
  · cases bounded

/-- The strings that `getline` takes from a stream one after the other, the first of which begins with `line`. At the
end of the stream it fails if there is nothing left, so that an empty last piece is not one of them. -/
def linesFrom (delim : Char) (line : List Char) : List Char → List (List Char)
  | [] => if line.isEmpty then [] else [line]
  | c :: cs => if c = delim then line :: linesFrom delim [] cs else linesFrom delim (line ++ [c]) cs

def lines (delim : Char) (s : List Char) : List (List Char) :=
  linesFrom delim [] s

variable {delim : Char}

theorem linesFrom_append {piece : List Char} (plain : delim ∉ piece) (line more : List Char) :
    linesFrom delim line (piece ++ more) = linesFrom delim (line ++ piece) more := by
  induction piece generalizing line with
  | nil => rw [List.nil_append, List.append_nil]
  | cons c cs ih =>
    obtain ⟨other, rest⟩ := not_or.mp fun member => plain (List.mem_cons.mpr member)
    rw [List.cons_append, linesFrom, if_neg (Ne.symm other), ih rest, List.append_assoc, List.singleton_append]

theorem lines_piece {piece : List Char} (plain : delim ∉ piece) (some_ : piece ≠ []) : lines delim piece = [piece] := by
  have all := linesFrom_append plain [] []
  rw [List.append_nil, List.nil_append] at all
  rw [lines, all, linesFrom, if_neg (by simpa using some_)]

theorem lines_cons {piece : List Char} (plain : delim ∉ piece) (more : List Char) :
    lines delim (piece ++ delim :: more) = piece :: lines delim more := by
  rw [lines, linesFrom_append plain, List.nil_append, linesFrom, if_pos rfl, lines]

/-- Pieces that are joined come back, if none of them is empty. -/
theorem lines_intercalate {pieces : List (List Char)} (plain : ∀ piece ∈ pieces, delim ∉ piece ∧ piece ≠ []) :
    lines delim ([delim].intercalate pieces) = pieces := by
  induction pieces with
  | nil => rfl
  | cons piece pieces ih =>
    obtain ⟨⟨first, some_⟩, rest⟩ := List.forall_mem_cons.mp plain
    cases pieces with
    | nil =>
      rw [List.intercalate_singleton]
      exact lines_piece first some_
    | cons second pieces =>
      have joined : [delim].intercalate (piece :: second :: pieces) =
          piece ++ delim :: [delim].intercalate (second :: pieces) := by
        simp [List.intercalate, List.intersperse]
      rw [joined, lines_cons first, ih rest]

end Text
