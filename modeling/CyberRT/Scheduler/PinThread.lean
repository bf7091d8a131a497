import CyberRT.Base.AtomicRWLock
import CyberRT.Lib.Loop
import CyberRT.Lib.Text
import Mathlib.Data.List.Forall2

namespace CyberRT
open Loop Text

namespace Cpuset

/-- A round of the loop over the numbers of a range. -/
def rangeRound (e : Int) : Int × List Int → (Int × List Int) ⊕ List Int
  | (i, cpuset) => if i ≤ e then .inl (int32 (i + 1), cpuset ++ [i]) else .inr cpuset

/-- The cpuset with the numbers of one line. It is `some none` where the program ends, by `exit` or by the exception of
`stoi`. -/
def parseLine (fuel : Nat) (line : List Char) (cpuset : List Int) : Option (Option (List Int)) :=
  match lines '-' line with
  | [n] => some ((stoi n).map fun n => cpuset ++ [n])
  | [a, b] =>
    match stoi a, stoi b with
    | some i, some e => (run (fun s => some (rangeRound e s)) fuel (i, cpuset)).map some
    | _, _ => some none
  | _ => some none

def parseLines (fuel : Nat) : List (List Char) → List Int → Option (Option (List Int))
  | [], cpuset => some (some cpuset)
  | line :: more, cpuset =>
    match parseLine fuel line cpuset with
    | none => none
    | some none => some none
    | some (some cpuset) => parseLines fuel more cpuset

def parseCpuset (fuel : Nat) (str : String) (cpuset : List Int) : Option (Option (List Int)) :=
  parseLines fuel (lines ',' str.toList) cpuset

/-- The integers of an interval, in order. -/
def interval (a b : Int) : List Int :=
  (List.range (b + 1 - a).toNat).map fun k : Nat => a + k

theorem interval_cons {a b : Int} (le : a ≤ b) : interval a b = a :: interval (a + 1) b := by
  have count : (b + 1 - a).toNat = (b + 1 - (a + 1)).toNat + 1 := by omega
  rw [interval, count, List.range_succ_eq_map, List.map_cons, List.map_map, interval]
  congr 1
  · exact Int.add_zero a
  · refine List.map_congr_left fun k _ => ?_
    simp only [Function.comp_apply]
    omega

theorem interval_empty {a b : Int} (lt : b < a) : interval a b = [] := by
  have count : (b + 1 - a).toNat = 0 := by omega
  rw [interval, count]
  rfl

theorem run_rangeRound {e : Int} (small : e < INT_MAX) {i : Int} (least : INT_MIN ≤ i) (cpuset : List Int) :
    ∃ rounds, run (fun s => some (rangeRound e s)) rounds (i, cpuset) = some (cpuset ++ interval i e) := by
  -- The number of the rounds is one more than the numbers that are left.
  induction count : (e + 1 - i).toNat generalizing i cpuset with
  | zero =>
    refine ⟨1, ?_⟩
    rw [run, rangeRound, if_neg (by omega), interval_empty (by omega), List.append_nil]
  | succ n ih =>
    have next : int32 (i + 1) = i + 1 := by
      unfold INT_MIN INT_MAX at *
      exact int32_eq (by omega) (by omega)
    obtain ⟨rounds, done⟩ := ih (i := i + 1) (by omega) (cpuset ++ [i]) (by omega)
    refine ⟨rounds + 1, ?_⟩
    rw [run, rangeRound, if_pos (by omega), next]
    simp only [done]
    rw [interval_cons (show i ≤ e by omega), List.append_assoc, List.singleton_append]

/-- A range to the largest `int` does not end: the number after that one is the least `int`. -/
theorem run_rangeRound_max {i : Int} (most : i ≤ INT_MAX) (cpuset : List Int) (rounds : Nat) :
    run (fun s => some (rangeRound INT_MAX s)) rounds (i, cpuset) = none := by
  induction rounds generalizing i cpuset with
  | zero => rfl
  | succ rounds ih =>
    have next : int32 (i + 1) ≤ INT_MAX := by
      have bound := Int.bmod_lt (x := i + 1) (m := 2 ^ 32) (by decide)
      unfold int32 INT_MAX
      omega
    rw [run, rangeRound, if_pos most]
    exact ih next (cpuset ++ [i])

inductive Item
  | single (n : Int)
  | range (a b : Int)
  deriving DecidableEq

namespace Item

def numbers : Item → List Int
  | .single n => [n]
  | .range a b => interval a b

def Endless : Item → Prop
  | .single _ => False
  | .range _ b => b = INT_MAX

end Item

/-- What a line is read as. -/
def readLine (line : List Char) : Option Item :=
  match lines '-' line with
  | [n] => (stoi n).map Item.single
  | [a, b] =>
    match stoi a, stoi b with
    | some a, some b => some (.range a b)
    | _, _ => none
  | _ => none

theorem parseLine_refused {line : List Char} (refused : readLine line = none) (fuel : Nat) (cpuset : List Int) :
    parseLine fuel line cpuset = some none := by
  unfold readLine at refused
  unfold parseLine
  split
  · rename_i n single
    rw [single] at refused
    rw [Option.map_eq_none_iff.mp refused, Option.map_none]
  · rename_i a b two
    simp only [two] at refused
    split
    · rename_i first second
      rw [first, second] at refused
      cases refused
    · rfl
  · rfl

theorem parseLine_single {line : List Char} {n : Int} (read : readLine line = some (.single n)) (fuel : Nat)
    (cpuset : List Int) : parseLine fuel line cpuset = some (some (cpuset ++ [n])) := by
  unfold readLine at read
  unfold parseLine
  split at read
  · rename_i s single
    obtain ⟨m, value, same⟩ := Option.map_eq_some_iff.mp read
    cases same
    simp only [value, Option.map_some]
  · split at read <;> cases read
  · cases read

theorem parseLine_range {line : List Char} {a b : Int} (read : readLine line = some (.range a b)) (fuel : Nat)
    (cpuset : List Int) :
    parseLine fuel line cpuset = (run (fun s => some (rangeRound b s)) fuel (a, cpuset)).map some ∧
      (INT_MIN ≤ a ∧ a ≤ INT_MAX) ∧ INT_MIN ≤ b ∧ b ≤ INT_MAX := by
  unfold readLine at read
  unfold parseLine
  split at read
  · obtain ⟨m, -, same⟩ := Option.map_eq_some_iff.mp read
    cases same
  · rename_i s t two
    split at read
    · rename_i first second
      cases read
      exact ⟨rfl, stoi_bounds first, stoi_bounds second⟩
    · cases read
  · cases read

theorem parseLine_read {line : List Char} {item : Item} (read : readLine line = some item) (ends : ¬item.Endless)
    (cpuset : List Int) : Returns (fun fuel => parseLine fuel line cpuset) (some (cpuset ++ item.numbers)) := by
  cases item with
  | single n => exact .of_eq fun fuel => parseLine_single read fuel cpuset
  | range a b =>
    obtain ⟨-, ⟨least, -⟩, -, most⟩ := parseLine_range read 0 cpuset
    have small : b < INT_MAX := lt_of_le_of_ne most ends
    obtain ⟨enough, done⟩ := (returns_iff.mpr (run_rangeRound small least cpuset)).map some
    refine ⟨enough, fun fuel many => ?_⟩
    dsimp only
    rw [(parseLine_range read fuel cpuset).1]
    exact done fuel many

theorem parseLine_endless {line : List Char} {item : Item} (read : readLine line = some item) (endless : item.Endless)
    (fuel : Nat) (cpuset : List Int) : parseLine fuel line cpuset = none := by
  cases item with
  | single n => exact endless.elim
  | range a b =>
    obtain ⟨runs, ⟨-, most⟩, -⟩ := parseLine_range read fuel cpuset
    cases show b = INT_MAX from endless
    rw [runs, run_rangeRound_max most, Option.map_none]

theorem returns_cons_refused {line : List Char} (refused : readLine line = none) (more : List (List Char))
    (cpuset : List Int) {outcome : Option (List Int)} :
    Returns (fun fuel => parseLines fuel (line :: more) cpuset) outcome ↔ outcome = none := by
  have always : ∀ fuel, parseLines fuel (line :: more) cpuset = some none := by
    intro fuel
    rw [parseLines, parseLine_refused refused]
  constructor
  · intro returns
    exact returns.unique (.of_eq always)
  · rintro rfl
    exact .of_eq always

theorem not_returns_cons_endless {line : List Char} {item : Item} (read : readLine line = some item)
    (endless : item.Endless) (more : List (List Char)) (cpuset : List Int) {outcome : Option (List Int)} :
    ¬Returns (fun fuel => parseLines fuel (line :: more) cpuset) outcome := by
  rintro ⟨enough, done⟩
  have here : parseLines enough (line :: more) cpuset = some outcome := done enough le_rfl
  rw [parseLines, parseLine_endless read endless] at here
  cases here

theorem returns_cons_read {line : List Char} {item : Item} (read : readLine line = some item) (ends : ¬item.Endless)
    (more : List (List Char)) (cpuset : List Int) {outcome : Option (List Int)} :
    Returns (fun fuel => parseLines fuel (line :: more) cpuset) outcome ↔
      Returns (fun fuel => parseLines fuel more (cpuset ++ item.numbers)) outcome := by
  obtain ⟨enough, done⟩ := parseLine_read read ends cpuset
  have same : ∀ fuel, enough ≤ fuel →
      parseLines fuel (line :: more) cpuset = parseLines fuel more (cpuset ++ item.numbers) := by
    intro fuel many
    have first : parseLine fuel line cpuset = some (some (cpuset ++ item.numbers)) := done fuel many
    rw [parseLines, first]
  constructor
  · rintro ⟨m, returns⟩
    exact ⟨max m enough, fun fuel many => (same fuel (by omega)).symm.trans (returns fuel (by omega))⟩
  · rintro ⟨m, returns⟩
    exact ⟨max m enough, fun fuel many => (same fuel (by omega)).trans (returns fuel (by omega))⟩

/-- The lines are read as these items, and none of them is endless. -/
def ReadAs (lines : List (List Char)) (items : List Item) : Prop :=
  List.Forall₂ (fun line item => readLine line = some item ∧ ¬item.Endless) lines items

theorem returns_some_iff {lines : List (List Char)} {cpuset numbers : List Int} :
    Returns (fun fuel => parseLines fuel lines cpuset) (some numbers) ↔
      ∃ items, ReadAs lines items ∧ numbers = cpuset ++ items.flatMap Item.numbers := by
  induction lines generalizing cpuset with
  | nil =>
    constructor
    · intro returns
      have same : some numbers = some cpuset := returns.unique (.of_eq fun _ => rfl)
      exact ⟨[], .nil, by rw [Option.some.inj same, List.flatMap_nil, List.append_nil]⟩
    · rintro ⟨items, ⟨⟩, rfl⟩
      rw [List.flatMap_nil, List.append_nil]
      exact .of_eq fun _ => rfl
  | cons line more ih =>
    cases read : readLine line with
    | none =>
      rw [returns_cons_refused read]
      constructor
      · rintro ⟨⟩
      · rintro ⟨items, all, -⟩
        obtain ⟨_, _, ⟨here, -⟩, -⟩ := List.forall₂_cons_left_iff.mp all
        cases read.symm.trans here
    | some item =>
      by_cases endless : item.Endless
      · refine iff_of_false (not_returns_cons_endless read endless more cpuset) ?_
        rintro ⟨items, all, -⟩
        obtain ⟨_, _, ⟨here, ends⟩, -⟩ := List.forall₂_cons_left_iff.mp all
        cases read.symm.trans here
        exact ends endless
      · rw [returns_cons_read read endless, ih]
        constructor
        · rintro ⟨items, all, rfl⟩
          exact ⟨item :: items, .cons ⟨read, endless⟩ all, by rw [List.flatMap_cons, List.append_assoc]⟩
        · rintro ⟨items, all, rfl⟩
          obtain ⟨_, rest, ⟨here, -⟩, tail, rfl⟩ := List.forall₂_cons_left_iff.mp all
          cases read.symm.trans here
          exact ⟨rest, tail, by rw [List.flatMap_cons, List.append_assoc]⟩

example : parseCpuset 3 "0-1,2-3" [] = some (some [0, 1, 2, 3]) := by decide

theorem returns_none_iff {lines : List (List Char)} {cpuset : List Int} :
    Returns (fun fuel => parseLines fuel lines cpuset) none ↔
      ∃ before line after, lines = before ++ line :: after ∧ readLine line = none ∧
        ∀ earlier ∈ before, ∀ item, readLine earlier = some item → ¬item.Endless := by
  induction lines generalizing cpuset with
  | nil =>
    refine iff_of_false (fun returns => ?_) fun ⟨before, line, after, split, _⟩ => by cases before <;> cases split
    cases returns.unique (.of_eq fun _ => rfl : Returns _ (some cpuset))
  | cons line more ih =>
    cases read : readLine line with
    | none =>
      rw [returns_cons_refused read]
      refine iff_of_true rfl ⟨[], line, more, rfl, read, ?_⟩
      intro earlier member
      cases member
    | some item =>
      by_cases endless : item.Endless
      · refine iff_of_false (not_returns_cons_endless read endless more cpuset) ?_
        rintro ⟨before, refused, after, split, none, fine⟩
        cases before with
        | nil =>
          cases split
          cases read.symm.trans none
        | cons first before =>
          cases split
          exact fine line List.mem_cons_self item read endless
      · rw [returns_cons_read read endless, ih]
        constructor
        · rintro ⟨before, refused, after, rfl, none, fine⟩
          refine ⟨line :: before, refused, after, rfl, none, List.forall_mem_cons.mpr ⟨?_, fine⟩⟩
          intro other here
          cases read.symm.trans here
          exact endless
        · rintro ⟨before, refused, after, split, none, fine⟩
          cases before with
          | nil =>
            cases split
            cases read.symm.trans none
          | cons first before =>
            cases split
            refine ⟨before, refused, after, rfl, none, fun earlier member => ?_⟩
            exact fine earlier (List.mem_cons_of_mem _ member)

end Cpuset

end CyberRT
