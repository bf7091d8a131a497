import CyberRT.Scheduler.PinThread

namespace CyberRT
open Loop Text

namespace Cpuset

/-- A decimal integer of the range of `int`, which may have a minus sign if numbers are signed. -/
def Number (signed : Bool) (s : List Char) (n : Int) : Prop :=
  (Digits s ∧ n = value s ∨ signed = true ∧ ∃ digits, s = '-' :: digits ∧ Digits digits ∧ n = -(value digits)) ∧
    INT_MIN ≤ n ∧ n ≤ INT_MAX

def Matches (signed : Bool) (piece : List Char) : Item → Prop
  | .single n => Number signed piece n
  | .range a b => ∃ s t, piece = s ++ '-' :: t ∧ Number signed s a ∧ Number signed t b

/-- A list of items with commas between them. -/
def Listed (signed : Bool) (s : List Char) (items : List Item) : Prop :=
  ∃ pieces, s = [','].intercalate pieces ∧ List.Forall₂ (Matches signed) pieces items

variable {signed : Bool}

theorem digit_ne_minus {s : List Char} (digits : Digits s) : '-' ∉ s :=
  fun member => absurd (digits.digits _ member) (by decide)

theorem digit_ne_comma {s : List Char} (digits : Digits s) : ',' ∉ s :=
  fun member => absurd (digits.digits _ member) (by decide)

namespace Number

theorem plain {s : List Char} {n : Int} (number : Number signed s n) : ',' ∉ s ∧ s ≠ [] := by
  obtain ⟨⟨digits, -⟩ | ⟨-, digits, rfl, all, -⟩, -⟩ := number
  · exact ⟨digit_ne_comma digits, digits.some_⟩
  · refine ⟨fun member => ?_, List.cons_ne_nil _ _⟩
    exact digit_ne_comma all ((List.mem_cons.mp member).resolve_left (by decide))

theorem of_unsigned {s : List Char} {n : Int} (number : Number false s n) : Number signed s n := by
  obtain ⟨unsigned | ⟨⟨⟩, -⟩, bounds⟩ := number
  exact ⟨.inl unsigned, bounds⟩

theorem lines_minus {s : List Char} {n : Int} (number : Number false s n) : lines '-' s = [s] ∧ stoi s = some n := by
  obtain ⟨⟨digits, rfl⟩ | ⟨⟨⟩, -⟩, -, most⟩ := number
  exact ⟨lines_piece (digit_ne_minus digits) digits.some_, stoi_digits digits most⟩

/-- A number with a minus sign has an empty string before the sign. -/
theorem sign {s : List Char} {n : Int} (number : Number signed s n) :
    Number false s n ∨ ∃ digits, s = '-' :: digits ∧ lines '-' s = [[], digits] := by
  obtain ⟨⟨digits, value⟩ | ⟨-, digits, rfl, all, -⟩, bounds⟩ := number
  · exact .inl ⟨.inl ⟨digits, value⟩, bounds⟩
  · refine .inr ⟨digits, rfl, ?_⟩
    rw [← List.nil_append ('-' :: digits), lines_cons List.not_mem_nil, lines_piece (digit_ne_minus all) all.some_]

end Number

namespace Matches

theorem plain {piece : List Char} {item : Item} (here : Matches signed piece item) : ',' ∉ piece ∧ piece ≠ [] := by
  cases item with
  | single n => exact Number.plain here
  | range a b =>
    obtain ⟨s, t, rfl, first, second⟩ := here
    refine ⟨fun member => ?_, by simp⟩
    rcases List.mem_append.mp member with member | member
    · exact first.plain.1 member
    · exact second.plain.1 ((List.mem_cons.mp member).resolve_left (by decide))

theorem of_unsigned {piece : List Char} {item : Item} (here : Matches false piece item) :
    Matches signed piece item := by
  cases item with
  | single n => exact Number.of_unsigned here
  | range a b =>
    obtain ⟨s, t, split, first, second⟩ := here
    exact ⟨s, t, split, first.of_unsigned, second.of_unsigned⟩

theorem readLine {piece : List Char} {item : Item} (here : Matches false piece item) :
    readLine piece = some item := by
  cases item with
  | single n =>
    obtain ⟨whole, value⟩ := Number.lines_minus here
    rw [Cpuset.readLine, whole]
    simp only [value, Option.map_some]
  | range a b =>
    obtain ⟨s, t, rfl, first, second⟩ := here
    obtain ⟨wholeFirst, valueFirst⟩ := first.lines_minus
    obtain ⟨wholeSecond, valueSecond⟩ := second.lines_minus
    have plain : '-' ∉ s := by
      obtain ⟨⟨digits, -⟩ | ⟨⟨⟩, -⟩, -⟩ := first
      exact digit_ne_minus digits
    rw [Cpuset.readLine, lines_cons plain, wholeSecond]
    simp only [valueFirst, valueSecond]

/-- A minus sign is taken for the one of a range, and refused. -/
theorem sign {piece : List Char} {item : Item} (here : Matches signed piece item) :
    Matches false piece item ∨ Cpuset.readLine piece = none := by
  cases item with
  | single n =>
    rcases Number.sign here with unsigned | ⟨digits, -, pieces⟩
    · exact .inl unsigned
    · right
      rw [Cpuset.readLine, pieces]
      rfl
  | range a b =>
    obtain ⟨s, t, rfl, first, second⟩ := here
    obtain ⟨last, more, pieces⟩ : ∃ last more, lines '-' t = last :: more := by
      rcases second.sign with unsigned | ⟨digits, -, pieces⟩
      · exact ⟨t, [], unsigned.lines_minus.1⟩
      · exact ⟨[], [digits], pieces⟩
    rcases first.sign with unsigned | ⟨digits, rfl, split⟩
    · have plain : '-' ∉ s := by
        obtain ⟨⟨digits, -⟩ | ⟨⟨⟩, -⟩, -⟩ := unsigned
        exact digit_ne_minus digits
      rcases second.sign with unsignedSecond | ⟨digits, -, pieces⟩
      · exact .inl ⟨s, t, rfl, unsigned, unsignedSecond⟩
      · right
        rw [Cpuset.readLine, lines_cons plain, pieces]
    · right
      have plain : '-' ∉ digits := by
        obtain ⟨⟨all, -⟩ | ⟨-, _, same, all, -⟩, -⟩ := first
        · exact absurd List.mem_cons_self (digit_ne_minus all)
        · cases same
          exact digit_ne_minus all
      rw [Cpuset.readLine, ← List.nil_append ('-' :: digits ++ _), List.cons_append, lines_cons List.not_mem_nil,
        lines_cons plain, pieces]

end Matches

theorem Listed.lines_eq {pieces : List (List Char)} {items : List Item}
    (all : List.Forall₂ (Matches signed) pieces items) : lines ',' ([','].intercalate pieces) = pieces := by
  refine lines_intercalate ?_
  induction all with
  | nil => exact List.forall_mem_nil _
  | cons here _ ih => exact List.forall_mem_cons.mpr ⟨here.plain, ih⟩

theorem readAs_of_matches {pieces : List (List Char)} {items : List Item}
    (all : List.Forall₂ (Matches false) pieces items) (ends : ∀ item ∈ items, ¬item.Endless) :
    ReadAs pieces items := by
  induction all with
  | nil => exact .nil
  | cons here _ ih =>
    obtain ⟨first, rest⟩ := List.forall_mem_cons.mp ends
    exact .cons ⟨here.readLine, first⟩ (ih rest)

theorem ReadAs.ends {lines : List (List Char)} {items : List Item} (reads : ReadAs lines items) :
    ∀ item ∈ items, ¬item.Endless := by
  induction reads with
  | nil => exact List.forall_mem_nil _
  | cons here _ ih => exact List.forall_mem_cons.mpr ⟨here.2, ih⟩

/-- What the parser reads of a list is the list, without signs. -/
theorem matches_of_readAs {pieces : List (List Char)} {items read : List Item}
    (all : List.Forall₂ (Matches signed) pieces items) (reads : ReadAs pieces read) :
    List.Forall₂ (Matches false) pieces items ∧ items = read := by
  induction all generalizing read with
  | nil =>
    cases reads
    exact ⟨.nil, rfl⟩
  | cons here _ ih =>
    obtain ⟨item, rest, ⟨first, -⟩, tail, rfl⟩ := List.forall₂_cons_left_iff.mp reads
    obtain ⟨unsigned, rfl⟩ := ih tail
    rcases here.sign with plain | refused
    · cases plain.readLine.symm.trans first
      exact ⟨.cons plain unsigned, rfl⟩
    · cases refused.symm.trans first

/-- The parts of the line are neither one nor two, or one of them is no number. -/
def Refused (line : List Char) : Prop :=
  (lines '-' line).length ≠ 1 ∧ (lines '-' line).length ≠ 2 ∨ ∃ part ∈ lines '-' line, stoi part = none

/-- The line is read as a range to the largest `int`. -/
def ToIntMax (line : List Char) : Prop :=
  ∃ a b, lines '-' line = [a, b] ∧ stoi a ≠ none ∧ stoi b = some INT_MAX

theorem refused_iff {line : List Char} : Refused line ↔ readLine line = none := by
  unfold Refused readLine
  split
  · rename_i n one
    simp [one, Option.map_eq_none_iff]
  · rename_i a b two
    cases first : stoi a with
    | none => simp [two, first]
    | some x =>
      cases second : stoi b with
      | none => simp [two, second]
      | some y => simp [two, first, second]
  · rename_i notOne notTwo
    refine iff_of_true (.inl ⟨fun one => ?_, fun two => ?_⟩) rfl
    · obtain ⟨n, here⟩ := List.length_eq_one_iff.mp one
      exact notOne n here
    · obtain ⟨a, b, here⟩ := List.length_eq_two.mp two
      exact notTwo a b here

theorem toIntMax_iff {line : List Char} : ToIntMax line ↔ ∃ item, readLine line = some item ∧ item.Endless := by
  constructor
  · rintro ⟨a, b, two, first, second⟩
    obtain ⟨i, first⟩ := Option.ne_none_iff_exists'.mp first
    exact ⟨.range i INT_MAX, by simp only [readLine, two, first, second], rfl⟩
  · rintro ⟨item, read, endless⟩
    cases item with
    | single n => exact endless.elim
    | range i e =>
      cases show e = INT_MAX from endless
      unfold readLine at read
      split at read
      · obtain ⟨m, -, same⟩ := Option.map_eq_some_iff.mp read
        cases same
      · rename_i a b two
        split at read
        · rename_i first second
          cases read
          exact ⟨a, b, two, by rw [first]; exact Option.some_ne_none _, second⟩
        · cases read
      · cases read

/-- The parser ends, it appends the numbers of a list, and it reads no other string. -/
def FollowsGrammar (signed : Bool) (str : String) : Prop :=
  ∀ cpuset,
    (∃ outcome, Returns (fun fuel => parseCpuset fuel str cpuset) outcome) ∧
    (∀ items, Listed signed str.toList items →
      Returns (fun fuel => parseCpuset fuel str cpuset) (some (cpuset ++ items.flatMap Item.numbers))) ∧
    ((¬∃ items, Listed signed str.toList items) → Returns (fun fuel => parseCpuset fuel str cpuset) none)

theorem followsGrammar_iff (signed : Bool) (str : String) :
    FollowsGrammar signed str ↔
      (∃ items, Listed false str.toList items ∧ ∀ item ∈ items, ¬item.Endless) ∨
        (¬∃ items, Listed signed str.toList items) ∧
          ∃ before line after, lines ',' str.toList = before ++ line :: after ∧ Refused line ∧
            ∀ earlier ∈ before, ¬ToIntMax earlier := by
  have refuses : ∀ cpuset, Returns (fun fuel => parseCpuset fuel str cpuset) none ↔
      ∃ before line after, lines ',' str.toList = before ++ line :: after ∧ Refused line ∧
        ∀ earlier ∈ before, ¬ToIntMax earlier := by
    intro cpuset
    simp only [parseCpuset, returns_none_iff, refused_iff, toIntMax_iff, not_exists, not_and]
  constructor
  · intro follows
    obtain ⟨-, reads, rejects⟩ := follows []
    by_cases listed : ∃ items, Listed signed str.toList items
    · obtain ⟨items, pieces, split, all⟩ := listed
      obtain ⟨read, readAs, -⟩ := returns_some_iff.mp (reads items ⟨pieces, split, all⟩)
      rw [split, Listed.lines_eq all] at readAs
      obtain ⟨unsigned, rfl⟩ := matches_of_readAs all readAs
      exact .inl ⟨items, ⟨pieces, split, unsigned⟩, readAs.ends⟩
    · exact .inr ⟨listed, (refuses []).mp (rejects listed)⟩
  · rintro (⟨items, ⟨pieces, split, all⟩, ends⟩ | ⟨unlisted, refused⟩) cpuset
    · have readAs := readAs_of_matches all ends
      have returns : Returns (fun fuel => parseCpuset fuel str cpuset)
          (some (cpuset ++ items.flatMap Item.numbers)) := by
        unfold parseCpuset
        rw [split, Listed.lines_eq all]
        exact returns_some_iff.mpr ⟨items, readAs, rfl⟩
      refine ⟨⟨_, returns⟩, ?_, ?_⟩
      · rintro items' ⟨pieces', split', all'⟩
        have same : pieces' = pieces := by rw [← Listed.lines_eq all', ← split', split, Listed.lines_eq all]
        obtain ⟨-, rfl⟩ := matches_of_readAs (same ▸ all') readAs
        exact returns
      · intro unlisted
        exact absurd ⟨items, pieces, split, all.imp fun _ _ => Matches.of_unsigned⟩ unlisted
    · have rejects := (refuses cpuset).mpr refused
      exact ⟨⟨none, rejects⟩, fun items listed => absurd ⟨items, listed⟩ unlisted, fun _ => rejects⟩

/-- A range to the largest `int` does not end, and a range without its upper end is read as a number. -/
theorem not_followsGrammar :
    (∀ signed, ¬FollowsGrammar signed "0-2147483647") ∧ ∀ signed, ¬FollowsGrammar signed "1-" := by
  constructor
  · intro signed follows
    obtain ⟨⟨outcome, returns⟩, -, -⟩ := follows []
    have read : readLine "0-2147483647".toList = some (.range 0 INT_MAX) := by decide
    exact not_returns_cons_endless read rfl [] [] returns
  · intro signed follows
    have read : readLine "1-".toList = some (.single 1) := by decide
    have unlisted : ¬∃ items, Listed signed "1-".toList items := by
      rintro ⟨items, pieces, split, all⟩
      have whole : pieces = ["1-".toList] := by
        rw [← Listed.lines_eq all, ← split]
        decide
      subst whole
      obtain ⟨item, _, here, -, -⟩ := List.forall₂_cons_left_iff.mp all
      rcases here.sign with plain | refused
      · cases plain.readLine.symm.trans read
        have one := (Number.lines_minus plain).1
        exact absurd one (by decide)
      · cases read.symm.trans refused
    have accepted : Returns (fun fuel => parseCpuset fuel "1-" []) (some [1]) := by
      refine returns_some_iff.mpr ⟨[.single 1], ?_, rfl⟩
      exact .cons ⟨read, fun endless => endless.elim⟩ .nil
    cases accepted.unique ((follows []).2.2 unlisted)

end Cpuset

end CyberRT
