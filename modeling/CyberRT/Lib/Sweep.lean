import Mathlib.Data.List.Perm.Basic
import Mathlib.Data.List.TakeWhile
import Mathlib.Order.Lattice
import Mathlib.Order.Nat

namespace Sweep
universe u

variable {α : Type u} (time : α → Nat)

/-- What a window takes from the front of a queue: items before the window are dropped, and the first one after it
ends the reading. -/
def out (first last : Nat) (queue : List α) : List α :=
  (queue.takeWhile fun x => time x ≤ last).filter fun x => first ≤ time x

/-- What a window leaves of a queue. -/
def left (last : Nat) (queue : List α) : List α :=
  queue.dropWhile fun x => time x ≤ last

/-- A queue with the times between which all its items lie. It is done when a window has begun after the last of them.
-/
structure Track (α : Type u) where
  first : Nat
  last : Nat
  items : List α
  queue : List α
  done : Bool

namespace Track

/-- A window reads from a track unless it is done or the window ends before it begins. -/
def reads (b e : Nat) (t : Track α) : Prop :=
  t.done = false ∧ b ≤ t.last ∧ t.first ≤ e

instance (b e : Nat) (t : Track α) : Decidable (t.reads b e) :=
  inferInstanceAs (Decidable (_ ∧ _))

def out (b e : Nat) (t : Track α) : List α :=
  if t.reads b e then Sweep.out time b e t.queue else []

def after (b e : Nat) (t : Track α) : Track α :=
  { t with
    done := t.done || decide (t.last < b)
    queue := if t.reads b e then left time e t.queue else t.queue }

end Track

/-- The windows from a time on, of a length each and up to the end, with what they take from the tracks. -/
inductive Windows (length last : Nat) : Nat → List (Track α) → List (List α) → Prop
  | done {b : Nat} {tracks : List (Track α)} : last < b → Windows length last b tracks []
  | next {b : Nat} {tracks : List (Track α)} {ws : List (List α)} : b ≤ last →
      Windows length last (min (b + length) last + 1) (tracks.map (Track.after time b (min (b + length) last))) ws →
      Windows length last b tracks (tracks.flatMap (Track.out time b (min (b + length) last)) :: ws)

variable {time} {length last b : Nat} {tracks : List (Track α)} {ws : List (List α)}

theorem windows_exist (length last b : Nat) (tracks : List (Track α)) : ∃ ws, Windows time length last b tracks ws := by
  induction h : last + 1 - b using Nat.strong_induction_on generalizing b tracks with
  | _ n ih =>
    by_cases ended : last < b
    · exact ⟨[], .done ended⟩
    · obtain ⟨ws, windows⟩ := ih (last + 1 - (min (b + length) last + 1)) (by omega)
        (min (b + length) last + 1) (tracks.map (Track.after time b (min (b + length) last))) rfl
      exact ⟨_, .next (not_lt.mp ended) windows⟩

theorem mem_out {x : α} {b e : Nat} {queue : List α} (member : x ∈ out time b e queue) :
    x ∈ queue ∧ b ≤ time x ∧ time x ≤ e := by
  obtain ⟨taken, late⟩ := List.mem_filter.mp member
  exact ⟨(List.takeWhile_prefix _).subset taken, by simpa using late, by simpa using List.mem_takeWhile_imp taken⟩

theorem out_late {first last : Nat} {x : α} {queue : List α} (late : last < time x) :
    out time first last (x :: queue) = [] ∧ left time last (x :: queue) = x :: queue := by
  have stops : decide (time x ≤ last) = false := by simpa using late
  simp only [out, left, List.takeWhile_cons, List.dropWhile_cons, stops, Bool.false_eq_true, if_false, List.filter_nil,
    and_self]

theorem out_early {first last : Nat} {x : α} {queue : List α} (early : time x < first) (within : time x ≤ last) :
    out time first last (x :: queue) = out time first last queue ∧
      left time last (x :: queue) = left time last queue := by
  have goes : decide (time x ≤ last) = true := by simpa using within
  have drops : decide (first ≤ time x) = false := by simpa using early
  simp only [out, left, List.takeWhile_cons, List.dropWhile_cons, goes, drops, if_true, List.filter_cons,
    Bool.false_eq_true, if_false, and_self]

theorem out_within {first last : Nat} {x : α} {queue : List α} (after : first ≤ time x) (within : time x ≤ last) :
    out time first last (x :: queue) = x :: out time first last queue ∧
      left time last (x :: queue) = left time last queue := by
  have goes : decide (time x ≤ last) = true := by simpa using within
  have keeps : decide (first ≤ time x) = true := by simpa using after
  simp only [out, left, List.takeWhile_cons, List.dropWhile_cons, goes, keeps, if_true, List.filter_cons, and_self]

/-- Items before the window may as well be dropped at once. -/
theorem out_dropped {first last : Nat} {dropped queue : List α} (le : first ≤ last)
    (early : ∀ x ∈ dropped, time x < first) :
    out time first last (dropped ++ queue) = out time first last queue ∧
      left time last (dropped ++ queue) = left time last queue := by
  induction dropped with
  | nil => exact ⟨rfl, rfl⟩
  | cons x dropped ih =>
    obtain ⟨here, rest⟩ := List.forall_mem_cons.mp early
    have within : time x ≤ last := by omega
    rw [List.cons_append, (out_early here within).1, (out_early here within).2]
    exact ih rest

theorem out_none {first last : Nat} {queue : List α} (late : ∀ x, queue.head? = some x → last < time x) :
    out time first last queue = [] ∧ left time last queue = queue := by
  cases queue with
  | nil => exact ⟨rfl, rfl⟩
  | cons x queue => exact out_late (late x rfl)

/-- Everything that is taken lies in the windows that are left. -/
theorem Windows.within (windows : Windows time length last b tracks ws) :
    ∀ w ∈ ws, ∀ x ∈ w, b ≤ time x ∧ time x ≤ last := by
  induction windows with
  | done _ => simp
  | @next b tracks ws le rest ih =>
    intro w member x inWindow
    rcases List.mem_cons.mp member with rfl | later
    · obtain ⟨t, _, taken⟩ := List.mem_flatMap.mp inWindow
      unfold Track.out at taken
      split at taken
      · have bounds := (mem_out taken).2
        omega
      · cases taken
    · have bounds := ih w later x inWindow
      omega

/-- Each window begins behind the end of the one before. -/
inductive Chain (b : Nat) : List (Nat × Nat) → Nat → Prop
  | start : Chain b [] b
  | next {c d : Nat} {ws : List (Nat × Nat)} : Chain b ws c → c ≤ d → Chain b (ws ++ [(c, d)]) (d + 1)

section
variable {b c : Nat} {ws : List (Nat × Nat)}

theorem Chain.le (chain : Chain b ws c) : b ≤ c := by
  induction chain with
  | start => exact le_rfl
  | next _ _ ih => omega

theorem Chain.bounds (chain : Chain b ws c) : ∀ w ∈ ws, w.1 ≤ w.2 ∧ w.2 < c := by
  induction chain with
  | start => simp
  | @next c d ws _ le ih =>
    intro w member
    rcases List.mem_append.mp member with before | last
    · have bounds := ih w before
      omega
    · obtain rfl := List.mem_singleton.mp last
      exact ⟨le, Nat.lt_succ_self _⟩

theorem Chain.apart (chain : Chain b ws c) : ws.Pairwise fun w w' => w.2 < w'.1 := by
  induction chain with
  | start => exact .nil
  | @next c d ws chain _ ih =>
    refine List.pairwise_append.mpr ⟨ih, List.pairwise_singleton _ _, fun w before w' last => ?_⟩
    obtain rfl := List.mem_singleton.mp last
    exact (chain.bounds w before).2

theorem Chain.covers (chain : Chain b ws c) {t : Nat} (first : b ≤ t) (last : t < c) :
    ∃ w ∈ ws, w.1 ≤ t ∧ t ≤ w.2 := by
  induction chain with
  | start => omega
  | @next c d ws _ _ ih =>
    by_cases before : t < c
    · obtain ⟨w, member, within⟩ := ih before
      exact ⟨w, List.mem_append_left _ member, within⟩
    · exact ⟨(c, d), by simp, by omega, by omega⟩

end

/-- The end of a window. -/
def Edge (length last b e : Nat) : Prop :=
  ∃ k, e = min (b + k * (length + 1) + length) last

/-- No item stands behind one that belongs to a later window. -/
def Graded (time : α → Nat) (length last b : Nat) (queue : List α) : Prop :=
  queue.Pairwise fun x y => ∀ e, Edge length last b e → time y ≤ e → time x ≤ e

theorem takeWhile_eq_filter {p : α → Bool} {xs : List α} (ordered : xs.Pairwise fun x y => p y = true → p x = true) :
    xs.takeWhile p = xs.filter p := by
  induction xs with
  | nil => rfl
  | cons x xs ih =>
    obtain ⟨first, rest⟩ := List.pairwise_cons.mp ordered
    by_cases here : p x = true
    · rw [List.takeWhile_cons_of_pos here, List.filter_cons_of_pos here, ih rest]
    · have none_ : xs.filter p = [] := List.filter_eq_nil_iff.mpr fun y member there => here (first y member there)
      rw [List.takeWhile_cons_of_neg here, List.filter_cons_of_neg here, none_]

theorem dropWhile_eq_filter {p : α → Bool} {xs : List α} (ordered : xs.Pairwise fun x y => p y = true → p x = true) :
    xs.dropWhile p = xs.filter fun x => !p x := by
  induction xs with
  | nil => rfl
  | cons x xs ih =>
    obtain ⟨first, rest⟩ := List.pairwise_cons.mp ordered
    by_cases here : p x = true
    · rw [List.dropWhile_cons_of_pos here, List.filter_cons_of_neg (by simp [here]), ih rest]
    · have all : xs.filter (fun x => !p x) = xs := by
        refine List.filter_eq_self.mpr fun y member => ?_
        simpa using fun there => here (first y member there)
      rw [List.dropWhile_cons_of_neg here, List.filter_cons_of_pos (by simpa using here), all]

/-- What is still to come from a track are its items from the window on. -/
structure Track.Keeps (time : α → Nat) (length last base b : Nat) (t : Track α) : Prop where
  within : ∀ x ∈ t.items, t.first ≤ time x ∧ time x ≤ t.last
  done : t.done = true → ∀ x ∈ t.items, time x < b
  queue : t.done = false → (t.queue.filter fun x => b ≤ time x) = t.items.filter fun x => b ≤ time x
  graded : Graded time length last base t.queue

/-- A window takes all items that lie in it. -/
theorem Track.Keeps.out {base e : Nat} {t : Track α} (keeps : t.Keeps time length last base b)
    (edge : Edge length last base e) : t.out time b e = t.items.filter fun x => b ≤ time x ∧ time x ≤ e := by
  unfold Track.out
  by_cases reads : t.reads b e
  · rw [if_pos reads, Sweep.out, takeWhile_eq_filter (keeps.graded.imp fun before => by simpa using before e edge),
      List.filter_filter]
    have same := congrArg (List.filter fun x => decide (time x ≤ e)) (keeps.queue reads.1)
    rw [List.filter_filter, List.filter_filter] at same
    simpa only [Bool.decide_and, Bool.and_comm] using same
  · rw [if_neg reads]
    refine (List.filter_eq_nil_iff.mpr fun x member => ?_).symm
    have bounds := keeps.within x member
    simp only [decide_eq_true_eq, not_and, not_le]
    intro late
    by_contra early
    cases done : t.done with
    | true =>
      have before := keeps.done done x member
      omega
    | false => exact reads ⟨done, by omega, by omega⟩

theorem Track.Keeps.after {base e : Nat} {t : Track α} (keeps : t.Keeps time length last base b)
    (edge : Edge length last base e) (le : b ≤ e + 1) : (t.after time b e).Keeps time length last base (e + 1) := by
  refine ⟨keeps.within, fun done x member => ?_, fun going => ?_, ?_⟩
  · have bounds := keeps.within x member
    simp only [Track.after, Bool.or_eq_true, decide_eq_true_eq] at done
    rcases done with before | now
    · have early := keeps.done before x member
      omega
    · omega
  · simp only [Track.after, Bool.or_eq_false_iff, decide_eq_false_iff_not, not_lt] at going ⊢
    have same := congrArg (List.filter fun x => decide (e + 1 ≤ time x)) (keeps.queue going.1)
    rw [List.filter_filter, List.filter_filter] at same
    have wider : ∀ xs : List α, (xs.filter fun x => decide (e + 1 ≤ time x) && decide (b ≤ time x)) =
        xs.filter fun x => decide (e + 1 ≤ time x) := by
      intro xs
      refine List.filter_congr fun x _ => ?_
      simp only [← Bool.decide_and, decide_eq_decide]
      omega
    rw [wider, wider] at same
    split
    · rw [left, dropWhile_eq_filter (keeps.graded.imp fun before => by simpa using before e edge), List.filter_filter,
        ← same]
      refine List.filter_congr fun x _ => ?_
      by_cases late : e + 1 ≤ time x
      · simp [late, show e < time x from late]
      · simp [late]
    · exact same
  · simp only [Track.after]
    split
    · exact keeps.graded.sublist (List.dropWhile_sublist _)
    · exact keeps.graded

/-- From tracks that are graded, the windows take every item in them once. -/
theorem Windows.perm {base : Nat} (windows : Windows time length last b tracks ws)
    (keeps : ∀ t ∈ tracks, t.Keeps time length last base b) (start : b ≤ last → ∃ k, b = base + k * (length + 1)) :
    ws.flatten.Perm (tracks.flatMap fun t => t.items.filter fun x => b ≤ time x ∧ time x ≤ last) := by
  induction windows with
  | @done b tracks ended =>
    have none_ : (tracks.flatMap fun t => t.items.filter fun x => decide (b ≤ time x ∧ time x ≤ last)) = [] := by
      simp only [List.flatMap_eq_nil_iff, List.filter_eq_nil_iff, decide_eq_true_eq]
      intro t _ x _
      omega
    rw [none_]
    exact .refl _
  | @next b tracks ws le rest ih =>
    obtain ⟨k, begins⟩ := start le
    have edge : Edge length last base (min (b + length) last) := ⟨k, by rw [begins]⟩
    have later := ih
      (fun t member => by
        obtain ⟨t, before, rfl⟩ := List.mem_map.mp member
        exact (keeps t before).after edge (by omega))
      (fun within => ⟨k + 1, by rw [Nat.add_mul, Nat.one_mul]; omega⟩)
    have now : tracks.flatMap (Track.out time b (min (b + length) last)) =
        tracks.flatMap fun t => t.items.filter fun x => b ≤ time x ∧ time x ≤ min (b + length) last :=
      List.flatMap_congr fun t member => (keeps t member).out edge
    rw [List.flatten_cons, now]
    refine (later.append_left _).trans ?_
    rw [List.flatMap_map]
    refine (List.flatMap_append_perm _ _ _).trans (List.Perm.flatMap_left _ fun t _ => ?_)
    -- The items up to the end are those of this window and those of the later ones.
    have split := List.filter_append_perm (fun x => decide (time x ≤ min (b + length) last))
      (t.items.filter fun x => decide (b ≤ time x ∧ time x ≤ last))
    rw [List.filter_filter, List.filter_filter] at split
    refine .trans (.of_eq (congrArg₂ (· ++ ·) ?_ ?_)) split
    · refine List.filter_congr fun x _ => ?_
      rw [← Bool.decide_and, decide_eq_decide]
      omega
    · refine List.filter_congr fun x _ => ?_
      rw [← decide_not, ← Bool.decide_and, decide_eq_decide]
      omega

/-- In which window an item belongs. -/
def window (time : α → Nat) (length b : Nat) (x : α) : Nat :=
  (time x - b) / (length + 1)

theorem graded_of_windows {queue : List α} (within : ∀ x ∈ queue, b ≤ time x ∧ time x ≤ last)
    (ordered : queue.Pairwise fun x y => window time length b x ≤ window time length b y) :
    Graded time length last b queue := by
  refine ordered.imp_of_mem fun {x y} inX inY before => ?_
  rintro e ⟨k, rfl⟩ early
  have boundsX := within x inX
  have boundsY := within y inY
  have positive : 0 < length + 1 := by omega
  have inWindow : window time length b y < k + 1 := by
    refine (Nat.div_lt_iff_lt_mul positive).mpr ?_
    rw [Nat.add_mul, Nat.one_mul]
    omega
  have inWindow' := (Nat.div_lt_iff_lt_mul positive).mp (lt_of_le_of_lt before inWindow)
  rw [Nat.add_mul, Nat.one_mul] at inWindow'
  omega

theorem length_out_add_left (first last : Nat) (queue : List α) :
    (out time first last queue).length + (left time last queue).length ≤ queue.length := by
  have taken : (out time first last queue).length ≤ (queue.takeWhile fun x => decide (time x ≤ last)).length :=
    List.length_filter_le _ _
  have split : (queue.takeWhile fun x => decide (time x ≤ last)).length + (left time last queue).length =
      queue.length := by
    rw [left, ← List.length_append, List.takeWhile_append_dropWhile]
  omega

theorem Track.length_out_add_after (b e : Nat) (t : Track α) :
    (t.out time b e).length + (t.after time b e).queue.length ≤ t.queue.length := by
  unfold Track.out Track.after
  dsimp only
  split
  · exact length_out_add_left b e t.queue
  · exact le_of_eq (Nat.zero_add _)

theorem Windows.length_le {t : Track α} (windows : Windows time length last b [t] ws) :
    ws.flatten.length ≤ t.queue.length := by
  generalize single : [t] = tracks at windows
  induction windows generalizing t with
  | done _ => exact Nat.zero_le _
  | @next b tracks ws le _ ih =>
    subst single
    have later := ih (t := t.after time b (min (b + length) last)) rfl
    have split : (t.out time b (min (b + length) last)).length +
        (t.after time b (min (b + length) last)).queue.length ≤ t.queue.length := t.length_out_add_after _ _
    simp only [List.flatten_cons, List.flatMap_cons, List.flatMap_nil, List.append_nil, List.length_append]
    omega

/-- If the windows take everything from a track that they all read from, no item stands behind one of a later window. -/
theorem Windows.ordered_of_length {t : Track α} (windows : Windows time length last b [t] ws) (going : t.done = false)
    (first : t.first ≤ b) (ends : last ≤ t.last) (all : ws.flatten.length = t.queue.length) :
    (∀ x ∈ t.queue, b ≤ time x ∧ time x ≤ last) ∧
      t.queue.Pairwise fun x y => window time length b x ≤ window time length b y := by
  generalize single : [t] = tracks at windows
  induction windows generalizing t with
  | done _ =>
    have none_ : t.queue = [] := List.length_eq_zero_iff.mp all.symm
    rw [none_]
    exact ⟨by simp, .nil⟩
  | @next b tracks ws le windows ih =>
    subst single
    have reads : t.reads b (min (b + length) last) := ⟨going, by omega, by omega⟩
    have out_ : t.out time b (min (b + length) last) = out time b (min (b + length) last) t.queue := if_pos reads
    have queue : (t.after time b (min (b + length) last)).queue = left time (min (b + length) last) t.queue :=
      if_pos reads
    have short := Windows.length_le windows
    have split : (out time b (min (b + length) last) t.queue).length +
        (left time (min (b + length) last) t.queue).length ≤ t.queue.length := length_out_add_left _ _ _
    simp only [List.flatten_cons, List.flatMap_cons, List.flatMap_nil, List.append_nil, List.length_append] at all
    rw [queue] at short
    rw [out_] at all
    obtain ⟨within, ordered⟩ := ih (t := t.after time b (min (b + length) last)) (by simp [Track.after, going]; omega)
      (by simp only [Track.after]; omega) ends (by rw [queue]; omega) rfl
    rw [queue] at within ordered
    -- Everything that the window comes to lies in it.
    have taken : (out time b (min (b + length) last) t.queue).length =
        (t.queue.takeWhile fun x => decide (time x ≤ min (b + length) last)).length := by
      have some_ : (out time b (min (b + length) last) t.queue).length ≤
          (t.queue.takeWhile fun x => decide (time x ≤ min (b + length) last)).length := List.length_filter_le _ _
      have total := congrArg List.length
        (List.takeWhile_append_dropWhile (p := fun x => decide (time x ≤ min (b + length) last)) (l := t.queue))
      rw [List.length_append] at total
      change _ + (left time (min (b + length) last) t.queue).length = _ at total
      omega
    have late := List.length_filter_eq_length_iff.mp taken
    have now : ∀ x ∈ t.queue.takeWhile fun x => decide (time x ≤ min (b + length) last),
        b ≤ time x ∧ time x ≤ min (b + length) last :=
      fun x member => ⟨by simpa using late x member, by simpa using List.mem_takeWhile_imp member⟩
    have first_window : ∀ x ∈ t.queue.takeWhile fun x => decide (time x ≤ min (b + length) last),
        window time length b x = 0 := by
      intro x member
      have bounds := now x member
      exact Nat.div_eq_of_lt (by omega)
    have later_window : ∀ x, min (b + length) last + 1 ≤ time x ∧ time x ≤ last →
        window time length b x = window time length (min (b + length) last + 1) x + 1 := by
      intro x bounds
      have distance : time x - b = (time x - (min (b + length) last + 1)) + (length + 1) := by omega
      unfold window
      rw [distance, Nat.add_div_right _ (by omega)]
    have queueSplit := List.takeWhile_append_dropWhile (p := fun x => decide (time x ≤ min (b + length) last))
      (l := t.queue)
    change _ ++ left time (min (b + length) last) t.queue = _ at queueSplit
    rw [← queueSplit]
    refine ⟨fun x member => ?_, List.pairwise_append.mpr ⟨?_, ?_, fun x inNow y inLater => ?_⟩⟩
    · rcases List.mem_append.mp member with here | later
      · have bounds := now x here
        omega
      · have bounds := within x later
        omega
    · refine List.pairwise_of_forall_mem_list fun x inNow y _ => ?_
      rw [first_window x inNow]
      exact Nat.zero_le _
    · refine ordered.imp_of_mem fun {x y} inX inY before => ?_
      rw [later_window x (within x inX), later_window y (within y inY)]
      exact Nat.succ_le_succ before
    · rw [first_window x inNow]
      exact Nat.zero_le _

end Sweep
