import CyberRT.Record.ViewerRuns

namespace CyberRT.Record
open Loop Sweep

namespace RecordViewer
open RecordReader (Stands)

variable {pb : Protobuf}

/-- A reader that comes to the end of every window, also after other windows and after resets. -/
def Serves (pb : Protobuf) (r : RecordReader) : Prop :=
  ∃ P : RecordReader → Prop, P r ∧ ∀ r', P r' → P r'.reset ∧
    ∀ beginTime endTime, beginTime ≤ endTime → ∀ buffer, ∃ result,
      Returns (fun fuel => readWindow pb beginTime endTime fuel (r', buffer)) result ∧ P result.1

theorem Serves.reset {r : RecordReader} (serves : Serves pb r) : Serves pb r.reset := by
  obtain ⟨P, here, closed⟩ := serves
  exact ⟨P, (closed r here).1, closed⟩

theorem Serves.window {r : RecordReader} (serves : Serves pb r) {beginTime endTime : Nat} (le : beginTime ≤ endTime)
    (buffer : List SingleMessage) : ∃ result,
      Returns (fun fuel => readWindow pb beginTime endTime fuel (r, buffer)) result ∧ Serves pb result.1 := by
  obtain ⟨P, here, closed⟩ := serves
  obtain ⟨result, returns, after⟩ := (closed r here).2 beginTime endTime le buffer
  exact ⟨result, returns, P, after, closed⟩

theorem readWindow_behind {r : RecordReader} {beginTime endTime : Nat} (behind : r.header.endTime < beginTime)
    (buffer : List SingleMessage) :
    Returns (fun fuel => readWindow pb beginTime endTime fuel (r, buffer)) (r, buffer) := by
  have loop : Ends (readWindowRound pb beginTime endTime) (r, buffer) (r, buffer) := by
    refine .last (.of_eq fun fuel => ?_)
    unfold readWindowRound RecordReader.readMessage
    dsimp only
    split
    · rfl
    · rw [if_pos (.inl behind)]
      rfl
  exact loop.returns

/-- A reader of a complete file does, whatever times the header of the file holds. -/
theorem serves_of_over {r : RecordReader} {items : List Item} (complete : r.Over pb items) : Serves pb r.reset := by
  refine ⟨fun r' => r'.reset = r.reset ∧ ∃ messages, Stands pb r' messages, ⟨rfl, _, complete.stands⟩, ?_⟩
  rintro r' ⟨same, messages, stands⟩
  have valid := (RecordReader.header_of_reset same).2.trans complete.valid
  have small := complete.small
  rw [← RecordReader.bytes_of_reset same] at small
  refine ⟨⟨same, _, same ▸ complete.stands⟩, fun beginTime endTime le buffer => ?_⟩
  by_cases behind : r'.header.endTime < beginTime
  · exact ⟨_, readWindow_behind behind buffer, same, messages, stands⟩
  · by_cases outside : endTime < r'.header.beginTime
    · exact ⟨_, readWindow_outside outside buffer, same, messages, stands⟩
    · obtain ⟨r'', returns, same', stands'⟩ :=
        readWindow_spec valid small (not_lt.mp behind) (not_lt.mp outside) le stands buffer
      exact ⟨_, returns, same'.trans same, _, stands'⟩

theorem readReaders_serve {beginTime endTime : Nat} (le : beginTime ≤ endTime) {items : List (RecordReader × Bool)}
    (serve : ∀ item ∈ items, Serves pb item.1) (buffer : List SingleMessage) : ∃ result,
      Returns (fun fuel => readReaders pb beginTime endTime fuel items buffer) result ∧
      ∀ item ∈ result.1, Serves pb item.1 := by
  induction items generalizing buffer with
  | nil => exact ⟨([], buffer), .of_eq fun _ => rfl, by simp⟩
  | cons item items ih =>
    obtain ⟨r, finished⟩ := item
    obtain ⟨here, later⟩ := List.forall_mem_cons.mp serve
    cases finished with
    | true =>
      obtain ⟨result, returns, after⟩ := ih later buffer
      exact ⟨_, returns.map fun s => ((r, true) :: s.1, s.2), List.forall_mem_cons.mpr ⟨here, after⟩⟩
    | false =>
      obtain ⟨⟨r', buffer'⟩, window, here'⟩ := here.window le buffer
      obtain ⟨result, returns, after⟩ := ih later buffer'
      exact ⟨_, window.bind (returns.map fun s => ((r', false) :: s.1, s.2)), List.forall_mem_cons.mpr ⟨here', after⟩⟩

theorem finish_serves (beginTime : Nat) {items : List (RecordReader × Bool)}
    (serve : ∀ item ∈ items, Serves pb item.1) : ∀ item ∈ items.map (finish beginTime), Serves pb item.1 := by
  intro item member
  obtain ⟨before, inside, rfl⟩ := List.mem_map.mp member
  unfold finish
  split
  · exact (serve before inside).reset
  · exact serve before inside

/-- A viewer, whether its `FillBuffer` is at work, and the windows that it has asked of the readers. -/
structure Use where
  viewer : RecordViewer
  filling : Bool
  windows : List (Nat × Nat)

/-- `FillBuffer` goes on or ends, `Update` takes the first message or, if there is none, calls `FillBuffer`. -/
inductive Step (pb : Protobuf) : Use → Use → Prop
  | asks {v v' : RecordViewer} {ws : List (Nat × Nat)} : Returns (fun fuel => fillRound pb fuel v) (.inl v') →
      Step pb ⟨v, true, ws⟩ ⟨v', true, ws ++ [(v.currBeginTime, v.thisEndTime)]⟩
  | stops {v v' : RecordViewer} {found : Bool} {ws : List (Nat × Nat)} :
      Returns (fun fuel => fillRound pb fuel v) (.inr (found, v')) → Step pb ⟨v, true, ws⟩ ⟨v', false, ws⟩
  | takes {v : RecordViewer} {message : SingleMessage} {buffer : List SingleMessage} {ws : List (Nat × Nat)} :
      v.msgBuffer = message :: buffer → Step pb ⟨v, false, ws⟩ ⟨{ v with msgBuffer := buffer }, false, ws⟩
  | calls {v : RecordViewer} {ws : List (Nat × Nat)} : v.msgBuffer = [] → Step pb ⟨v, false, ws⟩ ⟨v, true, ws⟩

/-- What comes after `Reset`. -/
abbrev Run (pb : Protobuf) (v : RecordViewer) : Use → Prop :=
  Relation.ReflTransGen (Step pb) ⟨v.reset, false, []⟩

/-- `FillBuffer` is about to return false. -/
def Exhausted (pb : Protobuf) (s : Use) : Prop :=
  s.filling = true ∧ Returns (fun fuel => fillRound pb fuel s.viewer) (.inr (false, s.viewer))

/-- The windows of a viewer advance through its range to the end. -/
structure Advances (pb : Protobuf) (v : RecordViewer) : Prop where
  terminates : ∀ s, Run pb v s → ∃ result, Returns (fun fuel => s.viewer.fillBuffer pb fuel) result
  nonempty : ∀ s, Run pb v s → ∀ w ∈ s.windows, w.1 ≤ w.2
  disjoint : ∀ s, Run pb v s → s.windows.Pairwise fun w w' => ∀ t, ¬((w.1 ≤ t ∧ t ≤ w.2) ∧ w'.1 ≤ t ∧ t ≤ w'.2)
  covers : ∀ s, Run pb v s → Exhausted pb s → ∀ t, v.beginTime ≤ t → t ≤ v.endTime →
    ∃ w ∈ s.windows, w.1 ≤ t ∧ t ≤ w.2
  exhausts : ∃ s, Run pb v s ∧ Exhausted pb s
  advances : ∀ s s', Run pb v s → Step pb s s' → s.viewer.currBeginTime ≤ s'.viewer.currBeginTime

/-- The range is empty, or the end of its last window and the time behind it are times. -/
def Fits (beginTime endTime : Nat) : Prop :=
  endTime < beginTime ∨ endTime + 1 < 2 ^ 64 ∧
    beginTime + (endTime - beginTime) / (kStepTimeNanoSec + 1) * (kStepTimeNanoSec + 1) + kStepTimeNanoSec < 2 ^ 64

instance (beginTime endTime : Nat) : Decidable (Fits beginTime endTime) :=
  inferInstanceAs (Decidable (_ ∨ _))

variable {v v' : RecordViewer} {s s' : Use}

theorem fillRound_next (returns : Returns (fun fuel => fillRound pb fuel v) (.inl v')) :
    v.currBeginTime ≤ v.endTime ∧ v'.endTime = v.endTime ∧ v'.currBeginTime = (v.thisEndTime + 1) % 2 ^ 64 := by
  obtain ⟨n, returns⟩ := returns
  have here := returns n le_rfl
  unfold fillRound at here
  split at here
  · rename_i goes
    obtain ⟨result, _, same⟩ := Option.map_eq_some_iff.mp here
    cases same
    exact ⟨goes.1, rfl, rfl⟩
  · cases here

theorem fillRound_last {found : Bool} (returns : Returns (fun fuel => fillRound pb fuel v) (.inr (found, v'))) :
    v' = v ∧ found = !v.msgBuffer.isEmpty ∧ ¬(v.currBeginTime ≤ v.endTime ∧ v.msgBuffer.length < kBufferMinSize) := by
  obtain ⟨n, returns⟩ := returns
  have here := returns n le_rfl
  unfold fillRound at here
  split at here
  · obtain ⟨result, _, same⟩ := Option.map_eq_some_iff.mp here
    cases same
  · rename_i ended
    cases here
    exact ⟨rfl, rfl, ended⟩

theorem fillRound_ended (ended : ¬(v.currBeginTime ≤ v.endTime ∧ v.msgBuffer.length < kBufferMinSize)) :
    Returns (fun fuel => fillRound pb fuel v) (.inr (!v.msgBuffer.isEmpty, v)) :=
  .of_eq fun _ => if_neg ended

/-- Nothing is left behind the end of the range. -/
theorem exhausted_iff : Exhausted pb s ↔
    s.filling = true ∧ s.viewer.msgBuffer = [] ∧ s.viewer.endTime < s.viewer.currBeginTime := by
  refine and_congr_right fun _ => ⟨fun returns => ?_, ?_⟩
  · obtain ⟨_, empty, ended⟩ := fillRound_last returns
    have none_ : s.viewer.msgBuffer = [] := by simpa using empty
    rw [none_] at ended
    refine ⟨none_, not_le.mp fun within => ended ⟨within, by decide⟩⟩
  · rintro ⟨none_, behind⟩
    have ended : Returns (fun fuel => fillRound pb fuel s.viewer) _ := fillRound_ended (by omega)
    rwa [none_] at ended

theorem thisEndTime_of_lt (small : v.currBeginTime + kStepTimeNanoSec < 2 ^ 64) :
    v.thisEndTime = min (v.currBeginTime + kStepTimeNanoSec) v.endTime := by
  unfold thisEndTime
  rw [Nat.mod_eq_of_lt small]
  dsimp only
  split <;> omega

/-- If the addition wraps, the window ends before it begins. -/
theorem thisEndTime_of_le (wraps : 2 ^ 64 ≤ v.currBeginTime + kStepTimeNanoSec) (within : v.currBeginTime ≤ v.endTime)
    (small : v.endTime < 2 ^ 64) : v.thisEndTime < v.currBeginTime := by
  have step : kStepTimeNanoSec = 1000000000 := rfl
  have sum : (v.currBeginTime + kStepTimeNanoSec) % 2 ^ 64 = v.currBeginTime + kStepTimeNanoSec - 2 ^ 64 := by
    rw [Nat.mod_eq_sub_mod wraps, Nat.mod_eq_of_lt (by omega)]
  unfold thisEndTime
  rw [sum]
  dsimp only
  split <;> omega

/-- A time at which a window begins. -/
def OnGrid (beginTime time : Nat) : Prop :=
  ∃ k, time = beginTime + k * (kStepTimeNanoSec + 1)

theorem OnGrid.next {beginTime time : Nat} (here : OnGrid beginTime time) :
    OnGrid beginTime (time + kStepTimeNanoSec + 1) := by
  obtain ⟨k, rfl⟩ := here
  exact ⟨k + 1, by rw [Nat.add_mul, Nat.one_mul, ← Nat.add_assoc, ← Nat.add_assoc]⟩

/-- No window begins after the last one. -/
theorem Fits.small {beginTime endTime time : Nat} (fits : Fits beginTime endTime) (here : OnGrid beginTime time)
    (within : time ≤ endTime) : endTime + 1 < 2 ^ 64 ∧ time + kStepTimeNanoSec < 2 ^ 64 := by
  obtain ⟨k, rfl⟩ := here
  rcases fits with none_ | ⟨last, fits⟩
  · omega
  · have before : k ≤ (endTime - beginTime) / (kStepTimeNanoSec + 1) :=
      (Nat.le_div_iff_mul_le (by omega)).mpr (by omega)
    have begins := Nat.mul_le_mul_right (kStepTimeNanoSec + 1) before
    exact ⟨last, by omega⟩

/-- The window at whose end the range ends is the last one. -/
theorem fits_of_last {beginTime endTime time : Nat} (here : OnGrid beginTime time) (within : time ≤ endTime)
    (ends : endTime ≤ time + kStepTimeNanoSec) (small : time + kStepTimeNanoSec < 2 ^ 64)
    (last : endTime + 1 < 2 ^ 64) : Fits beginTime endTime := by
  obtain ⟨k, rfl⟩ := here
  have index : (endTime - beginTime) / (kStepTimeNanoSec + 1) = k := by
    refine Nat.div_eq_of_lt_le (by omega) ?_
    rw [Nat.add_mul, Nat.one_mul]
    omega
  exact .inr ⟨last, by rwa [index]⟩

theorem endTime_of_run (run : Run pb v s) : s.viewer.endTime = v.endTime := by
  induction run with
  | refl => rfl
  | tail _ step ih =>
    cases step with
    | asks returns => exact (fillRound_next returns).2.1.trans ih
    | stops returns =>
      obtain ⟨rfl, _⟩ := fillRound_last returns
      exact ih
    | takes _ => exact ih
    | calls _ => exact ih

/-- As long as the windows advance, they begin on the grid, until the last of them is known to fit. -/
theorem Advances.onGrid (advances : Advances pb v) (small : v.endTime < 2 ^ 64) (within : v.beginTime ≤ v.endTime)
    (run : Run pb v s) : (OnGrid v.beginTime s.viewer.currBeginTime ∧ s.viewer.currBeginTime ≤ v.endTime) ∨
      Fits v.beginTime v.endTime := by
  induction run with
  | refl => exact .inl ⟨⟨0, by rw [Nat.zero_mul]; rfl⟩, within⟩
  | @tail s s' run step ih =>
    rcases ih with ⟨here, inside⟩ | fits
    · have forward := advances.advances s s' run step
      have windows := advances.nonempty s' (run.tail step)
      cases step with
      | @asks u u' ws returns =>
        obtain ⟨_, _, next⟩ := fillRound_next returns
        have range : u.endTime = v.endTime := endTime_of_run run
        have window := windows (u.currBeginTime, u.thisEndTime) (List.mem_append_right _ (List.mem_singleton_self _))
        dsimp only at here inside forward window ⊢
        by_cases wraps : 2 ^ 64 ≤ u.currBeginTime + kStepTimeNanoSec
        · have back := thisEndTime_of_le wraps (by omega) (by omega)
          omega
        · have ends := thisEndTime_of_lt (not_le.mp wraps)
          by_cases last : v.endTime ≤ u.currBeginTime + kStepTimeNanoSec
          · refine .inr (fits_of_last here inside last (not_le.mp wraps) ?_)
            -- Else the time behind the range would be zero.
            by_contra wrapped
            have none_ : u.thisEndTime + 1 = 2 ^ 64 := by omega
            rw [next, none_, Nat.mod_self] at forward
            have step : kStepTimeNanoSec = 1000000000 := rfl
            omega
          · have goes : u'.currBeginTime = u.currBeginTime + kStepTimeNanoSec + 1 := by
              rw [next, ends, Nat.mod_eq_of_lt (by omega)]
              omega
            exact .inl ⟨goes ▸ here.next, by omega⟩
      | stops returns =>
        obtain ⟨rfl, _⟩ := fillRound_last returns
        exact .inl ⟨here, inside⟩
      | takes _ => exact .inl ⟨here, inside⟩
      | calls _ => exact .inl ⟨here, inside⟩
    · exact .inr fits

theorem Advances.fits (advances : Advances pb v) (small : v.endTime < 2 ^ 64) : Fits v.beginTime v.endTime := by
  by_cases within : v.beginTime ≤ v.endTime
  · obtain ⟨s, run, exhausted⟩ := advances.exhausts
    rcases advances.onGrid small within run with ⟨_, inside⟩ | fits
    · obtain ⟨_, _, behind⟩ := exhausted_iff.mp exhausted
      rw [endTime_of_run run] at behind
      omega
    · exact fits
  · exact .inl (not_le.mp within)

/-- The windows lie one after the other from the begin of the range on. -/
structure Sweeps (pb : Protobuf) (v : RecordViewer) (s : Use) : Prop where
  range : s.viewer.endTime = v.endTime
  chain : Chain v.beginTime s.windows s.viewer.currBeginTime
  grid : s.viewer.currBeginTime ≤ v.endTime → OnGrid v.beginTime s.viewer.currBeginTime
  serve : ∀ item ∈ s.viewer.readers, Serves pb item.1

variable {ws : List (Nat × Nat)} {filling filling' : Bool}

/-- A window is asked of the readers. -/
theorem Sweeps.round (sweeps : Sweeps pb v ⟨v', filling, ws⟩) (fits : Fits v.beginTime v.endTime)
    (goes : v'.currBeginTime ≤ v'.endTime ∧ v'.msgBuffer.length < kBufferMinSize) : ∃ next,
      Returns (fun fuel => fillRound pb fuel v') (.inl next) ∧ v'.currBeginTime < next.currBeginTime ∧
      Sweeps pb v ⟨next, true, ws ++ [(v'.currBeginTime, v'.thisEndTime)]⟩ := by
  obtain ⟨range, chain, grid, serve⟩ := sweeps
  dsimp only at range chain grid serve
  have within : v'.currBeginTime ≤ v.endTime := range ▸ goes.1
  obtain ⟨last, small⟩ := fits.small (grid within) within
  have ends := thisEndTime_of_lt small
  have forward : v'.currBeginTime ≤ v'.thisEndTime := by omega
  have behind : (v'.thisEndTime + 1) % 2 ^ 64 = v'.thisEndTime + 1 := Nat.mod_eq_of_lt (by omega)
  obtain ⟨⟨readers, buffer⟩, returns, serve'⟩ :=
    readReaders_serve forward (finish_serves v'.currBeginTime serve) v'.msgBuffer
  have round : Returns (fun fuel => fillRound pb fuel v') (.inl { v' with
      readers := readers, msgBuffer := buffer, currBeginTime := v'.thisEndTime + 1 }) := by
    simp only [fillRound, if_pos goes, behind]
    exact returns.map fun s => (.inl { v' with
      readers := s.1, msgBuffer := s.2, currBeginTime := v'.thisEndTime + 1 } : RecordViewer ⊕ Bool × RecordViewer)
  refine ⟨_, round, Nat.lt_succ_of_le forward, range, chain.next forward, fun inside => ?_, serve'⟩
  have here := (grid within).next
  dsimp only at inside ⊢
  rwa [show v'.thisEndTime = v'.currBeginTime + kStepTimeNanoSec by omega]

/-- The viewer is left as it is but for its messages. -/
theorem Sweeps.keep (sweeps : Sweeps pb v ⟨v', filling, ws⟩) (buffer : List SingleMessage) :
    Sweeps pb v ⟨{ v' with msgBuffer := buffer }, filling', ws⟩ :=
  ⟨sweeps.range, sweeps.chain, sweeps.grid, sweeps.serve⟩

theorem Sweeps.step (sweeps : Sweeps pb v s) (fits : Fits v.beginTime v.endTime) (step : Step pb s s') :
    Sweeps pb v s' ∧ s.viewer.currBeginTime ≤ s'.viewer.currBeginTime := by
  cases step with
  | @asks u u' ws returns =>
    by_cases goes : u.currBeginTime ≤ u.endTime ∧ u.msgBuffer.length < kBufferMinSize
    · obtain ⟨next, returns', forward, sweeps'⟩ := sweeps.round fits goes
      obtain rfl := Sum.inl.inj (returns.unique returns')
      exact ⟨sweeps', forward.le⟩
    · have same := returns.unique (fillRound_ended goes)
      cases same
  | stops returns =>
    obtain ⟨rfl, _⟩ := fillRound_last returns
    exact ⟨sweeps.keep _, le_rfl⟩
  | takes _ => exact ⟨sweeps.keep _, le_rfl⟩
  | calls _ => exact ⟨sweeps.keep _, le_rfl⟩

theorem sweeps_run (fits : Fits v.beginTime v.endTime) (serve : ∀ item ∈ v.readers, Serves pb item.1.reset)
    (run : Run pb v s) : Sweeps pb v s := by
  induction run with
  | refl =>
    refine ⟨rfl, .start, fun _ => ⟨0, by rw [Nat.zero_mul]; rfl⟩, fun item member => ?_⟩
    obtain ⟨before, inside, rfl⟩ := List.mem_map.mp member
    exact serve before inside
  | tail _ step ih => exact (ih.step fits step).1

/-- Every call of `FillBuffer` ends, as each of its rounds takes the viewer further. -/
theorem Sweeps.terminates (sweeps : Sweeps pb v ⟨v', filling, ws⟩) (fits : Fits v.beginTime v.endTime) :
    ∃ result, Returns (fun fuel => v'.fillBuffer pb fuel) result := by
  suffices loop : ∃ result, Ends (fillRound pb) v' result by
    obtain ⟨result, ends⟩ := loop
    exact ⟨result, ends.returns⟩
  induction distance : v.endTime + 1 - v'.currBeginTime using Nat.strong_induction_on generalizing v' filling ws with
  | _ n ih =>
    by_cases goes : v'.currBeginTime ≤ v'.endTime ∧ v'.msgBuffer.length < kBufferMinSize
    · obtain ⟨next, round, forward, sweeps'⟩ := sweeps.round fits goes
      have range : v'.endTime = v.endTime := sweeps.range
      obtain ⟨result, ends⟩ := ih _ (by omega) sweeps' rfl
      exact ⟨result, .next round ends⟩
    · exact ⟨_, .last (fillRound_ended goes)⟩

/-- The messages that are in the buffer can be taken. -/
theorem run_drains (run : Run pb v ⟨v', false, ws⟩) :
    Run pb v ⟨{ v' with msgBuffer := [] }, true, ws⟩ := by
  induction buffer : v'.msgBuffer generalizing v' with
  | nil =>
    have same : { v' with msgBuffer := [] } = v' := by rw [← buffer]
    rw [same]
    exact run.tail (.calls buffer)
  | cons message rest ih =>
    have taken : Run pb v ⟨{ v' with msgBuffer := rest }, false, ws⟩ := run.tail (.takes buffer)
    have drained := ih taken rfl
    exact drained

/-- After the windows that are left, nothing is. -/
theorem exhausts_of_run (fits : Fits v.beginTime v.endTime) (serve : ∀ item ∈ v.readers, Serves pb item.1.reset)
    (run : Run pb v ⟨v', true, ws⟩) : ∃ s, Run pb v s ∧ Exhausted pb s := by
  induction distance : v.endTime + 1 - v'.currBeginTime using Nat.strong_induction_on generalizing v' ws with
  | _ n ih =>
    -- The window that comes next, from a viewer whose buffer has room.
    have further : ∀ {v'}, Run pb v ⟨v', true, ws⟩ → v.endTime + 1 - v'.currBeginTime = n →
        v'.currBeginTime ≤ v'.endTime ∧ v'.msgBuffer.length < kBufferMinSize → ∃ s, Run pb v s ∧ Exhausted pb s := by
      intro v' run distance goes
      obtain ⟨next, round, forward, _⟩ := (sweeps_run fits serve run).round fits goes
      have range : v'.endTime = v.endTime := endTime_of_run run
      exact ih _ (by omega) (run.tail (.asks round)) rfl
    by_cases goes : v'.currBeginTime ≤ v'.endTime ∧ v'.msgBuffer.length < kBufferMinSize
    · exact further run distance goes
    · have drained := run_drains (run.tail (.stops (fillRound_ended goes)))
      by_cases within : v'.currBeginTime ≤ v'.endTime
      · exact further drained distance ⟨within, Nat.zero_lt_succ _⟩
      · exact ⟨_, drained, exhausted_iff.mpr ⟨rfl, rfl, not_le.mp within⟩⟩

theorem Fits.advances (fits : Fits v.beginTime v.endTime) (serve : ∀ item ∈ v.readers, Serves pb item.1.reset) :
    Advances pb v where
  terminates _ run := (sweeps_run fits serve run).terminates fits
  nonempty _ run w member := ((sweeps_run fits serve run).chain.bounds w member).1
  disjoint _ run := (sweeps_run fits serve run).chain.apart.imp fun apart _ => by omega
  covers s run exhausted t first last := by
    obtain ⟨_, _, behind⟩ := exhausted_iff.mp exhausted
    have sweeps := sweeps_run fits serve run
    rw [sweeps.range] at behind
    exact sweeps.chain.covers first (by omega)
  exhausts := exhausts_of_run fits serve (run_drains .refl)
  advances _ _ run step := ((sweeps_run fits serve run).step fits step).2

theorem minBeginTime_order (readers : List RecordReader) : minBeginTime (order readers) = minBeginTime readers := by
  have comm : RightCommutative fun (time : Nat) (r : RecordReader) =>
      if r.isValid then (if time > r.header.beginTime then r.header.beginTime else time) else time := by
    refine ⟨fun time r r' => ?_⟩
    split_ifs <;> omega
  exact (order_perm readers).foldl_eq _

theorem maxEndTime_order (readers : List RecordReader) : maxEndTime (order readers) = maxEndTime readers := by
  have comm : RightCommutative fun (time : Nat) (r : RecordReader) =>
      if r.isValid then (if time < r.header.endTime then r.header.endTime else time) else time := by
    refine ⟨fun time r r' => ?_⟩
    split_ifs <;> omega
  exact (order_perm readers).foldl_eq _

/-- The windows advance through the range that was asked for, cut to the times of the files, if it fits. -/
theorem advances_iff {readers : List RecordReader} (serve : ∀ r ∈ readers, Serves pb r.reset) (beginTime : Nat)
    {endTime : Nat} (small : endTime < 2 ^ 64) (channels : List String) :
    Advances pb (create readers beginTime endTime channels) ↔
      Fits (max beginTime (minBeginTime readers)) (min endTime (maxEndTime readers)) := by
  obtain ⟨begins, ends⟩ := create_times readers beginTime endTime channels
  rw [minBeginTime_order] at begins
  rw [maxEndTime_order] at ends
  rw [← begins, ← ends]
  refine ⟨fun advances => advances.fits (by omega), fun fits => fits.advances fun item member => ?_⟩
  rw [create_readers] at member
  obtain ⟨r, inOrder, rfl⟩ := List.mem_map.mp member
  exact serve r ((order_perm readers).subset inOrder)

theorem advances_two_files :
    Advances twoFilesProtobuf (create [readerFrom 2000000000, readerFrom 1000000000] 0 3000000000 ["a"]) := by
  have serve : ∀ r ∈ [readerFrom 2000000000, readerFrom 1000000000], Serves twoFilesProtobuf r.reset := by
    intro r member
    have each : r = readerFrom 2000000000 ∨ r = readerFrom 1000000000 := by simpa using member
    rcases each with rfl | rfl
    · exact serves_of_over (readerFrom_over (.inr rfl))
    · exact serves_of_over (readerFrom_over (.inl rfl))
  exact (advances_iff serve 0 (by decide) ["a"]).mpr (by decide +kernel)

/-- The chunk of a file whose only message has the last time there is. -/
def lastChunk : Chunk :=
  Chunk.clear.add ⟨"a", 2 ^ 64 - 1, [1]⟩

def lastHeader : Header :=
  { Header.empty with beginTime := 2 ^ 64 - 1, endTime := 2 ^ 64 - 1, isComplete := true }

def lastIndex : Index :=
  ⟨Content.entries (Wire.protobuf .none) (fun _ => 1) (sizeofSection + HEADER_LENGTH)
    (Item.contents (.chunk lastChunk))⟩

def lastProtobuf : Protobuf :=
  Wire.protobuf ⟨[], [lastChunk.header], [lastChunk.body], [lastIndex], []⟩

def lastSections : List Content :=
  [.chunkHeader lastChunk.header, .chunkBody lastChunk.body, .index lastIndex]

def lastReader : RecordReader :=
  ⟨true, lastHeader,
    ⟨⟨RecordFileWriter.headerArea lastProtobuf lastHeader ++ lastSections.flatMap (Content.bytes lastProtobuf), 0⟩,
      lastHeader, ⟨[]⟩, false⟩, ⟨[]⟩, 0, false⟩

theorem lastReader_over : lastReader.Over lastProtobuf [.chunk lastChunk] := by
  refine ⟨rfl, RecordFileWriter.headerArea_length (Wire.header_length _), ⟨lastIndex, rfl, fun content member => ?_⟩,
    by decide +kernel, fun chunk member => ?_⟩
  · have member : content ∈ lastSections := member
    simp only [lastSections, List.mem_cons, List.not_mem_nil, or_false] at member
    rcases member with rfl | rfl | rfl
    · exact ⟨⟨by decide +kernel, by decide +kernel⟩, by decide +kernel⟩
    · exact ⟨⟨by decide +kernel, by decide +kernel⟩, by decide +kernel⟩
    · exact ⟨by decide +kernel, by decide +kernel⟩
  · obtain ⟨rfl⟩ := List.mem_singleton.mp member
    exact ⟨by decide, ⟨by decide, fun _ => ⟨_, List.mem_cons_self, rfl⟩, fun _ => ⟨_, List.mem_cons_self, rfl⟩⟩⟩

/-- The end of the only window wraps, and the viewer is taken back. -/
theorem not_advances : lastReader.Over lastProtobuf [.chunk lastChunk] ∧
    (create [lastReader] 0 (2 ^ 64 - 1) []).currBeginTime = 2 ^ 64 - 1 ∧
    (create [lastReader] 0 (2 ^ 64 - 1) []).thisEndTime = 999999999 ∧
    ¬Advances lastProtobuf (create [lastReader] 0 (2 ^ 64 - 1) []) := by
  have begins : (create [lastReader] 0 (2 ^ 64 - 1) []).beginTime = 2 ^ 64 - 1 := by decide +kernel
  have ends : (create [lastReader] 0 (2 ^ 64 - 1) []).endTime = 2 ^ 64 - 1 := by decide +kernel
  refine ⟨lastReader_over, by decide +kernel, by decide +kernel, fun advances => ?_⟩
  have fits := advances.fits (by rw [ends]; decide)
  rw [begins, ends] at fits
  exact absurd fits (by decide)

end RecordViewer

end CyberRT.Record
