import CyberRT.Record.ReaderRuns
import CyberRT.Record.Viewer

namespace CyberRT.Record
open Loop Sweep

namespace RecordViewer
open RecordReader (Stands Read)

variable {pb : Protobuf} {beginTime endTime : Nat}

theorem emplace_perm (message : SingleMessage) (buffer : List SingleMessage) :
    (emplace message buffer).Perm (message :: buffer) := by
  induction buffer with
  | nil => exact .refl _
  | cons first rest ih =>
    unfold emplace
    split
    · exact .refl _
    · exact (ih.cons first).trans (.swap _ _ _)

/-- The messages are in the order of their times. -/
def Sorted (messages : List SingleMessage) : Prop :=
  messages.Pairwise fun first later => first.time ≤ later.time

theorem Sorted.emplace {buffer : List SingleMessage} (sorted : Sorted buffer) (message : SingleMessage) :
    Sorted (emplace message buffer) := by
  induction buffer with
  | nil => exact List.pairwise_singleton _ _
  | cons first rest ih =>
    obtain ⟨before, sorted⟩ := List.pairwise_cons.mp sorted
    unfold RecordViewer.emplace
    split
    · rename_i earlier
      refine List.pairwise_cons.mpr ⟨List.forall_mem_cons.mpr ⟨by omega, fun later member => ?_⟩, .cons before sorted⟩
      have bound := before later member
      omega
    · rename_i later
      refine List.pairwise_cons.mpr ⟨fun other member => ?_, ih sorted⟩
      rcases List.mem_cons.mp ((emplace_perm message rest).subset member) with rfl | old
      · omega
      · exact before other old

def emplaceAll (messages buffer : List SingleMessage) : List SingleMessage :=
  messages.foldl (fun buffer message => emplace message buffer) buffer

theorem emplaceAll_append (messages more buffer : List SingleMessage) :
    emplaceAll (messages ++ more) buffer = emplaceAll more (emplaceAll messages buffer) :=
  List.foldl_append

theorem emplaceAll_perm (messages buffer : List SingleMessage) :
    (emplaceAll messages buffer).Perm (buffer ++ messages) := by
  induction messages generalizing buffer with
  | nil => exact .of_eq (List.append_nil _).symm
  | cons message messages ih =>
    refine (ih _).trans (((emplace_perm message buffer).append_right messages).trans ?_)
    exact List.perm_middle.symm

theorem Sorted.emplaceAll {buffer : List SingleMessage} (sorted : Sorted buffer) (messages : List SingleMessage) :
    Sorted (emplaceAll messages buffer) := by
  induction messages generalizing buffer with
  | nil => exact sorted
  | cons message messages ih => exact ih (sorted.emplace message)

/-- A reader stands before the messages of a track, unless it is finished. -/
structure Tracks (pb : Protobuf) (item : RecordReader × Bool) (t : Track SingleMessage) : Prop where
  valid : item.1.isValid = true
  small : item.1.fileReader.fd.bytes.length < 2 ^ 63
  first : t.first = item.1.header.beginTime
  last : t.last = item.1.header.endTime
  done : t.done = item.2
  stands : item.2 = false → Stands pb item.1 t.queue

/-- What the loop over a window makes of the end of `ReadMessage`. -/
def afterMessage (buffer : List SingleMessage) :
    Option SingleMessage × RecordReader → RecordReader × List SingleMessage ⊕ RecordReader × List SingleMessage
  | (some message, r) => .inl (r, emplace message buffer)
  | (none, r) => .inr (r, buffer)

/-- A reader gives all that a window takes. -/
theorem readWindow_spec {r : RecordReader} (valid : r.isValid = true) (small : r.fileReader.fd.bytes.length < 2 ^ 63)
    (begins : beginTime ≤ r.header.endTime) (ends : r.header.beginTime ≤ endTime) (le : beginTime ≤ endTime)
    {messages : List SingleMessage} (stands : Stands pb r messages) (buffer : List SingleMessage) :
    ∃ r', Returns (fun fuel => readWindow pb beginTime endTime fuel (r, buffer))
        (r', emplaceAll (out SingleMessage.time beginTime endTime messages) buffer) ∧
      r'.reset = r.reset ∧ Stands pb r' (left SingleMessage.time endTime messages) := by
  suffices loop : ∃ r', Ends (readWindowRound pb beginTime endTime) (r, buffer)
      (r', emplaceAll (out SingleMessage.time beginTime endTime messages) buffer) ∧
      r'.reset = r.reset ∧ Stands pb r' (left SingleMessage.time endTime messages) by
    obtain ⟨r', ends, rest⟩ := loop
    exact ⟨r', ends.returns, rest⟩
  induction count : messages.length using Nat.strong_induction_on generalizing r messages buffer with
  | _ n ih =>
    obtain ⟨⟨found, r'⟩, returns, read⟩ := r.readMessage_spec valid begins ends le stands small
    have round := returns.map (afterMessage buffer)
    cases found with
    | none =>
      obtain ⟨stands', none_⟩ := read.none_ rfl
      rw [none_]
      exact ⟨r', .last round, read.same, stands'⟩
    | some message =>
      obtain ⟨later, stands', less, outs, lefts⟩ := read.some_ message rfl
      obtain ⟨header, valid'⟩ := RecordReader.header_of_reset read.same
      have small' := RecordReader.bytes_of_reset read.same
      obtain ⟨r'', loop, same, stands''⟩ := ih _ (count ▸ less) (valid'.trans valid) (small' ▸ small) (header ▸ begins)
        (header ▸ ends) stands' (emplace message buffer) rfl
      rw [outs, lefts]
      exact ⟨r'', .next round loop, same.trans read.same, stands''⟩

/-- A window before the file. -/
theorem readWindow_outside {r : RecordReader} (outside : endTime < r.header.beginTime) (buffer : List SingleMessage) :
    Returns (fun fuel => readWindow pb beginTime endTime fuel (r, buffer)) (r, buffer) := by
  have loop : Ends (readWindowRound pb beginTime endTime) (r, buffer) (r, buffer) := by
    refine .last (.of_eq fun fuel => ?_)
    unfold readWindowRound
    rw [RecordReader.readMessage_outside outside]
    rfl
  exact loop.returns

/-- One of the readers gives what the window takes from its track, and the readers behind it come next. -/
def Passes (pb : Protobuf) (beginTime endTime : Nat) (buffer : List SingleMessage) (item : RecordReader × Bool)
    (t : Track SingleMessage) : Prop :=
  ∃ item', Tracks pb item' (t.after SingleMessage.time beginTime endTime) ∧ item'.1.reset = item.1.reset ∧
    ∀ rest result, Returns (fun fuel => readReaders pb beginTime endTime fuel rest
        (emplaceAll (t.out SingleMessage.time beginTime endTime) buffer)) result →
      Returns (fun fuel => readReaders pb beginTime endTime fuel (finish beginTime item :: rest) buffer)
        (item' :: result.1, result.2)

variable {r r' : RecordReader} {finished : Bool} {t : Track SingleMessage} {buffer : List SingleMessage}

/-- The reader after a window. -/
theorem Tracks.after (tracks : Tracks pb (r, finished) t) (same : r'.reset = r.reset) {done : Bool}
    (ended : (t.done || decide (t.last < beginTime)) = done)
    (stands : done = false → Stands pb r' (t.after SingleMessage.time beginTime endTime).queue) :
    Tracks pb (r', done) (t.after SingleMessage.time beginTime endTime) := by
  obtain ⟨header, valid⟩ := RecordReader.header_of_reset same
  have bytes := RecordReader.bytes_of_reset same
  refine ⟨valid.trans tracks.valid, ?_, ?_, ?_, ended, stands⟩
  · rw [bytes]
    exact tracks.small
  · rw [header]
    exact tracks.first
  · rw [header]
    exact tracks.last

/-- A reader that is finished. -/
theorem passes_finished (tracks : Tracks pb (r, finished) t) (finishes : finish beginTime (r, finished) = (r', true))
    (same : r'.reset = r.reset) (ended : (t.done || decide (t.last < beginTime)) = true) :
    Passes pb beginTime endTime buffer (r, finished) t := by
  have idle : ¬t.reads beginTime endTime := by
    rintro ⟨going, within, _⟩
    rw [going, Bool.false_or, decide_eq_true_eq] at ended
    omega
  refine ⟨(r', true), tracks.after same ended (by simp), same, fun rest result returns => ?_⟩
  rw [finishes]
  rw [Track.out, if_neg idle] at returns
  exact returns.map fun s => ((r', true) :: s.1, s.2)

/-- A reader that is read from. -/
theorem passes_read (tracks : Tracks pb (r, finished) t) (stays : finish beginTime (r, finished) = (r, false))
    (window : Returns (fun fuel => readWindow pb beginTime endTime fuel (r, buffer))
      (r', emplaceAll (t.out SingleMessage.time beginTime endTime) buffer))
    (same : r'.reset = r.reset) (stands : Stands pb r' (t.after SingleMessage.time beginTime endTime).queue)
    (going : (t.done || decide (t.last < beginTime)) = false) : Passes pb beginTime endTime buffer (r, finished) t := by
  refine ⟨(r', false), tracks.after same going fun _ => stands, same, fun rest result returns => ?_⟩
  rw [stays]
  exact window.bind (returns.map fun s => ((r', false) :: s.1, s.2))

theorem passes_of_tracks (le : beginTime ≤ endTime) (tracks : Tracks pb (r, finished) t) :
    Passes pb beginTime endTime buffer (r, finished) t := by
  have done := tracks.done
  have first : t.first = r.header.beginTime := tracks.first
  have last : t.last = r.header.endTime := tracks.last
  cases finished with
  | true => exact passes_finished tracks rfl rfl (by rw [done]; rfl)
  | false =>
    have stands := tracks.stands rfl
    by_cases ended : r.header.endTime < beginTime
    · have finishes : finish beginTime (r, false) = (r.reset, true) := if_pos (by simpa using ended)
      exact passes_finished tracks finishes rfl (by simpa [done, last] using ended)
    · have stays : finish beginTime (r, false) = (r, false) := if_neg (by simpa using ended)
      have going : (t.done || decide (t.last < beginTime)) = false := by simpa [done, last] using ended
      by_cases outside : endTime < r.header.beginTime
      · have idle : ¬t.reads beginTime endTime := by
          rintro ⟨_, _, within⟩
          omega
        refine passes_read tracks stays ?_ rfl ?_ going
        · rw [Track.out, if_neg idle]
          exact readWindow_outside outside buffer
        · rw [Track.after, if_neg idle]
          exact stands
      · have reads : t.reads beginTime endTime := ⟨done, by omega, by omega⟩
        have begins : beginTime ≤ r.header.endTime := not_lt.mp ended
        have ends : r.header.beginTime ≤ endTime := not_lt.mp outside
        obtain ⟨r', window, same, stands'⟩ :=
          readWindow_spec tracks.valid tracks.small begins ends le stands buffer
        refine passes_read tracks stays ?_ same ?_ going
        · rw [Track.out, if_pos reads]
          exact window
        · rw [Track.after, if_pos reads]
          exact stands'

/-- A window takes from all readers what it takes from their tracks. -/
theorem readReaders_spec (le : beginTime ≤ endTime) {items : List (RecordReader × Bool)}
    {tracks : List (Track SingleMessage)}
    (all : List.Forall₂ (Tracks pb) items tracks) (buffer : List SingleMessage) :
    ∃ items', Returns (fun fuel => readReaders pb beginTime endTime fuel (items.map (finish beginTime)) buffer)
        (items', emplaceAll (tracks.flatMap (Track.out SingleMessage.time beginTime endTime)) buffer) ∧
      List.Forall₂ (Tracks pb) items' (tracks.map (Track.after SingleMessage.time beginTime endTime)) ∧
      items'.map (fun item => item.1.reset) = items.map fun item => item.1.reset := by
  induction all generalizing buffer with
  | nil => exact ⟨[], .of_eq fun _ => rfl, .nil, rfl⟩
  | @cons item t items tracks one _ ih =>
    have passes : Passes pb beginTime endTime buffer item t := passes_of_tracks le one
    obtain ⟨item', after, same, goes⟩ := passes
    obtain ⟨items', returns, all', sames⟩ := ih (emplaceAll (t.out SingleMessage.time beginTime endTime) buffer)
    refine ⟨item' :: items', ?_, .cons after all', by rw [List.map_cons, List.map_cons, same, sames]⟩
    rw [List.flatMap_cons, emplaceAll_append]
    exact goes _ _ returns

variable {v : RecordViewer}

/-- The viewer stands before windows of tracks; the messages in the buffer are from windows before them. -/
structure Holds (pb : Protobuf) (v : RecordViewer) (tracks : List (Track SingleMessage))
    (ws : List (List SingleMessage)) :
    Prop where
  readers : List.Forall₂ (Tracks pb) v.readers tracks
  windows : Windows SingleMessage.time kStepTimeNanoSec v.endTime v.currBeginTime tracks ws
  sorted : Sorted v.msgBuffer
  passed : ∀ message ∈ v.msgBuffer, message.time < v.currBeginTime
  small : v.endTime < 2 ^ 64 - kStepTimeNanoSec - 1

/-- The messages that the viewer has still to give. -/
def Gives (pb : Protobuf) (v : RecordViewer) (messages : List SingleMessage) : Prop :=
  ∃ tracks ws, Holds pb v tracks ws ∧ (v.msgBuffer ++ ws.flatten).Perm messages

/-- A window is read into the buffer. -/
theorem fillRound_spec {tracks : List (Track SingleMessage)} {w : List SingleMessage} {ws : List (List SingleMessage)}
    (holds : Holds pb v tracks (w :: ws)) (room : v.msgBuffer.length < kBufferMinSize) :
    ∃ v' tracks', Returns (fun fuel => fillRound pb fuel v) (.inl v') ∧ v'.reset = v.reset ∧
      v'.msgBuffer = emplaceAll w v.msgBuffer ∧ Holds pb v' tracks' ws := by
  obtain ⟨readers, windows, sorted, passed, small⟩ := holds
  cases windows with
  | next le windows =>
    have this : v.thisEndTime = min (v.currBeginTime + kStepTimeNanoSec) v.endTime := by
      unfold thisEndTime
      rw [Nat.mod_eq_of_lt (by omega)]
      dsimp only
      split <;> omega
    have next : (v.thisEndTime + 1) % 2 ^ 64 = v.thisEndTime + 1 := Nat.mod_eq_of_lt (by omega)
    rw [← this] at windows ⊢
    have forward : v.currBeginTime ≤ v.thisEndTime := by omega
    obtain ⟨items, returns, readers', same⟩ := readReaders_spec forward readers v.msgBuffer
    have round : Returns (fun fuel => fillRound pb fuel v) (.inl { v with
        readers := items
        msgBuffer := emplaceAll
          (tracks.flatMap (Track.out SingleMessage.time v.currBeginTime v.thisEndTime)) v.msgBuffer
        currBeginTime := v.thisEndTime + 1 }) := by
      simp only [fillRound, if_pos (And.intro le room), next]
      exact returns.map fun s => (.inl { v with
        readers := s.1, msgBuffer := s.2, currBeginTime := v.thisEndTime + 1 } : RecordViewer ⊕ Bool × RecordViewer)
    refine ⟨_, _, round, ?_, rfl, readers', windows, sorted.emplaceAll _, fun message member => ?_, small⟩
    · have flags := congrArg (List.map fun r => (r, false)) same
      rw [List.map_map, List.map_map] at flags
      exact congrArg (fun readers => ({ v with
        readers := readers, currBeginTime := v.beginTime, msgBuffer := [] } : RecordViewer)) flags
    · rcases List.mem_append.mp ((emplaceAll_perm _ _).subset member) with old | new
      · have before := passed message old
        show message.time < v.thisEndTime + 1
        omega
      · obtain ⟨t, _, taken⟩ := List.mem_flatMap.mp new
        unfold Track.out at taken
        split at taken
        · have bounds := (mem_out taken).2
          exact Nat.lt_succ_of_le bounds.2
        · cases taken

/-- The loop of `FillBuffer` stops with nothing in the buffer only behind the last window. -/
theorem fillBuffer_spec {messages : List SingleMessage} (gives : Gives pb v messages) :
    ∃ v', Returns (fun fuel => v.fillBuffer pb fuel) (!v'.msgBuffer.isEmpty, v') ∧ v'.reset = v.reset ∧
      Gives pb v' messages ∧ (v'.msgBuffer = [] → messages = []) := by
  obtain ⟨tracks, ws, holds, perm⟩ := gives
  suffices loop : ∃ v', Ends (fillRound pb) v (!v'.msgBuffer.isEmpty, v') ∧ v'.reset = v.reset ∧
      Gives pb v' messages ∧ (v'.msgBuffer = [] → messages = []) by
    obtain ⟨v', ends, rest⟩ := loop
    exact ⟨v', ends.returns, rest⟩
  induction ws generalizing v tracks with
  | nil =>
    have ended : v.endTime < v.currBeginTime := by
      cases holds.windows with
      | done ended => exact ended
    have last : ∀ fuel, fillRound pb fuel v = some (.inr (!v.msgBuffer.isEmpty, v)) := fun _ => if_neg (by omega)
    refine ⟨v, .last (.of_eq last), rfl, ⟨tracks, [], holds, perm⟩, fun none_ => ?_⟩
    rw [none_] at perm
    exact perm.symm.eq_nil
  | cons w ws ih =>
    by_cases room : v.msgBuffer.length < kBufferMinSize
    · obtain ⟨v', tracks', round, same, buffer, holds'⟩ := fillRound_spec holds room
      have perm' : (v'.msgBuffer ++ ws.flatten).Perm messages := by
        rw [buffer]
        refine (((emplaceAll_perm w v.msgBuffer).append_right _)).trans (.trans (.of_eq ?_) perm)
        rw [List.flatten_cons, List.append_assoc]
      obtain ⟨v'', loop, same', rest⟩ := ih tracks' holds' perm'
      exact ⟨v'', .next round loop, same'.trans same, rest⟩
    · have last : ∀ fuel, fillRound pb fuel v = some (.inr (!v.msgBuffer.isEmpty, v)) :=
        fun _ => if_neg fun both => room both.2
      refine ⟨v, .last (.of_eq last), rfl, ⟨tracks, _, holds, perm⟩, fun none_ => ?_⟩
      rw [none_] at room
      exact absurd (by decide) room

/-- The channel of a message is asked for. -/
def Asked (channels : List String) (message : SingleMessage) : Prop :=
  channels = [] ∨ message.channelName ∈ channels

instance (channels : List String) (message : SingleMessage) : Decidable (Asked channels message) :=
  inferInstanceAs (Decidable (_ ∨ _))

/-- The first message of the buffer is the first of all. -/
theorem takeFirst_spec {messages buffer : List SingleMessage} {message : SingleMessage} (gives : Gives pb v messages)
    (first : v.msgBuffer = message :: buffer) :
    ∃ later, messages.Perm (message :: later) ∧ (∀ other ∈ later, message.time ≤ other.time) ∧
      Gives pb { v with msgBuffer := buffer } later ∧
      v.takeFirst = if Asked v.channels message then .inr (some message, { v with msgBuffer := buffer })
        else .inl { v with msgBuffer := buffer } := by
  obtain ⟨tracks, ws, ⟨readers, windows, sorted, passed, small⟩, perm⟩ := gives
  rw [first] at sorted passed perm
  obtain ⟨least, sorted'⟩ := List.pairwise_cons.mp sorted
  refine ⟨buffer ++ ws.flatten, perm.symm, fun other member => ?_,
    ⟨tracks, ws, ⟨readers, windows, sorted', fun other member => passed other (List.mem_cons_of_mem _ member), small⟩,
      .refl _⟩, ?_⟩
  · rcases List.mem_append.mp member with inBuffer | inWindow
    · exact least other inBuffer
    · obtain ⟨w, inside, here⟩ := List.mem_flatten.mp inWindow
      have after := (windows.within w inside other here).1
      have before := passed message List.mem_cons_self
      omega
  · unfold takeFirst Asked
    rw [first]
    simp only [Bool.or_eq_true, List.isEmpty_iff, decide_eq_true_eq]
    congr

/-- What the viewer gives from some messages: those that are asked for, in the order of their times. -/
structure Given (channels : List String) (messages given : List SingleMessage) : Prop where
  all : given.Perm (messages.filter fun message => Asked channels message)
  sorted : Sorted given

theorem Given.cons {channels : List String} {messages later given : List SingleMessage} {message : SingleMessage}
    (perm : messages.Perm (message :: later)) (least : ∀ other ∈ later, message.time ≤ other.time)
    (asked : Asked channels message) (rest : Given channels later given) :
    Given channels messages (message :: given) := by
  refine ⟨?_, List.pairwise_cons.mpr ⟨fun other member => ?_, rest.sorted⟩⟩
  · refine (rest.all.cons message).trans (.trans (.of_eq ?_) (perm.filter _).symm)
    exact (List.filter_cons_of_pos (by simpa using asked)).symm
  · exact least other (List.mem_filter.mp (rest.all.subset member)).1

theorem Given.skip {channels : List String} {messages later given : List SingleMessage} {message : SingleMessage}
    (perm : messages.Perm (message :: later)) (other : ¬Asked channels message) (rest : Given channels later given) :
    Given channels messages given := by
  refine ⟨rest.all.trans (.trans (.of_eq ?_) (perm.filter _).symm), rest.sorted⟩
  exact (List.filter_cons_of_neg (by simpa using other)).symm

/-- How `Update` ends: with the first message that is asked for, or with nothing if there is none. -/
structure Updated (pb : Protobuf) (v : RecordViewer) (messages : List SingleMessage)
    (result : Option SingleMessage × RecordViewer) : Prop where
  same : result.2.reset = v.reset
  some_ : ∀ message, result.1 = some message → ∃ later, Gives pb result.2 later ∧ later.length < messages.length ∧
    ∀ given, Given v.channels later given → Given v.channels messages (message :: given)
  none_ : result.1 = none → Given v.channels messages []

/-- What `Update` makes of the end of `FillBuffer`. -/
def afterFill : Bool × RecordViewer → RecordViewer ⊕ Option SingleMessage × RecordViewer
  | (false, v) => .inr (none, v)
  | (true, v) => v.takeFirst

theorem update_spec {messages : List SingleMessage} (gives : Gives pb v messages) :
    ∃ result, Returns (fun fuel => v.update pb fuel) result ∧ Updated pb v messages result := by
  suffices loop : ∃ result, Ends (updateRound pb) v result ∧ Updated pb v messages result by
    obtain ⟨result, ends, updated⟩ := loop
    exact ⟨result, ends.returns, updated⟩
  induction count : messages.length using Nat.strong_induction_on generalizing v messages with
  | _ n ih =>
    -- A round with a message in the buffer, which may have been filled in the round.
    have takes : ∀ u message buffer, Gives pb u messages → u.reset = v.reset → u.msgBuffer = message :: buffer →
        Returns (fun fuel => updateRound pb fuel v) u.takeFirst →
        ∃ result, Ends (updateRound pb) v result ∧ Updated pb v messages result := by
      intro u message buffer givesU same first round
      obtain ⟨later, perm, least, givesLater, taken⟩ := takeFirst_spec givesU first
      have channels : u.channels = v.channels := congrArg (fun v => v.channels) same
      have shorter : later.length < n := by
        rw [← count, perm.length_eq]
        exact Nat.lt_succ_self _
      rw [taken] at round
      by_cases asked : Asked u.channels message
      · rw [if_pos asked] at round
        rw [channels] at asked
        refine ⟨_, .last round, same, fun message' found => ?_, fun found => by cases found⟩
        obtain rfl := Option.some.inj found
        exact ⟨later, givesLater, count ▸ shorter, fun given rest => rest.cons perm least asked⟩
      · rw [if_neg asked] at round
        obtain ⟨result, loop, same', some_, none_⟩ := ih _ shorter givesLater rfl
        dsimp only at some_ none_
        rw [channels] at asked some_ none_
        refine ⟨result, .next round loop, same'.trans same, fun message' found => ?_, fun found => ?_⟩
        · obtain ⟨later', gives', less, extends_⟩ := some_ message' found
          exact ⟨later', gives', by omega, fun given rest => (extends_ given rest).skip perm asked⟩
        · exact (none_ found).skip perm asked
    cases buffered : v.msgBuffer with
    | cons message buffer =>
      have round : ∀ fuel, updateRound pb fuel v = some v.takeFirst := by
        intro fuel
        unfold updateRound
        rw [buffered]
        rfl
      exact takes v message buffer gives rfl buffered (.of_eq round)
    | nil =>
      obtain ⟨u, fills, same, givesU, all⟩ := fillBuffer_spec gives
      have round : ∀ fuel, updateRound pb fuel v = (v.fillBuffer pb fuel).map afterFill := by
        intro fuel
        unfold updateRound
        rw [buffered]
        rfl
      have filled := fills.map afterFill
      simp only [← round] at filled
      cases buffer : u.msgBuffer with
      | nil =>
        rw [buffer] at filled
        have none_ : Given v.channels messages [] := by
          rw [all buffer]
          exact ⟨.refl _, .nil⟩
        exact ⟨_, .last filled, same, (fun message found => by cases found), fun _ => none_⟩
      | cons message rest =>
        rw [buffer] at filled
        exact takes u message rest givesU same buffer filled

/-- What an iterator makes of the end of `Update`. -/
def afterUpdate (seen : List SingleMessage) :
    Option SingleMessage × RecordViewer → List SingleMessage × RecordViewer ⊕ List SingleMessage × RecordViewer
  | (some message, v) => .inl (seen ++ [message], v)
  | (none, v) => .inr (seen, v)

/-- Iterating gives all messages that are asked for. -/
theorem iterator_spec {messages : List SingleMessage} (gives : Gives pb v messages) (seen : List SingleMessage) :
    ∃ given v', Ends (iteratorRound pb) (seen, v) (seen ++ given, v') ∧ v'.reset = v.reset ∧
      Given v.channels messages given := by
  induction count : messages.length using Nat.strong_induction_on generalizing v messages seen with
  | _ n ih =>
    obtain ⟨⟨found, u⟩, returns, same, some_, none_⟩ := update_spec gives
    have round := returns.map (afterUpdate seen)
    cases found with
    | none =>
      refine ⟨[], u, ?_, same, none_ rfl⟩
      rw [List.append_nil]
      exact .last round
    | some message =>
      obtain ⟨later, gives', less, extends_⟩ := some_ message rfl
      obtain ⟨given, v', loop, same', rest⟩ := ih _ (count ▸ less) gives' (seen ++ [message]) rfl
      have channels : u.channels = v.channels := congrArg (fun v => v.channels) same
      rw [List.append_assoc] at loop
      exact ⟨message :: given, v', .next round loop, same'.trans same, extends_ given (channels ▸ rest)⟩

theorem reset_reset (v : RecordViewer) : v.reset.reset = v.reset := by
  simp only [reset, List.map_map]
  rfl

theorem iterate_of_reset {v' : RecordViewer} (same : v'.reset = v.reset) (fuel : Nat) :
    iterate pb fuel v' = iterate pb fuel v := by
  unfold iterate
  rw [same]

/-- Every iteration gives the messages that the viewer gives after a reset. -/
theorem iterate_spec {messages : List SingleMessage} (gives : v.isValid = true → Gives pb v.reset messages)
    (invalid : v.isValid = false → messages = []) :
    ∃ given v', Returns (fun fuel => iterate pb fuel v) (given, v') ∧
      Returns (fun fuel => iterate pb fuel v') (given, v') ∧
      Given v.channels messages given := by
  suffices first : ∃ given v', Returns (fun fuel => iterate pb fuel v) (given, v') ∧ v'.reset = v.reset ∧
      Given v.channels messages given by
    obtain ⟨given, v', returns, same, all⟩ := first
    have again := returns
    simp only [← iterate_of_reset same] at again
    exact ⟨given, v', returns, again, all⟩
  cases valid : v.isValid with
  | true =>
    obtain ⟨given, v', loop, same, all⟩ := iterator_spec (gives valid) []
    have returns := loop.returns
    have iterates : ∀ fuel, iterate pb fuel v = run (iteratorRound pb fuel) fuel ([], v.reset) := fun _ => if_pos valid
    simp only [← iterates, List.nil_append] at returns
    exact ⟨given, v', returns, same.trans v.reset_reset, all⟩
  | false =>
    have iterates : ∀ fuel, iterate pb fuel v = some ([], v.reset) :=
      fun _ => if_neg (by rw [show v.reset.isValid = v.isValid from rfl, valid]; exact Bool.false_ne_true)
    rw [invalid valid]
    exact ⟨[], v.reset, .of_eq iterates, v.reset_reset, .refl _, .nil⟩

theorem minBeginTime_le {readers : List RecordReader} {r : RecordReader} (member : r ∈ readers)
    (valid : r.isValid = true) :
    minBeginTime readers ≤ r.header.beginTime := by
  obtain ⟨before, after, rfl⟩ := List.append_of_mem member
  unfold minBeginTime
  rw [List.foldl_append, List.foldl_cons]
  refine List.foldlRecOn (motive := fun time => time ≤ r.header.beginTime) after _ ?_ fun time le other _ => ?_
  · rw [if_pos valid]
    split <;> omega
  · split
    · split <;> omega
    · exact le

theorem le_maxEndTime {readers : List RecordReader} {r : RecordReader} (member : r ∈ readers)
    (valid : r.isValid = true) :
    r.header.endTime ≤ maxEndTime readers := by
  obtain ⟨before, after, rfl⟩ := List.append_of_mem member
  unfold maxEndTime
  rw [List.foldl_append, List.foldl_cons]
  refine List.foldlRecOn (motive := fun time => r.header.endTime ≤ time) after _ ?_ fun time le other _ => ?_
  · rw [if_pos valid]
    split <;> omega
  · split
    · split <;> omega
    · exact le

theorem maxEndTime_lt {readers : List RecordReader} {bound : Nat} (positive : 0 < bound)
    (all : ∀ r ∈ readers, r.header.endTime < bound) : maxEndTime readers < bound := by
  unfold maxEndTime
  refine List.foldlRecOn (motive := fun time => time < bound) readers _ positive fun time less r member => ?_
  have here := all r member
  split
  · split <;> omega
  · exact less

/-- The readers of a viewer in their order. -/
def order (readers : List RecordReader) : List RecordReader :=
  readers.mergeSort fun lhs rhs => !before rhs lhs

theorem order_perm (readers : List RecordReader) : (order readers).Perm readers :=
  List.mergeSort_perm _ _

theorem create_readers (readers : List RecordReader) (beginTime endTime : Nat) (channels : List String) :
    (create readers beginTime endTime channels).readers = (order readers).map fun r => (r, false) := rfl

/-- The range that was asked for, cut to the times of the files. -/
theorem create_times (readers : List RecordReader) (beginTime endTime : Nat) (channels : List String) :
    (create readers beginTime endTime channels).beginTime = max beginTime (minBeginTime (order readers)) ∧
      (create readers beginTime endTime channels).endTime = min endTime (maxEndTime (order readers)) := by
  have same : (((order readers).map fun r => (r, false)).map Prod.fst) = order readers := by
    rw [List.map_map]
    exact List.map_id _
  rw [← same]
  simp only [create, updateTime, order]
  constructor
  · split <;> omega
  · split <;> omega

/-- The track of a reader. -/
def track (items : RecordReader → List Item) (r : RecordReader) : Track SingleMessage :=
  ⟨r.header.beginTime, r.header.endTime, (items r).flatMap Item.messages, (items r).flatMap Item.messages, false⟩

variable {readers : List RecordReader} {items : RecordReader → List Item} {channels : List String}

/-- A viewer over complete files gives what its windows take from the files. -/
theorem iterate_windows (complete : ∀ r ∈ readers, r.Over pb (items r))
    (small : ∀ r ∈ readers, r.header.endTime < 2 ^ 64 - kStepTimeNanoSec - 1) {v : RecordViewer}
    (created : v = create readers beginTime endTime channels) {ws : List (List SingleMessage)}
    (windows : Windows SingleMessage.time kStepTimeNanoSec v.endTime v.beginTime
      ((order readers).map (track items)) ws) :
    ∃ given v', Returns (fun fuel => iterate pb fuel v) (given, v') ∧
      Returns (fun fuel => iterate pb fuel v') (given, v') ∧
      Given channels ws.flatten given := by
  subst created
  have bounded : (create readers beginTime endTime channels).endTime < 2 ^ 64 - kStepTimeNanoSec - 1 := by
    have last : maxEndTime (order readers) < 2 ^ 64 - kStepTimeNanoSec - 1 :=
      maxEndTime_lt (by decide) fun r member => small r ((order_perm readers).subset member)
    rw [(create_times readers beginTime endTime channels).2]
    omega
  refine iterate_spec (fun _ => ?_) fun invalid => ?_
  · refine ⟨_, ws, ⟨?_, windows, .nil, by simp [reset], bounded⟩, .refl _⟩
    show List.Forall₂ (Tracks pb) (List.map _ (create readers beginTime endTime channels).readers) _
    rw [create_readers, List.map_map, List.forall₂_map_left_iff, List.forall₂_map_right_iff, List.forall₂_same]
    intro r member
    have here := complete r ((order_perm readers).subset member)
    exact ⟨here.valid, here.small, rfl, rfl, rfl, fun _ => here.stands⟩
  · have ended : (create readers beginTime endTime channels).endTime <
        (create readers beginTime endTime channels).beginTime := by
      simpa [isValid] using invalid
    cases windows with
    | done _ => rfl
    | next le _ => omega

/-- A viewer over complete files whose messages are in order gives exactly the messages that are asked for, in the
order of their times, and gives them again. -/
theorem viewer_yields (complete : ∀ r ∈ readers, r.Over pb (items r))
    (spans : ∀ r ∈ readers, Spans ((items r).flatMap Item.messages) r.header.beginTime r.header.endTime)
    (stored : ∀ r ∈ readers, Sorted ((items r).flatMap Item.messages))
    (small : ∀ r ∈ readers, r.header.endTime < 2 ^ 64 - kStepTimeNanoSec - 1) (beginTime endTime : Nat)
    (channels : List String) :
    ∃ given v', Returns (fun fuel => iterate pb fuel (create readers beginTime endTime channels)) (given, v') ∧
      Returns (fun fuel => iterate pb fuel v') (given, v') ∧
      given.Perm ((readers.flatMap fun r => (items r).flatMap Item.messages).filter fun message =>
        (beginTime ≤ message.time ∧ message.time ≤ endTime) ∧ Asked channels message) ∧
      Sorted given := by
  obtain ⟨begins, ends⟩ := create_times readers beginTime endTime channels
  obtain ⟨ws, windows⟩ : ∃ ws, Windows SingleMessage.time kStepTimeNanoSec
      (create readers beginTime endTime channels).endTime (create readers beginTime endTime channels).beginTime
      ((order readers).map (track items)) ws := windows_exist _ _ _ _
  obtain ⟨given, v', returns, again, all, sorted⟩ := iterate_windows complete small rfl windows
  refine ⟨given, v', returns, again, all.trans ?_, sorted⟩
  have keeps : ∀ t ∈ (order readers).map (track items), t.Keeps SingleMessage.time kStepTimeNanoSec
      (create readers beginTime endTime channels).endTime (create readers beginTime endTime channels).beginTime
      (create readers beginTime endTime channels).beginTime := by
    intro t member
    obtain ⟨r, inOrder, rfl⟩ := List.mem_map.mp member
    have here := (order_perm readers).subset inOrder
    refine ⟨(spans r here).within, (fun done => by cases done), fun _ => rfl, ?_⟩
    refine (stored r here).imp fun le => ?_
    intro e _ early
    exact le_trans le early
  have taken := windows.perm keeps fun _ => ⟨0, by rw [Nat.zero_mul, Nat.add_zero]⟩
  -- The messages of a file lie between its times, to which the range is cut.
  have cut : ∀ r ∈ order readers, ((items r).flatMap Item.messages).filter (fun message =>
      (create readers beginTime endTime channels).beginTime ≤ message.time ∧
        message.time ≤ (create readers beginTime endTime channels).endTime) =
      ((items r).flatMap Item.messages).filter fun message => beginTime ≤ message.time ∧ message.time ≤ endTime := by
    intro r member
    have here := (order_perm readers).subset member
    have first := minBeginTime_le member (complete r here).valid
    have last := le_maxEndTime member (complete r here).valid
    refine List.filter_congr fun message inFile => ?_
    have bounds := (spans r here).within message inFile
    rw [begins, ends, decide_eq_decide]
    omega
  rw [List.flatMap_map] at taken
  have same := taken.trans (.trans (.of_eq (List.flatMap_congr cut)) ((order_perm readers).flatMap_right _))
  rw [← List.filter_flatMap] at same
  refine (same.filter _).trans (.of_eq ?_)
  rw [List.filter_filter]
  refine List.filter_congr fun message _ => ?_
  rw [← Bool.decide_and, decide_eq_decide, and_comm]

/-- Two messages that belong to two windows, the second one of another channel. -/
def chunkFrom (beginTime : Nat) : Chunk :=
  (Chunk.clear.add ⟨"a", beginTime, [1]⟩).add ⟨"b", beginTime + 1500000000, [1]⟩

def headerFrom (beginTime : Nat) : Header :=
  { Header.empty with beginTime := beginTime, endTime := beginTime + 1500000000, isComplete := true }

def indexFrom (beginTime : Nat) : Index :=
  ⟨Content.entries (Wire.protobuf .none) (fun _ => 1) (sizeofSection + HEADER_LENGTH)
    (Item.contents (.chunk (chunkFrom beginTime)))⟩

def twoFilesProtobuf : Protobuf :=
  Wire.protobuf ⟨[], [(chunkFrom 1000000000).header, (chunkFrom 2000000000).header],
    [(chunkFrom 1000000000).body, (chunkFrom 2000000000).body], [indexFrom 1000000000, indexFrom 2000000000], []⟩

def sectionsFrom (beginTime : Nat) : List Content :=
  [.chunkHeader (chunkFrom beginTime).header, .chunkBody (chunkFrom beginTime).body, .index (indexFrom beginTime)]

/-- A reader of a file with these messages. -/
def readerFrom (beginTime : Nat) : RecordReader :=
  ⟨true, headerFrom beginTime,
    ⟨⟨RecordFileWriter.headerArea twoFilesProtobuf (headerFrom beginTime) ++
      (sectionsFrom beginTime).flatMap (Content.bytes twoFilesProtobuf), 0⟩, headerFrom beginTime, ⟨[]⟩, false⟩,
    ⟨[]⟩, 0, false⟩

def itemsOf (r : RecordReader) : List Item :=
  [.chunk (chunkFrom r.header.beginTime)]

theorem chunkFrom_spans (beginTime : Nat) :
    Spans (chunkFrom beginTime).messages beginTime (beginTime + 1500000000) := by
  refine ⟨?_, fun _ => ⟨_, List.mem_cons_self, rfl⟩, fun _ => ⟨_, List.mem_cons_of_mem _ List.mem_cons_self, rfl⟩⟩
  simp [chunkFrom]

theorem readerFrom_over {beginTime : Nat} (known : beginTime = 1000000000 ∨ beginTime = 2000000000) :
    (readerFrom beginTime).Over twoFilesProtobuf (itemsOf (readerFrom beginTime)) := by
  have area : (RecordFileWriter.headerArea twoFilesProtobuf (headerFrom beginTime)).length =
      sizeofSection + HEADER_LENGTH :=
    RecordFileWriter.headerArea_length (Wire.header_length _)
  have small : ((sectionsFrom beginTime).flatMap (Content.bytes twoFilesProtobuf)).length < 1000 := by
    rcases known with rfl | rfl
    · decide +kernel
    · decide +kernel
  refine ⟨rfl, area, ⟨indexFrom beginTime, rfl, fun content member => ?_⟩, ?_, fun chunk member => ?_⟩
  · have member : content ∈ sectionsFrom beginTime := member
    simp only [sectionsFrom, List.mem_cons, List.not_mem_nil, or_false] at member
    rcases known with rfl | rfl
    · rcases member with rfl | rfl | rfl
      · exact ⟨⟨by decide +kernel, by decide +kernel⟩, by decide +kernel⟩
      · exact ⟨⟨by decide +kernel, by decide +kernel⟩, by decide +kernel⟩
      · exact ⟨by decide +kernel, by decide +kernel⟩
    · rcases member with rfl | rfl | rfl
      · exact ⟨⟨by decide +kernel, by decide +kernel⟩, by decide +kernel⟩
      · exact ⟨⟨by decide +kernel, by decide +kernel⟩, by decide +kernel⟩
      · exact ⟨by decide +kernel, by decide +kernel⟩
  · show (RecordFileWriter.headerArea _ _ ++ _).length < _
    rw [List.length_append, area]
    have total : sizeofSection + HEADER_LENGTH + 1000 < 2 ^ 63 := by decide
    omega
  · obtain ⟨rfl⟩ := List.mem_singleton.mp member
    have times : (chunkFrom beginTime).header.beginTime = beginTime ∧
        (chunkFrom beginTime).header.endTime = beginTime + 1500000000 := by
      rcases known with rfl | rfl
      · decide
      · decide
    refine ⟨by simp [chunkFrom], ?_⟩
    show Spans _ (chunkFrom beginTime).header.beginTime (chunkFrom beginTime).header.endTime
    rw [times.1, times.2]
    exact chunkFrom_spans beginTime

/-- The first of the two windows of each file is asked for, and one channel. -/
theorem viewer_yields_run : ∃ given v',
    Returns (fun fuel => iterate twoFilesProtobuf fuel
      (create [readerFrom 2000000000, readerFrom 1000000000] 0 3000000000 ["a"])) (given, v') ∧
    given.Perm [⟨"a", 2000000000, [1]⟩, ⟨"a", 1000000000, [1]⟩] ∧ Sorted given := by
  have each : ∀ r ∈ [readerFrom 2000000000, readerFrom 1000000000],
      r = readerFrom 2000000000 ∨ r = readerFrom 1000000000 := by
    intro r member
    simpa using member
  have complete : ∀ r ∈ [readerFrom 2000000000, readerFrom 1000000000], r.Over twoFilesProtobuf (itemsOf r) := by
    intro r member
    rcases each r member with rfl | rfl
    · exact readerFrom_over (.inr rfl)
    · exact readerFrom_over (.inl rfl)
  have spans : ∀ r ∈ [readerFrom 2000000000, readerFrom 1000000000],
      Spans ((itemsOf r).flatMap Item.messages) r.header.beginTime r.header.endTime := by
    intro r member
    rcases each r member with rfl | rfl
    · exact chunkFrom_spans 2000000000
    · exact chunkFrom_spans 1000000000
  have stored : ∀ r ∈ [readerFrom 2000000000, readerFrom 1000000000], Sorted ((itemsOf r).flatMap Item.messages) := by
    intro r member
    unfold Sorted
    rcases each r member with rfl | rfl
    · decide +kernel
    · decide +kernel
  have small : ∀ r ∈ [readerFrom 2000000000, readerFrom 1000000000],
      r.header.endTime < 2 ^ 64 - kStepTimeNanoSec - 1 := by
    intro r member
    rcases each r member with rfl | rfl
    · decide
    · decide
  obtain ⟨given, v', returns, _, all, sorted⟩ := viewer_yields complete spans stored small 0 3000000000 ["a"]
  exact ⟨given, v', returns, all.trans (.of_eq (by decide +kernel)), sorted⟩

end RecordViewer

end CyberRT.Record
