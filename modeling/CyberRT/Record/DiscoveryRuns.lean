import CyberRT.Record.Discovery
import CyberRT.Record.WriterRuns

namespace CyberRT.Record.Recorder.Discovery
open Concur
variable {pb : Protobuf} {o : Options} {m m' : Shared} {l l' : At}

/-- The tests accept the writers that make a channel eligible. -/
theorem accepts_iff {attr : WriterAttributes} (announced : Announced attr) :
    accepts o attr = true ↔ (attr.getMessageType ≠ "" ∧ attr.getProtoDesc ≠ "") ∧
      (o.allChannels = true ∨ attr.getChannelName ∈ o.whiteChannels) ∧ attr.getChannelName ∉ o.blackChannels := by
  have typed : attr.getMessageType ≠ "" → attr.messageType.isSome = true := by
    cases found : attr.messageType <;> simp [WriterAttributes.getMessageType, found]
  have described : attr.getProtoDesc ≠ "" → attr.protoDesc.isSome = true := by
    cases found : attr.protoDesc <;> simp [WriterAttributes.getProtoDesc, found]
  by_cases type : attr.getMessageType = ""
  · simp [accepts, type]
  by_cases desc : attr.getProtoDesc = ""
  · simp [accepts, desc]
  by_cases black : attr.getChannelName ∈ o.blackChannels
  · simp [accepts, black]
  cases all : o.allChannels <;>
    simp [accepts, announced.1, announced.2.2.2, type, desc, typed type, described desc, black, all]

/-- What a step of a thread does. -/
inductive Moves (pb : Protobuf) (o : Options) (m : Shared) : At → Shared → At → Prop
  | refused : Moves pb o m .idle m .idle
  | starting : Moves pb o m .idle { m with starting := true } .getWriters
  | joined (role : RoleType) (attr : WriterAttributes) (announced : Announced attr) :
      Moves pb o m .idle
        { m with channelWriters := if role = .writer then m.channelWriters ++ [attr] else m.channelWriters }
        (.notify role attr)
  | recorded (e : RecordWriter.Event) (writer : RecordWriter) (step : m.writer.step pb e = some writer)
      (other : ∀ channelName messageType protoDesc, e ≠ .writeChannel channelName messageType protoDesc) :
      Moves pb o m .idle { m with writer } .idle
  | snapshot : Moves pb o m .getWriters m (.initReaders m.channelWriters m.channelWriters)
  | take (roleAttrVec : List WriterAttributes) (attr : WriterAttributes) (rest : List WriterAttributes) :
      Moves pb o m (.initReaders roleAttrVec (attr :: rest)) m (.find attr (.initReaders roleAttrVec rest))
  | listen (roleAttrVec : List WriterAttributes) :
      Moves pb o m (.initReaders roleAttrVec []) { m with listening := true } .listened
  | started : Moves pb o m .listened { m with isStarted := true } .idle
  | unheard (role : RoleType) (attr : WriterAttributes) (unheard : role = .writer → m.listening = false) :
      Moves pb o m (.notify role attr) m .idle
  | heard (attr : WriterAttributes) : Moves pb o m (.notify .writer attr) m (.find attr .topologyCallback)
  | skip (attr : WriterAttributes) (caller : Caller)
      (known : accepts o attr = true → attr.getChannelName ∈ m.channelReaderMap) :
      Moves pb o m (.find attr caller) m caller.back
  | new (attr : WriterAttributes) (caller : Caller) (accepted : accepts o attr = true) :
      Moves pb o m (.find attr caller) m (.writeChannel attr caller)
  | write (attr : WriterAttributes) (caller : Caller) (writer : RecordWriter)
      (step : m.writer.step pb (.writeChannel attr.getChannelName attr.getMessageType attr.getProtoDesc) =
        some writer) :
      Moves pb o m (.writeChannel attr caller) { m with writer } (.createReader attr caller)
  | exists_ (attr : WriterAttributes) (caller : Caller) (made : attr.getChannelName ∈ m.nodeReaders) :
      Moves pb o m (.createReader attr caller) m caller.back
  | create (attr : WriterAttributes) (caller : Caller) (reader : Nat) :
      Moves pb o m (.createReader attr caller)
        { m with nodeReaders := m.nodeReaders.insert attr.getChannelName reader } (.store attr reader caller)
  | store (attr : WriterAttributes) (reader : Nat) (caller : Caller) :
      Moves pb o m (.store attr reader caller)
        { m with channelReaderMap := m.channelReaderMap.insert attr.getChannelName reader } caller.back

theorem next_moves (step : next pb o m l = some (m', l')) : Moves pb o m l m' l' := by
  cases l with
  | idle => cases step
  | getWriters =>
    cases step
    exact .snapshot
  | initReaders roleAttrVec rest =>
    cases rest with
    | nil =>
      cases step
      exact .listen roleAttrVec
    | cons attr rest =>
      cases step
      exact .take roleAttrVec attr rest
  | listened =>
    cases step
    exact .started
  | notify role attr =>
    simp only [next] at step
    split at step
    · split at step
      · rename_i other
        cases step
        exact .unheard role attr fun same => absurd same other
      · rename_i same
        cases step
        rw [not_not.mp same]
        exact .heard attr
    · rename_i deaf
      cases step
      exact .unheard role attr fun _ => Bool.eq_false_iff.mpr deaf
  | find attr caller =>
    simp only [next] at step
    split at step
    · rename_i accepted
      split at step
      · rename_i known
        cases step
        exact .skip attr caller fun _ => known
      · cases step
        exact .new attr caller accepted
    · rename_i refused
      cases step
      exact .skip attr caller fun accepted => absurd accepted refused
  | writeChannel attr caller =>
    obtain ⟨writer, written, same⟩ := Option.map_eq_some_iff.mp step
    cases same
    exact .write attr caller writer written
  | createReader attr caller =>
    simp only [next] at step
    split at step
    · rename_i made
      cases step
      exact .exists_ attr caller made
    · cases step
      exact .create attr caller _
  | store attr reader caller =>
    cases step
    exact .store attr reader caller

theorem act_moves {c : Input} (step : act pb o m l c = some (m', l')) : Moves pb o m l m' l' := by
  unfold act at step
  split at step
  · split at step
    · cases step
    · split at step
      · cases step
        exact .refused
      · cases step
        exact .starting
  · split at step
    · rename_i role attr announced
      cases step
      exact .joined role attr announced
    · cases step
  · cases step
  · cases step
  · rename_i e notChannel _
    obtain ⟨writer, recorded, same⟩ := Option.map_eq_some_iff.mp step
    cases same
    refine .recorded e writer recorded fun channelName messageType protoDesc same => ?_
    exact notChannel channelName messageType protoDesc same
  · exact next_moves step
  · cases step

def Shared.declared (m : Shared) : List String :=
  m.writer.declared.map Channel.name

/-- The writer that a thread handles. A JOIN of which the listeners are to be called counts only if they are
connected. -/
def At.handling (listening : Bool) : At → Option WriterAttributes
  | .notify role attr => if role = .writer ∧ listening = true then some attr else none
  | .find attr _ | .writeChannel attr _ | .createReader attr _ | .store attr _ _ => some attr
  | _ => none

/-- The writer whose channel a thread found to be new, and the channels that it declared or made a reader for. -/
def At.writing : At → Option WriterAttributes
  | .writeChannel attr _ | .createReader attr _ | .store attr _ _ => some attr
  | _ => none

def At.written : At → Option String
  | .createReader attr _ | .store attr _ _ => some attr.getChannelName
  | _ => none

def At.storing : At → Option String
  | .store attr _ _ => some attr.getChannelName
  | _ => none

def Caller.lists : Caller → Option (List WriterAttributes × List WriterAttributes)
  | .topologyCallback => none
  | .initReaders roleAttrVec rest => some (roleAttrVec, rest)

/-- The list of writers that `InitReadersImpl` has taken, and those still to come. -/
def At.lists : At → Option (List WriterAttributes × List WriterAttributes)
  | .initReaders roleAttrVec rest => some (roleAttrVec, rest)
  | .find _ caller | .writeChannel _ caller | .createReader _ caller | .store _ _ caller => caller.lists
  | _ => none

theorem At.handling_of_writing {listening : Bool} {attr : WriterAttributes} (at_ : l.writing = some attr) :
    l.handling listening = some attr := by
  cases l <;> first | exact at_ | cases at_

theorem At.writing_of_written {channelName : String} (at_ : l.written = some channelName) :
    ∃ attr, l.writing = some attr ∧ attr.getChannelName = channelName := by
  cases l <;> first | exact ⟨_, rfl, Option.some.inj at_⟩ | cases at_

structure Inv (o : Options) (m : Shared) : Prop where
  writer : RecordWriter.Inv m.writer
  announced : ∀ attr ∈ m.channelWriters, Announced attr
  stored : ∀ channelName ∈ m.channelReaderMap, channelName ∈ m.declared
  eligible : ∀ channelName ∈ m.declared, Eligible o m channelName
  started : m.isStarted = true → m.listening = true

structure Holds (o : Options) (m : Shared) (l : At) : Prop where
  handling : ∀ attr, l.handling true = some attr → attr ∈ m.channelWriters
  writing : ∀ attr, l.writing = some attr → accepts o attr = true
  written : ∀ channelName, l.written = some channelName → channelName ∈ m.declared
  lists : ∀ roleAttrVec rest, l.lists = some (roleAttrVec, rest) → ∀ attr ∈ rest, attr ∈ m.channelWriters
  listened : l = .listened → m.listening = true

/-- What no step takes back. -/
structure Grows (m m' : Shared) : Prop where
  writers : ∀ attr ∈ m.channelWriters, attr ∈ m'.channelWriters
  readers : ∀ channelName ∈ m.channelReaderMap, channelName ∈ m'.channelReaderMap
  declared : ∀ channelName ∈ m.declared, channelName ∈ m'.declared
  listening : m.listening = true → m'.listening = true

theorem Grows.refl (m : Shared) : Grows m m :=
  ⟨fun _ => id, fun _ => id, fun _ => id, id⟩

theorem Inv.grows (inv : Inv o m) (moves : Moves pb o m l m' l') : Grows m m' := by
  cases moves with
  | joined role attr announced =>
    refine { Grows.refl m with writers := fun attr' member => ?_ }
    dsimp only
    split
    · exact List.mem_append_left _ member
    · exact member
  | recorded e writer step other =>
    refine { Grows.refl m with declared := fun channelName member => ?_ }
    rw [Shared.declared, RecordWriter.declared_of_step other step]
    exact member
  | listen roleAttrVec => exact { Grows.refl m with listening := fun _ => rfl }
  | write attr caller writer step =>
    refine { Grows.refl m with declared := fun channelName member => ?_ }
    exact (RecordWriter.declared_writeChannel inv.writer step channelName).mpr (Or.inr member)
  | store attr reader caller =>
    exact { Grows.refl m with readers := fun channelName member => (AList.mem_insert _).mpr (Or.inr member) }
  | _ => exact { Grows.refl m with }

theorem Eligible.mono {channelName : String} (eligible : Eligible o m channelName) (grows : Grows m m') :
    Eligible o m' channelName := by
  obtain ⟨⟨attr, member, described⟩, recorded⟩ := eligible
  exact ⟨⟨attr, grows.writers attr member, described⟩, recorded⟩

/-- What a thread knows stays true while the others go on. -/
theorem Holds.mono (holds : Holds o m l) (grows : Grows m m') : Holds o m' l where
  handling attr at_ := grows.writers attr (holds.handling attr at_)
  writing := holds.writing
  written channelName at_ := grows.declared channelName (holds.written channelName at_)
  lists roleAttrVec rest at_ attr member := grows.writers attr (holds.lists roleAttrVec rest at_ attr member)
  listened at_ := grows.listening (holds.listened at_)

/-- A thread that handles no writer knows nothing of one. -/
theorem holds_outside (handling : l.handling true = none) (lists : l.lists = none)
    (listened : l = .listened → m.listening = true) : Holds o m l where
  handling attr at_ := by
    rw [handling] at at_
    cases at_
  writing attr at_ := by
    rw [At.handling_of_writing at_] at handling
    cases handling
  written channelName at_ := by
    obtain ⟨attr, at_, -⟩ := At.writing_of_written at_
    rw [At.handling_of_writing at_] at handling
    cases handling
  lists roleAttrVec rest at_ := by
    rw [lists] at at_
    cases at_
  listened := listened

theorem holds_idle : Holds o m .idle :=
  holds_outside rfl rfl fun at_ => by cases at_

theorem holds_initReaders {roleAttrVec rest : List WriterAttributes} (known : ∀ attr ∈ rest, attr ∈ m.channelWriters) :
    Holds o m (.initReaders roleAttrVec rest) where
  handling _ at_ := by cases at_
  writing _ at_ := by cases at_
  written _ at_ := by cases at_
  lists := by
    rintro _ _ ⟨⟩
    exact known
  listened at_ := by cases at_

/-- Back in its caller a thread knows what the caller knew. -/
theorem Holds.back {caller : Caller} (lists : l.lists = caller.lists) (holds : Holds o m l) :
    Holds o m caller.back := by
  cases caller with
  | topologyCallback => exact holds_outside rfl rfl fun at_ => by cases at_
  | initReaders roleAttrVec rest => exact holds_initReaders (holds.lists roleAttrVec rest lists)

theorem Inv.eligible_of_accepts (inv : Inv o m) {attr : WriterAttributes} (member : attr ∈ m.channelWriters)
    (accepted : accepts o attr = true) : Eligible o m attr.getChannelName := by
  obtain ⟨described, recorded⟩ := (accepts_iff (inv.announced attr member)).mp accepted
  exact ⟨⟨attr, member, rfl, described⟩, recorded⟩

theorem Inv.step (inv : Inv o m) (holds : Holds o m l) (moves : Moves pb o m l m' l') : Inv o m' := by
  have grows := inv.grows moves
  cases moves with
  | joined role attr announced =>
    refine { inv with
      announced := ?_
      eligible := fun channelName member => (inv.eligible channelName member).mono grows }
    intro attr' member
    dsimp only at member
    split at member
    · rcases List.mem_append.mp member with old | new
      · exact inv.announced attr' old
      · rw [List.mem_singleton.mp new]
        exact announced
    · exact inv.announced attr' member
  | recorded e writer step other =>
    have same : (Shared.declared { m with writer }) = m.declared :=
      congrArg (List.map Channel.name) (RecordWriter.declared_of_step other step)
    refine { inv with writer := RecordWriter.inv_step inv.writer step, stored := ?_, eligible := ?_ }
    · intro channelName member
      rw [same]
      exact inv.stored channelName member
    · intro channelName member
      rw [same] at member
      exact inv.eligible channelName member
  | listen roleAttrVec => exact { inv with started := fun _ => rfl }
  | started => exact { inv with started := fun _ => holds.listened rfl }
  | write attr caller writer step =>
    have declared := RecordWriter.declared_writeChannel inv.writer step
    refine { inv with writer := RecordWriter.inv_step inv.writer step, stored := ?_, eligible := ?_ }
    · exact fun channelName member => grows.declared channelName (inv.stored channelName member)
    · intro channelName member
      rcases (declared channelName).mp member with rfl | old
      · exact inv.eligible_of_accepts (holds.handling attr rfl) (holds.writing attr rfl)
      · exact inv.eligible channelName old
  | store attr reader caller =>
    refine { inv with stored := fun channelName member => ?_ }
    rcases (AList.mem_insert _).mp member with rfl | old
    · exact holds.written _ rfl
    · exact inv.stored channelName old
  | _ => exact { inv with }

theorem Inv.holds (inv : Inv o m) (holds : Holds o m l) (moves : Moves pb o m l m' l') : Holds o m' l' := by
  have grows := inv.grows moves
  cases moves with
  | refused => exact holds
  | starting => exact holds_outside rfl rfl fun at_ => by cases at_
  | joined role attr announced =>
    by_cases same : role = .writer
    · subst same
      refine ⟨?_, fun _ at_ => (by cases at_), fun _ at_ => (by cases at_), fun _ _ at_ => (by cases at_),
        fun at_ => by cases at_⟩
      rintro _ ⟨⟩
      exact List.mem_append_right _ (List.mem_singleton_self _)
    · exact holds_outside (if_neg fun both => same both.1) rfl fun at_ => by cases at_
  | recorded e writer step other => exact holds.mono grows
  | snapshot => exact holds_initReaders fun _ => id
  | take roleAttrVec attr rest =>
    have all := holds.lists roleAttrVec (attr :: rest) rfl
    refine ⟨?_, fun _ at_ => (by cases at_), fun _ at_ => (by cases at_), ?_, fun at_ => by cases at_⟩
    · rintro _ ⟨⟩
      exact all attr (List.mem_cons_self ..)
    · rintro _ _ ⟨⟩
      exact fun attr' member => all attr' (List.mem_cons_of_mem _ member)
  | listen roleAttrVec => exact holds_outside rfl rfl fun _ => rfl
  | started => exact holds_outside rfl rfl fun at_ => by cases at_
  | unheard role attr unheard => exact holds_outside rfl rfl fun at_ => by cases at_
  | heard attr =>
    exact ⟨holds.handling, fun _ at_ => (by cases at_), fun _ at_ => (by cases at_), fun _ _ at_ => (by cases at_),
      fun at_ => by cases at_⟩
  | skip attr caller known => exact holds.back rfl
  | new attr caller accepted =>
    refine ⟨holds.handling, ?_, fun _ at_ => (by cases at_), holds.lists, fun at_ => by cases at_⟩
    rintro _ ⟨⟩
    exact accepted
  | write attr caller writer step =>
    refine ⟨holds.handling, holds.writing, ?_, holds.lists, fun at_ => by cases at_⟩
    rintro _ ⟨⟩
    exact (RecordWriter.declared_writeChannel inv.writer step _).mpr (Or.inl rfl)
  | exists_ attr caller made => exact holds.back rfl
  | create attr caller reader =>
    exact ⟨holds.handling, holds.writing, holds.written, holds.lists, fun at_ => by cases at_⟩
  | store attr reader caller => exact (holds.mono grows).back rfl

theorem outline : Config.Outline (act pb o) (Inv o) (Holds o) fun _ _ => True where
  own := fun _ _ _ _ _ inv holds step => ⟨inv.step holds (act_moves step), inv.holds holds (act_moves step)⟩
  other := fun _ _ _ _ _ _ inv _ holds _ _ step => ⟨holds.mono (inv.grows (act_moves step)), trivial, trivial⟩

/-- A thread handles a writer of the channel that the tests accept. -/
def Works (o : Options) (listening : Bool) (channelName : String) (l : At) : Prop :=
  ∃ attr, l.handling listening = some attr ∧ accepts o attr = true ∧ attr.getChannelName = channelName

theorem Works.listening {channelName : String} {listening : Bool} (works : Works o listening channelName l) :
    Works o true channelName l := by
  obtain ⟨attr, at_, accepted⟩ := works
  refine ⟨attr, ?_, accepted⟩
  cases l <;> simp_all [At.handling]

theorem Works.grows {channelName : String} (works : Works o m.listening channelName l) (grows : Grows m m') :
    Works o m'.listening channelName l := by
  by_cases before : m.listening = true
  · rw [before] at works
    rwa [grows.listening before]
  · by_cases after : m'.listening = true
    · rw [after]
      exact works.listening
    · rwa [Bool.eq_false_iff.mpr after, ← Bool.eq_false_iff.mpr before]

theorem Holds.works (holds : Holds o m l) {channelName : String} {listening : Bool}
    (written : l.written = some channelName) : Works o listening channelName l := by
  obtain ⟨attr, writing, name⟩ := At.writing_of_written written
  exact ⟨attr, At.handling_of_writing writing, holds.writing attr writing, name⟩

theorem At.written_of_storing {channelName : String} (at_ : l.storing = some channelName) :
    l.written = some channelName := by
  cases l <;> first | exact at_ | cases at_

/-- A thread that handles a writer of a channel goes on until the channel has a reader, or leaves it to the thread that
made the reader. -/
theorem Moves.works {channelName : String} (moves : Moves pb o m l m' l') (works : Works o m.listening channelName l) :
    channelName ∈ m'.channelReaderMap ∨ Works o m'.listening channelName l' ∨
      (channelName ∈ m.nodeReaders ∧ l.storing = none) := by
  obtain ⟨attr', at_, accepted, rfl⟩ := works
  cases moves with
  | unheard role attr unheard =>
    obtain ⟨⟨same, listening⟩, -⟩ := Option.ite_none_right_eq_some.mp at_
    rw [unheard same] at listening
    cases listening
  | heard attr =>
    obtain ⟨-, same⟩ := Option.ite_none_right_eq_some.mp at_
    exact Or.inr (Or.inl ⟨attr', same, accepted, rfl⟩)
  | skip attr caller known =>
    cases at_
    exact Or.inl (known accepted)
  | new attr caller _ => exact Or.inr (Or.inl ⟨attr', at_, accepted, rfl⟩)
  | write attr caller writer step => exact Or.inr (Or.inl ⟨attr', at_, accepted, rfl⟩)
  | exists_ attr caller made =>
    cases at_
    exact Or.inr (Or.inr ⟨made, rfl⟩)
  | create attr caller reader => exact Or.inr (Or.inl ⟨attr', at_, accepted, rfl⟩)
  | store attr reader caller =>
    cases at_
    exact Or.inl ((AList.mem_insert _).mpr (Or.inl rfl))
  | _ => cases at_

theorem Moves.nodeReaders {channelName : String} (moves : Moves pb o m l m' l')
    (made : channelName ∈ m'.nodeReaders) : channelName ∈ m.nodeReaders ∨ l'.storing = some channelName := by
  cases moves with
  | create attr caller reader =>
    rcases (AList.mem_insert _).mp made with rfl | old
    · exact Or.inr rfl
    · exact Or.inl old
  | _ => exact Or.inl made

theorem Moves.storing {channelName : String} (moves : Moves pb o m l m' l') (storing : l.storing = some channelName) :
    channelName ∈ m'.channelReaderMap := by
  cases moves with
  | store attr reader caller =>
    cases storing
    exact (AList.mem_insert _).mpr (Or.inl rfl)
  | _ => cases storing

theorem Moves.declared {channelName : String} (inv : Inv o m) (moves : Moves pb o m l m' l')
    (declared : channelName ∈ m'.declared) : channelName ∈ m.declared ∨ l'.written = some channelName := by
  cases moves with
  | recorded e writer step other =>
    rw [Shared.declared, RecordWriter.declared_of_step other step] at declared
    exact Or.inl declared
  | write attr caller writer step =>
    rcases (RecordWriter.declared_writeChannel inv.writer step channelName).mp declared with rfl | old
    · exact Or.inr rfl
    · exact Or.inl old
  | _ => exact Or.inl declared

/-- A writer leaves the list of those still to come when it is handled. -/
theorem Moves.lists {roleAttrVec rest : List WriterAttributes} (moves : Moves pb o m l m' l')
    (lists : l'.lists = some (roleAttrVec, rest)) :
    roleAttrVec = rest ∨ ∃ before, l.lists = some (roleAttrVec, before) ∧
      ∀ attr ∈ before, attr ∈ rest ∨ l'.handling m'.listening = some attr := by
  have same : l.lists = some (roleAttrVec, rest) → ∃ before, l.lists = some (roleAttrVec, before) ∧
      ∀ attr ∈ before, attr ∈ rest ∨ l'.handling m'.listening = some attr :=
    fun lists => ⟨rest, lists, fun _ => Or.inl⟩
  have back : ∀ caller : Caller, caller.back.lists = some (roleAttrVec, rest) →
      caller.lists = some (roleAttrVec, rest) := by
    intro caller lists
    cases caller with
    | topologyCallback => cases lists
    | initReaders _ _ => exact lists
  cases moves with
  | snapshot =>
    cases lists
    exact Or.inl rfl
  | take _ attr _ =>
    cases lists
    refine Or.inr ⟨attr :: rest, rfl, fun attr' member => ?_⟩
    rcases List.mem_cons.mp member with rfl | later
    · exact Or.inr rfl
    · exact Or.inl later
  | skip attr caller known => exact Or.inr (same (back caller lists))
  | new attr caller _ => exact Or.inr (same lists)
  | write attr caller writer step => exact Or.inr (same lists)
  | exists_ attr caller made => exact Or.inr (same (back caller lists))
  | create attr caller reader => exact Or.inr (same lists)
  | store attr reader caller => exact Or.inr (same (back caller lists))
  | _ => cases lists

theorem Moves.writers {attr : WriterAttributes} (moves : Moves pb o m l m' l') (member : attr ∈ m'.channelWriters) :
    attr ∈ m.channelWriters ∨ l'.handling true = some attr := by
  cases moves with
  | joined role attr' announced =>
    dsimp only at member
    split at member
    · rename_i same
      rcases List.mem_append.mp member with old | new
      · exact Or.inl old
      · rw [List.mem_singleton.mp new]
        exact Or.inr (if_pos ⟨same, rfl⟩)
    · exact Or.inl member
  | _ => exact Or.inl member

/-- The listener is connected by `InitReadersImpl` only. -/
theorem Moves.listens (moves : Moves pb o m l m' l') (after : m'.listening = true) :
    m.listening = true ∨ ∃ roleAttrVec, l = .initReaders roleAttrVec [] := by
  cases moves with
  | listen roleAttrVec => exact Or.inr ⟨roleAttrVec, rfl⟩
  | _ => exact Or.inl after

section Runs
variable {τ : Type} [DecidableEq τ] {header : Header} {s s' : Config τ Shared At}

theorem holds_of_reach (reach : (machine pb o τ header).Reach s) :
    Config.Holds (Inv o) (Holds o) (fun _ _ => True) s := by
  refine outline.reach ⟨?_, fun _ => holds_idle, fun _ _ _ => trivial⟩ reach
  exact {
    writer := RecordWriter.inv_init
    announced := fun _ member => (by cases member)
    stored := fun _ member => (by cases member)
    eligible := fun _ member => (by cases member)
    started := fun started => (by cases started) }

/-- A channel has its reader, or a thread is to make it. -/
def Covered (o : Options) (s : Config τ Shared At) (channelName : String) : Prop :=
  channelName ∈ s.shared.channelReaderMap ∨ ∃ t, Works o s.shared.listening channelName (s.thread t)

/-- Nothing that was begun is left: the readers of the node come into the map, the channels that are declared get their
readers, and so do the writers that were taken from the list and, once the recorder listens, all others. -/
structure Pursued (o : Options) (s : Config τ Shared At) : Prop where
  readers : ∀ channelName ∈ s.shared.nodeReaders,
    channelName ∈ s.shared.channelReaderMap ∨ ∃ t, (s.thread t).storing = some channelName
  declared : ∀ channelName ∈ s.shared.declared, Covered o s channelName
  taken : ∀ t roleAttrVec rest, (s.thread t).lists = some (roleAttrVec, rest) → ∀ attr ∈ roleAttrVec,
    accepts o attr = true → Covered o s attr.getChannelName ∨ attr ∈ rest
  listening : s.shared.listening = true → ∀ attr ∈ s.shared.channelWriters, accepts o attr = true →
    Covered o s attr.getChannelName

section Step
variable {thread : τ → At} {t : τ}

theorem covered_step {channelName : String} (holds : ∀ t, Holds o m (thread t)) (grows : Grows m m')
    (readers : ∀ channelName ∈ m.nodeReaders,
      channelName ∈ m.channelReaderMap ∨ ∃ t, (thread t).storing = some channelName)
    (moves : Moves pb o m (thread t) m' l') (covered : Covered o ⟨m, thread⟩ channelName) :
    Covered o ⟨m', Function.update thread t l'⟩ channelName := by
  rcases covered with stored | works
  · exact Or.inl (grows.readers channelName stored)
  rcases Config.own_or_exists works with own | others
  · rcases moves.works own with stored | works' | ⟨made, notStoring⟩
    · exact Or.inl stored
    · exact Or.inr (Config.exists_own works')
    · rcases readers channelName made with stored | ⟨v, storing⟩
      · exact Or.inl (grows.readers channelName stored)
      · have works' : Works o m'.listening channelName (thread v) := (holds v).works (At.written_of_storing storing)
        refine Or.inr (Config.exists_move (P := fun l : At => l.storing = some channelName ∧
          Works o m'.listening channelName l) (fun _ => And.right) (fun own => ?_) ⟨v, storing, works'⟩)
        cases notStoring.symm.trans own.1
  · obtain ⟨u, works⟩ := others
    exact Or.inr ⟨u, works.grows grows⟩

theorem pursued_step {c : Input} (inv : Inv o m) (holds : ∀ t, Holds o m (thread t))
    (pursued : Pursued o ⟨m, thread⟩) (heard : NoneMissed o ⟨m, thread⟩ (t, c))
    (moves : Moves pb o m (thread t) m' l') : Pursued o ⟨m', Function.update thread t l'⟩ := by
  have grows := inv.grows moves
  have holds' : Holds o m' l' := inv.holds (holds t) moves
  have stays : ∀ channelName, Covered o ⟨m, thread⟩ channelName →
      Covered o ⟨m', Function.update thread t l'⟩ channelName :=
    fun channelName => covered_step holds grows pursued.readers moves
  refine ⟨?_, ?_, ?_, ?_⟩
  · intro channelName made
    rcases moves.nodeReaders made with old | storing
    · rcases pursued.readers channelName old with stored | storing
      · exact Or.inl (grows.readers channelName stored)
      · exact (Config.own_or_exists (P := fun l : At => l.storing = some channelName) storing).imp_left moves.storing
    · exact Or.inr (Config.exists_own (P := fun l : At => l.storing = some channelName) storing)
  · intro channelName declared
    rcases moves.declared inv declared with old | written
    · exact stays channelName (pursued.declared channelName old)
    · exact Or.inr (Config.exists_own (holds'.works written))
  · intro u roleAttrVec rest lists attr member accepted
    by_cases own : u = t
    · subst own
      rw [show (Config.mk m' (Function.update thread u l')).thread u = l' from Function.update_self ..] at lists
      rcases moves.lists lists with rfl | ⟨before, lists, handled⟩
      · exact Or.inr member
      · rcases pursued.taken u roleAttrVec before lists attr member accepted with covered | still
        · exact Or.inl (stays _ covered)
        · rcases handled attr still with still | handling
          · exact Or.inr still
          · exact Or.inl (Or.inr (Config.exists_own ⟨attr, handling, accepted, rfl⟩))
    · rw [show (Config.mk m' (Function.update thread t l')).thread u = thread u from Function.update_of_ne own ..] at lists
      exact (pursued.taken u roleAttrVec rest lists attr member accepted).imp_left (stays _)
  · intro after attr member accepted
    have after : m'.listening = true := after
    rcases moves.writers member with old | handling
    · rcases moves.listens after with before | ⟨roleAttrVec, here⟩
      · exact stays _ (pursued.listening before attr old accepted)
      · obtain ⟨companion, accepted', same, taken | ⟨u, notified⟩⟩ := heard roleAttrVec here attr old accepted
        · have lists : (thread t).lists = some (roleAttrVec, []) := by rw [here]; rfl
          rw [← same]
          have covered := pursued.taken t roleAttrVec [] lists companion taken accepted'
          exact stays _ (covered.resolve_right List.not_mem_nil)
        · refine Or.inr (Config.exists_move (P := fun l : At => l = .notify .writer companion) ?_ ?_ ⟨u, notified⟩)
          · rintro _ rfl
            exact ⟨companion, if_pos ⟨rfl, after⟩, accepted', same⟩
          · exact fun own => by cases own.symm.trans here
    · refine Or.inr (Config.exists_own ⟨attr, ?_, accepted, rfl⟩)
      dsimp only
      rw [after]
      exact handling

end Step

theorem pursued_of_reach (reach : (machine pb o τ header).ReachWhen (NoneMissed o) s) : Pursued o s := by
  refine reach.invariant_of_reach ?_ ?_
  · exact ⟨fun _ made => (by cases made), fun _ declared => (by cases declared), fun _ _ _ lists => (by cases lists),
      fun listening => (by cases listening)⟩
  · rintro s ⟨t, c⟩ s' before pursued heard step
    obtain ⟨m', l', moved, rfl⟩ := Config.move_eq_some.mp step
    have holds := holds_of_reach before
    exact pursued_step holds.shared holds.thread pursued heard (act_moves moved)

/-- Once the recorder is started and no operation is in progress, every eligible channel has one reader and one section,
and no other channel has either. -/
theorem complete_when_noneMissed (reach : (machine pb o τ header).ReachWhen (NoneMissed o) s)
    (idle : ∀ t, s.thread t = .idle) (started : s.shared.isStarted = true) : Complete o s.shared := by
  have inv := (holds_of_reach reach.reach).shared
  have pursued := pursued_of_reach reach
  have stored : ∀ channelName, Covered o s channelName → channelName ∈ s.shared.channelReaderMap := by
    intro channelName covered
    refine covered.resolve_right ?_
    rintro ⟨t, attr, handling, -⟩
    rw [idle t] at handling
    cases handling
  have readers : ∀ channelName, channelName ∈ s.shared.channelReaderMap ↔ Eligible o s.shared channelName := by
    refine fun channelName => ⟨fun member => inv.eligible channelName (inv.stored channelName member), ?_⟩
    rintro ⟨⟨attr, member, rfl, described⟩, recorded⟩
    have accepted := (accepts_iff (inv.announced attr member)).mpr ⟨described, recorded⟩
    exact stored _ (pursued.listening (inv.started started) attr member accepted)
  refine ⟨readers, fun channelName eligible => ?_, fun channelName other => ?_⟩
  · have declared := inv.stored channelName ((readers channelName).mpr eligible)
    rw [Shared.sections, inv.writer.sections]
    exact if_pos declared
  · refine List.length_eq_zero_iff.mp ?_
    rw [Shared.sections, inv.writer.sections]
    exact if_neg fun declared => other (inv.eligible channelName declared)

end Runs

def allChannels : Options :=
  ⟨true, [], []⟩

def talker : WriterAttributes :=
  { RoleAttributes.empty with
    channelName := some "a", channelId := some 1, id := some 2, messageType := some "t", protoDesc := some "d" }

/-- The writer has joined when the recorder takes the list. -/
def joinsBefore : List (Bool × Input) :=
  [(true, .join .writer talker), (true, .next), (false, .start)] ++ List.replicate 8 (false, .next)

/-- The writer joins after the recorder has taken the list, and calls the listeners before the recorder is one. -/
def joinsBetween : List (Bool × Input) :=
  [(false, .start), (false, .next), (true, .join .writer talker), (true, .next), (false, .next), (false, .next)]

theorem joinsBefore_complete :
    Complete allChannels ((machine (Wire.protobuf .none) allChannels Bool .empty).stateAt joinsBefore 11).shared := by
  have meets : (machine (Wire.protobuf .none) allChannels Bool .empty).Meets (NoneMissed allChannels)
      (machine (Wire.protobuf .none) allChannels Bool .empty).init joinsBefore := by
    refine ⟨fun _ at_ => (by cases at_), fun _ at_ => (by cases at_), fun _ at_ => (by cases at_),
      fun _ at_ => (by cases at_), fun _ at_ => (by cases at_), fun _ at_ => (by cases at_),
      fun _ at_ => (by cases at_), fun _ at_ => (by cases at_), fun _ at_ => (by cases at_), ?_,
      fun _ at_ => (by cases at_), trivial⟩
    rintro _ ⟨⟩ attr member accepted
    exact ⟨attr, accepted, rfl, Or.inl member⟩
  have reach := Machine.stateAt_reachWhen joinsBefore meets rfl
  exact complete_when_noneMissed reach (fun t => (by cases t <;> rfl)) rfl

/-- No reader of the channel is ever made, although no operation is in progress and the recorder is started. -/
theorem joinsBetween_missed :
    let s := (machine (Wire.protobuf .none) allChannels Bool .empty).stateAt joinsBetween 6
    (machine (Wire.protobuf .none) allChannels Bool .empty).Reach s ∧ (∀ t, s.thread t = .idle) ∧
      s.shared.isStarted = true ∧ Eligible allChannels s.shared "a" ∧ s.shared.sections "a" = [] ∧
      ¬ Complete allChannels s.shared := by
  intro s
  have eligible : Eligible allChannels s.shared "a" :=
    ⟨⟨talker, List.mem_singleton_self _, rfl, by decide, by decide⟩, Or.inl rfl, List.not_mem_nil⟩
  refine ⟨Machine.stateAt_reach joinsBetween rfl, fun t => (by cases t <;> rfl), rfl, eligible, rfl, fun complete => ?_⟩
  have stored := (complete.readers "a").mpr eligible
  cases stored

end CyberRT.Record.Recorder.Discovery
