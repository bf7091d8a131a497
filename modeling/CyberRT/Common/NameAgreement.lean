import CyberRT.Common.NameTables

namespace CyberRT
open Concur
variable {hash : String → UInt64} {names : NameKind → Set String}

namespace NameTables
variable {gd gd' : NameTables} {name : String} {kind : NameKind}

/-- The ids of this process are the hash values of the names. -/
def Plain (hash : String → UInt64) (names : NameKind → Set String) (gd : NameTables) : Prop :=
  ∀ kind, (gd.idMap kind).Plain hash (names kind)

theorem plain_empty : Plain hash names empty := by
  intro kind
  rw [idMap_empty]
  exact IdMap.plain_empty _ _

theorem Plain.register (plain : Plain hash names gd) (apart : Set.InjOn hash (names kind)) (known : name ∈ names kind) :
    ∃ gd', gd.register hash name kind = some (hash name, gd') ∧ Plain hash names gd' := by
  obtain ⟨map, registered, after⟩ := (plain kind).register apart known
  refine ⟨_, register_eq_some registered, fun kind' => ?_⟩
  rw [idMap_setIdMap]
  split
  · rename_i same
    exact same ▸ after
  · exact plain kind'

end NameTables

namespace Process
variable {p : Process} {name : String}

/-- The coroutines are registered under the hash values of their names, and there is none after the shutdown. -/
structure Proper (hash : String → UInt64) (names : NameKind → Set String) (p : Process) : Prop where
  plain : p.names.Plain hash names
  own : ∀ id cr, p.idCr.lookup id = some cr → cr.id = id ∧ id = hash cr.name ∧ cr.name ∈ names .task
  stopped : p.stop = true → ∀ id, p.idCr.lookup id = none

theorem removeCRoutine_lookup (p : Process) (crid id : UInt64) :
    (p.removeCRoutine crid).2.idCr.lookup id = if id = crid then none else p.idCr.lookup id := by
  unfold removeCRoutine
  split
  · exact Table.lookup_erase_eq p.idCr crid id
  · rename_i absent
    split
    · rename_i same
      rw [same]
      exact Option.not_isSome_iff_eq_none.mp absent
    · rfl

theorem removeCRoutine_names (p : Process) (crid : UInt64) : (p.removeCRoutine crid).2.names = p.names := by
  unfold removeCRoutine
  split <;> rfl

theorem removeCRoutine_stop (p : Process) (crid : UInt64) : (p.removeCRoutine crid).2.stop = p.stop := by
  unfold removeCRoutine
  split <;> rfl

theorem removeAll_lookup (p : Process) (crList : List UInt64) (id : UInt64) :
    (p.removeAll crList).idCr.lookup id = if id ∈ crList then none else p.idCr.lookup id := by
  induction crList generalizing p with
  | nil => rfl
  | cons crid crList ih =>
    rw [removeAll, List.foldl_cons, ← removeAll, ih, removeCRoutine_lookup]
    by_cases now : id = crid <;> by_cases later : id ∈ crList <;> simp [now, later]

theorem removeAll_names (p : Process) (crList : List UInt64) : (p.removeAll crList).names = p.names := by
  induction crList generalizing p with
  | nil => rfl
  | cons crid crList ih => exact (ih (p.removeCRoutine crid).2).trans (removeCRoutine_names p crid)

theorem Proper.removeCRoutine (proper : p.Proper hash names) (crid : UInt64) :
    (p.removeCRoutine crid).2.Proper hash names where
  plain := (removeCRoutine_names p crid).symm ▸ proper.plain
  own id cr found := by
    rw [removeCRoutine_lookup] at found
    split at found
    · cases found
    · exact proper.own id cr found
  stopped stop id := by
    rw [removeCRoutine_stop] at stop
    rw [removeCRoutine_lookup, proper.stopped stop id, ite_self]

theorem Proper.removeTask (proper : p.Proper hash names) (name : String) :
    (p.removeTask hash name).2.Proper hash names := by
  unfold Process.removeTask
  split
  · exact proper
  · exact proper.removeCRoutine _

theorem Proper.shutdown (proper : p.Proper hash names) : p.shutdown.Proper hash names := by
  unfold Process.shutdown
  split
  · exact proper
  · have empty : ∀ id, (removeAll { p with stop := true } (p.idCr.entries.map fun item => item.2.id)).idCr.lookup id =
        none := by
      intro id
      rw [removeAll_lookup]
      cases found : p.idCr.lookup id with
      | none => exact ite_self _
      | some cr =>
        have listed := List.mem_map_of_mem (f := fun item => item.2.id) (Table.mem_entries_iff.mpr found)
        rw [if_pos ((proper.own id cr found).1 ▸ listed)]
    refine ⟨(removeAll_names _ _).symm ▸ proper.plain, fun id cr found => ?_, fun _ => empty⟩
    rw [empty] at found
    cases found

theorem Proper.createTask (proper : p.Proper hash names) (apart : Set.InjOn hash (names .task))
    (known : name ∈ names .task) : ∃ r, p.createTask hash name = some r ∧ r.2.Proper hash names := by
  unfold Process.createTask
  split
  · exact ⟨_, rfl, proper⟩
  · rename_i running
    obtain ⟨gd, registered, plain⟩ := proper.plain.register apart known
    rw [show p.names.registerTaskName hash name = some (hash name, gd) from registered]
    refine ⟨_, rfl, ?_⟩
    unfold Process.dispatchTask
    split
    · exact ⟨plain, proper.own, proper.stopped⟩
    · refine ⟨plain, fun id cr found => ?_, fun stop => absurd stop running⟩
      rw [Table.lookup_insert_eq] at found
      split at found
      · rename_i here
        cases found
        exact ⟨here.symm, here, known⟩
      · exact proper.own id cr found

/-- A task is removed, and no other one. -/
theorem Proper.removes (proper : p.Proper hash names) (apart : Set.InjOn hash (names .task))
    (known : name ∈ names .task) (id : UInt64) (cr : Task) :
    (p.removeTask hash name).2.idCr.lookup id = some cr ↔ p.idCr.lookup id = some cr ∧ cr.name ≠ name := by
  unfold Process.removeTask
  split
  · rename_i stopped
    simp [proper.stopped stopped id]
  · rw [removeCRoutine_lookup, NameTables.generateHashId]
    constructor
    · intro found
      split at found
      · cases found
      · rename_i other
        refine ⟨found, fun same => other ?_⟩
        rw [(proper.own id cr found).2.1, same]
    · rintro ⟨found, other⟩
      obtain ⟨_, filed, member⟩ := proper.own id cr found
      rw [if_neg fun same => other (apart member known (filed.symm.trans same))]
      exact found

end Process

namespace Processes
variable {π : Type} [DecidableEq π] {s s' : Processes π} {e : Event π}

/-- The event is about names of the given sets. -/
def Uses (names : NameKind → Set String) (_ : Processes π) : Event π → Prop
  | .register _ kind name => name ∈ names kind
  | .createTask _ name | .removeTask _ name => name ∈ names .task
  | .shutdown _ => True

/-- The ids agree: a task is removed by its name, the services are looked up under their ids, and every process gives a
name the id that another process has given it. -/
structure Agrees (hash : String → UInt64) (names : NameKind → Set String) (s : Processes π) : Prop where
  tasks : ∀ p, ∀ name ∈ names .task, ∀ id cr, ((s.process p).removeTask hash name).2.idCr.lookup id = some cr ↔
    (s.process p).idCr.lookup id = some cr ∧ cr.name ≠ name
  services : ∀ known ∈ s.issued, known.kind = .service → ∀ m : ServiceManager,
    m.hasService hash known.name = m.servers.search known.id ∧
      m.getClients hash known.name = (m.clients.search known.id).map fun role => role.attributes
  ids : ∀ known ∈ s.issued, known.kind ≠ .task → ∀ p id gd,
    (s.process p).names.register hash known.name known.kind = some (id, gd) → id = known.id

/-- The ids are hash values. -/
structure Proper (hash : String → UInt64) (names : NameKind → Set String) (s : Processes π) : Prop where
  processes : ∀ p, (s.process p).Proper hash names
  issued : ∀ known ∈ s.issued, known.id = hash known.name ∧ known.name ∈ names known.kind

theorem Proper.setProcess (proper : s.Proper hash names) (p : π) {after : Process} (changed : after.Proper hash names) :
    (s.setProcess p after).Proper hash names where
  processes q := by
    by_cases same : q = p
    · subst same
      simpa [Processes.setProcess] using changed
    · simpa [Processes.setProcess, same] using proper.processes q
  issued := proper.issued

theorem Proper.step (apart : ∀ kind, Set.InjOn hash (names kind)) (proper : s.Proper hash names) (uses : Uses names s e)
    (step : (machine π hash).step s e = some s') : s'.Proper hash names := by
  cases e with
  | register p kind name =>
    obtain ⟨gd, registered, plain⟩ := (proper.processes p).plain.register (apart kind) uses
    simp only [machine, registered, Option.bind_eq_bind, Option.bind_some, Option.pure_def, Option.some.injEq] at step
    subst step
    have after : ({ s.process p with names := gd } : Process).Proper hash names :=
      ⟨plain, (proper.processes p).own, (proper.processes p).stopped⟩
    have changed := proper.setProcess p after
    refine ⟨changed.processes, fun known member => ?_⟩
    rcases List.mem_append.mp member with old | new
    · exact proper.issued known old
    · rw [List.mem_singleton.mp new]
      exact ⟨rfl, uses⟩
  | createTask p name =>
    obtain ⟨r, created, changed⟩ := (proper.processes p).createTask (apart .task) uses
    simp only [machine, created, Option.map_some, Option.some.injEq] at step
    subst step
    exact proper.setProcess p changed
  | removeTask p name =>
    cases step
    exact proper.setProcess p ((proper.processes p).removeTask name)
  | shutdown p =>
    cases step
    exact proper.setProcess p (proper.processes p).shutdown

theorem reach_proper (apart : ∀ kind, Set.InjOn hash (names kind)) (reach : (machine π hash).ReachWhen (Uses names) s) :
    s.Proper hash names := by
  refine Machine.ReachWhen.invariant ⟨fun p => ⟨NameTables.plain_empty, nofun, fun _ _ => rfl⟩, nofun⟩ ?_ reach
  intro s e s' proper uses step
  exact proper.step apart uses step

omit [DecidableEq π] in
theorem Proper.agrees (apart : ∀ kind, Set.InjOn hash (names kind)) (proper : s.Proper hash names) :
    s.Agrees hash names where
  tasks p name known id cr := (proper.processes p).removes (apart .task) known id cr
  services known member _ m := by
    rw [(proper.issued known member).1]
    exact ⟨rfl, rfl⟩
  ids known member _ p id gd registered := by
    obtain ⟨own, inside⟩ := proper.issued known member
    obtain ⟨gd', again, _⟩ := (proper.processes p).plain.register (apart known.kind) inside
    rw [again] at registered
    cases registered
    exact own.symm

section Collision
variable {first second : String}

theorem succ_ne (id : UInt64) : id + 1 ≠ id := by
  intro same
  have zero : (1 : UInt64) = 0 := by
    rw [← UInt64.add_right_inj id, same, UInt64.add_zero]
  cases zero

/-- The second one of two names gets the next id. -/
theorem register_second (collide : hash first = hash second) (different : first ≠ second) :
    ∃ map, IdMap.register hash ∅ first = some (hash first, map) ∧
      ∃ map', IdMap.register hash map second = some (hash first + 1, map') := by
  obtain ⟨map, stored, one, taken, free⟩ : ∃ map : IdMap, IdMap.register hash ∅ first = some (hash first, map) ∧
      map.size = 1 ∧ map.lookup (hash first) = some first ∧ map.lookup (hash first + 1) = none := by
    refine ⟨AList.insert (hash first) first ∅, rfl, rfl, AList.lookup_insert _, ?_⟩
    exact AList.lookup_insert_ne (succ_ne _)
  have probed : IdMap.probe map second 2 (hash second) = some (hash first + 1) := by
    rw [← collide]
    simp [IdMap.probe, taken, different.symm, free]
  exact ⟨map, stored, map.insert (hash first + 1) second, by simp [IdMap.register, one, probed]⟩

/-- The tables after two names. -/
theorem names_second (kind : NameKind) (collide : hash first = hash second) (different : first ≠ second) :
    ∃ gd, NameTables.empty.register hash first kind = some (hash first, gd) ∧
      ∃ gd', gd.register hash second kind = some (hash first + 1, gd') := by
  obtain ⟨map, one, map', two⟩ := register_second collide different
  have again : ((NameTables.empty.setIdMap map kind).idMap kind).register hash second =
      some (hash first + 1, map') := by
    rw [NameTables.idMap_setIdMap, if_pos rfl, two]
  refine ⟨_, NameTables.register_eq_some ?_, _, NameTables.register_eq_some again⟩
  rw [NameTables.idMap_empty, one]

theorem step_register {p : π} {kind : NameKind} {name : String} {id : UInt64} {gd : NameTables}
    (registered : (s.process p).names.register hash name kind = some (id, gd)) :
    (machine π hash).step s (.register p kind name) = some { s.setProcess p { s.process p with names := gd } with
      issued := s.issued ++ [⟨kind, name, id⟩] } := by
  simp only [machine, registered]
  rfl

theorem step_createTask {p : π} {name : String} {id : UInt64} {gd : NameTables} (running : (s.process p).stop = false)
    (registered : (s.process p).names.register hash name .task = some (id, gd))
    (free : (s.process p).idCr.lookup id = none) :
    (machine π hash).step s (.createTask p name) =
      some (s.setProcess p ⟨gd, (s.process p).idCr.insert id ⟨id, name⟩, false⟩) := by
  rw [NameTables.register] at registered
  simp [machine, Process.createTask, running, registered, Process.dispatchTask, free]

/-- Another process, which does not know the first name, gives the second one its hash value. -/
theorem ids_disagree {kind : NameKind} (proper : kind ≠ .task) (inFirst : first ∈ names kind)
    (inSecond : second ∈ names kind) (collide : hash first = hash second) (different : first ≠ second) {p q : π}
    (apart : p ≠ q) : ∃ s, (machine π hash).ReachWhen (Uses names) s ∧ ¬ s.Agrees hash names := by
  obtain ⟨gd, one, gd', two⟩ := names_second kind collide different
  obtain ⟨gd'', fresh, _⟩ := names_second kind collide.symm different.symm
  have step := step_register (s := (machine π hash).init) (p := p) one
  obtain ⟨s, reach, known, here⟩ : ∃ s, (machine π hash).ReachWhen (Uses names) s ∧
      (s.process p).names = gd ∧ s.process q = .create :=
    ⟨_, .next (e := .register p kind first) .start inFirst step, by simp [setProcess],
      by simp [setProcess, apart.symm]; rfl⟩
  have step' := step_register (s := s) (p := p) (known.symm ▸ two)
  refine ⟨_, .next (e := .register p kind second) reach inSecond step', fun agrees => ?_⟩
  have own := agrees.ids ⟨kind, second, hash first + 1⟩ (by simp) proper q (hash second) gd'' (by
    simpa [setProcess, apart.symm, here, Process.create] using fresh)
  exact succ_ne (hash first) (own.symm.trans collide.symm)

/-- The name of the second task removes the first one. -/
theorem tasks_disagree (inFirst : first ∈ names .task) (inSecond : second ∈ names .task)
    (collide : hash first = hash second) (different : first ≠ second) (p : π) :
    ∃ s, (machine π hash).ReachWhen (Uses names) s ∧ ¬ s.Agrees hash names := by
  obtain ⟨gd, one, gd', two⟩ := names_second .task collide different
  have step := step_createTask (s := (machine π hash).init) (p := p) rfl one rfl
  refine ⟨_, .next (e := .createTask p first) .start inFirst step, fun agrees => ?_⟩
  have removed := (agrees.tasks p second inSecond (hash first) ⟨hash first, first⟩).mpr
    ⟨by simp [setProcess], different⟩
  simp [setProcess, Process.removeTask, Process.removeCRoutine_lookup, NameTables.generateHashId, collide] at removed

end Collision

/-- The ids agree in every run over the names if and only if no two names of a kind have the same hash value. -/
theorem ids_agree_iff [Nontrivial π] (hash : String → UInt64) (names : NameKind → Set String) :
    (∀ s, (machine π hash).ReachWhen (Uses names) s → s.Agrees hash names) ↔ ∀ kind, Set.InjOn hash (names kind) := by
  constructor
  · intro agree kind first inFirst second inSecond collide
    by_contra different
    obtain ⟨p, q, apart⟩ := exists_pair_ne π
    obtain ⟨s, reach, disagrees⟩ : ∃ s, (machine π hash).ReachWhen (Uses names) s ∧ ¬ s.Agrees hash names := by
      by_cases task : kind = .task
      · subst task
        exact tasks_disagree inFirst inSecond collide different p
      · exact ids_disagree task inFirst inSecond collide different apart
    exact disagrees (agree s reach)
  · intro apart s reach
    exact (reach_proper apart reach).agrees apart

/-- Two channels, which the processes register in different orders. -/
def twoOrders : List (Event Bool) :=
  [.register false .channel "a", .register false .channel "bb", .register true .channel "bb", .register true .channel "a"]

theorem ids_agree_iff_twoOrders :
    let hash : String → UInt64 := fun name => name.length.toUInt64
    let s := (machine Bool hash).stateAt twoOrders 4
    s.issued.map (fun known => (known.name, known.id)) = [("a", 1), ("bb", 2), ("bb", 2), ("a", 1)] ∧
      s.Agrees hash fun _ => {"a", "bb"} := by
  intro hash s
  have apart : Set.InjOn hash {"a", "bb"} := by
    rintro first (rfl | rfl) second (rfl | rfl) same
    · rfl
    · exact absurd same (by decide)
    · exact absurd same (by decide)
    · rfl
  have uses : (machine Bool hash).Meets (Uses fun _ => {"a", "bb"}) (machine Bool hash).init twoOrders :=
    ⟨Or.inl rfl, Or.inr rfl, Or.inr rfl, Or.inl rfl, trivial⟩
  have reach : (machine Bool hash).ReachWhen (Uses fun _ => {"a", "bb"}) s :=
    Machine.stateAt_reachWhen twoOrders uses (by decide)
  exact ⟨by decide, (ids_agree_iff (π := Bool) hash fun _ => {"a", "bb"}).mpr (fun _ => apart) s reach⟩

/-- Tasks, services and channels of two names. -/
def twoNames : List (Event Bool) :=
  [.createTask false "a", .createTask false "b", .register false .service "a", .register false .service "b",
    .register false .channel "a", .register false .channel "b"]

/-- The name of the second task removes the first one, the second service is looked up under the id of the first one,
and the id of the second channel is another one in the other process. -/
theorem twoNames_disagree :
    let hash : String → UInt64 := fun _ => 7
    let s := (machine Bool hash).stateAt twoNames 6
    (machine Bool hash).Reach s ∧ ¬ s.Agrees hash (fun _ => Set.univ) ∧
    (((s.process false).idCr.lookup 7 = some ⟨7, "a"⟩ ∧ (s.process false).idCr.lookup 8 = some ⟨8, "b"⟩) ∧
      ((s.process false).removeTask hash "b").2.idCr.lookup 7 = none ∧
      ((s.process false).removeTask hash "b").2.idCr.lookup 8 = some ⟨8, "b"⟩) ∧
    (⟨.service, "b", 8⟩ ∈ s.issued ∧ ∀ m : ServiceManager, m.hasService hash "b" = m.servers.search 7) ∧
    (⟨.channel, "b", 8⟩ ∈ s.issued ∧
      ((s.process true).names.register hash "b" .channel).map (fun r => r.1) = some 7) := by
  intro hash s
  have removed : ((s.process false).removeTask hash "b").2.idCr.lookup 7 = none := by decide
  have present : (s.process false).idCr.lookup 7 = some ⟨7, "a"⟩ := by decide
  refine ⟨(machine Bool hash).stateAt_reach twoNames (by decide), fun agrees => ?_,
    ⟨⟨present, by decide⟩, removed, by decide⟩, ⟨by decide, fun m => rfl⟩, by decide, by decide⟩
  have kept := (agrees.tasks false "b" trivial 7 ⟨7, "a"⟩).mpr ⟨present, by decide⟩
  rw [removed] at kept
  cases kept

end Processes

end CyberRT
