import CyberRT.ClassLoader.ClassLoaderUtility
import Mathlib.Data.List.Nodup
import Mathlib.Logic.Function.Basic

namespace CyberRT
open Concur

variable {classes : String → List (String × String)} {owners : String → List Nat} {libraryPath : String} {loader : Nat}

namespace ClassLoaderUtility
variable {u : ClassLoaderUtility} {name : String × String} {f : ClassFactory}

theorem mem_getAllClassFactoryObjectsOfLibrary : f ∈ u.getAllClassFactoryObjectsOfLibrary libraryPath ↔
    ∃ name, u.classFactoryMap.lookup name = some f ∧ f.relativeLibraryPath = libraryPath := by
  simp only [getAllClassFactoryObjectsOfLibrary, List.mem_filter, List.mem_map, decide_eq_true_eq]
  constructor
  · rintro ⟨⟨item, member, rfl⟩, same⟩
    exact ⟨item.1, Table.mem_entries_iff.mp member, same⟩
  · rintro ⟨name, found, same⟩
    exact ⟨⟨⟨name, f⟩, Table.mem_entries_iff.mpr found, rfl⟩, same⟩

/-- The loader does not matter: a library is loaded for every loader if it is open. -/
theorem isLibraryLoaded_iff : u.isLibraryLoaded libraryPath loader = true ↔ libraryPath ∈ u.openedLibraries := by
  unfold isLibraryLoaded isLibraryLoadedByAnybody
  dsimp only
  split
  · rename_i open_
    exact iff_of_true rfl (by simpa using open_.1)
  · simp [List.length_filter_le]

theorem createClassObj_eq_some {base className : String} :
    u.createClassObj base className loader = some libraryPath ↔
      ∃ f, u.classFactoryMap.lookup (base, className) = some f ∧
        loader ∈ f.relativeClassLoaders ∧ f.relativeLibraryPath = libraryPath := by
  unfold createClassObj
  split
  · rename_i f found
    simp [found, ClassFactory.isOwnedBy]
  · rename_i missing
    simp [missing]

theorem mem_getValidClassNames {base className : String} :
    className ∈ u.getValidClassNames base loader ↔ ∃ f, u.classFactoryMap.lookup (base, className) = some f ∧
      loader ∈ f.relativeClassLoaders := by
  simp only [getValidClassNames, ClassFactory.isOwnedBy, List.mem_map, List.mem_filter, decide_eq_true_eq]
  constructor
  · rintro ⟨⟨⟨_, _⟩, f⟩, ⟨member, rfl, owned⟩, rfl⟩
    exact ⟨f, Table.mem_entries_iff.mp member, owned⟩
  · rintro ⟨f, found, owned⟩
    exact ⟨⟨(base, className), f⟩, ⟨Table.mem_entries_iff.mpr found, rfl, owned⟩, rfl⟩

/-- The factories are those of the classes of the open libraries, and each library has its owners. -/
structure Describes (classes : String → List (String × String)) (owners : String → List Nat)
    (u : ClassLoaderUtility) : Prop where
  opened : u.openedLibraries.Nodup
  nodup : ∀ libraryPath, (owners libraryPath).Nodup
  factories : ∀ name f, u.classFactoryMap.lookup name = some f ↔
    ∃ libraryPath ∈ u.openedLibraries, name ∈ classes libraryPath ∧ f = ⟨libraryPath, owners libraryPath⟩

theorem Describes.createClassObj (described : u.Describes classes owners) {base className : String} :
    u.createClassObj base className loader = some libraryPath ↔
      libraryPath ∈ u.openedLibraries ∧ (base, className) ∈ classes libraryPath ∧ loader ∈ owners libraryPath := by
  rw [createClassObj_eq_some]
  constructor
  · rintro ⟨f, found, owned, rfl⟩
    obtain ⟨libraryPath, inside, named, rfl⟩ := (described.factories _ f).mp found
    exact ⟨inside, named, owned⟩
  · rintro ⟨inside, named, owned⟩
    exact ⟨_, (described.factories _ _).mpr ⟨libraryPath, inside, named, rfl⟩, owned, rfl⟩

/-- The owners after a loader is added. -/
def adding (owners : List Nat) (loader : Nat) : List Nat :=
  if loader ∈ owners then owners else owners ++ [loader]

theorem mem_adding {owners : List Nat} {k : Nat} : k ∈ adding owners loader ↔ k ∈ owners ∨ k = loader := by
  unfold adding
  split
  · rename_i inside
    exact ⟨Or.inl, fun member => member.elim id fun same => same ▸ inside⟩
  · rw [List.mem_append, List.mem_singleton]

theorem nodup_adding {owners : List Nat} (nodup : owners.Nodup) : (adding owners loader).Nodup := by
  unfold adding
  split
  · exact nodup
  · rename_i outside
    exact List.nodup_append.mpr ⟨nodup, List.nodup_singleton _, fun k inside l last same =>
      outside (List.mem_singleton.mp last ▸ same ▸ inside)⟩

theorem nodup_update {owners' : List Nat} (nodup : ∀ libraryPath, (owners libraryPath).Nodup) (new : owners'.Nodup)
    (libraryPath p : String) : (Function.update owners libraryPath owners' p).Nodup := by
  by_cases same : p = libraryPath
  · rw [same, Function.update_self]
    exact new
  · rw [Function.update_of_ne same]
    exact nodup p

theorem addOwnedClassLoader_eq (libraryPath : String) (owners : List Nat) (loader : Nat) :
    ClassFactory.addOwnedClassLoader ⟨libraryPath, owners⟩ loader = ⟨libraryPath, adding owners loader⟩ := by
  unfold ClassFactory.addOwnedClassLoader adding
  split <;> rfl

theorem Describes.attach (described : u.Describes classes owners) (libraryPath : String) (loader : Nat) :
    (u.attach libraryPath loader).Describes classes
      (Function.update owners libraryPath (adding (owners libraryPath) loader)) where
  opened := described.opened
  nodup := nodup_update described.nodup (nodup_adding (described.nodup libraryPath)) libraryPath
  factories name f := by
    have attached : ∀ p,
        (if p = libraryPath then ClassFactory.addOwnedClassLoader ⟨p, owners p⟩ loader else ⟨p, owners p⟩) =
          ⟨p, Function.update owners libraryPath (adding (owners libraryPath) loader) p⟩ := by
      intro p
      split
      · rename_i same
        rw [addOwnedClassLoader_eq, same, Function.update_self]
      · rename_i different
        rw [Function.update_of_ne different]
    rw [ClassLoaderUtility.attach, Table.lookup_filterMap, Option.bind_eq_some_iff]
    constructor
    · rintro ⟨f, found, made⟩
      obtain ⟨p, inside, named, rfl⟩ := (described.factories name f).mp found
      exact ⟨p, inside, named, (Option.some.inj made).symm.trans (attached p)⟩
    · rintro ⟨p, inside, named, rfl⟩
      exact ⟨_, (described.factories name _).mpr ⟨p, inside, named, rfl⟩, congrArg some (attached p)⟩

theorem lookup_foldl_registerClass (names : List (String × String)) :
    (names.foldl (registerClass libraryPath loader) u).classFactoryMap.lookup name =
      if name ∈ names then some ⟨libraryPath, [loader]⟩ else u.classFactoryMap.lookup name := by
  induction names generalizing u with
  | nil => rfl
  | cons first names ih =>
    rw [List.foldl_cons, ih, registerClass, Table.lookup_insert_eq]
    by_cases later : name ∈ names
    · rw [if_pos later, if_pos (List.mem_cons_of_mem _ later)]
    · simp [later]

theorem openedLibraries_foldl_registerClass (names : List (String × String)) :
    (names.foldl (registerClass libraryPath loader) u).openedLibraries = u.openedLibraries := by
  induction names generalizing u with
  | nil => rfl
  | cons first names ih => rw [List.foldl_cons, ih, registerClass]

theorem loadLibrary_of_closed (closed : libraryPath ∉ u.openedLibraries) :
    u.loadLibrary classes true libraryPath loader =
      (true, { (classes libraryPath).foldl (registerClass libraryPath loader) u with
                 openedLibraries := u.openedLibraries ++ [libraryPath] }) := by
  simp [loadLibrary, isLibraryLoadedByAnybody, closed, openedLibraries_foldl_registerClass]

theorem Describes.opening (described : u.Describes classes owners) (closed : libraryPath ∉ u.openedLibraries)
    (fresh : ∀ name ∈ classes libraryPath, name ∉ u.classFactoryMap) :
    (u.loadLibrary classes true libraryPath loader).2.Describes classes
      (Function.update owners libraryPath [loader]) := by
  rw [loadLibrary_of_closed closed]
  have different : ∀ p ∈ u.openedLibraries, p ≠ libraryPath := fun p inside same => closed (same ▸ inside)
  refine ⟨?_, nodup_update described.nodup (List.nodup_singleton loader) libraryPath, fun name f => ?_⟩
  · exact List.nodup_append.mpr ⟨described.opened, List.nodup_singleton _, fun p inside q last same =>
      different p inside (same.trans (List.mem_singleton.mp last))⟩
  dsimp only
  rw [lookup_foldl_registerClass]
  split
  · rename_i named
    constructor
    · rintro made
      refine ⟨libraryPath, List.mem_append_right _ (List.mem_singleton_self _), named, ?_⟩
      rw [Function.update_self]
      exact (Option.some.inj made).symm
    · rintro ⟨p, inside, other, rfl⟩
      -- A class of another library under the same names would be registered already.
      have same : p = libraryPath := (List.mem_append.mp inside).elim
        (fun inside => absurd (Table.mem_iff_lookup.mpr ⟨_, (described.factories name _).mpr ⟨p, inside, other, rfl⟩⟩)
          (fresh name named)) List.mem_singleton.mp
      rw [same, Function.update_self]
  · rename_i unnamed
    rw [described.factories]
    constructor
    · rintro ⟨p, inside, named, rfl⟩
      exact ⟨p, List.mem_append_left _ inside, named, by rw [Function.update_of_ne (different p inside)]⟩
    · rintro ⟨p, inside, named, rfl⟩
      have inside := (List.mem_append.mp inside).resolve_right fun last => unnamed (List.mem_singleton.mp last ▸ named)
      exact ⟨p, inside, named, by rw [Function.update_of_ne (different p inside)]⟩

/-- Which factories are left after a loader gave up those of its library. -/
theorem Describes.destroy (described : u.Describes classes owners) (owner : loader ∈ owners libraryPath) :
    (u.destroyClassFactoryObjectsOfLibrary libraryPath loader).classFactoryMap.lookup name = some f ↔
      ∃ p ∈ u.openedLibraries, name ∈ classes p ∧ (p = libraryPath → (owners libraryPath).erase loader ≠ []) ∧
        f = ⟨p, Function.update owners libraryPath ((owners libraryPath).erase loader) p⟩ := by
  rw [destroyClassFactoryObjectsOfLibrary, Table.lookup_filterMap, Option.bind_eq_some_iff]
  have kept : ∀ p, (if p = libraryPath ∧ ClassFactory.isOwnedBy ⟨p, owners p⟩ loader then
        if ((⟨p, owners p⟩ : ClassFactory).removeOwnedClassLoader loader).isOwnedByAnybody then
          some ((⟨p, owners p⟩ : ClassFactory).removeOwnedClassLoader loader) else none
      else some ⟨p, owners p⟩) = some f ↔ (p = libraryPath → (owners libraryPath).erase loader ≠ []) ∧
        f = ⟨p, Function.update owners libraryPath ((owners libraryPath).erase loader) p⟩ := by
    intro p
    by_cases same : p = libraryPath
    · subst same
      rw [if_pos ⟨rfl, decide_eq_true owner⟩, Function.update_self, ClassFactory.removeOwnedClassLoader]
      by_cases last : (owners p).erase loader = []
      · simp [ClassFactory.isOwnedByAnybody, last]
      · simp only [ClassFactory.isOwnedByAnybody, List.isEmpty_eq_false_iff.mpr last]
        exact ⟨fun made => ⟨fun _ => last, (Option.some.inj made).symm⟩, fun made => congrArg some made.2.symm⟩
    · rw [if_neg fun both => same both.1, Function.update_of_ne same]
      exact ⟨fun made => ⟨fun here => absurd here same, (Option.some.inj made).symm⟩,
        fun made => congrArg some made.2.symm⟩
  constructor
  · rintro ⟨f, found, made⟩
    obtain ⟨p, inside, named, rfl⟩ := (described.factories name f).mp found
    exact ⟨p, inside, named, (kept p).mp made⟩
  · rintro ⟨p, inside, named, made⟩
    exact ⟨_, (described.factories name _).mpr ⟨p, inside, named, rfl⟩, (kept p).mpr made⟩

/-- The library is closed if it has no classes, or if the loader was the last owner. -/
theorem Describes.unloadLibrary (described : u.Describes classes owners) (inside : libraryPath ∈ u.openedLibraries)
    (owner : loader ∈ owners libraryPath) :
    (u.unloadLibrary libraryPath loader).Describes classes
        (Function.update owners libraryPath ((owners libraryPath).erase loader)) ∧
      (u.unloadLibrary libraryPath loader).openedLibraries =
        if classes libraryPath = [] ∨ (owners libraryPath).erase loader = [] then u.openedLibraries.erase libraryPath
        else u.openedLibraries := by
  have nodup := nodup_update described.nodup ((described.nodup libraryPath).erase loader) libraryPath
  have left_ : ∀ name f, (u.destroyClassFactoryObjectsOfLibrary libraryPath loader).classFactoryMap.lookup name = some f ↔
      ∃ p ∈ u.openedLibraries, name ∈ classes p ∧ (p = libraryPath → (owners libraryPath).erase loader ≠ []) ∧
        f = ⟨p, Function.update owners libraryPath ((owners libraryPath).erase loader) p⟩ :=
    fun _ _ => described.destroy owner
  have none_ : (u.destroyClassFactoryObjectsOfLibrary libraryPath loader).getAllClassFactoryObjectsOfLibrary
      libraryPath = [] ↔ classes libraryPath = [] ∨ (owners libraryPath).erase loader = [] := by
    rw [List.eq_nil_iff_forall_not_mem]
    constructor
    · intro gone
      refine or_iff_not_imp_left.mpr fun some_ => by_contra fun others => ?_
      obtain ⟨name, named⟩ := List.exists_mem_of_ne_nil _ some_
      have found := (left_ name _).mpr ⟨libraryPath, inside, named, fun _ => others, rfl⟩
      exact gone _ (mem_getAllClassFactoryObjectsOfLibrary.mpr ⟨name, found, rfl⟩)
    · intro last f member
      obtain ⟨name, found, same⟩ := mem_getAllClassFactoryObjectsOfLibrary.mp member
      obtain ⟨p, -, named, others, rfl⟩ := (left_ name f).mp found
      have same : p = libraryPath := same
      exact last.elim (fun empty => List.not_mem_nil (empty ▸ same ▸ named)) (others same)
  rw [ClassLoaderUtility.unloadLibrary, if_pos inside]
  by_cases last : classes libraryPath = [] ∨ (owners libraryPath).erase loader = []
  · rw [if_pos last]
    dsimp only
    rw [if_pos (none_.mpr last)]
    refine ⟨⟨described.opened.erase _, nodup, fun name f => ?_⟩, rfl⟩
    rw [left_]
    constructor
    · rintro ⟨p, open_, named, others, rfl⟩
      have different : p ≠ libraryPath := fun same =>
        last.elim (fun empty => List.not_mem_nil (empty ▸ same ▸ named)) (others same)
      exact ⟨p, (described.opened.mem_erase_iff).mpr ⟨different, open_⟩, named, rfl⟩
    · rintro ⟨p, open_, named, rfl⟩
      obtain ⟨different, open_⟩ := described.opened.mem_erase_iff.mp open_
      exact ⟨p, open_, named, fun same => absurd same different, rfl⟩
  · rw [if_neg last]
    dsimp only
    rw [if_neg fun gone => last (none_.mp gone)]
    refine ⟨⟨described.opened, nodup, fun name f => ?_⟩, rfl⟩
    rw [left_]
    constructor
    · rintro ⟨p, open_, named, -, rfl⟩
      exact ⟨p, open_, named, rfl⟩
    · rintro ⟨p, open_, named, rfl⟩
      exact ⟨p, open_, named, fun _ => fun alone => last (Or.inr alone), rfl⟩

theorem opened_unloadLibrary {p : String} (inside : p ∈ (u.unloadLibrary libraryPath loader).openedLibraries) :
    p ∈ u.openedLibraries := by
  unfold unloadLibrary at inside
  split at inside
  · dsimp only at inside
    split at inside
    · exact List.mem_of_mem_erase inside
    · exact inside
  · exact inside

theorem unloadLibrary_of_closed (closed : libraryPath ∉ u.openedLibraries) : u.unloadLibrary libraryPath loader = u :=
  if_neg closed

/-- A load that succeeds opens the library if it is not open, and makes the loader one of its owners. -/
structure Loads (owners owners' : String → List Nat) (u : ClassLoaderUtility) (libraryPath : String) (loader : Nat)
    (loaded : Bool) (u' : ClassLoaderUtility) : Prop where
  failed : loaded = false → libraryPath ∉ u.openedLibraries
  opened : ∀ p, p ∈ u'.openedLibraries ↔ p ∈ u.openedLibraries ∨ p = libraryPath ∧ loaded = true
  owner : ∀ p ∈ u'.openedLibraries, ∀ k, k ∈ owners' p ↔
    p ∈ u.openedLibraries ∧ k ∈ owners p ∨ p = libraryPath ∧ loaded = true ∧ k = loader

theorem Describes.loadLibrary (described : u.Describes classes owners) (opens : Bool) (libraryPath : String)
    (loader : Nat) (fresh : libraryPath ∉ u.openedLibraries → opens = true →
      ∀ name ∈ classes libraryPath, name ∉ u.classFactoryMap) :
    ∃ owners', (u.loadLibrary classes opens libraryPath loader).2.Describes classes owners' ∧
      Loads owners owners' u libraryPath loader (u.loadLibrary classes opens libraryPath loader).1
        (u.loadLibrary classes opens libraryPath loader).2 := by
  by_cases inside : libraryPath ∈ u.openedLibraries
  · have result : u.loadLibrary classes opens libraryPath loader = (true, u.attach libraryPath loader) := by
      simp [ClassLoaderUtility.loadLibrary, isLibraryLoadedByAnybody, inside]
    rw [result]
    refine ⟨_, described.attach libraryPath loader, nofun, fun p => ?_, fun p open_ k => ?_⟩
    · exact ⟨Or.inl, fun either => either.elim id fun same => same.1 ▸ inside⟩
    · by_cases same : p = libraryPath
      · simp [same, Function.update_self, mem_adding, inside]
      · have open_ : p ∈ u.openedLibraries := open_
        simp [same, open_]
  · cases opens with
    | true =>
      have result : (u.loadLibrary classes true libraryPath loader).1 = true ∧
          (u.loadLibrary classes true libraryPath loader).2.openedLibraries = u.openedLibraries ++ [libraryPath] := by
        rw [loadLibrary_of_closed inside]
        exact ⟨rfl, rfl⟩
      refine ⟨_, described.opening inside (fresh inside rfl), fun _ => inside, fun p => ?_, fun p open_ k => ?_⟩
      · rw [result.1, result.2, List.mem_append, List.mem_singleton, and_iff_left rfl]
      · rw [result.2, List.mem_append, List.mem_singleton] at open_
        by_cases same : p = libraryPath
        · simp [same, result.1, Function.update_self, inside]
        · simp [same, open_.resolve_right same]
    | false =>
      have result : u.loadLibrary classes false libraryPath loader = (false, u) := by
        simp [ClassLoaderUtility.loadLibrary, isLibraryLoadedByAnybody, inside]
      rw [result]
      refine ⟨owners, described, fun _ => inside, fun p => by simp, fun p open_ k => ?_⟩
      have open_ : p ∈ u.openedLibraries := open_
      simp [open_]

end ClassLoaderUtility

namespace ClassLoaders
variable {s s' : Process} {c c' : ClassLoader} {opens : Bool} {e : Event}

theorem living_eq_some : s.living loader = some c ↔ s.loaders[loader]? = some c ∧ c.alive = true :=
  Option.filter_eq_some_iff

theorem getElem?_modify {xs : List ClassLoader} {g : ClassLoader → ClassLoader} {k : Nat} :
    (xs.modify loader g)[k]? = some c' ↔ ∃ c, xs[k]? = some c ∧ (if loader = k then g c else c) = c' := by
  rw [List.getElem?_modify]
  exact Option.map_eq_some_iff

/-- What the change of a loader keeps stays true of every loader. -/
theorem exists_modify {xs : List ClassLoader} {g : ClassLoader → ClassLoader} {P : ClassLoader → Prop} {k : Nat}
    (keeps : ∀ c, P c → P (g c)) (there : ∃ c, xs[k]? = some c ∧ P c) :
    ∃ c, (xs.modify loader g)[k]? = some c ∧ P c := by
  obtain ⟨c, at_k, holds⟩ := there
  refine ⟨_, getElem?_modify.mpr ⟨c, at_k, rfl⟩, ?_⟩
  split
  · exact keeps c holds
  · exact holds

/-- The owners of an open library are loaders of it. A loader with loads is an owner of its library, which is open. -/
structure Held (classes : String → List (String × String)) (owners : String → List Nat) (s : Process) : Prop where
  described : s.utility.Describes classes owners
  owner : ∀ p ∈ s.utility.openedLibraries, ∀ k ∈ owners p, ∃ c, s.loaders[k]? = some c ∧ c.libraryPath = p
  loads : ∀ (k : Nat) c, s.loaders[k]? = some c → 0 < c.loads →
    c.libraryPath ∈ s.utility.openedLibraries ∧ k ∈ owners c.libraryPath
  count : ∀ (k : Nat) c, s.loaders[k]? = some c → (c.loads : Int) ≤ c.loadlibRefCount

/-- An object is of the library of its loader, which has loads and counts its objects. -/
structure Counted (s : Process) : Prop where
  objects : ∀ obj ∈ s.objects, ∃ c, s.loaders[obj.classLoader]? = some c ∧ c.libraryPath = obj.libraryPath ∧ 0 < c.loads
  count : ∀ (k : Nat) c, s.loaders[k]? = some c → c.classobjRefCount = s.objects.countP fun obj => obj.classLoader = k

/-- A loader that is not destroyed has loads of its library if the library is open. -/
def Served (s : Process) (k : Nat) : Prop :=
  ∀ c, s.living k = some c → c.libraryPath ∈ s.utility.openedLibraries → 0 < c.loads

theorem Held.loadLibrary (held : Held classes owners s) (at_ : s.loaders[loader]? = some c)
    (fresh : c.libraryPath ∉ s.utility.openedLibraries → opens = true →
      ∀ name ∈ classes c.libraryPath, name ∉ s.utility.classFactoryMap) :
    ∃ owners', Held classes owners' (loadLibrary classes s opens c.libraryPath loader) ∧
      ClassLoaderUtility.Loads owners owners' s.utility c.libraryPath loader
        (s.utility.loadLibrary classes opens c.libraryPath loader).1
        (loadLibrary classes s opens c.libraryPath loader).utility := by
  obtain ⟨owners', described, loads⟩ := held.described.loadLibrary opens c.libraryPath loader fresh
  refine ⟨owners', ⟨described, fun p open_ k owner => ?_, fun k c' changed some_ => ?_, fun k c' changed => ?_⟩, loads⟩
  · have old : ∃ c, s.loaders[k]? = some c ∧ c.libraryPath = p := by
      rcases (loads.owner p open_ k).mp owner with ⟨before, owner⟩ | ⟨rfl, -, rfl⟩
      · exact held.owner p before k owner
      · exact ⟨c, at_, rfl⟩
    exact exists_modify (fun _ path => path) old
  · obtain ⟨c', at_k, rfl⟩ := getElem?_modify.mp changed
    have path : (if loader = k then c'.afterLoad (s.utility.loadLibrary classes opens c.libraryPath loader).1
        else c').libraryPath = c'.libraryPath := by split <;> rfl
    rw [path]
    by_cases before : 0 < c'.loads
    · obtain ⟨open_, owner⟩ := held.loads k c' at_k before
      have open_' := (loads.opened _).mpr (Or.inl open_)
      exact ⟨open_', (loads.owner _ open_' k).mpr (Or.inl ⟨open_, owner⟩)⟩
    · split at some_
      · rename_i same
        subst same
        cases Option.some.inj (at_.symm.trans at_k)
        have loaded : (s.utility.loadLibrary classes opens c.libraryPath loader).1 = true := by
          by_contra failed
          exact before (by simpa [ClassLoader.afterLoad, failed] using some_)
        have open_ := (loads.opened _).mpr (Or.inr ⟨rfl, loaded⟩)
        exact ⟨open_, (loads.owner _ open_ loader).mpr (Or.inr ⟨rfl, loaded, rfl⟩)⟩
      · exact absurd some_ before
  · obtain ⟨c', at_k, rfl⟩ := getElem?_modify.mp changed
    have count := held.count k c' at_k
    split
    · dsimp only [ClassLoader.afterLoad]
      split <;> omega
    · exact count

/-- Changes of the counters of a loader keep the objects counted, if a loader with objects keeps a load. -/
theorem Counted.modify (counted : Counted s) {utility : ClassLoaderUtility} {g : ClassLoader → ClassLoader}
    (path : ∀ c, (g c).libraryPath = c.libraryPath) (count : ∀ c, (g c).classobjRefCount = c.classobjRefCount)
    (loads : ∀ obj ∈ s.objects, obj.classLoader = loader → ∀ c, s.loaders[loader]? = some c → 0 < c.loads →
      0 < (g c).loads) :
    Counted { s with utility, loaders := s.loaders.modify loader g } where
  objects obj member := by
    obtain ⟨c, at_, same, some_⟩ := counted.objects obj member
    refine ⟨_, getElem?_modify.mpr ⟨c, at_, rfl⟩, ?_⟩
    split
    · rename_i owner
      exact ⟨(path c).trans same, loads obj member owner.symm c (owner ▸ at_) some_⟩
    · exact ⟨same, some_⟩
  count k c' changed := by
    obtain ⟨c, at_, rfl⟩ := getElem?_modify.mp changed
    rw [← counted.count k c at_]
    split
    · exact count c
    · rfl

/-- The other loaders of a library that is opened are destroyed. -/
theorem served_loadLibrary (served : ∀ k, k ≠ loader → Served s k) (at_ : s.loaders[loader]? = some c)
    (alone : OpensAlone classes s opens c.libraryPath loader)
    (loads : ClassLoaderUtility.Loads owners owners' s.utility c.libraryPath loader
      (s.utility.loadLibrary classes opens c.libraryPath loader).1
      (loadLibrary classes s opens c.libraryPath loader).utility) (k : Nat) :
    Served (loadLibrary classes s opens c.libraryPath loader) k := by
  intro c' living open_
  obtain ⟨changed, alive⟩ := living_eq_some.mp living
  obtain ⟨c', at_k, rfl⟩ := getElem?_modify.mp changed
  by_cases same : loader = k
  · subst same
    cases Option.some.inj (at_.symm.trans at_k)
    rw [if_pos rfl] at open_ ⊢
    cases result : (s.utility.loadLibrary classes opens c.libraryPath loader).1 with
    | true => exact Nat.succ_pos _
    | false =>
      have before := ((loads.opened _).mp open_).resolve_right fun opened => by simp [result] at opened
      exact absurd before (loads.failed result)
  · rw [if_neg same] at open_ alive ⊢
    have living : s.living k = some c' := living_eq_some.mpr ⟨at_k, alive⟩
    rcases (loads.opened _).mp open_ with before | ⟨path, loaded⟩
    · exact served k (Ne.symm same) c' living before
    · by_cases before : c'.libraryPath ∈ s.utility.openedLibraries
      · exact served k (Ne.symm same) c' living before
      · have opens_ : opens = true := by
          by_contra fails
          rw [path] at before
          simp [ClassLoaderUtility.loadLibrary, ClassLoaderUtility.isLibraryLoadedByAnybody, before, fails] at loaded
        have bound := (List.getElem?_eq_some_iff.mp at_k).1
        exact absurd path ((alone (path ▸ before) opens_).2 k bound (Ne.symm same) c' living)

/-- A loader may lose loads, as long as it counts them. -/
theorem Held.modify (held : Held classes owners s) {g : ClassLoader → ClassLoader} {objects : List ClassObj}
    (path : ∀ c, (g c).libraryPath = c.libraryPath) (loads : ∀ c, (g c).loads ≤ c.loads)
    (count : ∀ c, (c.loads : Int) ≤ c.loadlibRefCount → ((g c).loads : Int) ≤ (g c).loadlibRefCount) :
    Held classes owners { s with objects, loaders := s.loaders.modify loader g } := by
  refine ⟨held.described, fun p open_ k owner => ?_, fun k c' changed some_ => ?_, fun k c' changed => ?_⟩
  · exact exists_modify (fun c same => (path c).trans same) (held.owner p open_ k owner)
  · obtain ⟨c, at_k, rfl⟩ := getElem?_modify.mp changed
    split at some_
    · rw [if_pos ‹_›, path]
      exact held.loads k c at_k (Nat.lt_of_lt_of_le some_ (loads c))
    · rw [if_neg ‹_›]
      exact held.loads k c at_k some_
  · obtain ⟨c, at_k, rfl⟩ := getElem?_modify.mp changed
    split
    · exact count c (held.count k c at_k)
    · exact held.count k c at_k

theorem Held.afterUnload (held : Held classes owners s) (loader : Nat) :
    Held classes owners { s with loaders := s.loaders.modify loader ClassLoader.afterUnload } := by
  refine held.modify (fun _ => rfl) (fun c => Nat.sub_le c.loads 1) fun c count => ?_
  dsimp only [ClassLoader.afterUnload]
  split <;> omega

/-- The library of the last load of a loader is closed only if no other loader has loads of it: these are owners of its
factories, and without factories it is not shared. -/
theorem Held.unloadLibrary (held : Held classes owners s) (at_ : s.loaders[loader]? = some c)
    (served : c.libraryPath ∈ s.utility.openedLibraries → 0 < c.loads)
    (unshared : ¬ 0 < c.classobjRefCount → 0 < c.loads → c.loadlibRefCount = 1 → classes c.libraryPath = [] →
      Unshared s c.libraryPath loader) :
    ∃ owners', Held classes owners' (unloadLibrary s c loader) := by
  unfold ClassLoaders.unloadLibrary
  split
  · exact ⟨owners, held⟩
  rename_i none_
  by_cases last : c.loadlibRefCount - 1 = 0 ∧ c.libraryPath ∈ s.utility.openedLibraries
  · obtain ⟨count, inside⟩ := last
    rw [if_pos count]
    have owner := (held.loads loader c at_ (served inside)).2
    obtain ⟨described, opened⟩ := held.described.unloadLibrary inside owner
    have after := held.afterUnload loader
    have owners_subset : ∀ p k, k ∈ Function.update owners c.libraryPath ((owners c.libraryPath).erase loader) p →
        k ∈ owners p := by
      intro p k member
      by_cases same : p = c.libraryPath
      · rw [same, Function.update_self] at member
        exact same ▸ List.mem_of_mem_erase member
      · rwa [Function.update_of_ne same] at member
    refine ⟨_, described, fun p open_ k owns => ?_, fun k c' changed some_ => ?_, after.count⟩
    · exact after.owner p (ClassLoaderUtility.opened_unloadLibrary open_) k (owners_subset p k owns)
    obtain ⟨open_, owns⟩ := after.loads k c' changed some_
    obtain ⟨other, at_k, rfl⟩ := getElem?_modify.mp changed
    have different : k ≠ loader := by
      rintro rfl
      cases Option.some.inj (at_.symm.trans at_k)
      have bound := held.count k c at_
      rw [if_pos rfl] at some_
      dsimp only [ClassLoader.afterUnload] at some_
      omega
    rw [if_neg (Ne.symm different)] at open_ owns some_ ⊢
    by_cases same : other.libraryPath = c.libraryPath
    · rw [same] at owns ⊢
      have stays := (List.mem_erase_of_ne different).mpr owns
      refine ⟨?_, by rwa [Function.update_self]⟩
      rw [opened, if_neg]
      · exact inside
      · rintro (empty | alone)
        · have bound := (List.getElem?_eq_some_iff.mp at_k).1
          have idle := unshared none_ (served inside) (by omega) empty k bound different other at_k same
          omega
        · exact List.not_mem_nil (alone ▸ stays)
    · rw [Function.update_of_ne same, opened]
      refine ⟨?_, owns⟩
      split
      · exact (List.mem_erase_of_ne same).mpr open_
      · exact open_
  · have same : (if c.loadlibRefCount - 1 = 0 then s.utility.unloadLibrary c.libraryPath loader else s.utility) =
        s.utility := by
      split
      · rename_i count
        exact ClassLoaderUtility.unloadLibrary_of_closed fun inside => last ⟨count, inside⟩
      · rfl
    rw [same]
    exact ⟨owners, held.afterUnload loader⟩

theorem Counted.unloadLibrary (counted : Counted s) (at_ : s.loaders[loader]? = some c) :
    Counted (unloadLibrary s c loader) := by
  unfold ClassLoaders.unloadLibrary
  split
  · exact counted
  · rename_i none_
    refine counted.modify (fun _ => rfl) (fun _ => rfl) fun obj member owner => absurd ?_ none_
    rw [counted.count loader c at_, Int.natCast_pos]
    exact List.countP_pos_iff.mpr ⟨obj, member, decide_eq_true owner⟩

theorem opened_unloadLibrary (s : Process) (c : ClassLoader) (loader : Nat) {p : String}
    (inside : p ∈ (unloadLibrary s c loader).utility.openedLibraries) : p ∈ s.utility.openedLibraries := by
  unfold unloadLibrary at inside
  split at inside
  · exact inside
  dsimp only at inside
  split at inside
  · exact ClassLoaderUtility.opened_unloadLibrary inside
  · exact inside

/-- A loader that undoes its last load closes the library that only it uses. -/
theorem closed_unloadLibrary (held : Held classes owners s) (at_ : s.loaders[loader]? = some c)
    (some_ : 0 < c.loads) (none_ : c.classobjRefCount = 0) (count : c.loadlibRefCount = 1)
    (sole : ∀ f ∈ s.utility.getAllClassFactoryObjectsOfLibrary c.libraryPath, ∀ owner ∈ f.relativeClassLoaders,
      owner = loader) : c.libraryPath ∉ (unloadLibrary s c loader).utility.openedLibraries := by
  obtain ⟨inside, owner⟩ := held.loads loader c at_ some_
  have last : classes c.libraryPath = [] ∨ (owners c.libraryPath).erase loader = [] := by
    refine or_iff_not_imp_left.mpr fun named => ?_
    obtain ⟨name, named⟩ := List.exists_mem_of_ne_nil _ named
    have found := (held.described.factories name _).mpr ⟨c.libraryPath, inside, named, rfl⟩
    have only := sole _ (ClassLoaderUtility.mem_getAllClassFactoryObjectsOfLibrary.mpr ⟨name, found, rfl⟩)
    refine List.eq_nil_iff_forall_not_mem.mpr fun k member => ?_
    obtain ⟨different, member⟩ := (held.described.nodup c.libraryPath).mem_erase_iff.mp member
    exact different (only k member)
  unfold ClassLoaders.unloadLibrary
  rw [if_neg (by omega)]
  dsimp only
  rw [if_pos (by omega), (held.described.unloadLibrary inside owner).2, if_pos last]
  exact held.described.opened.not_mem_erase

/-- The invariant: the factories have owners, and every loader is served. -/
def Inv (classes : String → List (String × String)) (s : Process) : Prop :=
  ∃ owners, Held classes owners s ∧ Counted s ∧ ∀ k, Served s k

theorem Served.touch {k : Nat} (served : Served s k) {g : ClassLoader → ClassLoader} {objects : List ClassObj}
    (path : ∀ c, (g c).libraryPath = c.libraryPath) (loads : ∀ c, (g c).loads = c.loads)
    (alive : ∀ c, (g c).alive = true → c.alive = true) :
    Served { s with objects, loaders := s.loaders.modify loader g } k := by
  intro c' living open_
  obtain ⟨changed, alive'⟩ := living_eq_some.mp living
  obtain ⟨c, at_k, rfl⟩ := getElem?_modify.mp changed
  split at alive'
  · rw [if_pos ‹_›] at open_ ⊢
    rw [loads]
    exact served c (living_eq_some.mpr ⟨at_k, alive c alive'⟩) (path c ▸ open_)
  · rw [if_neg ‹_›] at open_ ⊢
    exact served c (living_eq_some.mpr ⟨at_k, alive'⟩) open_

theorem inv_loadLibrary (held : Held classes owners s) (counted : Counted s) (served : ∀ k, k ≠ loader → Served s k)
    (at_ : s.loaders[loader]? = some c) (alone : OpensAlone classes s opens c.libraryPath loader) :
    Inv classes (loadLibrary classes s opens c.libraryPath loader) := by
  obtain ⟨owners', held', loads⟩ := held.loadLibrary at_ fun closed opens_ => (alone closed opens_).1
  refine ⟨owners', held', counted.modify (fun _ => rfl) (fun _ => rfl) fun _ _ _ c _ some_ => ?_,
    served_loadLibrary served at_ alone loads⟩
  dsimp only [ClassLoader.afterLoad]
  split <;> omega

theorem getElem?_construct {k : Nat} (at_k : (s.loaders ++ [.new libraryPath])[k]? = some c) :
    s.loaders[k]? = some c ∨ k = s.loaders.length ∧ c = .new libraryPath := by
  rw [List.getElem?_append] at at_k
  split at at_k
  · exact Or.inl at_k
  · obtain ⟨bound, same⟩ := List.getElem?_eq_some_iff.mp at_k
    have bound : k - s.loaders.length < 1 := bound
    exact Or.inr ⟨by omega, by simpa using same.symm⟩

/-- A new loader has no loads, and the library is loaded next. -/
theorem inv_construct (inv : Inv classes s) (alone : OpensAlone classes s opens libraryPath s.loaders.length) :
    Inv classes (loadLibrary classes { s with loaders := s.loaders ++ [.new libraryPath] } opens libraryPath
      s.loaders.length) := by
  obtain ⟨owners, held, counted, served⟩ := inv
  have stays : ∀ (k : Nat) c, s.loaders[k]? = some c →
      (s.loaders ++ [.new libraryPath])[k]? = some c := fun k c at_k =>
    (List.getElem?_append_left (List.getElem?_eq_some_iff.mp at_k).1).trans at_k
  have held' : Held classes owners { s with loaders := s.loaders ++ [.new libraryPath] } := by
    refine ⟨held.described, fun p open_ k owner => ?_, fun k c at_k some_ => ?_, fun k c at_k => ?_⟩
    · obtain ⟨c, at_k, path⟩ := held.owner p open_ k owner
      exact ⟨c, stays k c at_k, path⟩
    · rcases getElem?_construct at_k with at_k | ⟨-, rfl⟩
      · exact held.loads k c at_k some_
      · exact absurd some_ (Nat.lt_irrefl 0)
    · rcases getElem?_construct at_k with at_k | ⟨-, rfl⟩
      · exact held.count k c at_k
      · exact Int.le_refl 0
  have counted' : Counted { s with loaders := s.loaders ++ [.new libraryPath] } := by
    refine ⟨fun obj member => ?_, fun k c at_k => ?_⟩
    · obtain ⟨c, at_k, both⟩ := counted.objects obj member
      exact ⟨c, stays _ c at_k, both⟩
    · rcases getElem?_construct at_k with at_k | ⟨rfl, rfl⟩
      · exact counted.count k c at_k
      · refine (Int.natCast_eq_zero.mpr (List.countP_eq_zero.mpr fun obj member same => ?_)).symm
        obtain ⟨c, at_k, -⟩ := counted.objects obj member
        have bound := (List.getElem?_eq_some_iff.mp at_k).1
        exact absurd (of_decide_eq_true same) bound.ne
  have living' : ∀ k c, k ≠ s.loaders.length →
      ({ s with loaders := s.loaders ++ [.new libraryPath] } : Process).living k = some c →
      s.living k = some c := by
    intro k c different living
    obtain ⟨at_k, alive⟩ := living_eq_some.mp living
    exact living_eq_some.mpr ⟨(getElem?_construct at_k).resolve_right fun last => different last.1, alive⟩
  refine inv_loadLibrary (c := .new libraryPath) held' counted' ?_ List.getElem?_concat_length ?_
  · exact fun k different c living open_ => served k c (living' k c different living) open_
  · intro closed opens_
    refine ⟨(alone closed opens_).1, fun other _ different c living => ?_⟩
    have living := living' other c different living
    have bound := (List.getElem?_eq_some_iff.mp (living_eq_some.mp living).1).1
    exact (alone closed opens_).2 other bound different c living

theorem living_modify {k : Nat} (different : k ≠ loader) {g : ClassLoader → ClassLoader} {utility : ClassLoaderUtility}
    {objects : List ClassObj} :
    ({ s with utility, objects, loaders := s.loaders.modify loader g } : Process).living k = s.living k := by
  unfold Process.living
  dsimp only
  rw [List.getElem?_modify_ne _ _ (Ne.symm different)]

theorem served_unloadLibrary {k : Nat} (served : Served s k) (different : k ≠ loader) :
    Served (unloadLibrary s c loader) k := by
  intro c' living open_
  refine served c' ?_ (opened_unloadLibrary s c loader open_)
  unfold unloadLibrary at living
  split at living
  · exact living
  · rwa [living_modify different] at living

theorem inv_unloadLibrary (inv : Inv classes s) (living : s.living loader = some c)
    (alone : Alone classes s (.unloadLibrary loader)) : Inv classes (unloadLibrary s c loader) := by
  obtain ⟨owners, held, counted, served⟩ := inv
  obtain ⟨at_, alive⟩ := living_eq_some.mp living
  have none_ : ¬ 0 < c.classobjRefCount → c.classobjRefCount = 0 := by
    have count := counted.count loader c at_
    omega
  have bound := held.count loader c at_
  have last := alone c living
  obtain ⟨owners', held'⟩ := held.unloadLibrary at_ (served loader c living) fun no_ some_ _ _ =>
    (last (by omega) (none_ no_)).2.1
  refine ⟨owners', held', counted.unloadLibrary at_, fun k => ?_⟩
  by_cases same : k = loader
  · subst same
    by_cases refused : 0 < c.classobjRefCount
    · rw [unloadLibrary, if_pos refused]
      exact served k
    · intro c' living' open_
      obtain ⟨changed, -⟩ := living_eq_some.mp living'
      rw [unloadLibrary, if_neg refused] at changed
      obtain ⟨c', at_k, rfl⟩ := getElem?_modify.mp changed
      cases Option.some.inj (at_.symm.trans at_k)
      rw [if_pos rfl] at open_ ⊢
      have some_ := served k c living (opened_unloadLibrary s c k open_)
      have more : c.loads ≠ 1 := by
        intro one
        obtain ⟨count, -, sole⟩ := last one (none_ refused)
        exact closed_unloadLibrary held at_ some_ (none_ refused) count sole open_
      dsimp only [ClassLoader.afterUnload]
      omega
  · exact served_unloadLibrary (served k) same

theorem inv_createClassObj (inv : Inv classes s) (living : s.living loader = some c) {base className : String}
    (alone : OpensAlone classes s opens c.libraryPath loader) :
    Inv classes (createClassObj classes s c loader base className opens) := by
  have loaded : ∃ s', Inv classes s' ∧ (∃ c', s'.living loader = some c') ∧
      (if s.utility.isLibraryLoaded c.libraryPath loader then s
        else loadLibrary classes s opens c.libraryPath loader) = s' := by
    obtain ⟨at_, alive⟩ := living_eq_some.mp living
    split
    · exact ⟨s, inv, ⟨c, living⟩, rfl⟩
    · obtain ⟨owners, held, counted, served⟩ := inv
      refine ⟨_, inv_loadLibrary held counted (fun k _ => served k) at_ alone, ⟨_, living_eq_some.mpr
        ⟨getElem?_modify.mpr ⟨c, at_, rfl⟩, ?_⟩⟩, rfl⟩
      rw [if_pos rfl]
      exact alive
  obtain ⟨s', ⟨owners, held, counted, served⟩, ⟨c', living'⟩, same⟩ := loaded
  unfold createClassObj
  rw [same]
  dsimp only
  split
  · exact ⟨owners, held, counted, served⟩
  rename_i libraryPath created
  obtain ⟨inside, -, owner⟩ := held.described.createClassObj.mp created
  obtain ⟨at_, alive⟩ := living_eq_some.mp living'
  obtain ⟨_, at_k, path⟩ := held.owner libraryPath inside loader owner
  cases Option.some.inj (at_.symm.trans at_k)
  have some_ := served loader c' living' (path ▸ inside)
  refine ⟨owners, held.modify (fun _ => rfl) (fun _ => le_rfl) (fun _ => id),
    ⟨fun obj member => ?_, fun k c changed => ?_⟩,
    fun k => (served k).touch (fun _ => rfl) (fun _ => rfl) fun _ => id⟩
  · have old : ∃ c, s'.loaders[obj.classLoader]? = some c ∧ c.libraryPath = obj.libraryPath ∧ 0 < c.loads := by
      rcases List.mem_cons.mp member with rfl | member
      · exact ⟨c', at_, path, some_⟩
      · exact counted.objects obj member
    exact exists_modify (fun _ both => both) old
  · obtain ⟨c, at_k, rfl⟩ := getElem?_modify.mp changed
    have count := counted.count k c at_k
    rw [List.countP_cons]
    split
    · rename_i mine
      simp [mine, count]
    · rename_i other
      simp [other, count]

theorem inv_deleteObj (inv : Inv classes s) {obj : ClassObj} (member : obj ∈ s.objects) :
    Inv classes (deleteObj s obj) := by
  obtain ⟨owners, held, counted, served⟩ := inv
  refine ⟨owners, held.modify (fun _ => rfl) (fun _ => le_rfl) (fun _ => id),
    ⟨fun other left_ => ?_, fun k c changed => ?_⟩,
    fun k => (served k).touch (fun _ => rfl) (fun _ => rfl) fun _ => id⟩
  · exact exists_modify (fun _ both => both) (counted.objects other (List.mem_of_mem_erase left_))
  · obtain ⟨c, at_k, rfl⟩ := getElem?_modify.mp changed
    have count := counted.count k c at_k
    rw [(List.perm_cons_erase member).countP_eq, List.countP_cons] at count
    split
    · rename_i mine
      rw [if_pos (decide_eq_true mine), Int.natCast_succ] at count
      exact Int.sub_eq_iff_eq_add.mpr count
    · rename_i other
      rw [if_neg fun mine => other (of_decide_eq_true mine)] at count
      exact count

/-- A loader that is destroyed has no objects, and is used no more. -/
theorem inv_destroy (inv : Inv classes s) (living : s.living loader = some c)
    (outlives : ¬ ∃ obj ∈ s.objects, obj.classLoader = loader) (alone : Alone classes s (.destroy loader)) :
    Inv classes (destroy s c loader) := by
  obtain ⟨owners, held, counted, served⟩ := inv
  obtain ⟨at_, alive⟩ := living_eq_some.mp living
  obtain ⟨owners', held'⟩ := held.unloadLibrary at_ (served loader c living) fun _ _ => alone c living
  have counted' := counted.unloadLibrary at_
  refine ⟨owners', held'.modify (fun _ => rfl) (fun _ => le_rfl) (fun _ => id),
    counted'.modify (fun _ => rfl) (fun _ => rfl) fun _ _ _ _ _ some_ => some_, fun k => ?_⟩
  by_cases same : k = loader
  · subst same
    intro c' living' open_
    obtain ⟨changed, alive'⟩ := living_eq_some.mp living'
    obtain ⟨c', -, rfl⟩ := getElem?_modify.mp changed
    rw [if_pos rfl] at alive'
    cases alive'
  · intro c' living' open_
    rw [destroy, living_modify same] at living'
    exact served_unloadLibrary (served k) same c' living' open_

theorem inv_step (inv : Inv classes s) (alone : Alone classes s e) (step : step classes s e = some s') :
    Inv classes s' := by
  cases e with
  | construct libraryPath opens =>
    cases step
    exact inv_construct inv alone
  | loadLibrary loader opens =>
    obtain ⟨c, living, rfl⟩ := Option.map_eq_some_iff.mp step
    obtain ⟨owners, held, counted, served⟩ := inv
    exact inv_loadLibrary held counted (fun k _ => served k) (living_eq_some.mp living).1 (alone c living)
  | unloadLibrary loader =>
    obtain ⟨c, living, rfl⟩ := Option.map_eq_some_iff.mp step
    exact inv_unloadLibrary inv living alone
  | createClassObj loader base className opens =>
    obtain ⟨c, living, rfl⟩ := Option.map_eq_some_iff.mp step
    exact inv_createClassObj inv living (alone c living)
  | deleteObj obj =>
    obtain ⟨member, made⟩ := Option.ite_none_right_eq_some.mp step
    cases made
    exact inv_deleteObj inv member
  | destroy loader =>
    obtain ⟨outlives, made⟩ := Option.ite_none_left_eq_some.mp step
    obtain ⟨c, living, rfl⟩ := Option.map_eq_some_iff.mp made
    exact inv_destroy inv living outlives alone

theorem inv_init : Inv classes (machine classes).init := by
  refine ⟨fun _ => [], ⟨⟨List.nodup_nil, fun _ => List.nodup_nil, fun name f => ?_⟩, ?_, ?_, ?_⟩, ⟨?_, ?_⟩, ?_⟩
  · refine iff_of_false nofun ?_
    rintro ⟨_, inside, -⟩
    exact List.not_mem_nil inside
  · exact fun _ inside => absurd inside List.not_mem_nil
  · exact fun _ _ at_ => (by cases at_)
  · exact fun _ _ at_ => (by cases at_)
  · exact fun _ member => absurd member List.not_mem_nil
  · exact fun _ _ at_ => (by cases at_)
  · exact fun _ _ living => (by cases living)

/-- Libraries live as long as they are used when no step breaks what is asked of it. -/
theorem lives_when_alone (reach : (machine classes).ReachWhen (Alone classes) s) : Lives classes s := by
  obtain ⟨owners, held, counted, served⟩ : Inv classes s :=
    reach.invariant inv_init fun _ _ _ inv alone step => inv_step inv alone step
  refine ⟨fun c member closed => ?_, fun obj member => ?_, fun k c living => ?_, fun k c living loaded name named => ?_⟩
  · obtain ⟨k, bound, rfl⟩ := List.mem_iff_getElem.mp member
    by_contra some_
    exact closed (held.loads k _ (List.getElem?_eq_getElem bound) (Nat.pos_of_ne_zero some_)).1
  · obtain ⟨c, at_k, path, some_⟩ := counted.objects obj member
    exact path ▸ (held.loads _ c at_k some_).1
  · rw [ClassLoaderUtility.isLibraryLoaded_iff]
    exact ⟨served k c living, fun some_ => (held.loads k c (living_eq_some.mp living).1 some_).1⟩
  · have inside := ClassLoaderUtility.isLibraryLoaded_iff.mp loaded
    have owner := (held.loads k c (living_eq_some.mp living).1 (served k c living inside)).2
    have created := held.described.createClassObj.mpr ⟨inside, named, owner⟩
    obtain ⟨f, found, owned, -⟩ := ClassLoaderUtility.createClassObj_eq_some.mp created
    exact ⟨created, ClassLoaderUtility.mem_getValidClassNames.mpr ⟨f, found, owned⟩⟩

/-- Two libraries have a class `Rect` of the same base, and the third has no classes. -/
def plugins : String → List (String × String)
  | "shapes" => [("Base", "Rect"), ("Base", "Circle")]
  | "copies" => [("Base", "Rect")]
  | _ => []

/-- The first loader is refused while its object is alive, and is destroyed after it. The second undoes all its loads,
and opens the library anew. -/
def oneAfterAnother : List Event :=
  [.construct "shapes" true, .createClassObj 0 "Base" "Rect" true, .unloadLibrary 0, .construct "shapes" true,
    .deleteObj ⟨0, "shapes"⟩, .destroy 0, .loadLibrary 1 true, .unloadLibrary 1, .unloadLibrary 1,
    .createClassObj 1 "Base" "Circle" true]

/-- Two loaders of a library, the first of which undoes its load. -/
def twoLoaders (libraryPath : String) : List Event :=
  [.construct libraryPath true, .construct libraryPath true, .unloadLibrary 0]

/-- The second library registers its class in place of that of the first. -/
def sameNames : List Event :=
  [.construct "shapes" true, .construct "copies" true]

/-- The first call of `LoadLibrary` fails. -/
def failsFirst : List Event :=
  [.construct "shapes" false, .loadLibrary 0 true, .unloadLibrary 0]

theorem lives_oneAfterAnother : Lives plugins ((machine plugins).stateAt oneAfterAnother 10) :=
  lives_when_alone (Machine.stateAt_reachWhen oneAfterAnother (by decide) rfl)

/-- In the first run a loader finds its library loaded although it has undone its load, because another one has it, and
in the fourth because an earlier call of `LoadLibrary` failed. In the second the library is closed although the other
loader has it. In the third a loader cannot create a class of its library. -/
theorem twoLoaders_loaded :
    ((machine plugins).Reach ((machine plugins).stateAt (twoLoaders "shapes") 3) ∧
      ¬ Lives plugins ((machine plugins).stateAt (twoLoaders "shapes") 3)) ∧
    ((machine plugins).Reach ((machine plugins).stateAt (twoLoaders "log") 3) ∧
      ¬ Lives plugins ((machine plugins).stateAt (twoLoaders "log") 3)) ∧
    ((machine plugins).Reach ((machine plugins).stateAt sameNames 2) ∧
      ¬ Lives plugins ((machine plugins).stateAt sameNames 2)) ∧
    (machine plugins).Reach ((machine plugins).stateAt failsFirst 3) ∧
      ¬ Lives plugins ((machine plugins).stateAt failsFirst 3) := by
  refine ⟨⟨Machine.stateAt_reach (twoLoaders "shapes") rfl, fun lives => ?_⟩,
    ⟨Machine.stateAt_reach (twoLoaders "log") rfl, fun lives => ?_⟩,
    ⟨Machine.stateAt_reach sameNames rfl, fun lives => ?_⟩,
    Machine.stateAt_reach failsFirst rfl, fun lives => ?_⟩
  · exact absurd ((lives.loaded 0 ⟨"shapes", 0, 0, 0, true⟩ rfl).mp (by decide)) (Nat.lt_irrefl 0)
  · have closed := lives.closed ⟨"log", 1, 0, 1, true⟩ (List.mem_of_getElem? (i := 1) rfl) (by decide)
    exact absurd closed Nat.one_ne_zero
  · have created := lives.creates 0 ⟨"shapes", 1, 0, 1, true⟩ rfl (by decide) ("Base", "Rect") (List.mem_cons_self ..)
    exact absurd created.1 (by decide)
  · exact absurd ((lives.loaded 0 ⟨"shapes", 1, 0, 0, true⟩ rfl).mp (by decide)) (Nat.lt_irrefl 0)

end ClassLoaders

end CyberRT
