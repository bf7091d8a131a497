import CyberRT.Lib.Machine
import CyberRT.Lib.Table

namespace CyberRT
open Concur

/-- The factory of a class, which its library registered. Loaders are numbered in the order of their construction. -/
structure ClassFactory where
  relativeLibraryPath : String
  relativeClassLoaders : List Nat
  deriving DecidableEq

namespace ClassFactory

def addOwnedClassLoader (f : ClassFactory) (loader : Nat) : ClassFactory :=
  if loader ∈ f.relativeClassLoaders then f
  else { f with relativeClassLoaders := f.relativeClassLoaders ++ [loader] }

def removeOwnedClassLoader (f : ClassFactory) (loader : Nat) : ClassFactory :=
  { f with relativeClassLoaders := f.relativeClassLoaders.erase loader }

def isOwnedBy (f : ClassFactory) (loader : Nat) : Bool :=
  loader ∈ f.relativeClassLoaders

def isOwnedByAnybody (f : ClassFactory) : Bool :=
  !f.relativeClassLoaders.isEmpty

end ClassFactory

/-- The static data of `class_loader_utility`: the factories by the names of their base and class, and the paths of the
libraries that are open. -/
structure ClassLoaderUtility where
  classFactoryMap : Table (String × String) ClassFactory
  openedLibraries : List String

namespace ClassLoaderUtility

def empty : ClassLoaderUtility :=
  ⟨∅, []⟩

def getAllClassFactoryObjectsOfLibrary (u : ClassLoaderUtility) (libraryPath : String) : List ClassFactory :=
  (u.classFactoryMap.entries.map fun item => item.2).filter fun f => f.relativeLibraryPath = libraryPath

def isLibraryLoadedByAnybody (u : ClassLoaderUtility) (libraryPath : String) : Bool :=
  libraryPath ∈ u.openedLibraries

def isLibraryLoaded (u : ClassLoaderUtility) (libraryPath : String) (loader : Nat) : Bool :=
  let libClassFactoryObjs := u.getAllClassFactoryObjectsOfLibrary libraryPath
  if u.isLibraryLoadedByAnybody libraryPath ∧ libClassFactoryObjs.length = 0 then true
  else
    let libLoaderClassFactoryObjs := libClassFactoryObjs.filter fun f => f.isOwnedBy loader
    u.isLibraryLoadedByAnybody libraryPath ∧ libLoaderClassFactoryObjs.length ≤ libClassFactoryObjs.length

/-- `RegisterClass`, which the library calls while the loader opens it. -/
def registerClass (libraryPath : String) (loader : Nat) (u : ClassLoaderUtility) (name : String × String) :
    ClassLoaderUtility :=
  { u with classFactoryMap := u.classFactoryMap.insert name ⟨libraryPath, [loader]⟩ }

/-- Another owner for the factories of a library that is open. -/
def attach (u : ClassLoaderUtility) (libraryPath : String) (loader : Nat) : ClassLoaderUtility :=
  { u with
    classFactoryMap := u.classFactoryMap.filterMap fun _ f =>
      some (if f.relativeLibraryPath = libraryPath then f.addOwnedClassLoader loader else f) }

/-- `opens` tells whether the shared library can be opened, and `classes` what it then registers. -/
def loadLibrary (classes : String → List (String × String)) (opens : Bool) (u : ClassLoaderUtility)
    (libraryPath : String) (loader : Nat) : Bool × ClassLoaderUtility :=
  if u.isLibraryLoadedByAnybody libraryPath then (true, u.attach libraryPath loader)
  else if opens then
    let u := (classes libraryPath).foldl (registerClass libraryPath loader) u
    (true, { u with openedLibraries := u.openedLibraries ++ [libraryPath] })
  else (false, u)

def destroyClassFactoryObjectsOfLibrary (u : ClassLoaderUtility) (libraryPath : String) (loader : Nat) :
    ClassLoaderUtility :=
  { u with
    classFactoryMap := u.classFactoryMap.filterMap fun _ f =>
      if f.relativeLibraryPath = libraryPath ∧ f.isOwnedBy loader then
        let f := f.removeOwnedClassLoader loader
        if f.isOwnedByAnybody then some f else none
      else some f }

def unloadLibrary (u : ClassLoaderUtility) (libraryPath : String) (loader : Nat) : ClassLoaderUtility :=
  if libraryPath ∈ u.openedLibraries then
    let u := u.destroyClassFactoryObjectsOfLibrary libraryPath loader
    if u.getAllClassFactoryObjectsOfLibrary libraryPath = [] then
      { u with openedLibraries := u.openedLibraries.erase libraryPath }
    else u
  else u

/-- The library of the object that `CreateClassObj` returns, if it returns one. -/
def createClassObj (u : ClassLoaderUtility) (base className : String) (loader : Nat) : Option String :=
  match u.classFactoryMap.lookup (base, className) with
  | some factory => if factory.isOwnedBy loader then some factory.relativeLibraryPath else none
  | none => none

def getValidClassNames (u : ClassLoaderUtility) (base : String) (loader : Nat) : List String :=
  (u.classFactoryMap.entries.filter fun item => item.1.1 = base ∧ item.2.isOwnedBy loader).map fun item => item.1.2

end ClassLoaderUtility

/-- A loader. `loads` counts its calls of `LoadLibrary` that succeeded and that no call of `UnloadLibrary` has undone,
and `alive` holds until it is destroyed. -/
structure ClassLoader where
  libraryPath : String
  loadlibRefCount : Int
  classobjRefCount : Int
  loads : Nat
  alive : Bool

namespace ClassLoader

/-- A loader before its constructor calls `LoadLibrary`. -/
def new (libraryPath : String) : ClassLoader :=
  ⟨libraryPath, 0, 0, 0, true⟩

/-- The counters after `LoadLibrary`. -/
def afterLoad (c : ClassLoader) (loaded : Bool) : ClassLoader :=
  { c with loadlibRefCount := c.loadlibRefCount + 1, loads := if loaded then c.loads + 1 else c.loads }

/-- The counters after `UnloadLibrary`. -/
def afterUnload (c : ClassLoader) : ClassLoader :=
  let loadlibRefCount := c.loadlibRefCount - 1
  { c with loadlibRefCount := if loadlibRefCount < 0 then 0 else loadlibRefCount, loads := c.loads - 1 }

end ClassLoader

/-- An object that was created and is not deleted yet. -/
structure ClassObj where
  classLoader : Nat
  libraryPath : String
  deriving DecidableEq

namespace ClassLoaders

structure Process where
  utility : ClassLoaderUtility
  loaders : List ClassLoader
  objects : List ClassObj

/-- What a process does with its loaders. A library that is not open can be opened or not. -/
inductive Event
  | construct (libraryPath : String) (opens : Bool)
  | loadLibrary (loader : Nat) (opens : Bool)
  | unloadLibrary (loader : Nat)
  | createClassObj (loader : Nat) (base className : String) (opens : Bool)
  | deleteObj (obj : ClassObj)
  | destroy (loader : Nat)

section
variable (classes : String → List (String × String))

/-- `ClassLoader::LoadLibrary` of a loader of the library. -/
def loadLibrary (s : Process) (opens : Bool) (libraryPath : String) (loader : Nat) : Process :=
  let result := s.utility.loadLibrary classes opens libraryPath loader
  { s with utility := result.2, loaders := s.loaders.modify loader fun c => c.afterLoad result.1 }

/-- `ClassLoader::UnloadLibrary`, which does nothing while there are objects. -/
def unloadLibrary (s : Process) (c : ClassLoader) (loader : Nat) : Process :=
  if 0 < c.classobjRefCount then s
  else
    { s with
      utility := if c.loadlibRefCount - 1 = 0 then s.utility.unloadLibrary c.libraryPath loader else s.utility
      loaders := s.loaders.modify loader ClassLoader.afterUnload }

/-- `ClassLoader::CreateClassObj`, which loads the library first if it is not loaded. -/
def createClassObj (s : Process) (c : ClassLoader) (loader : Nat) (base className : String) (opens : Bool) : Process :=
  let s :=
    if s.utility.isLibraryLoaded c.libraryPath loader then s else loadLibrary classes s opens c.libraryPath loader
  match s.utility.createClassObj base className loader with
  | none => s
  | some libraryPath =>
    { s with
      objects := ⟨loader, libraryPath⟩ :: s.objects
      loaders := s.loaders.modify loader fun c => { c with classobjRefCount := c.classobjRefCount + 1 } }

/-- `OnClassObjDeleter` of the loader of the object. -/
def deleteObj (s : Process) (obj : ClassObj) : Process :=
  { s with
    objects := s.objects.erase obj
    loaders := s.loaders.modify obj.classLoader fun c => { c with classobjRefCount := c.classobjRefCount - 1 } }

/-- The destructor. -/
def destroy (s : Process) (c : ClassLoader) (loader : Nat) : Process :=
  let s := unloadLibrary s c loader
  { s with loaders := s.loaders.modify loader fun c => { c with alive := false } }

/-- A loader that is not destroyed. -/
def Process.living (s : Process) (loader : Nat) : Option ClassLoader :=
  s.loaders[loader]?.filter fun c => c.alive

/-- Only living loaders are used, and a loader outlives its objects. -/
def step (s : Process) : Event → Option Process
  | .construct libraryPath opens =>
    some (loadLibrary classes { s with loaders := s.loaders ++ [.new libraryPath] } opens libraryPath s.loaders.length)
  | .loadLibrary loader opens => (s.living loader).map fun c => loadLibrary classes s opens c.libraryPath loader
  | .unloadLibrary loader => (s.living loader).map fun c => unloadLibrary s c loader
  | .createClassObj loader base className opens =>
    (s.living loader).map fun c => createClassObj classes s c loader base className opens
  | .deleteObj obj => if obj ∈ s.objects then some (deleteObj s obj) else none
  | .destroy loader =>
    if ∃ obj ∈ s.objects, obj.classLoader = loader then none
    else (s.living loader).map fun c => destroy s c loader

def machine : Machine Process Event :=
  ⟨⟨.empty, [], []⟩, step classes⟩

/-- A library is closed only when no loader has loads of it and no object of it is alive. A loader that is not destroyed
finds its library loaded exactly when it has loads of it, and can then create every class of the library. -/
structure Lives (s : Process) : Prop where
  closed : ∀ loader ∈ s.loaders, loader.libraryPath ∉ s.utility.openedLibraries → loader.loads = 0
  objects : ∀ obj ∈ s.objects, obj.libraryPath ∈ s.utility.openedLibraries
  loaded : ∀ loader c, s.living loader = some c →
    (s.utility.isLibraryLoaded c.libraryPath loader = true ↔ 0 < c.loads)
  creates : ∀ loader c, s.living loader = some c → s.utility.isLibraryLoaded c.libraryPath loader = true →
    ∀ name ∈ classes c.libraryPath, s.utility.createClassObj name.1 name.2 loader = some c.libraryPath ∧
      name.2 ∈ s.utility.getValidClassNames name.1 loader

/-- What is asked of the opening of a library by a loader: no class of it is registered already under the same names,
and no other loader of it is alive. -/
def OpensAlone (s : Process) (opens : Bool) (libraryPath : String) (loader : Nat) : Prop :=
  libraryPath ∉ s.utility.openedLibraries → opens = true →
    (∀ name ∈ classes libraryPath, name ∉ s.utility.classFactoryMap) ∧
    ∀ other < s.loaders.length, other ≠ loader → ∀ c ∈ s.living other, c.libraryPath ≠ libraryPath

/-- No other loader has loads of the library. -/
def Unshared (s : Process) (libraryPath : String) (loader : Nat) : Prop :=
  ∀ other < s.loaders.length, other ≠ loader → ∀ c ∈ s.loaders[other]?, c.libraryPath = libraryPath → c.loads = 0

/-- What is asked of a step. A loader that undoes its last load had no load that failed, and it is the only one to use
its library. A loader that is destroyed does not share a library without classes. -/
def Alone (s : Process) : Event → Prop
  | .construct libraryPath opens => OpensAlone classes s opens libraryPath s.loaders.length
  | .loadLibrary loader opens | .createClassObj loader _ _ opens =>
    ∀ c ∈ s.living loader, OpensAlone classes s opens c.libraryPath loader
  | .unloadLibrary loader => ∀ c ∈ s.living loader, c.loads = 1 → c.classobjRefCount = 0 →
    c.loadlibRefCount = 1 ∧ Unshared s c.libraryPath loader ∧
      ∀ f ∈ s.utility.getAllClassFactoryObjectsOfLibrary c.libraryPath, ∀ owner ∈ f.relativeClassLoaders, owner = loader
  | .deleteObj _ => True
  | .destroy loader => ∀ c ∈ s.living loader, c.loadlibRefCount = 1 → classes c.libraryPath = [] →
    Unshared s c.libraryPath loader

instance (s : Process) (opens : Bool) (libraryPath : String) (loader : Nat) :
    Decidable (OpensAlone classes s opens libraryPath loader) :=
  inferInstanceAs (Decidable (_ → _ → _))

instance (s : Process) (libraryPath : String) (loader : Nat) : Decidable (Unshared s libraryPath loader) :=
  inferInstanceAs (Decidable (∀ other < s.loaders.length, _))

instance (s : Process) (e : Event) : Decidable (Alone classes s e) :=
  match e with
  | .construct .. => inferInstanceAs (Decidable (OpensAlone ..))
  | .loadLibrary loader .. => inferInstanceAs (Decidable (∀ c ∈ s.living loader, _))
  | .createClassObj loader .. => inferInstanceAs (Decidable (∀ c ∈ s.living loader, _))
  | .unloadLibrary loader => inferInstanceAs (Decidable (∀ c ∈ s.living loader, _))
  | .deleteObj _ => inferInstanceAs (Decidable True)
  | .destroy loader => inferInstanceAs (Decidable (∀ c ∈ s.living loader, _))

end

end ClassLoaders

end CyberRT
