import CyberRT.Lib.Loop
import CyberRT.Lib.Table
import CyberRT.Message.MessageTraits

namespace CyberRT.Message
open Concur Loop

structure FileDescriptorProto where
  name : String
  dependency : List String
  /-- The fields that are not used here. -/
  rest : List UInt8
  deriving DecidableEq

inductive ProtoDesc
  | mk (desc : List UInt8) (dependencies : List ProtoDesc)

/-- What the factory uses of protobuf. A parser gives what the object holds afterwards. -/
structure Protobuf (Pool : Type) where
  serializeFile : FileDescriptorProto → Option (List UInt8)
  parseFile : List UInt8 → FileDescriptorProto
  serializeDesc : ProtoDesc → Option (List UInt8)
  parseDesc : List UInt8 → ProtoDesc
  findFileByName : Pool → String → Option FileDescriptorProto
  buildFile : Pool → FileDescriptorProto → Bool × Pool

/-- The descriptors of files that depend on each other without a cycle. A name belongs to one file. -/
structure FileGraph (F : Type) where
  copyTo : F → FileDescriptorProto
  dependency : F → List F
  acyclic : WellFounded fun g f => g ∈ dependency f
  names : ∀ f, (copyTo f).dependency = (dependency f).map fun g => (copyTo g).name
  named : ∀ f g, (copyTo f).name = (copyTo g).name → f = g

namespace ProtobufFactory
variable {Pool F : Type}

/-- The loop over the dependencies of a file. It is `some none` if one of them fails. -/
def addDependencies (get : F → Option (Option ProtoDesc)) : List F → Option (Option (List ProtoDesc))
  | [] => some (some [])
  | file :: more =>
    match get file with
    | none => none
    | some none => some none
    | some (some desc) => (addDependencies get more).map fun descs => descs.map (desc :: ·)

def getProtoDesc (lib : Protobuf Pool) (graph : FileGraph F) : Nat → F → Option (Option ProtoDesc)
  | 0, _ => none
  | fuel + 1, file =>
    match lib.serializeFile (graph.copyTo file) with
    | none => some none
    | some str =>
      (addDependencies (getProtoDesc lib graph fuel) (graph.dependency file)).map fun descs =>
        descs.map (ProtoDesc.mk str)

/-- The string of a message type in a file, `some none` if an error is logged. -/
def getDescriptorString (lib : Protobuf Pool) (graph : FileGraph F) (fuel : Nat) (file : F) :
    Option (Option (List UInt8)) :=
  (getProtoDesc lib graph fuel file).map fun desc => desc.bind lib.serializeDesc

mutual

def registerProtoDesc (lib : Protobuf Pool) : ProtoDesc → Pool → Bool × Pool
  | .mk desc dependencies, pool =>
    match registerDependencies lib dependencies pool with
    | (false, pool) => (false, pool)
    | (true, pool) => lib.buildFile pool (lib.parseFile desc)

def registerDependencies (lib : Protobuf Pool) : List ProtoDesc → Pool → Bool × Pool
  | [], pool => (true, pool)
  | dep :: more, pool =>
    match registerProtoDesc lib dep pool with
    | (false, pool) => (false, pool)
    | (true, pool) => registerDependencies lib more pool

end

def registerMessage (lib : Protobuf Pool) (pool : Pool) (protoDescStr : List UInt8) : Bool × Pool :=
  registerProtoDesc lib (lib.parseDesc protoDescStr) pool

/-- A file is built if and only if the files are there that it names, and again if it is there itself. -/
structure Builds (lib : Protobuf Pool) : Prop where
  again : ∀ pool file, lib.findFileByName pool file.name = some file → (lib.buildFile pool file).1 = true
  new : ∀ pool file, lib.findFileByName pool file.name = none →
    ((lib.buildFile pool file).1 = true ↔ ∀ name ∈ file.dependency, (lib.findFileByName pool name).isSome)
  find : ∀ pool file, (lib.buildFile pool file).1 = true → ∀ name,
    lib.findFileByName (lib.buildFile pool file).2 name =
      if name = file.name then some file else lib.findFileByName pool name

/-- The file is written and read back. -/
def FileReads (lib : Protobuf Pool) (file : FileDescriptorProto) : Prop :=
  ∃ str, lib.serializeFile file = some str ∧ lib.parseFile str = file

def DescReads (lib : Protobuf Pool) (desc : ProtoDesc) : Prop :=
  ∃ str, lib.serializeDesc desc = some str ∧ lib.parseDesc str = desc

/-- A file, or one it depends on, directly or not. -/
abbrev Reaches (graph : FileGraph F) : F → F → Prop :=
  Relation.ReflTransGen fun f g => g ∈ graph.dependency f

def Registered (lib : Protobuf Pool) (graph : FileGraph F) (pool : Pool) (file : F) : Prop :=
  lib.findFileByName pool (graph.copyTo file).name = some (graph.copyTo file)

/-- The pool has no other file of the name. -/
def Compatible (lib : Protobuf Pool) (graph : FileGraph F) (pool : Pool) (file : F) : Prop :=
  lib.findFileByName pool (graph.copyTo file).name = none ∨ Registered lib graph pool file

/-- Files were added to the pool, and none that is not of the graph. -/
structure Extends (lib : Protobuf Pool) (graph : FileGraph F) (pool pool' : Pool) : Prop where
  registered : ∀ file, Registered lib graph pool file → Registered lib graph pool' file
  compatible : ∀ file, Compatible lib graph pool file → Compatible lib graph pool' file

variable {lib : Protobuf Pool} {graph : FileGraph F}

theorem Extends.refl (pool : Pool) : Extends lib graph pool pool :=
  ⟨fun _ => id, fun _ => id⟩

theorem Extends.trans {pool pool' pool'' : Pool} (first : Extends lib graph pool pool')
    (second : Extends lib graph pool' pool'') : Extends lib graph pool pool'' :=
  ⟨fun file => second.registered file ∘ first.registered file,
    fun file => second.compatible file ∘ first.compatible file⟩

/-- A file whose dependencies are registered is built. -/
theorem buildFile_registered (builds : Builds lib) {pool : Pool} {file : F}
    (compatible : Compatible lib graph pool file)
    (dependencies : ∀ g ∈ graph.dependency file, Registered lib graph pool g) :
    (lib.buildFile pool (graph.copyTo file)).1 = true ∧
      Registered lib graph (lib.buildFile pool (graph.copyTo file)).2 file ∧
        Extends lib graph pool (lib.buildFile pool (graph.copyTo file)).2 := by
  have built : (lib.buildFile pool (graph.copyTo file)).1 = true := by
    rcases compatible with absent | present
    · refine (builds.new pool _ absent).mpr fun name member => ?_
      rw [graph.names] at member
      obtain ⟨g, inside, rfl⟩ := List.mem_map.mp member
      rw [dependencies g inside]
      rfl
    · exact builds.again pool _ present
  have find := builds.find pool _ built
  have self : Registered lib graph (lib.buildFile pool (graph.copyTo file)).2 file := by
    rw [Registered, find, if_pos rfl]
  have other : ∀ g, g ≠ file → lib.findFileByName (lib.buildFile pool (graph.copyTo file)).2 (graph.copyTo g).name =
      lib.findFileByName pool (graph.copyTo g).name := by
    intro g different
    rw [find, if_neg fun same => different (graph.named g file same)]
  refine ⟨built, self, fun g registered => ?_, fun g before => ?_⟩
  · by_cases same : g = file
    · exact same ▸ self
    · rwa [Registered, other g same]
  · by_cases same : g = file
    · exact .inr (same ▸ self)
    · rwa [Compatible, Registered, other g same]

/-- The string of the file is made, and whatever compatible pool takes it registers the files that `file` reaches. -/
def Carries (lib : Protobuf Pool) (graph : FileGraph F) (file : F) (desc : ProtoDesc) : Prop :=
  Returns (fun fuel => getProtoDesc lib graph fuel file) (some desc) ∧
    ∀ pool, (∀ g, Reaches graph file g → Compatible lib graph pool g) →
      ∃ pool', registerProtoDesc lib desc pool = (true, pool') ∧ Extends lib graph pool pool' ∧
        ∀ g, Reaches graph file g → Registered lib graph pool' g

theorem carries_dependencies {files : List F} (each : ∀ f ∈ files, ∃ desc, Carries lib graph f desc) :
    ∃ descs, Returns (fun fuel => addDependencies (getProtoDesc lib graph fuel) files) (some descs) ∧
      ∀ pool, (∀ f ∈ files, ∀ g, Reaches graph f g → Compatible lib graph pool g) →
        ∃ pool', registerDependencies lib descs pool = (true, pool') ∧ Extends lib graph pool pool' ∧
          ∀ f ∈ files, ∀ g, Reaches graph f g → Registered lib graph pool' g := by
  induction files with
  | nil =>
    refine ⟨[], .of_eq fun _ => rfl, fun pool _ => ⟨pool, ?_, .refl pool, List.forall_mem_nil _⟩⟩
    rw [registerDependencies]
  | cons file more ih =>
    obtain ⟨here, rest⟩ := List.forall_mem_cons.mp each
    obtain ⟨desc, ⟨m, gets⟩, registers⟩ := here
    obtain ⟨descs, ⟨n, getsMore⟩, registersMore⟩ := ih rest
    refine ⟨desc :: descs, ⟨max m n, fun fuel enough => ?_⟩, fun pool compatible => ?_⟩
    · have first : getProtoDesc lib graph fuel file = some (some desc) := gets fuel (by omega)
      have second : addDependencies (getProtoDesc lib graph fuel) more = some (some descs) :=
        getsMore fuel (by omega)
      simp only [addDependencies, first, second, Option.map_some]
    · obtain ⟨compatibleHere, compatibleRest⟩ := List.forall_mem_cons.mp compatible
      obtain ⟨pool₁, done, extends₁, registered⟩ := registers pool compatibleHere
      obtain ⟨pool₂, doneMore, extends₂, registeredMore⟩ :=
        registersMore pool₁ fun f member g reaches => extends₁.compatible g (compatibleRest f member g reaches)
      refine ⟨pool₂, ?_, extends₁.trans extends₂, List.forall_mem_cons.mpr ⟨?_, registeredMore⟩⟩
      · rw [registerDependencies, done]
        exact doneMore
      · exact fun g reaches => extends₂.registered g (registered g reaches)

/-- By induction on the graph: a file comes after all that it depends on. -/
theorem exists_carries (builds : Builds lib) (file : F)
    (reads : ∀ g, Reaches graph file g → FileReads lib (graph.copyTo g)) : ∃ desc, Carries lib graph file desc := by
  induction file using graph.acyclic.induction with
  | _ file ih =>
    obtain ⟨str, serialized, parsed⟩ := reads file .refl
    have each : ∀ f ∈ graph.dependency file, ∃ desc, Carries lib graph f desc :=
      fun f member => ih f member fun g reaches => reads g (.head member reaches)
    obtain ⟨descs, ⟨n, gets⟩, registers⟩ := carries_dependencies each
    refine ⟨.mk str descs, ⟨n + 1, fun fuel enough => ?_⟩, fun pool compatible => ?_⟩
    · obtain ⟨fuel, rfl⟩ : ∃ k, fuel = k + 1 := ⟨fuel - 1, by omega⟩
      have got : addDependencies (getProtoDesc lib graph fuel) (graph.dependency file) = some (some descs) :=
        gets fuel (by omega)
      simp only [getProtoDesc, serialized, got, Option.map_some]
    · obtain ⟨pool₁, done, extends₁, registered⟩ :=
        registers pool fun f member g reaches => compatible g (.head member reaches)
      obtain ⟨built, self, extends₂⟩ := buildFile_registered builds (extends₁.compatible file (compatible file .refl))
        fun g member => registered g member g .refl
      refine ⟨_, ?_, extends₁.trans extends₂, fun g reaches => ?_⟩
      · rw [registerProtoDesc, done, parsed]
        exact Prod.ext built rfl
      · rcases Relation.ReflTransGen.cases_head reaches with rfl | ⟨f, member, reaches⟩
        · exact self
        · exact extends₂.registered g (registered f member g reaches)

/-- The string of a message type registers its file and all that the file depends on, in every pool that has no other
files of their names. -/
theorem descriptorString_registers (builds : Builds lib) (file : F)
    (fileReads : ∀ g, Reaches graph file g → FileReads lib (graph.copyTo g))
    (descReads : ∀ desc, Returns (fun fuel => getProtoDesc lib graph fuel file) (some desc) → DescReads lib desc)
    (pool : Pool) (compatible : ∀ g, Reaches graph file g → Compatible lib graph pool g) :
    ∃ str, Returns (fun fuel => getDescriptorString lib graph fuel file) (some str) ∧
      (registerMessage lib pool str).1 = true ∧
        ∀ g, Reaches graph file g → Registered lib graph (registerMessage lib pool str).2 g := by
  obtain ⟨desc, gets, registers⟩ := exists_carries builds file fileReads
  obtain ⟨str, serialized, parsed⟩ := descReads desc gets
  obtain ⟨pool', done, -, registered⟩ := registers pool compatible
  refine ⟨str, ?_, ?_⟩
  · have made := gets.map fun desc => desc.bind lib.serializeDesc
    rwa [Option.bind_some, serialized] at made
  · rw [registerMessage, parsed, done]
    exact ⟨rfl, registered⟩

inductive DiamondFile
  | base
  | left
  | right
  | top
  deriving DecidableEq

namespace DiamondFile

def copyTo : DiamondFile → FileDescriptorProto
  | base => ⟨"base.proto", [], []⟩
  | left => ⟨"left.proto", ["base.proto"], []⟩
  | right => ⟨"right.proto", ["base.proto"], []⟩
  | top => ⟨"top.proto", ["left.proto", "right.proto"], []⟩

def dependency : DiamondFile → List DiamondFile
  | base => []
  | left | right => [base]
  | top => [left, right]

def rank : DiamondFile → Nat
  | base => 0
  | left | right => 1
  | top => 2

def diamond : FileGraph DiamondFile where
  copyTo := copyTo
  dependency := dependency
  acyclic := by
    refine Subrelation.wf (r := (measure rank).rel) ?_ (measure rank).wf
    intro g f member
    cases f <;> cases g <;> first | exact absurd member (by decide) | exact Nat.lt_of_sub_pos (by decide)
  names f := by cases f <;> rfl
  named f g same := by cases f <;> cases g <;> first | rfl | exact absurd same (by decide)

end DiamondFile

/-- A field of less than 128 bytes on the wire. -/
def wireField (tag : UInt8) (content : List UInt8) : List UInt8 :=
  tag :: content.length.toUInt8 :: content

def wireFile (file : FileDescriptorProto) : List UInt8 :=
  wireField 0x0a (ascii file.name) ++ (file.dependency.flatMap fun name => wireField 0x1a (ascii name)) ++ file.rest

mutual

def wireDesc : ProtoDesc → List UInt8
  | .mk desc dependencies => wireField 0x0a desc ++ wireDescs dependencies

def wireDescs : List ProtoDesc → List UInt8
  | [] => []
  | desc :: more => wireField 0x12 (wireDesc desc) ++ wireDescs more

end

namespace DiamondFile

def desc : DiamondFile → ProtoDesc
  | base => .mk (wireFile base.copyTo) []
  | left => .mk (wireFile left.copyTo) [.mk (wireFile base.copyTo) []]
  | right => .mk (wireFile right.copyTo) [.mk (wireFile base.copyTo) []]
  | top => .mk (wireFile top.copyTo) [
      .mk (wireFile left.copyTo) [.mk (wireFile base.copyTo) []],
      .mk (wireFile right.copyTo) [.mk (wireFile base.copyTo) []]]

/-- Protobuf, as far as these files are concerned. -/
def protobuf : Protobuf (Table String FileDescriptorProto) where
  serializeFile file := some (wireFile file)
  parseFile str := (([base, left, right, top].map copyTo).find? fun file => wireFile file = str).getD ⟨"", [], []⟩
  serializeDesc desc := some (wireDesc desc)
  parseDesc str := if str = wireDesc top.desc then top.desc else .mk [] []
  findFileByName pool name := pool.lookup name
  buildFile pool file :=
    match pool.lookup file.name with
    | some old => (old = file, pool)
    | none =>
      if file.dependency.all fun name => (pool.lookup name).isSome then (true, pool.insert file.name file)
      else (false, pool)

theorem builds : Builds protobuf where
  again pool file found := by
    simp only [protobuf] at found ⊢
    simp only [found, decide_true]
  new pool file absent := by
    simp only [protobuf] at absent ⊢
    simp only [absent]
    split
    · rename_i all
      exact iff_of_true rfl (by simpa using all)
    · rename_i missing
      exact iff_of_false Bool.false_ne_true (by simpa using missing)
  find pool file built name := by
    simp only [protobuf] at built ⊢
    cases found : pool.lookup file.name with
    | some old =>
      simp only [found, decide_eq_true_eq] at built ⊢
      split
      · rename_i same
        rw [same, found, built]
      · rfl
    | none =>
      simp only [found] at built ⊢
      split
      · exact Table.lookup_insert_eq pool file.name name file
      · rename_i missing
        rw [if_neg missing] at built
        cases built

end DiamondFile

/-- The file that two others share is met twice, and was in the pool before. -/
theorem diamond_registers :
    ∃ str, Returns (fun fuel => getDescriptorString DiamondFile.protobuf DiamondFile.diamond fuel .top) (some str) ∧
      (registerMessage DiamondFile.protobuf ((∅ : Table String FileDescriptorProto).insert "base.proto"
        DiamondFile.base.copyTo) str).1 = true ∧
        ∀ g, Reaches DiamondFile.diamond .top g → Registered DiamondFile.protobuf DiamondFile.diamond
          (registerMessage DiamondFile.protobuf ((∅ : Table String FileDescriptorProto).insert "base.proto"
            DiamondFile.base.copyTo) str).2 g := by
  refine descriptorString_registers DiamondFile.builds DiamondFile.top ?_ ?_ _ ?_
  · intro g _
    exact ⟨wireFile g.copyTo, rfl, by cases g <;> decide⟩
  · intro desc returns
    have known : Returns (fun fuel => getProtoDesc DiamondFile.protobuf DiamondFile.diamond fuel .top)
        (some DiamondFile.top.desc) := by
      refine ⟨3, fun fuel enough => ?_⟩
      obtain ⟨fuel, rfl⟩ : ∃ k, fuel = k + 3 := ⟨fuel - 3, by omega⟩
      rfl
    cases returns.unique known
    refine ⟨wireDesc DiamondFile.top.desc, rfl, ?_⟩
    simp only [DiamondFile.protobuf, if_true]
  · intro g _
    cases g with
    | base => exact .inr rfl
    | left | right | top => exact .inl (by decide)

end ProtobufFactory

end CyberRT.Message
