import AssemblyGraph.Proofs.Constructor.Traits
import AssemblyGraph.Proofs.Factory.Validation

/-!
Type initializers in the search for a constructor.

What a search takes for a constructor bears one of two names, that of constructors or that of type
initializers, and only the flag for static methods tells the two apart. So static methods never
take part in a search, but a method with the name of initializers does if its raw word lacks the
flag. Where all of them have it, what is found bears the name of constructors, and so does the
constructor of every record for a module that caches no imports.
-/

namespace AssemblyGraph

/-! ### Searching without some of the candidates -/

namespace ConstructorLookup

/-- How many candidates have been admitted. -/
def count {α : Type} : ConstructorLookup α → Nat
  | unique _ => 1
  | notFound => 0
  | ambiguous count => count

end ConstructorLookup

theorem ConstructorScan.count_outcome {α : Type} (seen : List α) :
    (ofAdmitted seen).outcome.count = seen.length := by
  rcases seen with _ | ⟨first, _ | ⟨second, rest⟩⟩ <;> rfl

namespace ConstructorShape

variable {α : Type} {shape : ConstructorShape} {methodOf : α → Method} {candidates : List α}

/-- A search finds the same without some of the candidates exactly if none of them is admitted:
an outcome tells how many candidates there were. -/
theorem find_filter_eq_iff {keep : α → Bool} :
    shape.find methodOf (candidates.filter keep) = shape.find methodOf candidates ↔
      ∀ candidate ∈ candidates, shape.admits (methodOf candidate) = true →
        keep candidate = true := by
  let admitted := candidates.filter fun candidate => shape.admits (methodOf candidate)
  have hfilter : (candidates.filter keep).filter (fun c => shape.admits (methodOf c)) =
      admitted.filter keep := List.filter_comm ..
  have hmem : (∀ candidate ∈ candidates, shape.admits (methodOf candidate) = true →
      keep candidate = true) ↔ ∀ candidate ∈ admitted, keep candidate = true := by
    simp only [admitted, List.mem_filter, and_imp]
  rw [find_eq, find_eq, hfilter, hmem]
  constructor
  · intro h
    have hcount := congrArg ConstructorLookup.count h
    rw [ConstructorScan.count_outcome, ConstructorScan.count_outcome] at hcount
    exact List.length_filter_eq_length_iff.mp hcount
  · intro h
    rw [List.filter_eq_self.mpr h]

theorem not_static_of_admits {m : Method} (h : shape.admits m = true) : m.isStatic = false := by
  rw [admits, Bool.and_eq_true, Bool.and_eq_true, Bool.not_eq_true'] at h
  exact h.1.2

theorem name_of_admits {m : Method} (h : shape.admits m = true) :
    m.name = Method.constructorName ∨ m.name = Method.initializerName := by
  rw [admits, Bool.and_eq_true, Bool.and_eq_true, Method.isConstructor, Bool.and_eq_true,
    Bool.or_eq_true, beq_iff_eq, beq_iff_eq] at h
  exact h.1.1.2

/-- Where all initializers are static, what is admitted bears the name of constructors. -/
theorem constructorName_of_admits {m : Method} (h : shape.admits m = true)
    (static : m.name = Method.initializerName → m.isStatic = true) :
    m.name = Method.constructorName := by
  refine (name_of_admits h).resolve_right fun hname => ?_
  have hstatic := static hname
  rw [not_static_of_admits h] at hstatic
  cases hstatic

/-- What it takes for a method with the name of initializers to be taken for a constructor. -/
theorem admits_initializer_iff {source : MethodSource} (h : source.name = Method.initializerName) :
    shape.admits source.method = true ↔
      source.traits.isSpecialName = true ∧ source.traits.isRuntimeSpecial = true ∧
        source.traits.isStatic = false ∧ shape.fits source.signature.params = true := by
  have hname : source.traits.name = Method.initializerName := h
  rw [admits, MethodSource.isConstructor_method, MethodSource.isStatic_method]
  change (_ && _ && shape.fits source.signature.params) = true ↔ _
  simp [hname, and_assoc]

end ConstructorShape

/-! ### Records -/

/-- A module that does not cache its imports refers to a method under its own name. -/
theorem TargetModule.name_of_refer {m m' : TargetModule} {g : Graph} {entry : MethodEntry}
    {reference : MethodReference} (uncached : m.cachesImports = false)
    (h : m.refer g entry = .ok (reference, m')) :
    reference.name = entry.method.name ∧ reference.signature = entry.method.signature := by
  obtain ⟨t, d, ht, hd⟩ := declared_of_refer h
  simp only [refer, ht, hd] at h
  split at h
  · cases h
    exact ⟨rfl, rfl⟩
  · simp only [importForeign, uncached, Bool.false_eq_true, if_false] at h
    cases h
    exact ⟨rfl, rfl⟩

/-- The constructor of a record is a method that the definition of its attribute type lists, and
the record refers to it under its own name. -/
structure AttributeRecord.ConstructedBy (record : AttributeRecord) (f : Factory) (g : Graph)
    (request : Request) (definition : TypeId) (entry : MethodEntry) : Prop where
  attributeType : ∃ t, f.attributeType request = .ok t ∧ g.resolve t = .ok definition
  listed : entry ∈ g.methodsOf definition
  admitted : request.shape.admits entry.method = true
  name : record.constructor.name = entry.method.name
  signature : record.constructor.signature = entry.method.signature

theorem Factory.exists_constructedBy {f : Factory} {g : Graph} {m m' : TargetModule}
    {request : Request} {record : AttributeRecord} (uncached : m.cachesImports = false)
    (h : f.build g m request = .ok (record, m')) :
    ∃ definition entry, record.ConstructedBy f g request definition entry := by
  obtain ⟨entry, args, reference, hentry, -, hrefer, rfl⟩ := build_eq_ok_iff.mp h
  obtain ⟨hname, hsignature⟩ := TargetModule.name_of_refer uncached hrefer
  obtain ⟨t, definition, ht, hdefinition, hmem, hadmits⟩ :=
    exists_definition_of_constructorFor hentry
  exact ⟨definition, entry, ⟨t, ht, hdefinition⟩, hmem, hadmits, hname, hsignature⟩

namespace ConstructorShape

/-- Initializers are told from constructors by the flag for static methods. A search finds the same
without the static methods of a list, or without some of them. It finds the same without all
methods that bear the name of initializers if and only if none of these is marked as special,
lacks the flag and has the shape; and if all of them are static, whatever is found bears the name
of constructors. So does the constructor of a record for a module that caches no imports, if its
attribute type lists no method with the name of initializers but static ones. -/
theorem find_without_initializers (shape : ConstructorShape) (methods : List MethodSource) :
    (∀ keep : MethodSource → Bool,
      (∀ source ∈ methods, keep source = false → source.traits.isStatic = true) →
        shape.find MethodSource.method (methods.filter keep) =
          shape.find MethodSource.method methods) ∧
    (shape.find MethodSource.method (methods.filter fun source =>
        source.name != Method.initializerName) = shape.find MethodSource.method methods ↔
      ∀ source ∈ methods, source.name = Method.initializerName →
        ¬ (source.traits.isSpecialName = true ∧ source.traits.isRuntimeSpecial = true ∧
          source.traits.isStatic = false ∧ shape.fits source.signature.params = true)) ∧
    (∀ source, shape.find MethodSource.method methods = .unique source →
      source.traits.isStatic = false ∧
      (source.name = Method.constructorName ∨ source.name = Method.initializerName) ∧
      ((∀ other ∈ methods, other.name = Method.initializerName →
        other.traits.isStatic = true) → source.name = Method.constructorName)) ∧
    ∀ (f : Factory) (g : Graph) (m m' : TargetModule) (request : Request)
      (record : AttributeRecord), m.cachesImports = false →
      f.build g m request = .ok (record, m') →
        ∃ definition entry, record.ConstructedBy f g request definition entry ∧
          entry.method.isStatic = false ∧
          (record.constructor.name = Method.constructorName ∨
            record.constructor.name = Method.initializerName) ∧
          ((∀ other ∈ g.methodsOf definition, other.method.name = Method.initializerName →
            other.method.isStatic = true) → record.constructor.name = Method.constructorName) := by
  refine ⟨fun keep hstatic => ?_, ?_, fun source h => ?_, fun f g m m' request record huncached h =>
    ?_⟩
  · refine find_filter_eq_iff.mpr fun source hmem hadmits => ?_
    cases hkeep : keep source with
    | true => rfl
    | false =>
        have hflag := hstatic source hmem hkeep
        rw [← MethodSource.isStatic_method, not_static_of_admits hadmits] at hflag
        cases hflag
  · rw [find_filter_eq_iff]
    refine forall₂_congr fun source _ => ?_
    rw [bne_iff_ne]
    constructor
    · intro h hname hmarked
      exact h ((admits_initializer_iff hname).mpr hmarked) hname
    · intro h hadmits hname
      exact h hname ((admits_initializer_iff hname).mp hadmits)
  · obtain ⟨hmem, hadmits⟩ := mem_of_find h
    refine ⟨MethodSource.isStatic_method.symm.trans (not_static_of_admits hadmits),
      name_of_admits hadmits, fun hstatic => constructorName_of_admits hadmits fun hname => ?_⟩
    exact MethodSource.isStatic_method.trans (hstatic source hmem hname)
  · obtain ⟨definition, entry, hconstructed⟩ := Factory.exists_constructedBy huncached h
    refine ⟨definition, entry, hconstructed, not_static_of_admits hconstructed.admitted, ?_, ?_⟩
    · rw [hconstructed.name]
      exact name_of_admits hconstructed.admitted
    · rw [hconstructed.name]
      intro hstatic
      exact constructorName_of_admits hconstructed.admitted (hstatic entry hconstructed.listed)

end ConstructorShape

namespace Session

/-- A registry creates an initializer with this raw word for a type, which the factory of a module
that does not cache its imports then has for the attribute of generated code. The type is `a`,
which has constructors as well, or `c`, which has none. -/
def factoryWithInitializer (type : String) (raw : UInt32) : List Command :=
  attributeTypes .uncached ++ [
    .createType "r" "N" "C" 0 (some "c"),
    .createMethod "r" type Method.initializerName raw (.instanceMethod []) none] ++
  makeFactory type

/-- The initializer of a type that also has constructors is static. -/
def besideConstructors : List Command :=
  factoryWithInitializer "a" 0x1896

/-- A type has nothing but an initializer, whose raw word lacks the flag for static methods. -/
def inPlaceOfConstructor : List Command :=
  factoryWithInitializer "c" 0x1886

theorem build_of_besideConstructors :
    let s := empty.run besideConstructors
    ∃ f m record m', s.factories["f"]? = some f ∧ m.cachesImports = false ∧
      f.build s.graph m .embedded = .ok (record, m') ∧
      ∃ t, s.graph.resolve f.embedded = .ok t ∧ ∀ entry ∈ s.graph.methodsOf t,
        entry.method.name = Method.initializerName → entry.method.isStatic = true := by
  intro s
  have hrun : ((s.factories["f"]?).bind fun f => (s.target? f.table.module).map fun m =>
      (m.cachesImports, (f.build s.graph m .embedded).toBool,
        (s.graph.resolve f.embedded).toOption.map fun t => (s.graph.methodsOf t).all fun entry =>
          entry.method.name != Method.initializerName || entry.method.isStatic)) =
      some (false, true, some true) := by
    decide +kernel
  obtain ⟨f, m, hf, -, hp⟩ := exists_factory hrun
  obtain ⟨huncached, hbuilds, hlisted⟩ := by simpa only [Prod.mk.injEq] using hp
  obtain ⟨⟨record, m'⟩, hbuilt⟩ := toBool_eq_true_iff.mp hbuilds
  obtain ⟨t, hresolve, hall⟩ := Option.map_eq_some_iff.mp hlisted
  refine ⟨f, m, record, m', hf, huncached, hbuilt, t, toOption_eq_some_iff.mp hresolve, ?_⟩
  intro entry hmem hname
  have hentry := List.all_eq_true.mp hall entry hmem
  simpa [hname] using hentry

end Session

namespace ConstructorShape

/-- A constructor and a static initializer without parameters, and an initializer without the
flag. -/
def flaggedAndUnflagged : List MethodSource := [
  ⟨⟨0x06000001⟩, ".ctor", 0x1886, .instanceMethod [], none⟩,
  ⟨⟨0x06000002⟩, ".cctor", 0x1891, .staticMethod [], none⟩,
  ⟨⟨0x06000003⟩, ".cctor", 0x1886, .instanceMethod [], none⟩]

/-- The static initializer has no part in a search, the other one does. A record of a type with a
static initializer has the constructor of that type. -/
theorem find_flaggedAndUnflagged :
    noArgs.find MethodSource.method (flaggedAndUnflagged.filter (!·.traits.isStatic)) =
      noArgs.find MethodSource.method flaggedAndUnflagged ∧
    noArgs.find MethodSource.method (flaggedAndUnflagged.filter fun source =>
        source.name != Method.initializerName) ≠
      noArgs.find MethodSource.method flaggedAndUnflagged ∧
    ∃ f m record m',
      (Session.empty.run Session.besideConstructors).factories["f"]? = some f ∧
      m.cachesImports = false ∧
      f.build (Session.empty.run Session.besideConstructors).graph m .embedded =
        .ok (record, m') ∧ record.constructor.name = Method.constructorName := by
  obtain ⟨hstatic, hinitializers, -, hrecords⟩ :=
    find_without_initializers noArgs flaggedAndUnflagged
  refine ⟨hstatic _ fun source _ hkeep => by simpa using hkeep, ?_, ?_⟩
  · rw [Ne, hinitializers]
    decide
  · obtain ⟨f, m, record, m', hf, huncached, hbuilt, t, ht, hstatics⟩ :=
      Session.build_of_besideConstructors
    obtain ⟨definition, entry, ⟨⟨-, ⟨⟩, hdefinition⟩, -, -, -, -⟩, -, -, hname⟩ :=
      hrecords f _ m m' .embedded record huncached hbuilt
    obtain rfl : t = definition := Except.ok.inj (ht.symm.trans hdefinition)
    exact ⟨f, m, record, m', hf, huncached, hbuilt, hname hstatics⟩

/-- Initializers would be of no account: no search would be any different without the methods that
bear their name, and none would be found, not even for a record of a module that caches no
imports. -/
structure IgnoresInitializers : Prop where
  filtered : ∀ (shape : ConstructorShape) (methods : List MethodSource),
    shape.find MethodSource.method (methods.filter fun source =>
      source.name != Method.initializerName) = shape.find MethodSource.method methods
  unique : ∀ (shape : ConstructorShape) (methods : List MethodSource) (source : MethodSource),
    shape.find MethodSource.method methods = .unique source →
      source.name = Method.constructorName
  record : ∀ (f : Factory) (g : Graph) (m m' : TargetModule) (request : Request)
    (record : AttributeRecord), m.cachesImports = false →
    f.build g m request = .ok (record, m') →
      record.constructor.name ≠ Method.initializerName

/-- A type initializer whose raw word lacks the flag for static methods. -/
def unflaggedInitializer : MethodSource :=
  ⟨⟨0x06000001⟩, ".cctor", 0x1886, .instanceMethod [], none⟩

/-- Such an initializer is found, and a record can be built with one. -/
theorem finds_unflaggedInitializer :
    (noArgs.find MethodSource.method [unflaggedInitializer] = .unique unflaggedInitializer ∧
      noArgs.find MethodSource.method ([unflaggedInitializer].filter fun source =>
        source.name != Method.initializerName) = .notFound) ∧
    (∃ f m record m',
      (Session.empty.run Session.inPlaceOfConstructor).factories["f"]? = some f ∧
      m.cachesImports = false ∧
      f.build (Session.empty.run Session.inPlaceOfConstructor).graph m .compilerGenerated =
        .ok (record, m') ∧ record.constructor.name = Method.initializerName) ∧
    ¬ IgnoresInitializers := by
  have hfound : noArgs.find MethodSource.method [unflaggedInitializer] =
      .unique unflaggedInitializer :=
    find_eq_unique_iff.mpr ⟨[], [], rfl, by decide, by simp⟩
  refine ⟨⟨hfound, rfl⟩, ?_, fun hignores => ?_⟩
  · let s := Session.empty.run Session.inPlaceOfConstructor
    have hrun : ((s.factories["f"]?).bind fun f => (s.target? f.table.module).map fun m =>
        (m.cachesImports, (f.build s.graph m .compilerGenerated).toOption.map fun made =>
          made.1.constructor.name)) = some (false, some Method.initializerName) := by
      decide +kernel
    obtain ⟨f, m, hf, -, hp⟩ := Session.exists_factory hrun
    obtain ⟨huncached, hmade⟩ := Prod.mk.inj hp
    obtain ⟨⟨record, m'⟩, hbuilt, hname⟩ := Option.map_eq_some_iff.mp hmade
    exact ⟨f, m, record, m', hf, huncached, toOption_eq_some_iff.mp hbuilt, hname⟩
  · have hname := hignores.unique noArgs [unflaggedInitializer] _ hfound
    exact absurd hname (by decide)

end ConstructorShape

end AssemblyGraph
