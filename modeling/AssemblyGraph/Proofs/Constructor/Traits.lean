import AssemblyGraph.Proofs.Constructor.Lookup

/-!
What the search for a constructor looks at.

A method keeps the flags of its raw word that have a name, and the search asks
for three of them. So all that it can tell of a method is the name, these three
bits of the raw word, the number of parameters, and whether a parameter that
stands alone is an array.
-/

namespace AssemblyGraph

/-! ### The flags that outlast the raw word -/

namespace MethodAttributes

variable {raw bits : UInt32}

def specialNameBit : UInt32 := 0x0800

def runtimeSpecialBit : UInt32 := 0x1000

/-- Whether a word has all of these bits. -/
def hasBits (word bits : UInt32) : Bool :=
  word &&& bits == bits

theorem hasBits_iff {word : UInt32} :
    hasBits word bits = true ↔
      ∀ i, bits.toBitVec.getLsbD i = true → word.toBitVec.getLsbD i = true := by
  rw [hasBits, beq_iff_eq, ← UInt32.toBitVec_inj, UInt32.toBitVec_and,
    BitVec.eq_of_getLsbD_eq_iff]
  simp only [BitVec.getLsbD_and, Bool.and_eq_right_iff_imp]
  exact ⟨fun h i hi => h i (BitVec.lt_of_getLsbD hi) hi, fun h i _ => h i⟩

theorem hasBits_or (word bits bits' : UInt32) :
    hasBits word (bits ||| bits') = (hasBits word bits && hasBits word bits') := by
  rw [Bool.eq_iff_iff, Bool.and_eq_true, hasBits_iff, hasBits_iff, hasBits_iff]
  simp only [UInt32.toBitVec_or, BitVec.getLsbD_or, Bool.or_eq_true]
  exact ⟨fun h => ⟨fun i hi => h i (.inl hi), fun i hi => h i (.inr hi)⟩,
    fun h i hi => hi.elim (h.1 i) (h.2 i)⟩

/-- The bits of a raw word that are kept as modifiers. -/
def keptBits : UInt32 :=
  ~~~accessMask &&& ~~~layoutMask &&& modifiers.known

theorem modifiersOf_eq (raw : UInt32) : modifiersOf raw = raw &&& keptBits := by
  rw [modifiersOf, FlagField.truncate, keptBits, UInt32.and_assoc, UInt32.and_assoc,
    UInt32.and_assoc]

/-- A flag that is kept is read off the raw word. -/
theorem hasBits_modifiersOf (h : hasBits keptBits bits = true) :
    hasBits (modifiersOf raw) bits = hasBits raw bits := by
  have hkept : keptBits &&& bits = bits := beq_iff_eq.mp h
  rw [hasBits, hasBits, modifiersOf_eq, UInt32.and_assoc, hkept]

theorem hasBits_keptBits :
    hasBits keptBits staticBit = true ∧ hasBits keptBits specialBits = true := by
  decide

end MethodAttributes

/-! ### The traits of a method -/

/-- What a method is made from, and the link that it may have been given since. -/
structure MethodSource where
  token : Token
  name : String
  raw : UInt32
  signature : MethodSignature
  declaringType? : Option TypeId

def MethodSource.method (source : MethodSource) : Method :=
  { Method.ofAttributes source.token source.name source.raw source.signature with
    declaringType? := source.declaringType? }

/-- The same method with more flags set. -/
def MethodSource.withFlags (source : MethodSource) (flags : UInt32) : MethodSource :=
  { source with raw := source.raw ||| flags }

/-- All that a search for a constructor can tell of a method. -/
structure ConstructorTraits where
  name : String
  isStatic : Bool
  isSpecialName : Bool
  isRuntimeSpecial : Bool
  paramCount : Nat
  /-- Whether the method has a single parameter, and that is an array. -/
  takesArray : Bool
  deriving DecidableEq

open MethodAttributes in
def MethodSource.traits (source : MethodSource) : ConstructorTraits where
  name := source.name
  isStatic := hasBits source.raw staticBit
  isSpecialName := hasBits source.raw specialNameBit
  isRuntimeSpecial := hasBits source.raw runtimeSpecialBit
  paramCount := source.signature.params.length
  takesArray :=
    match source.signature.params with
    | [param] => param.base.isArray
    | _ => false

namespace ConstructorShape

/-- The rule of a shape, told from the traits alone. -/
def suits (shape : ConstructorShape) (traits : ConstructorTraits) : Bool :=
  (traits.name == Method.constructorName || traits.name == Method.initializerName) &&
    traits.isSpecialName && traits.isRuntimeSpecial && !traits.isStatic &&
    match shape with
    | noArgs => traits.paramCount == 0
    | oneArg => traits.paramCount == 1
    | oneScalarArg => traits.paramCount == 1 && !traits.takesArray
    | oneArrayArg => traits.paramCount == 1 && traits.takesArray

end ConstructorShape

namespace MethodSource

variable {source : MethodSource}

theorem isStatic_method : source.method.isStatic = source.traits.isStatic :=
  MethodAttributes.hasBits_modifiersOf MethodAttributes.hasBits_keptBits.1

theorem isConstructor_method :
    source.method.isConstructor =
      (source.traits.isSpecialName && source.traits.isRuntimeSpecial &&
        (source.traits.name == Method.constructorName ||
          source.traits.name == Method.initializerName)) := by
  have hspecial : source.method.hasModifiers MethodAttributes.specialBits =
      (source.traits.isSpecialName && source.traits.isRuntimeSpecial) :=
    (MethodAttributes.hasBits_modifiersOf MethodAttributes.hasBits_keptBits.2).trans
      (MethodAttributes.hasBits_or source.raw _ _)
  rw [Method.isConstructor, hspecial]
  rfl

theorem fits_params (shape : ConstructorShape) (source : MethodSource) :
    shape.fits source.signature.params =
      match shape with
      | .noArgs => source.traits.paramCount == 0
      | .oneArg => source.traits.paramCount == 1
      | .oneScalarArg => source.traits.paramCount == 1 && !source.traits.takesArray
      | .oneArrayArg => source.traits.paramCount == 1 && source.traits.takesArray := by
  rw [traits]
  rcases source.signature.params with _ | ⟨param, _ | ⟨second, rest⟩⟩ <;> cases shape <;>
    simp [ConstructorShape.fits]

theorem admits_method (shape : ConstructorShape) (source : MethodSource) :
    shape.admits source.method = shape.suits source.traits := by
  rw [ConstructorShape.admits, isStatic_method, isConstructor_method]
  change (_ && shape.fits source.signature.params) = _
  rw [fits_params]
  unfold ConstructorShape.suits
  ac_rfl

end MethodSource

namespace ConstructorShape

variable {α : Type} {shape : ConstructorShape} {candidates : List α}

/-- Methods that are changed without touching a trait are searched alike. -/
theorem find_congr_traits {sourceOf sourceOf' : α → MethodSource}
    (h : ∀ candidate ∈ candidates, (sourceOf candidate).traits = (sourceOf' candidate).traits) :
    shape.find (fun candidate => (sourceOf candidate).method) candidates =
      shape.find (fun candidate => (sourceOf' candidate).method) candidates := by
  have hadmits : ∀ candidate ∈ candidates, shape.admits (sourceOf candidate).method =
      shape.admits (sourceOf' candidate).method := by
    intro candidate hmem
    rw [MethodSource.admits_method, MethodSource.admits_method, h candidate hmem]
  rw [find_eq, find_eq, List.filter_congr hadmits]

/-- Searching for a constructor: each outcome says how many candidates are
constructors of the shape, and which one is when there is a single one. The two
other outcomes are errors that report this number. The order of the candidates
does not matter, a constructor with one parameter is one of its two kinds, and
nothing but the traits of the candidates is looked at. -/
theorem find_exact (shape : ConstructorShape) (methodOf : α → Method) (candidates : List α) :
    (∀ m, shape.find methodOf candidates = .unique m ↔
      ∃ before after, candidates = before ++ m :: after ∧ shape.admits (methodOf m) = true ∧
        ∀ other ∈ before ++ after, shape.admits (methodOf other) = false) ∧
    (shape.find methodOf candidates = .notFound ↔
      ∀ m ∈ candidates, shape.admits (methodOf m) = false) ∧
    (∀ n, shape.find methodOf candidates = .ambiguous n ↔
      2 ≤ n ∧ shape.admittedCount methodOf candidates = n) ∧
    (∀ typeName reported m,
      (shape.find methodOf candidates).toExcept typeName reported = .ok m ↔
        shape.find methodOf candidates = .unique m) ∧
    (∀ typeName reported cause,
      (shape.find methodOf candidates).toExcept typeName reported = .error cause ↔
        (shape.find methodOf candidates = .notFound ∨
          ∃ n, shape.find methodOf candidates = .ambiguous n) ∧
        cause = .constructorMismatch typeName reported
          (shape.admittedCount methodOf candidates)) ∧
    (shape.find methodOf candidates = .notFound ∨
        (∃ n, shape.find methodOf candidates = .ambiguous n) ↔
      shape.admittedCount methodOf candidates ≠ 1) ∧
    (∀ others, candidates.Perm others →
      shape.find methodOf candidates = shape.find methodOf others) ∧
    oneArg.admittedCount methodOf candidates =
      oneScalarArg.admittedCount methodOf candidates +
        oneArrayArg.admittedCount methodOf candidates ∧
    (∀ m, oneArg.find methodOf candidates = .unique m ↔
      (oneScalarArg.find methodOf candidates = .unique m ∧
        oneArrayArg.find methodOf candidates = .notFound) ∨
      (oneScalarArg.find methodOf candidates = .notFound ∧
        oneArrayArg.find methodOf candidates = .unique m)) ∧
    ∀ sourceOf sourceOf' : α → MethodSource,
      (∀ m ∈ candidates, (sourceOf m).traits = (sourceOf' m).traits) →
        shape.find (fun m => (sourceOf m).method) candidates =
          shape.find (fun m => (sourceOf' m).method) candidates :=
  ⟨fun _ => find_eq_unique_iff, find_eq_notFound_iff, fun _ => find_eq_ambiguous_iff,
    fun _ _ _ => toExcept_find_eq_ok_iff, fun _ _ _ => toExcept_find_eq_error_iff,
    fails_iff, fun _ => find_perm, admittedCount_oneArg methodOf candidates,
    fun _ => find_oneArg_eq_unique_iff, fun _ _ => find_congr_traits⟩

/-- Two constructors with one parameter, and a type initializer. -/
def scalarAndArray : List MethodSource := [
  ⟨⟨0x06000001⟩, ".ctor", 0x1886, .instanceMethod [.byte], none⟩,
  ⟨⟨0x06000002⟩, ".ctor", 0x1886, .instanceMethod [.vector .byte []], none⟩,
  ⟨⟨0x06000003⟩, ".cctor", 0x1891, .staticMethod [], none⟩]

/-- Each kind is found once, so a search for any parameter cannot decide, also
when all the bits are set that no search asks for. -/
theorem find_of_scalarAndArray :
    oneArg.find MethodSource.method scalarAndArray = .ambiguous 2 ∧
    oneScalarArg.find MethodSource.method scalarAndArray.reverse =
      oneScalarArg.find MethodSource.method scalarAndArray ∧
    oneArg.find (fun source => (source.withFlags 0xFFFFE7EF).method) scalarAndArray =
      oneArg.find (fun source => source.method) scalarAndArray := by
  obtain ⟨-, -, hambiguous, -, -, -, -, -, -, htraits⟩ :=
    find_exact oneArg MethodSource.method scalarAndArray
  obtain ⟨-, -, -, -, -, -, hperm, -⟩ :=
    find_exact oneScalarArg MethodSource.method scalarAndArray
  refine ⟨(hambiguous 2).mpr ⟨Nat.le_refl 2, by decide⟩,
    (hperm _ (List.reverse_perm _).symm).symm, ?_⟩
  exact htraits _ _ (by decide)

end ConstructorShape

end AssemblyGraph
