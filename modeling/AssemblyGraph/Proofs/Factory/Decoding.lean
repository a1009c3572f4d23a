import AssemblyGraph.Proofs.Factory.Arguments
import AssemblyGraph.Proofs.Factory.Validation
import Mathlib.Algebra.Group.Int.Defs

/-!
Reading a request back from the arguments of its record.

The values of the arguments are made from the request alone, and they are enough to tell it from
all others of its kind: the kind says how many arguments there are and what each of them holds,
and a property that was not asked for is missing. The word of the targets only gains a sign.
-/

namespace AssemblyGraph

/-! ### Targets as signed words -/

namespace AttributeTargets

/-- The set that has this value. -/
def ofInt32 (value : Int32) : AttributeTargets :=
  ⟨value.toUInt32⟩

theorem ofInt32_toInt32 (targets : AttributeTargets) :
    ofInt32 targets.toInt32 = targets := rfl

/-- A set with the highest bit has a negative value, which is the same word. -/
theorem toInt_toInt32_emod (targets : AttributeTargets) :
    targets.toInt32.toInt % 2 ^ 32 = targets.bits.toNat := by
  have hword : targets.toInt32.toInt = targets.bits.toBitVec.toInt := rfl
  rw [hword, BitVec.toInt_eq_toNat_bmod, UInt32.toNat_toBitVec]
  refine Int.bmod_emod.trans (Int.emod_eq_of_lt (Int.natCast_nonneg _) ?_)
  exact_mod_cast targets.bits.toNat_lt

end AttributeTargets

/-! ### The values of arguments -/

/-- What a named argument sets, and to what value. -/
structure NamedValue where
  isField : Bool
  name : String
  value : ArgValue

/-- The values of a record's arguments, without their types. -/
structure ArgValues where
  fixed : List ArgValue
  named : List NamedValue

def NamedArg.namedValue (named : NamedArg) : NamedValue :=
  ⟨named.isField, named.name, named.arg.value⟩

def AttributeRecord.argValues (record : AttributeRecord) : ArgValues :=
  ⟨record.fixedArgs.map (·.value), record.namedArgs.map NamedArg.namedValue⟩

namespace ArgValue

def bool? : ArgValue → Option Bool
  | bool value => some value
  | _ => none

def byte? : ArgValue → Option UInt8
  | byte value => some value
  | _ => none

/-- The bytes of an array come out in order. -/
theorem filterMap_byte?_map (values : List UInt8) :
    (values.map ArgValue.byte).filterMap byte? = values := by
  rw [List.filterMap_map]
  exact List.filterMap_some

end ArgValue

namespace ArgValues

/-- The value that the property of this name is set to, if it is set. -/
def property? (values : ArgValues) (name : String) : Option ArgValue :=
  (values.named.find? fun named => !named.isField && named.name == name).map (·.value)

def flag? (values : ArgValues) (name : String) : Option Bool :=
  (values.property? name).bind ArgValue.bool?

end ArgValues

theorem AttributeRecord.property?_argValues (record : AttributeRecord) (name : String) :
    record.argValues.property? name = (record.property? name).map (·.arg.value) := by
  rw [ArgValues.property?, argValues, List.find?_map, Option.map_map]
  rfl

/-- The request of a kind that has these values, if there is one. -/
def RecordKind.decode? (kind : RecordKind) (values : ArgValues) : Option Request :=
  match kind, values.fixed with
  | compilerGenerated, [] => some .compilerGenerated
  | embedded, [] => some .embedded
  | nullable, [.byte value] => some (.nullable value)
  | nullableFlags, [.array elements] => some (.nullableFlags (elements.filterMap ArgValue.byte?))
  | nullableContext, [.byte value] => some (.nullableContext value)
  | nullablePublicOnly, [.bool value] => some (.nullablePublicOnly value)
  | attributeUsage, [.int32 value] =>
    some (.attributeUsage (.ofInt32 value) (values.flag? Factory.allowMultipleName)
      (values.flag? Factory.inheritedName))
  | referenceAssembly, [] => some .referenceAssembly
  | _, _ => none

/-! ### The values that a request is turned into -/

/-- A property is set if there is a value for it. -/
def NamedValue.property (name : String) (value : Option Bool) : List NamedValue :=
  value.toList.map fun b => ⟨false, name, .bool b⟩

theorem Factory.map_namedValue_propertyArg (f : Factory) (name : String) (value : Option Bool) :
    (f.propertyArg name value).map NamedArg.namedValue = NamedValue.property name value :=
  List.map_map

namespace Request

/-- The values of the arguments of a record, in all factories alike. -/
def argValues : Request → ArgValues
  | compilerGenerated | embedded | referenceAssembly => ⟨[], []⟩
  | nullable value | nullableContext value => ⟨[.byte value], []⟩
  | nullableFlags values => ⟨[.array (values.map .byte)], []⟩
  | nullablePublicOnly value => ⟨[.bool value], []⟩
  | attributeUsage validOn allowMultiple inherited =>
    ⟨[.int32 validOn.toInt32],
      NamedValue.property Factory.allowMultipleName allowMultiple ++
        NamedValue.property Factory.inheritedName inherited⟩

/-- Each property is set if and only if there is a value for it, and to that value. -/
theorem property?_argValues (validOn : AttributeTargets) (allowMultiple inherited : Option Bool) :
    (attributeUsage validOn allowMultiple inherited).argValues.property?
        Factory.allowMultipleName = allowMultiple.map .bool ∧
      (attributeUsage validOn allowMultiple inherited).argValues.property?
        Factory.inheritedName = inherited.map .bool := by
  cases allowMultiple <;> cases inherited <;> exact ⟨rfl, rfl⟩

theorem flag?_argValues (validOn : AttributeTargets) (allowMultiple inherited : Option Bool) :
    (attributeUsage validOn allowMultiple inherited).argValues.flag? Factory.allowMultipleName =
        allowMultiple ∧
      (attributeUsage validOn allowMultiple inherited).argValues.flag? Factory.inheritedName =
        inherited := by
  have hbool : ∀ value : Option Bool, (value.map ArgValue.bool).bind ArgValue.bool? = value := by
    intro value
    cases value <;> rfl
  obtain ⟨hmultiple, hinherited⟩ := property?_argValues validOn allowMultiple inherited
  exact ⟨by rw [ArgValues.flag?, hmultiple, hbool], by rw [ArgValues.flag?, hinherited, hbool]⟩

/-- No property is set twice. -/
theorem named_argValues_sublist (validOn : AttributeTargets)
    (allowMultiple inherited : Option Bool) :
    ((attributeUsage validOn allowMultiple inherited).argValues.named.map (·.name)).Sublist
      [Factory.allowMultipleName, Factory.inheritedName] := by
  have hproperty : ∀ (name : String) (value : Option Bool),
      ((NamedValue.property name value).map (·.name)).Sublist [name] := by
    intro name value
    cases value with
    | none => exact List.nil_sublist _
    | some b => exact .refl _
  rw [argValues, List.map_append]
  exact (hproperty _ allowMultiple).append (hproperty _ inherited)

theorem decode?_argValues (request : Request) :
    request.kind.decode? request.argValues = some request := by
  cases request with
  | nullableFlags values =>
      exact congrArg (some ∘ nullableFlags) (ArgValue.filterMap_byte?_map values)
  | attributeUsage validOn allowMultiple inherited =>
      obtain ⟨hmultiple, hinherited⟩ := flag?_argValues validOn allowMultiple inherited
      change some (attributeUsage (.ofInt32 validOn.toInt32) (ArgValues.flag? _ _)
        (ArgValues.flag? _ _)) = _
      rw [hmultiple, hinherited, AttributeTargets.ofInt32_toInt32]
  | _ => rfl

end Request

namespace Factory

variable {f f' : Factory} {g g' : Graph} {m m₁ m' m₁' : TargetModule} {request request' : Request}
variable {record record' : AttributeRecord}

/-- No factory changes the values that a request asks for. -/
theorem argValues_of_build (h : f.build g m request = .ok (record, m₁)) :
    record.argValues = request.argValues := by
  obtain ⟨entry, args, reference, -, hargs, -, rfl⟩ := build_eq_ok_iff.mp h
  cases request with
  | attributeUsage validOn allowMultiple inherited =>
      obtain ⟨targets, -, rfl⟩ := map_eq_ok_iff.mp hargs
      simp only [AttributeRecord.argValues, Request.argValues, namedArgs, List.map_append,
        map_namedValue_propertyArg]
      rfl
  | _ =>
      cases hargs
      rfl

/-- The values tell what was asked for among all requests of one kind. -/
theorem decode?_of_build (h : f.build g m request = .ok (record, m₁)) :
    request.kind.decode? record.argValues = some request := by
  rw [argValues_of_build h, Request.decode?_argValues]

theorem argValues_eq_iff (h : f.build g m request = .ok (record, m₁))
    (h' : f'.build g' m' request' = .ok (record', m₁')) (kinds : request'.kind = request.kind) :
    record'.argValues = record.argValues ↔ request' = request := by
  constructor
  · intro hvalues
    have hdecode := decode?_of_build h'
    rw [kinds, hvalues, decode?_of_build h] at hdecode
    exact (Option.some_inj.mp hdecode).symm
  · rintro rfl
    rw [argValues_of_build h, argValues_of_build h']

/-- The arguments of a record determine what was asked for. The request can be read back from
their values, so two records of one kind have the same values if and only if they were asked for
with the same values, be it in other modules or of other factories. The bytes for nullability
stand in one array in order. The word for the targets is a signed one, congruent to their bits. A
property is set if and only if there is a value for it, and to that value, no property is set
twice, and the one that allows an attribute more than once comes first. -/
theorem request_of_arguments (built : f.build g m request = .ok (record, m₁)) :
    request.kind.decode? record.argValues = some request ∧
    (∀ (f' : Factory) (g' : Graph) (m' m₁' : TargetModule) (request' : Request)
      (record' : AttributeRecord), f'.build g' m' request' = .ok (record', m₁') →
        request'.kind = request.kind →
          (record'.argValues = record.argValues ↔ request' = request)) ∧
    (∀ values, request = .nullableFlags values →
      record.fixedArgs.map (·.value) = [.array (values.map .byte)] ∧ record.namedArgs = []) ∧
    ∀ validOn allowMultiple inherited, request = .attributeUsage validOn allowMultiple inherited →
      (∃ value : Int32, record.fixedArgs.map (·.value) = [.int32 value] ∧
        -2 ^ 31 ≤ value.toInt ∧ value.toInt < 2 ^ 31 ∧
        value.toInt % 2 ^ 32 = validOn.bits.toNat) ∧
      (record.property? allowMultipleName).map (·.arg.value) = allowMultiple.map .bool ∧
      (record.property? inheritedName).map (·.arg.value) = inherited.map .bool ∧
      (record.namedArgs.map (·.name)).Sublist [allowMultipleName, inheritedName] ∧
      ∀ named ∈ record.namedArgs, named.isField = false := by
  have hvalues := argValues_of_build built
  refine ⟨decode?_of_build built, fun _ _ _ _ _ _ built' => argValues_eq_iff built built', ?_, ?_⟩
  · rintro values rfl
    exact ⟨congrArg ArgValues.fixed hvalues,
      List.map_eq_nil_iff.mp (congrArg ArgValues.named hvalues)⟩
  · rintro validOn allowMultiple inherited rfl
    obtain ⟨hmultiple, hinherited⟩ :=
      Request.property?_argValues validOn allowMultiple inherited
    rw [← hvalues, AttributeRecord.property?_argValues] at hmultiple hinherited
    refine ⟨⟨validOn.toInt32, congrArg ArgValues.fixed hvalues, validOn.toInt32.le_toInt,
      validOn.toInt32.toInt_lt, validOn.toInt_toInt32_emod⟩, hmultiple, hinherited, ?_, ?_⟩
    · have hnames : record.argValues.named.map (·.name) = record.namedArgs.map (·.name) :=
        List.map_map
      rw [← hnames, hvalues]
      exact Request.named_argValues_sublist validOn allowMultiple inherited
    · obtain ⟨-, -, -, -, -, -, rfl⟩ := build_eq_ok_iff.mp built
      have hproperties : ∀ named ∈ f.namedArgs (.attributeUsage validOn allowMultiple inherited),
          named.isField = false := fun named hnamed => (property_of_namedArgs hnamed).1
      exact hproperties

end Factory

namespace Session

open Factory

/-- Targets with the highest bit, for which one of the properties is set to false. -/
def usageOnce : Request :=
  .attributeUsage ⟨0x80000004⟩ (some false) none

def usageNotInherited : Request :=
  .attributeUsage ⟨0x80000004⟩ none (some false)

/-- The records for two usages differ in which property is set, and the word for their targets is
negative. -/
theorem request_of_usages :
    ∃ f m, (empty.run (strictFactory .uncached)).factories["f"]? = some f ∧
      ∃ once m₁ inherited m₂,
        f.build (empty.run (strictFactory .uncached)).graph m usageOnce = .ok (once, m₁) ∧
        f.build (empty.run (strictFactory .uncached)).graph m₁ usageNotInherited =
          .ok (inherited, m₂) ∧
        RecordKind.attributeUsage.decode? once.argValues = some usageOnce ∧
        inherited.argValues ≠ once.argValues ∧
        (once.property? allowMultipleName).map (·.arg.value) = some (.bool false) ∧
        once.property? inheritedName = none := by
  let s := empty.run (strictFactory .uncached)
  have hrun : ((s.factories["f"]?).bind fun f => (s.target? f.table.module).map fun m =>
      ((f.build s.graph m usageOnce).bind fun made =>
        f.build s.graph made.2 usageNotInherited).toBool) = some true := by
    decide +kernel
  obtain ⟨f, m, hf, -, hbuilds⟩ := exists_factory hrun
  obtain ⟨⟨inherited, m₂⟩, hboth⟩ := toBool_eq_true_iff.mp hbuilds
  obtain ⟨⟨once, m₁⟩, honce, hinherited⟩ := bind_eq_ok_iff.mp hboth
  obtain ⟨hdecode, hdistinct, -, husage⟩ := request_of_arguments honce
  obtain ⟨-, hmultiple, hnone, -, -⟩ := husage ⟨0x80000004⟩ (some false) none rfl
  refine ⟨f, m, hf, once, m₁, inherited, m₂, honce, hinherited, hdecode, ?_, hmultiple, ?_⟩
  · rw [Ne, hdistinct f s.graph m₁ m₂ usageNotInherited inherited hinherited rfl]
    simp [usageNotInherited, usageOnce]
  · exact Option.map_eq_none_iff.mp hnone

end Session

end AssemblyGraph
