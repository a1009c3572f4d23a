import AssemblyGraph.Factory
import AssemblyGraph.Proofs.Constructor.Lookup
import AssemblyGraph.Proofs.Ownership

/-!
Building records.

A record that is built has a constructor that the graph holds, and it owns no
types but those of the factory.
-/

namespace AssemblyGraph

namespace Graph

variable {g : Graph} {t : TypeId} {entry : MethodEntry}

theorem id_eq_of_methodWithId? {m : MethodId} (h : g.methodWithId? m = some entry) :
    entry.id = m := by
  obtain ⟨method, -, rfl⟩ := Option.map_eq_some_iff.mp h
  rfl

theorem methodWithId?_of_mem_methodsOf (h : entry ∈ g.methodsOf t) :
    g.methodWithId? entry.id = some entry := by
  rw [methodsOf] at h
  cases ht : g.type? t with
  | none => simp [ht] at h
  | some d =>
      simp only [ht, List.mem_filterMap] at h
      obtain ⟨m, -, hm⟩ := h
      obtain ⟨method, hmethod, rfl⟩ := Option.map_eq_some_iff.mp hm
      exact hm

/-- The constructor that is found is listed by the type, and it has the shape. -/
theorem mem_methodsOf_of_constructor {shape : ConstructorShape}
    (h : g.constructor t shape = .ok entry) :
    entry ∈ g.methodsOf t ∧ shape.admits entry.method = true := by
  rw [constructor, findConstructor, ConstructorShape.toExcept_find_eq_ok_iff] at h
  exact ConstructorShape.mem_of_find h

end Graph

/-- The shape of the constructor that a record asks for. -/
def Request.shape : Request → ConstructorShape
  | .compilerGenerated | .embedded | .referenceAssembly => .noArgs
  | .nullable _ => .oneScalarArg
  | .nullableFlags _ => .oneArrayArg
  | .nullableContext _ | .nullablePublicOnly _ | .attributeUsage .. => .oneArg

namespace Factory

variable {f : Factory}

theorem mem_ownedTypes_of_table {t : TypeId} (h : t ∈ f.table.ownedTypes) : t ∈ f.ownedTypes :=
  List.mem_append_left _ h

theorem byte_mem_ownedTypes : f.table.byte ∈ f.ownedTypes :=
  mem_ownedTypes_of_table (List.mem_cons_self ..)

theorem boolean_mem_ownedTypes : f.table.boolean ∈ f.ownedTypes :=
  mem_ownedTypes_of_table (List.mem_cons_of_mem _ (List.mem_cons_self ..))

/-- The type whose constructor a record is built with. -/
def attributeType (f : Factory) : Request → Except Error TypeId
  | .compilerGenerated => f.table.get .compilerGeneratedAttribute
  | .embedded => .ok f.embedded
  | .nullable _ | .nullableFlags _ => .ok f.nullable
  | .nullableContext _ => .ok f.nullableContext
  | .nullablePublicOnly _ => .ok f.nullablePublicOnly
  | .attributeUsage .. => f.table.get .attributeUsageAttribute
  | .referenceAssembly => f.table.get .referenceAssemblyAttribute

theorem constructorFor_eq (f : Factory) (g : Graph) (request : Request) :
    f.constructorFor g request =
      f.attributeType request >>= fun t => constructorOn g t request.shape := by
  cases request <;> rfl

theorem mem_ownedTypes_of_attributeType {t : TypeId} (h : f.attributeType request = .ok t) :
    t ∈ f.ownedTypes := by
  cases request with
  | compilerGenerated | attributeUsage | referenceAssembly =>
      exact mem_ownedTypes_of_table (WellKnownTable.mem_ownedTypes_of_get h)
  | _ =>
      cases h
      simp [ownedTypes]

/-- A check can refuse a factory, but it does not change what it is made of. -/
theorem eq_of_create {g : Graph} {config : Config} {table : WellKnownTable}
    {embedded nullable nullableContext nullablePublicOnly : TypeId}
    (h : create g config table embedded nullable nullableContext nullablePublicOnly = .ok f) :
    f = ⟨table, embedded, nullable, nullableContext, nullablePublicOnly⟩ := by
  rw [create] at h
  split at h
  · obtain ⟨-, -, rfl⟩ := map_eq_ok_iff.mp h
    rfl
  · cases h
    rfl

/-- The constructor of a record is listed by the definition of the attribute type, and it has the
shape that the record asks for. -/
theorem exists_definition_of_constructorFor {g : Graph} {request : Request} {entry : MethodEntry}
    (h : f.constructorFor g request = .ok entry) :
    ∃ t u, f.attributeType request = .ok t ∧ g.resolve t = .ok u ∧ entry ∈ g.methodsOf u ∧
      request.shape.admits entry.method = true := by
  rw [constructorFor_eq, bind_eq_ok_iff] at h
  obtain ⟨t, ht, hon⟩ := h
  rw [constructorOn, bind_eq_ok_iff] at hon
  obtain ⟨u, hu, hconstructor⟩ := hon
  exact ⟨t, u, ht, hu, Graph.mem_methodsOf_of_constructor hconstructor⟩

theorem exists_of_constructorFor {g : Graph} {request : Request} {entry : MethodEntry}
    (h : f.constructorFor g request = .ok entry) :
    ∃ u, entry ∈ g.methodsOf u ∧ request.shape.admits entry.method = true := by
  obtain ⟨-, u, -, -, hlisted⟩ := exists_definition_of_constructorFor h
  exact ⟨u, hlisted⟩

theorem methodWithId?_of_constructorFor {g : Graph} {request : Request} {entry : MethodEntry}
    (h : f.constructorFor g request = .ok entry) : g.methodWithId? entry.id = some entry := by
  obtain ⟨u, hmem, -⟩ := exists_of_constructorFor h
  exact Graph.methodWithId?_of_mem_methodsOf hmem

theorem elementType_mem_of_fixedArgs {request : Request} {args : List TypedArg}
    (h : f.fixedArgs request = .ok args) : ∀ arg ∈ args, arg.type.elementType ∈ f.ownedTypes := by
  cases request with
  | compilerGenerated | embedded | referenceAssembly =>
      cases h
      simp
  | nullable | nullableFlags | nullableContext =>
      cases h
      simpa [byteArg, ArgType.elementType] using byte_mem_ownedTypes
  | nullablePublicOnly =>
      cases h
      simpa [boolArg, ArgType.elementType] using boolean_mem_ownedTypes
  | attributeUsage =>
      obtain ⟨t, hget, rfl⟩ := map_eq_ok_iff.mp h
      have hmem := mem_ownedTypes_of_table (WellKnownTable.mem_ownedTypes_of_get hget)
      simpa [ArgType.elementType] using hmem

theorem elementType_mem_of_namedArgs (request : Request) :
    ∀ named ∈ f.namedArgs request, named.arg.type.elementType ∈ f.ownedTypes := by
  have hproperty : ∀ (name : String) (value : Option Bool),
      ∀ named ∈ f.propertyArg name value, named.arg.type.elementType ∈ f.ownedTypes := by
    intro name value named hnamed
    obtain ⟨b, -, rfl⟩ := List.mem_map.mp hnamed
    exact boolean_mem_ownedTypes
  intro named hnamed
  cases request with
  | attributeUsage validOn allowMultiple inherited =>
      rcases List.mem_append.mp hnamed with h | h
      · exact hproperty _ _ named h
      · exact hproperty _ _ named h
  | _ => cases hnamed

/-- A record comes from a constructor that was found and referred to, and from
the arguments of the request. -/
theorem build_eq_ok_iff {g : Graph} {m m' : TargetModule} {request : Request}
    {record : AttributeRecord} :
    f.build g m request = .ok (record, m') ↔
      ∃ entry args reference, f.constructorFor g request = .ok entry ∧
        f.fixedArgs request = .ok args ∧ m.refer g entry = .ok (reference, m') ∧
        record = ⟨reference, args, f.namedArgs request⟩ := by
  rw [build]
  simp only [bind_eq_ok_iff]
  constructor
  · rintro ⟨entry, hentry, args, hargs, ⟨reference, m''⟩, hrefer, hmade⟩
    cases hmade
    exact ⟨entry, args, reference, hentry, hargs, hrefer, rfl⟩
  · rintro ⟨entry, args, reference, hentry, hargs, hrefer, rfl⟩
    exact ⟨entry, hentry, args, hargs, ⟨reference, m'⟩, hrefer, rfl⟩

/-- A record that a factory builds owns types of the factory. -/
theorem ownedTypes_subset_of_build {g : Graph} {m m' : TargetModule} {request : Request}
    {record : AttributeRecord} (h : f.build g m request = .ok (record, m')) :
    ∀ t ∈ record.ownedTypes, t ∈ f.ownedTypes := by
  obtain ⟨entry, args, reference, -, hargs, -, rfl⟩ := build_eq_ok_iff.mp h
  intro t ht
  obtain ⟨arg, harg, rfl⟩ := List.mem_map.mp ht
  rcases List.mem_append.mp harg with harg | harg
  · exact elementType_mem_of_fixedArgs hargs arg harg
  · obtain ⟨named, hnamed, rfl⟩ := List.mem_map.mp harg
    exact elementType_mem_of_namedArgs request named hnamed

end Factory

end AssemblyGraph
