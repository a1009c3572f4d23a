import AssemblyGraph.Proofs.Factory.Checks

/-!
The arguments of the records that a factory builds.

The constructor is searched by a shape and the arguments are made from the
request, each without looking at the other. They agree because both follow the
kind of the record: there are as many arguments as the shape has parameters, and
where the shape says whether its parameter is an array, so is the argument.
-/

namespace AssemblyGraph

namespace ConstructorShape

/-- How many parameters a constructor of the shape has. -/
def arity : ConstructorShape → Nat
  | noArgs => 0
  | oneArg | oneScalarArg | oneArrayArg => 1

theorem length_of_fits {shape : ConstructorShape} {params : List Parameter}
    (h : shape.fits params = true) : params.length = shape.arity := by
  cases shape with
  | noArgs => simpa [fits, arity] using h
  | oneArg | oneScalarArg | oneArrayArg =>
      cases params with
      | nil => cases h
      | cons _ rest =>
          cases rest with
          | nil => rfl
          | cons => cases h

theorem fits_of_admits {shape : ConstructorShape} {m : Method} (h : shape.admits m = true) :
    shape.fits m.signature.params = true := by
  rw [admits, Bool.and_eq_true] at h
  exact h.2

/-- The shapes of the two constructors of an attribute for nullability, by whether the
parameter is an array. -/
def ofNullable (isArray : Bool) : ConstructorShape :=
  if isArray then oneArrayArg else oneScalarArg

theorem exists_param_of_ofNullable {isArray : Bool} {params : List Parameter}
    (h : (ofNullable isArray).fits params = true) :
    ∃ param, params = [param] ∧ param.base.isArray = isArray := by
  have harity : (ofNullable isArray).arity = 1 := by
    cases isArray <;> rfl
  obtain ⟨param, rfl⟩ := List.length_eq_one_iff.mp ((length_of_fits h).trans harity)
  refine ⟨param, rfl, ?_⟩
  cases isArray with
  | false => simpa [ofNullable, fits] using h
  | true => exact h

end ConstructorShape

/-- A value is declared with the type that a table binds for its kind, if the table binds one
by itself. -/
def WellKnownTable.Declares (table : WellKnownTable) (arg : TypedArg) : Prop :=
  match arg.value with
  | .byte _ => arg.type = .single table.byte
  | .bool _ => arg.type = .single table.boolean
  | _ => True

namespace Factory

variable {f : Factory} {request : Request} {args : List TypedArg}

theorem length_fixedArgs (h : f.fixedArgs request = .ok args) :
    args.length = request.shape.arity := by
  cases request with
  | attributeUsage =>
      obtain ⟨t, -, rfl⟩ := map_eq_ok_iff.mp h
      rfl
  | _ =>
      cases h
      rfl

/-- The records for nullability have one argument, which is an array if the shape of their
constructor asks for one. -/
theorem exists_arg_of_nullable (h : f.fixedArgs request = .ok args)
    (nullable : request.kind = .nullable ∨ request.kind = .nullableFlags) :
    ∃ arg, args = [arg] ∧ request.shape = .ofNullable arg.type.isArray := by
  cases request with
  | nullable | nullableFlags =>
      cases h
      exact ⟨_, rfl, rfl⟩
  | _ => rcases nullable with hkind | hkind <;> cases hkind

theorem declares_fixedArgs (h : f.fixedArgs request = .ok args) :
    ∀ arg ∈ args, f.table.Declares arg := by
  cases request with
  | compilerGenerated | embedded | referenceAssembly =>
      cases h
      simp
  | nullable | nullableFlags | nullableContext | nullablePublicOnly =>
      cases h
      simp [WellKnownTable.Declares, byteArg, boolArg]
  | attributeUsage =>
      obtain ⟨t, -, rfl⟩ := map_eq_ok_iff.mp h
      simp [WellKnownTable.Declares]

/-- Only properties are set by name, to truth values. -/
theorem property_of_namedArgs {named : NamedArg} (h : named ∈ f.namedArgs request) :
    named.isField = false ∧ f.table.Declares named.arg := by
  have hproperty : ∀ {name : String} {value : Option Bool}, named ∈ f.propertyArg name value →
      named.isField = false ∧ f.table.Declares named.arg := by
    intro name value hmem
    obtain ⟨b, -, rfl⟩ := List.mem_map.mp hmem
    exact ⟨rfl, rfl⟩
  cases request with
  | attributeUsage validOn allowMultiple inherited =>
      rcases List.mem_append.mp h with h | h
      · exact hproperty h
      · exact hproperty h
  | _ => cases h

end Factory

end AssemblyGraph
