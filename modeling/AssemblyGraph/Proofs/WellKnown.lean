import AssemblyGraph.Proofs.Except
import AssemblyGraph.Proofs.Graph.PathName
import AssemblyGraph.WellKnown

/-!
Tables of framework types that are made from a registry.

The types are looked up one after the other, and a table results only if none is missing. It
then binds every framework type to the one that the registry finds first under its full name.
-/

namespace AssemblyGraph

namespace WellKnown

theorem mem_all (kind : WellKnown) : kind ∈ all := by
  cases kind <;> decide

theorem slash_not_mem_fullName (kind : WellKnown) : '/' ∉ kind.fullName.toList := by
  cases kind <;> decide

theorem dot_not_mem_name (kind : WellKnown) : '.' ∉ kind.name.toList := by
  cases kind <;> decide

theorem namespaceName_ne (kind : WellKnown) : kind.namespaceName ≠ "" := by
  cases kind <;> decide

theorem qualified_eq (kind : WellKnown) :
    qualified kind.namespaceName kind.name = kind.fullName :=
  qualified_of_ne kind.namespaceName_ne kind.name

/-- The full name of a framework type is cut at its last dot, or the rest of it has a dot. -/
theorem dot_not_mem_iff {kind : WellKnown} {namespaceName name : String}
    (spells : qualified namespaceName name = kind.fullName) :
    '.' ∉ name.toList ↔ namespaceName = kind.namespaceName ∧ name = kind.name := by
  constructor
  · intro hdot
    exact qualified_inj hdot kind.dot_not_mem_name (spells.trans kind.qualified_eq.symm)
  · rintro ⟨-, rfl⟩
    exact kind.dot_not_mem_name

end WellKnown

namespace WellKnownTable

variable {module : ModuleId} {r : Registry} {table : WellKnownTable}

/-- What holds of a table without bindings, and is kept by binding the next framework type to what
the registry finds under its full name, holds of a table that is made from the registry. -/
theorem resolve_induction {P : List WellKnown → WellKnownTable → Prop}
    (start : ∀ byte boolean, r.primitive .byte = .ok byte → r.primitive .boolean = .ok boolean →
      P [] (create module byte boolean))
    (next : ∀ done table kind t, P done table → r.named? kind.fullName = some t →
      P (done ++ [kind]) (table.bind kind t))
    (h : resolve module r = .ok table) : P WellKnown.all table := by
  rw [resolve, bind_eq_ok_iff] at h
  obtain ⟨byte, hbyte, h⟩ := h
  rw [bind_eq_ok_iff] at h
  obtain ⟨boolean, hboolean, h⟩ := h
  refine foldlM_induction (fun done first kind bound hfirst hbind => ?_)
    (start byte boolean hbyte hboolean) h
  cases hnamed : r.named? kind.fullName with
  | none =>
      rw [hnamed] at hbind
      cases hbind
  | some t =>
      rw [hnamed] at hbind
      cases hbind
      exact next done first kind t hfirst hnamed

/-- What has to be there of one framework type for a table to be made from a registry. -/
def requirement (r : Registry) (kind : WellKnown) : Except Error Unit :=
  match r.named? kind.fullName with
  | some _ => .ok ()
  | none => .error (.wellKnownMissing kind.fullName)

theorem requirement_eq_ok_iff {kind : WellKnown} :
    requirement r kind = .ok () ↔ ∃ t, r.named? kind.fullName = some t := by
  rw [requirement]
  cases r.named? kind.fullName <;> simp

theorem requirement_eq_error_iff {kind : WellKnown} {cause : Error} :
    requirement r kind = .error cause ↔
      r.named? kind.fullName = none ∧ cause = .wellKnownMissing kind.fullName := by
  rw [requirement]
  cases r.named? kind.fullName <;> simp [eq_comm]

/-- As the primitive types are there, only the framework types can be missing. -/
theorem discard_resolve {byte boolean : TypeId} (hbyte : r.primitive .byte = .ok byte)
    (hboolean : r.primitive .boolean = .ok boolean) (module : ModuleId) :
    discard (resolve module r) = WellKnown.all.forM (requirement r) := by
  rw [resolve, hbyte, hboolean]
  change discard (List.foldlM (m := Except Error) _ (create module byte boolean) _) = _
  refine discard_foldlM (fun table kind => ?_) WellKnown.all (create module byte boolean)
  rw [requirement]
  cases r.named? kind.fullName <;> rfl

theorem exists_resolve_iff {byte boolean : TypeId} (hbyte : r.primitive .byte = .ok byte)
    (hboolean : r.primitive .boolean = .ok boolean) (module : ModuleId) :
    (∃ table, resolve module r = .ok table) ↔
      ∀ kind : WellKnown, ∃ t, r.named? kind.fullName = some t := by
  rw [← discard_eq_ok_iff, discard_resolve hbyte hboolean, forM_eq_ok_iff]
  simp only [requirement_eq_ok_iff]
  exact ⟨fun h kind => h kind kind.mem_all, fun h kind _ => h kind⟩

/-- The first missing framework type is reported. -/
theorem resolve_eq_error_iff {byte boolean : TypeId} (hbyte : r.primitive .byte = .ok byte)
    (hboolean : r.primitive .boolean = .ok boolean) {cause : Error} :
    resolve module r = .error cause ↔ ∃ before kind after,
      WellKnown.all = before ++ kind :: after ∧
        (∀ earlier ∈ before, ∃ t, r.named? earlier.fullName = some t) ∧
        r.named? kind.fullName = none ∧ cause = .wellKnownMissing kind.fullName := by
  rw [← discard_eq_error_iff, discard_resolve hbyte hboolean, forM_eq_error_iff]
  simp only [requirement_eq_ok_iff, requirement_eq_error_iff]

/-- A table that is made from a registry holds the primitive types of the registry. -/
theorem primitive_of_resolve (h : resolve module r = .ok table) :
    table.module = module ∧ r.primitive .byte = .ok table.byte ∧
      r.primitive .boolean = .ok table.boolean :=
  resolve_induction (P := fun _ table => table.module = module ∧
      r.primitive .byte = .ok table.byte ∧ r.primitive .boolean = .ok table.boolean)
    (fun _ _ hbyte hboolean => ⟨rfl, hbyte, hboolean⟩) (fun _ _ _ _ hdone _ => hdone) h

/-- A table that is made from a registry binds all framework types. -/
theorem binding?_of_resolve (h : resolve module r = .ok table) (kind : WellKnown) :
    ∃ t, r.named? kind.fullName = some t ∧ table.binding? kind = some t := by
  refine resolve_induction (P := fun done table => ∀ kind ∈ done,
    ∃ t, r.named? kind.fullName = some t ∧ table.binding? kind = some t) ?_ ?_ h kind kind.mem_all
  · intro _ _ _ _ kind hkind
    cases hkind
  · intro done table last t hdone hnamed kind hkind
    by_cases hlast : kind = last
    · subst hlast
      exact ⟨t, hnamed, if_pos rfl⟩
    · have hmem : kind ∈ done := by simpa [hlast] using hkind
      obtain ⟨u, hu, hbound⟩ := hdone kind hmem
      exact ⟨u, hu, (if_neg hlast).trans hbound⟩

end WellKnownTable

end AssemblyGraph
