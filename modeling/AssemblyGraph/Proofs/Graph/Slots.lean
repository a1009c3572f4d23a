import AssemblyGraph.Proofs.Graph.Lifetime
import AssemblyGraph.Proofs.Registry.Keyed

/-!
Slots: the places of links that are written once.

A type has a slot for its enclosing type and one for its definition, and a method has one for
its declaring type. What is written in a slot and what is read from it are different things: a
slot whose target is gone yields nothing, but it is not free.
-/

namespace AssemblyGraph

/-- A place for a link that is written once, told by the object that has it. -/
inductive Slot where
  /-- For the type that a type is nested in. -/
  | enclosing (t : TypeId)
  /-- For the definition that a reference stands for. -/
  | definition (t : TypeId)
  /-- For the type that declares a method. -/
  | declaringType (m : MethodId)

namespace Graph

/-- Whether the object that has a slot is there. -/
def hasSlot (g : Graph) : Slot → Bool
  | .enclosing t | .definition t => g.isAlive t
  | .declaringType m => (g.method? m).isSome

/-- What is written in a slot, alive or not. -/
def written? (g : Graph) : Slot → Option TypeId
  | .enclosing t => (g.type? t).bind (·.enclosing?)
  | .definition t => (g.type? t).bind (·.definition?)
  | .declaringType m => (g.method? m).bind (·.declaringType?)

/-- What a slot yields when it is read. -/
def read? (g : Graph) : Slot → Option TypeId
  | .enclosing t => g.enclosing? t
  | .definition t => (g.resolve t).toOption
  | .declaringType m => (g.method? m).bind g.declaringType?

variable {g g' : Graph} {slot : Slot} {t x : TypeId} {d : TypeDecl}

theorem resolve_of_definition (references : d.LinksAsReference) (hd : g.type? t = some d)
    (hx : d.definition? = some x) :
    g.resolve t = if g.isAlive x then .ok x else .error (.unresolvable (g.fullName t)) := by
  simp only [resolve, hd, references x hx, if_true, hx, follow?, Option.filter_some]
  by_cases halive : g.isAlive x = true
  · rw [if_pos halive, if_pos halive]
  · rw [if_neg halive, if_neg halive]

/-- A slot that is written yields its target, if that is alive. -/
theorem read?_of_written (references : ∀ t d, g.type? t = some d → d.LinksAsReference)
    (h : g.written? slot = some x) : g.read? slot = g.follow? (some x) := by
  cases slot with
  | enclosing t => exact congrArg g.follow? h
  | definition t =>
      obtain ⟨d, hd, hx⟩ := Option.bind_eq_some_iff.mp h
      rw [read?, resolve_of_definition (references t d hd) hd hx, follow?, Option.filter_some]
      split
      · rfl
      · rfl
  | declaringType m =>
      obtain ⟨method, hm, hx⟩ := Option.bind_eq_some_iff.mp h
      rw [read?, hm, Option.bind_some, declaringType?, hx]

/-- A method that has a declaring type is left as it is. -/
theorem setDeclaringType_of_written {m : MethodId} {method : Method}
    (hm : g.method? m = some method) (hx : method.declaringType? = some x) (t : TypeId) :
    g.setDeclaringType m t = g := by
  have hmethods : g.methods.modify m.index (fun method =>
      { method with declaringType? := method.declaringType?.or (some t) }) = g.methods := by
    apply Array.ext_getElem?
    intro i
    rw [Array.getElem?_modify]
    split
    · rename_i hi
      rw [← hi, show g.methods[m.index]? = some method from hm, Option.map_some, hx, Option.some_or,
        ← hx]
    · rfl
  rw [setDeclaringType, hmethods]

theorem method?_setDeclaringType {m : MethodId} {method : Method} (hm : g.method? m = some method)
    (t : TypeId) : (g.setDeclaringType m t).method? m =
      some { method with declaringType? := method.declaringType?.or (some t) } := by
  rw [method?, setDeclaringType, Array.getElem?_modify, if_pos rfl,
    show g.methods[m.index]? = some method from hm, Option.map_some]

/-- What is written in a slot stays there for as long as the object lives. -/
theorem written?_of_continues (types : g.Continues g') (methods : g.KeepsMethods g')
    (h : g.written? slot = some x) : g'.hasSlot slot = false ∨ g'.written? slot = some x := by
  cases slot with
  | enclosing t =>
      obtain ⟨d, hd, hx⟩ := Option.bind_eq_some_iff.mp h
      rcases types.grows hd with hgone | ⟨d', hd', hgrows⟩
      · exact .inl (by rw [hasSlot, isAlive, hgone]; rfl)
      · exact .inr (Option.bind_eq_some_iff.mpr ⟨d', hd', hgrows.enclosing? x hx⟩)
  | definition t =>
      obtain ⟨d, hd, hx⟩ := Option.bind_eq_some_iff.mp h
      rcases types.grows hd with hgone | ⟨d', hd', hgrows⟩
      · exact .inl (by rw [hasSlot, isAlive, hgone]; rfl)
      · exact .inr (Option.bind_eq_some_iff.mpr ⟨d', hd', hgrows.definition? x hx⟩)
  | declaringType m =>
      obtain ⟨method, hm, hx⟩ := Option.bind_eq_some_iff.mp h
      obtain ⟨method', hm', hgrows⟩ := methods m method hm
      exact .inr (Option.bind_eq_some_iff.mpr ⟨method', hm', hgrows.declaringType? x hx⟩)

end Graph

/-- A nested type that is created is linked to its enclosing type and owned by the registry. -/
theorem Registry.written?_createNested {r : Registry} {g : Graph} {e t : TypeId} {name : String}
    {flags : UInt32} (created : (r.createNested g e name flags).result = .ok t) :
    (r.createNested g e name flags).graph.written? (.enclosing t) = some e ∧
      t ∈ (r.createNested g e name flags).registry.all := by
  rcases r.createNested_cases g e name flags with ⟨-, hnew⟩ | ⟨-, hnew⟩
  · rw [hnew] at created
    cases created
  · rw [hnew] at created ⊢
    cases created
    obtain ⟨d, hd, hgrows⟩ := Graph.keepsTypes_pushNested _ e
      (g.addType (r.nestedDecl e name flags)).2 _ _ (g.type?_addType_self _)
    exact ⟨Option.bind_eq_some_iff.mpr ⟨d, hd, hgrows.enclosing? e rfl⟩,
      Registry.mem_all_iff.mpr ⟨_, Std.TreeMap.getElem?_insert_self⟩⟩

end AssemblyGraph
