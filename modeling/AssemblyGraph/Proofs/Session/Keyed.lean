import AssemblyGraph.Proofs.Graph.Lifetime
import AssemblyGraph.Proofs.Session.Perform

/-!
What every run keeps of the graph and of the registries.

No move takes a method away, and a type that is owned outlives every move. The
registries own their types, so each of them holds its types under their own
tokens in every reachable state.
-/

namespace AssemblyGraph.Session

variable {s s' : Session} {rs : List Referral}

/-! ### Methods and types -/

theorem Move.keepsMethods (h : Move s rs s') : s.graph.KeepsMethods s'.graph := by
  cases h with
  | addMethod => exact s.graph.keepsMethods_addMethod _
  | setDeclaringType m => exact s.graph.keepsMethods_setDeclaringType m _
  | setEnclosing _ _ set =>
      rcases s.graph.setEnclosing_cases set with ⟨-, rfl⟩ | ⟨d, -, -, rfl⟩
      · exact .of_eq rfl
      · exact .of_eq rfl
  | setDefinition _ _ set =>
      rcases s.graph.setDefinition_cases set with ⟨-, rfl⟩ | ⟨d, -, -, -, rfl⟩
      · exact .of_eq rfl
      · exact .of_eq rfl
  | newRegistry name origin => exact .of_eq (Registry.keyed_create s.graph origin).2.2
  | createType => exact .of_eq (Registry.methods_register _ _ _)
  | createNested => exact .of_eq (Registry.methods_createNested _ _ _ _ _)
  | createRef => exact .of_eq (Registry.methods_register _ _ _)
  | createMethod => exact Registry.keepsMethods_createMethod _ _ _ _ _ _
  | unbind kind => cases kind <;> exact .of_eq rfl
  | _ => exact .of_eq rfl

/-- A move keeps all types, except that it may be the one that releases those
that nothing owns. -/
theorem Move.keepsTypes (h : Move s rs s') :
    s.graph.KeepsTypes s'.graph ∨ s' = s.sweep := by
  cases h with
  | release => exact .inr rfl
  | addType header => exact .inl (s.graph.keepsTypes_addType _)
  | addMethod => exact .inl fun t d hd => ⟨d, hd, .refl d⟩
  | pushMethod m => exact .inl (s.graph.keepsTypes_pushMethod _ m)
  | setDeclaringType => exact .inl fun t d hd => ⟨d, hd, .refl d⟩
  | setEnclosing _ _ set => exact .inl (s.graph.keepsTypes_setEnclosing set)
  | setDefinition _ _ set => exact .inl (s.graph.keepsTypes_setDefinition set)
  | attach => exact .inl (s.graph.keepsTypes_attach _ _)
  | newRegistry name origin => exact .inl (Registry.keyed_create s.graph origin).2.1
  | createType => exact .inl (Registry.keepsTypes_register _ _ _)
  | createNested => exact .inl (Registry.keepsTypes_createNested _ _ _ _ _)
  | createRef => exact .inl (Registry.keepsTypes_register _ _ _)
  | addGenericParam => exact .inl (s.graph.keepsTypes_pushGenericParam _ _)
  | createMethod => exact .inl (Registry.keepsTypes_createMethod _ _ _ _ _ _)
  | unbind kind => exact .inl (by cases kind <;> exact .refl s.graph)
  | _ => exact .inl (.refl s.graph)

theorem Move.continues (h : Move s rs s') : s.graph.Continues s'.graph := by
  cases h with
  | addType header => exact s.graph.continues_addType rfl
  | pushMethod m => exact s.graph.continues_pushMethod _ m
  | setEnclosing _ _ set => exact s.graph.continues_setEnclosing set
  | setDefinition _ _ set => exact s.graph.continues_setDefinition set
  | attach => exact s.graph.continues_attach _ _
  | newRegistry name origin => exact Graph.continues_frame.flat.create s.graph origin
  | createType => exact Graph.continues_frame.flat.register _ s.graph ⟨rfl, rfl, rfl⟩ rfl
  | createNested => exact Graph.continues_frame.createNested _ s.graph _ _ _
  | createRef => exact Graph.continues_frame.flat.register _ s.graph ⟨rfl, rfl, rfl⟩ rfl
  | addGenericParam => exact s.graph.continues_pushGenericParam _ _
  | createMethod => exact Graph.continues_frame.flat.createMethod _ s.graph _ _ _ _
  | release => exact s.graph.continues_retain _
  | unbind kind => cases kind <;> exact .refl s.graph
  | _ => exact .of_eq rfl

/-- No moves take a method away, and they keep the types that they do not release. -/
theorem Moves.continues (h : Moves s rs s') :
    s.graph.Continues s'.graph ∧ s.graph.KeepsMethods s'.graph :=
  h.invariant (P := fun s' => s.graph.Continues s'.graph ∧ s.graph.KeepsMethods s'.graph)
    (fun hmove h => ⟨h.1.trans hmove.continues, h.2.trans hmove.keepsMethods⟩)
    ⟨.refl s.graph, .of_eq rfl⟩

/-! ### Registries -/

/-- Every registry is in order, in the graph as it is. -/
def EachRegistry (I : Registry → Graph → Prop) (s : Session) : Prop :=
  ∀ (name : String) (r : Registry), s.registries[name]? = some r → I r s.graph

/-- Every registry holds its types under their own tokens. -/
def Keyed (s : Session) : Prop :=
  ∀ (name : String) (r : Registry), s.registries[name]? = some r → r.Keyed s.graph

section

variable {I : Registry → Graph → Prop} (inv : Registry.Invariant I)

include inv

theorem EachRegistry.mono (h : s.EachRegistry I) (hg : s.graph.KeepsTypes s'.graph)
    (hregistries : s'.registries = s.registries) : s'.EachRegistry I := by
  intro name r hr
  rw [hregistries] at hr
  exact inv.grow (h name r hr) hg

theorem EachRegistry.insert (h : s.EachRegistry I) (hg : s.graph.KeepsTypes s'.graph) {reg : String}
    {r : Registry} (hr : I r s'.graph)
    (hregistries : s'.registries = s.registries.insert reg r) : s'.EachRegistry I := by
  intro name r' hr'
  rw [hregistries, OrderedMap.getElem?_insert] at hr'
  split at hr'
  · obtain rfl := Option.some_inj.mp hr'
    exact hr
  · exact inv.grow (h name r' hr') hg

omit inv in
theorem EachRegistry.drop (h : s.EachRegistry I) (kind : HandleKind) (name : String) :
    (s.drop kind name).1.EachRegistry I := by
  cases kind with
  | registry =>
      intro name' r hr
      have hr' : (s.registries.erase name)[name']? = some r := hr
      rw [OrderedMap.getElem?_erase] at hr'
      split at hr'
      · cases hr'
      · exact h name' r hr'
  | _ => exact h

/-- Registries own their types, so none of those is released. -/
theorem EachRegistry.sweep (h : s.EachRegistry I) : s.sweep.EachRegistry I := by
  intro name r hr
  have hbound : s.registries[name]? = some r := hr
  refine inv.mono (h name r hbound) fun token t d ht hd => ⟨d, ?_, .refl d⟩
  have howned := mem_ownedTypes_iff.mpr (.registry hbound (Registry.mem_all_iff.mpr ⟨token, ht⟩))
  show (s.graph.retain s.ownedTypes).type? t = some d
  rw [Graph.type?_retain, if_pos howned]
  exact hd

theorem Move.eachRegistry (h : Move s rs s') (hs : s.EachRegistry I) : s'.EachRegistry I := by
  rcases h.keepsTypes with hg | rfl
  · cases h with
    | newRegistry name origin => exact hs.insert inv hg (inv.create s.graph origin) rfl
    | createType bound => exact hs.insert inv hg (inv.createType (hs _ _ bound) _ _ _) rfl
    | createNested bound => exact hs.insert inv hg (inv.createNested (hs _ _ bound) _ _ _) rfl
    | createRef bound => exact hs.insert inv hg (inv.createRef (hs _ _ bound) _ _ _) rfl
    | insert bound _ inserted => exact hs.insert inv hg (inv.insert (hs _ _ bound) inserted) rfl
    | addGenericParam bound => exact hs.insert inv hg (inv.addGenericParam (hs _ _ bound) _ _) rfl
    | createMethod bound => exact hs.insert inv hg (inv.createMethod (hs _ _ bound) _ _ _ _) rfl
    | unbind kind name => exact hs.drop kind name
    | release => exact hs.sweep inv
    | _ => exact hs.mono inv hg rfl
  · exact hs.sweep inv

/-- What taking in types keeps true is true of every registry in every reachable state. -/
theorem eachRegistry_of_reachable (h : s.Reachable) : s.EachRegistry I := by
  obtain ⟨commands, rfl⟩ := h
  refine (run_moves empty commands).invariant (Move.eachRegistry inv) ?_
  intro name r hr
  simp at hr

end

theorem Move.keyed (h : Move s rs s') (hs : s.Keyed) : s'.Keyed :=
  h.eachRegistry Registry.keyed_invariant hs

theorem keyed_of_reachable (h : s.Reachable) : s.Keyed :=
  eachRegistry_of_reachable Registry.keyed_invariant h

end AssemblyGraph.Session
