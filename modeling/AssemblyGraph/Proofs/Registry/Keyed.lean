import AssemblyGraph.Proofs.OrderedMap
import AssemblyGraph.Proofs.Registry.Invariant

/-!
Registries hold each type under its own token.

A type of a registry is alive, because the registry owns it, and the token that
it is found by is the one that it was made with. So no type is registered
twice, and listing a registry lists its types in ascending order of tokens.
-/

namespace AssemblyGraph

theorem Token.lt_of_compare {a b : Token} (h : compare a b = .lt) : a < b := by
  have hvalue : compare a.value b.value = .lt := h
  show a.value < b.value
  exact Std.compare_eq_lt.mp hvalue

namespace Registry

/-! ### Types under their own tokens -/

/-- Every registered type is alive and has the token that it is registered under. -/
def Keyed (r : Registry) (g : Graph) : Prop :=
  ∀ (token : Token) (t : TypeId), r.types[token]? = some t →
    ∃ d, g.type? t = some d ∧ d.token = token

theorem keyed_empty (origin : Origin) (g : Graph) : (empty origin).Keyed g := by
  intro token t h
  simp [empty] at h

theorem Keyed.enter {r : Registry} {g : Graph} {t : TypeId} {d : TypeDecl} (h : r.Keyed g)
    (hd : g.type? t = some d) (fullName : String) : (r.enter d.token fullName t).Keyed g := by
  intro token u hu
  rw [Registry.enter, OrderedMap.getElem?_insert] at hu
  split at hu
  · rename_i htoken
    obtain rfl := Option.some_inj.mp hu
    exact ⟨d, hd, htoken⟩
  · exact h token u hu

theorem keyed_invariant : Invariant Keyed where
  empty := keyed_empty
  mono {r g g'} h hg token t ht := by
    obtain ⟨d, hd, htoken⟩ := h token t ht
    obtain ⟨d', hd', hgrows⟩ := hg token t d ht hd
    exact ⟨d', hd', hgrows.token.trans htoken⟩
  congr {r r' g} h types _ token t ht := h token t (types ▸ ht)
  enter h hd _ := h.enter hd _

theorem Keyed.mono {r : Registry} {g g' : Graph} (h : r.Keyed g) (hg : g.KeepsTypes g') :
    r.Keyed g' :=
  keyed_invariant.grow h hg

/-- A new registry holds the primitive types and has changed nothing else. -/
theorem keyed_create (g : Graph) (origin : Origin) :
    (create g origin).1.Keyed (create g origin).2 ∧ g.KeepsTypes (create g origin).2 ∧
      (create g origin).2.methods = g.methods := by
  refine ⟨keyed_invariant.create g origin, create_induction g origin
    (P := fun _ g' => g.KeepsTypes g' ∧ g'.methods = g.methods) ⟨.refl g, rfl⟩ ?_⟩
  rintro r g' kind ⟨hg, hm⟩
  exact ⟨hg.trans (r.keepsTypes_register g' _), (r.methods_register g' _).trans hm⟩

/-! ### The order of the listed types -/

theorem mem_all_iff {r : Registry} {t : TypeId} :
    t ∈ r.all ↔ ∃ token : Token, r.types[token]? = some t :=
  OrderedMap.mem_values_iff

end Registry

/-- One type is alive with a smaller token than another. -/
def Graph.TokenLT (g : Graph) (t u : TypeId) : Prop :=
  ∃ d e, g.type? t = some d ∧ g.type? u = some e ∧ d.token < e.token

theorem Graph.TokenLT.ne {g : Graph} {t u : TypeId} (h : g.TokenLT t u) : t ≠ u := by
  rintro rfl
  obtain ⟨d, e, hd, he, hlt⟩ := h
  obtain rfl := Option.some_inj.mp (hd.symm.trans he)
  exact UInt32.lt_irrefl _ hlt

namespace Registry

theorem Keyed.all_ascending {r : Registry} {g : Graph} (h : r.Keyed g) :
    r.all.Pairwise g.TokenLT := by
  rw [all, OrderedMap.values_eq_map_toList, List.pairwise_map]
  refine Std.TreeMap.ordered_keys_toList.imp_of_mem fun {a b} ha hb hlt => ?_
  obtain ⟨d, hd, htoken⟩ := h a.1 a.2 (Std.TreeMap.mem_toList_iff_getElem?_eq_some.mp ha)
  obtain ⟨e, he, htoken'⟩ := h b.1 b.2 (Std.TreeMap.mem_toList_iff_getElem?_eq_some.mp hb)
  refine ⟨d, e, hd, he, ?_⟩
  rw [htoken, htoken']
  exact Token.lt_of_compare hlt

theorem Keyed.declared_ascending {r : Registry} {g : Graph} (h : r.Keyed g) :
    (r.declared g).Pairwise g.TokenLT :=
  h.all_ascending.sublist List.filter_sublist

end Registry

end AssemblyGraph
