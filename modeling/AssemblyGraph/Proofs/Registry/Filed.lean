import AssemblyGraph.Proofs.Identity.FullName
import AssemblyGraph.Proofs.Registry.Log

/-!
What a type in the name index is called.

A type is listed under the full name that it had when it was registered, and keeps its place
whatever becomes of its chain afterwards. Its own simple name and namespace are given to it for
good, so they can still be told from the place: the full name of that time ends in them, and if
that has no slash, it is made of nothing else.
-/

namespace AssemblyGraph.Registry

/-- A token leads to a type whose declaration a full name ends in. -/
def Spells (r : Registry) (g : Graph) (token : Token) (n : String) : Prop :=
  ∃ t d outer, r.types[token]? = some t ∧ g.type? t = some d ∧ n = Graph.pathName (outer ++ [d])

/-- What is listed under a full name is spelled by it. -/
def Filed (r : Registry) (g : Graph) : Prop :=
  ∀ n, ∀ token ∈ r.bucket n, r.Spells g token n

variable {r r' : Registry} {g g' : Graph} {t : TypeId} {d : TypeDecl} {n : String}

theorem filed_empty (origin : Origin) (g : Graph) : (empty origin).Filed g := by
  intro n token hmem
  simp [empty, bucket] at hmem

/-- What a declaration adds to a full name stays the same while its type lives. -/
theorem Filed.mono (h : r.Filed g) (shelters : r.Shelters g g') : r.Filed g' := by
  intro n token hmem
  obtain ⟨t, d, outer, ht, hd, hn⟩ := h n token hmem
  obtain ⟨d', hd', hgrows⟩ := shelters token t d ht hd
  refine ⟨t, d', outer, ht, hd', hn.trans (Graph.pathName_congr ?_)⟩
  rw [List.map_append, List.map_append, List.map_singleton, List.map_singleton, hgrows.name,
    hgrows.namespaceName]

theorem Filed.congr (h : r.Filed g) (types : r'.types = r.types)
    (byFullName : r'.byFullName = r.byFullName) : r'.Filed g := by
  intro n token hmem
  rw [bucket, byFullName] at hmem
  rw [Spells, types]
  exact h n token hmem

/-- A type that is entered stands at the end of its chain, and the others are where they were. -/
theorem Filed.enter (h : r.Filed g) (hd : g.type? t = some d)
    (free : ¬ r.types.contains d.token) : (r.enter d.token (g.fullName t) t).Filed g := by
  have hnew : (r.enter d.token (g.fullName t) t).Spells g d.token (g.fullName t) := by
    obtain ⟨outer, houter⟩ := Graph.exists_ancestry_concat hd
    exact ⟨t, d, outer, Std.TreeMap.getElem?_insert_self, hd, congrArg Graph.pathName houter⟩
  have hold : ∀ n, ∀ token ∈ r.bucket n,
      (r.enter d.token (g.fullName t) t).Spells g token n := by
    intro n token hmem
    obtain ⟨u, e, outer, hu, he, hn⟩ := h n token hmem
    have hne : d.token ≠ token := by
      rintro rfl
      exact free (by rw [Std.TreeMap.contains_eq_isSome_getElem?, hu, Option.isSome_some])
    exact ⟨u, e, outer, (OrderedMap.getElem?_insert_of_ne _ _ hne).trans hu, he, hn⟩
  intro n token hmem
  rw [bucket_enter] at hmem
  split at hmem
  · rename_i hname
    rcases List.mem_append.mp hmem with hmem | hmem
    · exact hold n token hmem
    · rw [← hname, List.mem_singleton.mp hmem]
      exact hnew
  · exact hold n token hmem

theorem filed_invariant : Invariant Filed where
  empty := filed_empty
  mono := .mono
  congr := .congr
  enter := .enter

/-- The declaration of a type that is found under a name without a slash spells that name. -/
theorem Filed.qualified_of_named? (h : r.Filed g) (hslash : '/' ∉ n.toList)
    (named : r.named? n = some t) :
    ∃ d, g.type? t = some d ∧ qualified d.namespaceName d.name = n := by
  obtain ⟨token, hmem, hget⟩ := List.exists_of_findSome?_eq_some named
  obtain ⟨t', d, outer, ht', hd, rfl⟩ := h n token hmem
  obtain rfl := Option.some_inj.mp (hget.symm.trans ht')
  obtain rfl := Graph.eq_nil_of_slash_not_mem hslash
  exact ⟨d, hd, (Graph.pathName_singleton d).symm⟩

end AssemblyGraph.Registry
