import AssemblyGraph.Proofs.Graph.Facet
import AssemblyGraph.Proofs.Graph.FullName
import AssemblyGraph.Proofs.Identity.Walk

/-!
The members of a chain.

A walk outwards from a type reads the living types on its chain and nothing else. So
what is read along it, in two graphs, agrees if it does for each member, and if no type
at which the chain has ended has come to life. A full name and a hash are read off the
names along a chain that ends.
-/

namespace AssemblyGraph.Graph

/-- The living types on the chain of a type, from the type itself outwards. -/
inductive OnChain (g : Graph) (t : TypeId) : TypeId → Prop
  | self (alive : g.isAlive t) : OnChain g t t
  | enclosing {u e : TypeId} (inner : OnChain g t u) (enclosing : g.enclosing? u = some e) :
      OnChain g t e

/-- The names and namespaces along a walk of a length, from the innermost type outwards. -/
def namesAlong (g : Graph) (n : Nat) (link : Option TypeId) : List (String × String) :=
  (g.chain n link).map fun d => (d.name, d.namespaceName)

variable {g g' : Graph} {t u : TypeId}

theorem OnChain.alive (h : g.OnChain t u) : g.isAlive u := by
  cases h with
  | self alive => exact alive
  | enclosing _ enclosing => exact (follow?_eq_some_iff.mp enclosing).2

/-- By induction on the length of the walk. -/
theorem chain_map_of_onChain {α : Type} {f : TypeDecl → α}
    (agree : ∀ u d, g.OnChain t u → g.type? u = some d →
      ∃ d', g'.type? u = some d' ∧ f d' = f d ∧ d'.enclosing? = d.enclosing?)
    (dead : ∀ u d e, g.OnChain t u → g.type? u = some d → d.enclosing? = some e →
      g.type? e = none → g'.type? e = none) (n : Nat) (hu : g.OnChain t u) :
    (g'.chain n (some u)).map f = (g.chain n (some u)).map f := by
  induction n generalizing u with
  | zero => rfl
  | succ n ih =>
      obtain ⟨d, hd⟩ := isAlive_iff.mp hu.alive
      obtain ⟨d', hd', hf, henclosing⟩ := agree u d hu hd
      have hlink : (some u).bind g.type? = some d := hd
      have hlink' : (some u).bind g'.type? = some d' := hd'
      rw [chain_succ_of_alive hlink, chain_succ_of_alive hlink', List.map_cons, List.map_cons, hf,
        henclosing]
      refine congrArg _ ?_
      cases he : d.enclosing? with
      | none => rw [chain_none, chain_none]
      | some e =>
          cases halive : g.type? e with
          | none =>
              have hend : (some e).bind g.type? = none := halive
              have hend' : (some e).bind g'.type? = none := dead u d e hu hd he halive
              rw [chain_of_dead hend, chain_of_dead hend']
          | some x =>
              refine ih (.enclosing hu ?_)
              rw [enclosing?, hd]
              exact follow?_eq_some_iff.mpr ⟨he, isAlive_iff.mpr ⟨x, halive⟩⟩

/-! ### What is read off the names -/

variable {a : Option TypeId}

/-- Walks that read the same names end alike. -/
theorem ends_iff_of_namesAlong (h : ∀ n, g'.namesAlong n a = g.namesAlong n a) :
    g'.Ends a ↔ g.Ends a := by
  have hlength : ∀ n, (g'.chain n a).length = (g.chain n a).length := by
    intro n
    have hnames := congrArg List.length (h n)
    rwa [namesAlong, namesAlong, List.length_map, List.length_map] at hnames
  exact exists_congr fun n => by rw [hlength n]

theorem namesAlong_size (ends : g.Ends a) (h : ∀ n, g'.namesAlong n a = g.namesAlong n a) :
    g'.namesAlong g'.types.size a = g.namesAlong g.types.size a := by
  obtain ⟨n, hn⟩ := ends
  have hn' : (g'.chain n a).length < n := by
    have hlength := congrArg List.length (h n)
    rw [namesAlong, namesAlong, List.length_map, List.length_map] at hlength
    rwa [hlength]
  rw [namesAlong, namesAlong, chain_size_of_ended hn, chain_size_of_ended hn']
  exact h n

theorem fullName_eq_of_namesAlong (ends : g.Ends (some t))
    (h : ∀ n, g'.namesAlong n (some t) = g.namesAlong n (some t)) :
    g'.fullName t = g.fullName t := by
  rw [fullName, fullName, ancestry_eq, ancestry_eq]
  refine pathName_congr ?_
  rw [List.map_reverse, List.map_reverse]
  exact congrArg List.reverse (namesAlong_size ends h)

theorem identityHash_eq_of_namesAlong (ends : g.Ends (some t))
    (h : ∀ n, g'.namesAlong n (some t) = g.namesAlong n (some t)) (hashName : String → UInt64) :
    g'.identityHash hashName (some t) = g.identityHash hashName (some t) := by
  have hnames : ∀ g : Graph, g.identityHash hashName (some t) =
      (g.namesAlong g.types.size (some t)).foldr (fun name hash => hash ^^^ hashName name.1) 0 := by
    intro g
    rw [identityHash, ancestry_eq, List.foldl_reverse, namesAlong, List.foldr_map]
  rw [hnames, hnames, namesAlong_size ends h]

end AssemblyGraph.Graph
