import AssemblyGraph.Proofs.Identity.Chain

/-!
What the full name of a type is made of.

A full name is read off the chain of enclosing types and takes in the simple
names and the namespaces on it. So it stays as it is when types change in other
respects, and a type that has just been added at the top level bears the name of
its own declaration.
-/

namespace AssemblyGraph.Graph

/-- Two graphs whose types agree in their links outwards and in some further respect have
chains that agree in that respect. -/
theorem chain_map_congr {α : Type} {g g' : Graph} {f : TypeDecl → α}
    (h : ∀ t, (g'.type? t).map (fun d => (f d, d.enclosing?)) =
      (g.type? t).map fun d => (f d, d.enclosing?))
    (bound : Nat) (link : Option TypeId) :
    (g'.chain bound link).map f = (g.chain bound link).map f := by
  induction bound generalizing link with
  | zero => rfl
  | succ bound ih =>
      have hlink : (link.bind g'.type?).map (fun d => (f d, d.enclosing?)) =
          (link.bind g.type?).map fun d => (f d, d.enclosing?) := by
        cases link with
        | none => rfl
        | some t => exact h t
      cases hd : link.bind g.type? with
      | none =>
          rw [hd, Option.map_none, Option.map_eq_none_iff] at hlink
          rw [chain_of_dead hlink, chain_of_dead hd]
      | some d =>
          rw [hd, Option.map_some, Option.map_eq_some_iff] at hlink
          obtain ⟨d', hd', heq⟩ := hlink
          obtain ⟨hf, henclosing⟩ := Prod.mk.inj heq
          rw [chain_succ_of_alive hd', chain_succ_of_alive hd, List.map_cons, List.map_cons,
            hf, henclosing, ih]

/-- The name of a chain takes in the simple names and the namespaces. -/
theorem pathName_congr {path path' : List TypeDecl}
    (h : path'.map (fun d => (d.name, d.namespaceName)) =
      path.map fun d => (d.name, d.namespaceName)) : pathName path' = pathName path := by
  have hnames : path'.map (·.name) = path.map (·.name) := by
    have hfst := congrArg (List.map Prod.fst) h
    rwa [List.map_map, List.map_map] at hfst
  cases path' with
  | nil =>
      cases path with
      | nil => rfl
      | cons => cases h
  | cons outermost' inner' =>
      cases path with
      | nil => cases h
      | cons outermost inner =>
          have hnamespace : outermost'.namespaceName = outermost.namespaceName :=
            congrArg Prod.snd (List.cons.inj h).1
          rw [pathName, pathName, hnames, hnamespace]

/-- The members of a type have no part in any full name. -/
theorem fullName_pushNested (g : Graph) (enclosing t u : TypeId) :
    (g.pushNested enclosing t).fullName u = g.fullName u := by
  have hsize : (g.pushNested enclosing t).types.size = g.types.size := by
    rw [pushNested, modifyType, Array.size_modify]
  rw [fullName, fullName, ancestry_eq, ancestry_eq, hsize]
  refine pathName_congr ?_
  rw [List.map_reverse, List.map_reverse, chain_map_congr fun v => ?_]
  rw [pushNested, type?_modifyType]
  split
  · rw [Option.map_map]
    rfl
  · rfl

/-- A type that has just been added at the top level bears the name of its declaration. -/
theorem fullName_addType_of_top (g : Graph) {d : TypeDecl} (top : d.enclosing? = none) :
    (g.addType d).1.fullName (g.addType d).2 = pathName [d] := by
  have halive : (some (g.addType d).2).bind (g.addType d).1.type? = some d :=
    g.type?_addType_self d
  have hchain : (g.addType d).1.chain (g.addType d).1.types.size (some (g.addType d).2) = [d] := by
    rw [show (g.addType d).1.types.size = g.types.size + 1 from Array.size_push _,
      chain_succ_of_alive halive, top, chain_none]
  rw [fullName, ancestry_eq, hchain]
  rfl

end AssemblyGraph.Graph
