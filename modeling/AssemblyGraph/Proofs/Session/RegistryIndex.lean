import AssemblyGraph.Proofs.Session.Keyed
import AssemblyGraph.Proofs.Session.RegistryLog

/-!
What the indices of a registry answer.

Both indices are read off the registrations of the registry, so they agree with
each other. A type is found by the name that it had when it was registered, even
if it has another one by now.
-/

namespace AssemblyGraph.Session

/-- The two indices of a registry, at the end of a run. Every registration is found by its
token, and the types are listed in ascending order of their own tokens. A registered type is
listed once, under the full name of its registration; under no name is there a token that is
not registered. So a full name finds the types that were registered under it, in their
order. -/
theorem index_of_run (commands : List Command) {reg : String} {r : Registry}
    (bound : (empty.run commands).registries[reg]? = some r) :
    let g := (empty.run commands).graph
    let log := registrationsOf reg commands
    r.Keyed g ∧ (∀ token t, r.get? token = some t ↔ ∃ x ∈ log, x.token = token ∧ x.type = t) ∧
      r.all.Pairwise g.TokenLT ∧ r.all.Perm (log.map (·.type)) ∧
      (∀ x ∈ log, ∀ n, (r.bucket n).count x.token = if x.fullName = n then 1 else 0) ∧
      (∀ n, ∀ token ∈ r.bucket n, ∃ t, r.get? token = some t) ∧
      (∀ n, r.namedAll n = (log.filter (·.fullName = n)).map (·.type) ∧
        r.named? n = (r.namedAll n).head? ∧
        (r.named? n = none ↔ ∀ x ∈ log, x.fullName ≠ n)) ∧
      r.size = (r.byFullName.values.map List.length).sum := by
  intro g log
  have hkeyed : r.Keyed g := keyed_of_reachable ⟨commands, rfl⟩ reg r bound
  have hrecords : r.Records log := (logged_run reg commands r bound).1
  have hfirst : ∀ n, r.named? n = (r.namedAll n).head? := fun n => List.head?_filterMap.symm
  refine ⟨hkeyed, fun token t => hrecords.get?_eq_some_iff, hkeyed.all_ascending,
    hrecords.all_perm, fun x hx n => hrecords.count_bucket hx n, fun n token htoken => ?_,
    fun n => ⟨hrecords.namedAll_eq n, hfirst n, ?_⟩, hrecords.size.trans hrecords.total.symm⟩
  · have hcontains := hrecords.contains_of_mem_bucket htoken
    rwa [Std.TreeMap.contains_eq_isSome_getElem?, Option.isSome_iff_exists] at hcontains
  · rw [hfirst, hrecords.namedAll_eq, List.head?_eq_none_iff, List.map_eq_nil_iff,
      List.filter_eq_nil_iff]
    simp only [decide_eq_true_eq, ne_eq]

/-- A type is nested after it was registered at the top level, and a type that has its old
full name is registered after that. -/
def renamedType : List Command := [
  .newRegistry (.module "lib") "lib", .createType "lib" "N" "E" 0 (some "e"),
  .createType "lib" "N" "T" 0 (some "t"), .setEnclosing "t" "e",
  .createType "lib" "N" "T" 0 (some "u")]

theorem index_of_renamedType :
    ∃ r t u, (empty.run renamedType).registries["lib"]? = some r ∧
      (empty.run renamedType).graph.fullName t = "N.E/T" ∧
      r.namedAll "N.T" = [t, u] ∧ r.named? "N.E/T" = none := by
  have hsome : ((empty.run renamedType).registries["lib"]?).isSome := by decide +kernel
  have hname : (empty.run renamedType).graph.fullName ⟨7⟩ = "N.E/T" := by decide +kernel
  obtain ⟨-, -, -, -, -, -, hnamed, -⟩ := index_of_run renamedType (Option.some_get hsome).symm
  refine ⟨_, ⟨7⟩, ⟨8⟩, (Option.some_get hsome).symm, hname, ?_, ?_⟩
  · rw [(hnamed "N.T").1]
    decide +kernel
  · rw [(hnamed "N.E/T").2.2]
    decide +kernel

end AssemblyGraph.Session
