import AssemblyGraph.Proofs.Registry.Call
import AssemblyGraph.Proofs.Session.Keyed
import AssemblyGraph.Proofs.Session.RegistryLog

/-!
Registrations for good.

A call registers a type or leaves the indices alone, and what a registry has
once found by a token it finds by it for as long as the registry is there. The
primitive types, which a registry is made with, are never lost.
-/

namespace AssemblyGraph

theorem Primitive.mem_all (kind : Primitive) : kind ∈ Primitive.all := by
  cases kind <;> decide

/-- The full name that a primitive type is registered under. -/
def Primitive.fullName (kind : Primitive) : String :=
  kind.namespaceName ++ "." ++ kind.name

theorem Registry.exists_mem_primitivesFrom {kind : Primitive} {kinds : List Primitive}
    (h : kind ∈ kinds) (first : Nat) :
    ∃ t, (⟨t, kind.token, kind.fullName⟩ : Registration) ∈ primitivesFrom first kinds := by
  induction kinds generalizing first with
  | nil => cases h
  | cons kind' kinds ih =>
      rcases List.mem_cons.mp h with rfl | h
      · exact ⟨⟨first⟩, List.mem_cons_self⟩
      · obtain ⟨t, ht⟩ := ih h (first + 1)
        exact ⟨t, List.mem_cons_of_mem _ ht⟩

namespace Session

/-- The registrations of the primitive types stay at the head of the log. -/
theorem Logged.exists_primitive {reg : String} {s : Session} {log : List Registration}
    {r : Registry} (h : Logged reg s log) (bound : s.registries[reg]? = some r)
    (kind : Primitive) :
    ∃ t, (⟨t, kind.token, kind.fullName⟩ : Registration) ∈ log.take Primitive.all.length ∧
      r.primitive kind = .ok t ∧ r.get? kind.token = some t := by
  obtain ⟨hrecords, first, hfirst⟩ := h r bound
  obtain ⟨t, ht⟩ := Registry.exists_mem_primitivesFrom kind.mem_all first
  have hget := hrecords.get?_of_mem (hfirst.subset ht)
  refine ⟨t, ?_, by rw [Registry.primitive, hget], hget⟩
  have hhead := List.prefix_iff_eq_take.mp hfirst
  rw [Registry.length_primitivesFrom] at hhead
  rwa [← hhead]

/-- Registrations at the end of a run. Every primitive type is there. A call to insert or to
create a type registers exactly one type, under a free token, or is refused because its token
is taken and leaves everything but its counter of rows as it is. Whatever is found by a token
is still found by it after any further commands that do not end the registry. -/
theorem registration_of_run (commands : List Command) {reg : String} {r : Registry}
    (bound : (empty.run commands).registries[reg]? = some r) :
    let s := empty.run commands
    (∀ kind, ∃ t d, r.primitive kind = .ok t ∧ s.graph.type? t = some d ∧
      d.token = kind.token) ∧
    (∀ (call : RegistryCall) (token : Token), call.token? r s.graph = some token →
      (∃ t, call.Registers r s.graph token t (call.run r s.graph)) ∨
        call.Refuses r s.graph token (call.run r s.graph)) ∧
    ∀ later : List Command, (∀ command ∈ later, ¬ command.endsRegistry reg) →
      ∃ r', (s.run later).registries[reg]? = some r' ∧
        ∀ token t, r.get? token = some t → r'.get? token = some t := by
  intro s
  have hlogged : Logged reg s (registrationsOf reg commands) := logged_run reg commands
  refine ⟨fun kind => ?_, fun call token htoken => call.registers_or_refuses htoken,
    fun later lives => ?_⟩
  · obtain ⟨t, -, hprimitive, hget⟩ := hlogged.exists_primitive bound kind
    obtain ⟨d, hd, htoken⟩ := keyed_of_reachable ⟨commands, rfl⟩ reg r bound kind.token t hget
    exact ⟨t, d, hprimitive, hd, htoken⟩
  · obtain ⟨⟨r', hr'⟩, hprefix⟩ := bound_run_of_lives (registrationsOf reg commands) lives bound
    refine ⟨r', hr', fun token t ht => ?_⟩
    obtain ⟨x, hx, htoken, htype⟩ := (hlogged r bound).1.get?_eq_some_iff.mp ht
    have hrecords' := (hlogged.run later r' hr').1
    exact hrecords'.get?_eq_some_iff.mpr ⟨x, hprefix.subset hx, htoken, htype⟩

/-- A type that already has the token of the first row of definitions is inserted. -/
def collidingToken : List Command := [
  .newRegistry (.module "lib") "lib", .newType ⟨⟨0x02000001⟩, "N", "T", 0, .unknown⟩ (some "t"),
  .insert "lib" "t"]

theorem registration_of_collidingToken :
    ∃ r t r', (empty.run collidingToken).registries["lib"]? = some r ∧
      r.get? ⟨0x02000001⟩ = some t ∧
      ((RegistryCall.createType "N" "U" 0).run r (empty.run collidingToken).graph).result =
        .error (.tokenTaken ⟨0x02000001⟩) ∧
      ((empty.run collidingToken).run [.createType "lib" "N" "U" 0 none]).registries["lib"]? =
        some r' ∧ r'.get? ⟨0x02000001⟩ = some t := by
  have hmade : (empty.run collidingToken).registries["lib"]?.map
      (fun r => (r.get? ⟨0x02000001⟩, r.nextTypeDef)) = some (some ⟨6⟩, 1) := by decide +kernel
  obtain ⟨r, hbound, hr⟩ := Option.map_eq_some_iff.mp hmade
  obtain ⟨htaken, hrow⟩ := Prod.mk.inj hr
  obtain ⟨-, hcalls, hlater⟩ := registration_of_run collidingToken hbound
  obtain ⟨r', hr', hkept⟩ := hlater [.createType "lib" "N" "U" 0 none]
    (by simp [Command.endsRegistry])
  refine ⟨r, ⟨6⟩, r', hbound, htaken, ?_, hr', hkept _ _ htaken⟩
  have htoken : (RegistryCall.createType "N" "U" 0).token? r (empty.run collidingToken).graph =
      some ⟨0x02000001⟩ := by
    rw [RegistryCall.token?, hrow]
    decide
  rcases hcalls _ _ htoken with ⟨t, hregisters⟩ | hrefuses
  · have hfree := hregisters.free
    rw [htaken] at hfree
    cases hfree
  · exact hrefuses.result

end Session

end AssemblyGraph
