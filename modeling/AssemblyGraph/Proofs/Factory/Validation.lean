import AssemblyGraph.Proofs.Factory.Checks
import AssemblyGraph.Proofs.Session.Run
import AssemblyGraph.Proofs.TargetModule.Referral

/-!
What a validation of a factory is worth.

A validation makes all checks that records are looked up with, and nothing else.
So its errors are exactly those of the records that it stands for. What it does
not look at is whether the constructors can be referred to: a type can list a
constructor that no living type declares, and a record with such a constructor
fails although the factory has been found valid.
-/

namespace AssemblyGraph

namespace Factory

variable {f : Factory} {g : Graph} {m : TargetModule} {request : Request}

theorem prepare_eq_error_iff {cause : Error} :
    f.prepare g request = .error cause ↔
      (Check.ofKind request.kind).forM (f.check g) = .error cause := by
  rw [← discard_prepare]
  cases f.prepare g request with
  | error cause' =>
      constructor
      · intro h
        cases h
        rfl
      · intro h
        cases h
        rfl
  | ok found =>
      constructor
      · intro h
        cases h
      · intro h
        cases h

/-- A record fails because a check of its kind does, or because its constructor cannot be
referred to. -/
theorem build_eq_error_iff {cause : Error} :
    f.build g m request = .error cause ↔
      (Check.ofKind request.kind).forM (f.check g) = .error cause ∨
        ∃ entry args, f.prepare g request = .ok (entry, args) ∧
          m.refer g entry = .error cause := by
  rw [build_eq, bind_eq_error_iff, prepare_eq_error_iff]
  constructor
  · rintro (hchecks | ⟨⟨entry, args⟩, hprepare, hrefer⟩)
    · exact .inl hchecks
    · exact .inr ⟨entry, args, hprepare, map_eq_error_iff.mp hrefer⟩
  · rintro (hchecks | ⟨entry, args, hprepare, hrefer⟩)
    · exact .inl hchecks
    · exact .inr ⟨(entry, args), hprepare, map_eq_error_iff.mpr hrefer⟩

/-- A validation fails as the first check does that fails at all, and every record of the kind
that needs what is checked fails in the same way. Conversely a record can only fail without
the validation because its constructor has no living declaring type. -/
theorem validation_exact (f : Factory) (g : Graph) :
    (∀ cause, f.validate g = .error cause ↔ ∃ before check after,
      Check.all = before ++ check :: after ∧
        (∀ earlier ∈ before, f.check g earlier = .ok ()) ∧ f.check g check = .error cause) ∧
    (∀ cause, f.validate g = .error cause → ∃ sample : Request,
      ∀ request : Request, request.kind = sample.kind → ∀ m, f.build g m request = .error cause) ∧
    (∀ m request cause, f.build g m request = .error cause → (∀ why, cause ≠ .inconsistent why) →
      ∃ cause', f.validate g = .error cause') := by
  refine ⟨fun cause => validate_eq_error_iff, fun cause h => ?_, fun m request cause h hcause => ?_⟩
  · -- the checks of the kind are passed in the order of all checks, up to the same one
    obtain ⟨before, check, after, hsplit, hbefore, hcheck⟩ := validate_eq_error_iff.mp h
    obtain ⟨sample, hsample⟩ := check.kind.exists_request
    refine ⟨sample, fun request hkind m => build_eq_error_iff.mpr (.inl ?_)⟩
    rw [Check.ofKind, hsplit]
    refine forM_filter_eq_error hbefore hcheck ?_
    rw [hkind, hsample]
    exact decide_eq_true rfl
  · rcases build_eq_error_iff.mp h with hchecks | ⟨entry, args, -, hrefer⟩
    · -- a check of the kind that fails is one of all checks, so not all of them pass
      obtain ⟨before, check, after, -, -, hcheck⟩ := forM_eq_error_iff.mp hchecks
      cases hvalidate : f.validate g with
      | error cause' => exact ⟨cause', rfl⟩
      | ok =>
          rw [validate_eq_ok_iff.mp hvalidate check] at hcheck
          cases hcheck
    · exact absurd (TargetModule.refer_eq_error_iff.mp hrefer).2 (hcause _)

/-! ### What a valid factory can build -/

theorem exists_prepare_of_validate (valid : f.validate g = .ok ()) (request : Request) :
    ∃ entry args, f.prepare g request = .ok (entry, args) := by
  have hchecks : (Check.ofKind request.kind).forM (f.check g) = .ok () :=
    forM_eq_ok_iff.mpr fun check _ => validate_eq_ok_iff.mp valid check
  cases hprepare : f.prepare g request with
  | error cause =>
      rw [prepare_eq_error_iff, hchecks] at hprepare
      cases hprepare
  | ok found => exact ⟨found.1, found.2, rfl⟩

/-- Records fail only for want of what they are prepared with and of a reference. -/
theorem exists_build_of_prepare {entry : MethodEntry} {args : List TypedArg}
    (prepared : f.prepare g request = .ok (entry, args))
    (declared : (g.declaringType? entry.method).isSome) (m : TargetModule) :
    ∃ record m', f.build g m request = .ok (record, m') := by
  cases hbuild : f.build g m request with
  | ok built => exact ⟨built.1, built.2, rfl⟩
  | error cause =>
      exfalso
      rcases build_eq_error_iff.mp hbuild with hchecks | ⟨entry', args', hprepare, hrefer⟩
      · rw [← prepare_eq_error_iff, prepared] at hchecks
        cases hchecks
      · rw [prepared] at hprepare
        cases hprepare
        rw [(TargetModule.refer_eq_error_iff.mp hrefer).1] at declared
        cases declared

/-- A factory that is made with a check has passed it. -/
theorem validate_of_create {config : Config} {table : WellKnownTable}
    {embedded nullable nullableContext nullablePublicOnly : TypeId}
    (first : config.validatesFirst = true)
    (made : create g config table embedded nullable nullableContext nullablePublicOnly = .ok f) :
    f.validate g = .ok () := by
  rw [create, if_pos first] at made
  obtain ⟨⟨⟩, hvalidate, rfl⟩ := map_eq_ok_iff.mp made
  exact hvalidate

end Factory

/-- Every method that a living type lists has that type as its declaring type. It is so for
the methods that registries create, but a type can be made to list others. -/
def Graph.DeclaresItsMethods (g : Graph) : Prop :=
  ∀ t, ∀ entry ∈ g.methodsOf t, entry.method.declaringType? = some t

theorem Graph.isAlive_of_mem_methodsOf {g : Graph} {t : TypeId} {entry : MethodEntry}
    (h : entry ∈ g.methodsOf t) : g.isAlive t := by
  rw [methodsOf] at h
  cases ht : g.type? t with
  | none => simp [ht] at h
  | some d => exact isAlive_iff.mpr ⟨d, ht⟩

namespace Factory

/-- If a factory is found valid, or is made with a check, then the constructor of every
record is found, and a record is built or not according to whether a living type declares
its constructor. So it builds every record if all types declare the methods that they
list. -/
theorem build_of_validated {f : Factory} {g : Graph}
    (valid : f.validate g = .ok () ∨ ∃ config table embedded nullable nullableContext
      nullablePublicOnly, config.validatesFirst = true ∧
        create g config table embedded nullable nullableContext nullablePublicOnly = .ok f)
    (m : TargetModule) :
    (∀ request, ∃ entry, f.constructorFor g request = .ok entry ∧
      ((g.declaringType? entry.method).isSome →
        ∃ record m', f.build g m request = .ok (record, m')) ∧
      (g.declaringType? entry.method = none → f.build g m request =
        .error (.inconsistent (.noDeclaringType entry.method.name entry.method.token)))) ∧
    (g.DeclaresItsMethods → ∀ request, ∃ record m', f.build g m request = .ok (record, m')) := by
  have hvalid : f.validate g = .ok () := by
    rcases valid with hvalid | ⟨config, table, e, n, c, p, hfirst, hmade⟩
    · exact hvalid
    · exact validate_of_create hfirst hmade
  constructor
  · intro request
    obtain ⟨entry, args, hprepare⟩ := exists_prepare_of_validate hvalid request
    refine ⟨entry, (prepare_eq_ok_iff.mp hprepare).1, fun hdeclared => ?_, fun hnone => ?_⟩
    · exact exists_build_of_prepare hprepare hdeclared m
    · refine build_eq_error_iff.mpr (.inr ⟨entry, args, hprepare, ?_⟩)
      exact TargetModule.refer_eq_error_iff.mpr ⟨hnone, rfl⟩
  · intro hdeclares request
    obtain ⟨entry, args, hprepare⟩ := exists_prepare_of_validate hvalid request
    obtain ⟨u, hmem, -⟩ := exists_of_constructorFor (prepare_eq_ok_iff.mp hprepare).1
    have hdeclaring : g.declaringType? entry.method = some u :=
      Graph.follow?_eq_some_iff.mpr ⟨hdeclares u entry hmem, Graph.isAlive_of_mem_methodsOf hmem⟩
    exact exists_build_of_prepare hprepare (Option.isSome_of_eq_some hdeclaring) m

end Factory

/-! ### Factories of a session -/

namespace Session

/-- What has to be looked up in a session to get at a factory and its module. -/
theorem exists_factory {s : Session} {name : String} {α : Type} {p : Factory → TargetModule → α}
    {a : α} (h : ((s.factories[name]?).bind fun f =>
      (s.target? f.table.module).map fun m => p f m) = some a) :
    ∃ f m, s.factories[name]? = some f ∧ s.target? f.table.module = some m ∧ p f m = a := by
  obtain ⟨f, hf, hmap⟩ := Option.bind_eq_some_iff.mp h
  obtain ⟨m, hm, hp⟩ := Option.map_eq_some_iff.mp hmap
  exact ⟨f, m, hf, hm, hp⟩

/-- A factory that is found valid builds every record. -/
def ValidationIsSound (s : Session) : Prop :=
  ∀ (name : String) (f : Factory) (m : TargetModule), s.factories[name]? = some f →
    s.target? f.table.module = some m → f.validate s.graph = .ok () →
      ∀ request, ∃ record m', f.build s.graph m request = .ok (record, m')

/-- Attribute types of another module: one that takes nothing or a byte, and one that takes a
byte or an array of bytes. -/
def attributeTypes (settings : Config) : List Command := [
  .newRegistry (.module "lib") "r",
  .primitive "r" .byte (some "byte"), .primitive "r" .boolean (some "boolean"),
  .createType "r" "N" "A" 0 (some "a"), .createType "r" "N" "B" 0 (some "b"),
  .createConstructor "r" "a" [] none, .createConstructor "r" "a" [.byte] none,
  .createConstructor "r" "b" [.byte] none, .createConstructor "r" "b" [.vector .byte []] none,
  .newModule "app" "m" settings]

/-- Makes a factory that is checked first, with a type of its own for the attribute of
generated code. -/
def makeFactory (marker : String) : List Command := [
  .newTable "m" "byte" "boolean" "t",
  .bindWellKnown marker "t" .compilerGeneratedAttribute,
  .bindWellKnown "a" "t" .attributeUsageAttribute, .bindWellKnown "a" "t" .attributeTargets,
  .bindWellKnown "a" "t" .referenceAssemblyAttribute,
  .newFactory "a" "b" "a" "a" "t" .strict "f"]

def strictFactory (settings : Config) : List Command :=
  attributeTypes settings ++ makeFactory "a"

/-- A type lists a constructor that was never told what type declares it. -/
def orphanConstructor : List Command :=
  attributeTypes .standard ++ [
    .createType "r" "N" "C" 0 (some "c"),
    .newMethod (.ofAttributes ⟨0x06000009⟩ Method.constructorName
      MethodAttributes.publicConstructor (.instanceMethod [])) (some "g"),
    .pushMethod "c" "g"] ++
  makeFactory "c"

theorem build_of_strictFactory :
    let g := (empty.run (strictFactory .standard)).graph
    ∃ f m, (empty.run (strictFactory .standard)).factories["f"]? = some f ∧
      f.validate g = .ok () ∧
      ∃ record m', f.build g m (.nullableFlags [1, 2]) = .ok (record, m') := by
  intro g
  have hrun : ((empty.run (strictFactory .standard)).factories["f"]?.bind fun f =>
      ((empty.run (strictFactory .standard)).target? f.table.module).map fun _ =>
        ((f.validate g).toBool, ((f.constructorFor g (.nullableFlags [1, 2])).map fun entry =>
          g.declaringType? entry.method).toOption)) = some (true, some (some ⟨7⟩)) := by
    decide +kernel
  obtain ⟨f, m, hf, -, hp⟩ := exists_factory hrun
  obtain ⟨hvalid, hdeclaring⟩ := Prod.mk.inj hp
  obtain ⟨⟨⟩, hvalid⟩ := toBool_eq_true_iff.mp hvalid
  obtain ⟨hrequests, -⟩ := Factory.build_of_validated (.inl hvalid) m
  obtain ⟨entry, hentry, hbuild, -⟩ := hrequests (.nullableFlags [1, 2])
  rw [hentry] at hdeclaring
  have hdeclared := Option.isSome_of_eq_some (Option.some_inj.mp hdeclaring)
  exact ⟨f, m, hf, hvalid, hbuild hdeclared⟩

/-- A factory can be found valid although it cannot build one of its records. -/
theorem validation_not_sound : ¬ (empty.run orphanConstructor).ValidationIsSound := by
  intro hsound
  have hrun : ((empty.run orphanConstructor).factories["f"]?.bind fun f =>
      ((empty.run orphanConstructor).target? f.table.module).map fun m =>
        ((f.validate (empty.run orphanConstructor).graph).toBool,
          (f.build (empty.run orphanConstructor).graph m .compilerGenerated).toBool)) =
        some (true, false) := by
    decide +kernel
  obtain ⟨f, m, hf, hm, hp⟩ := exists_factory hrun
  obtain ⟨hvalid, hfails⟩ := Prod.mk.inj hp
  obtain ⟨⟨⟩, hvalid⟩ := toBool_eq_true_iff.mp hvalid
  obtain ⟨record, m', hbuild⟩ := hsound "f" f m hf hm hvalid .compilerGenerated
  rw [hbuild] at hfails
  cases hfails

end Session

end AssemblyGraph
