import AssemblyGraph.Proofs.Factory

/-!
Checking a factory before it is used.

A check looks up one of the things that records are made of. Each is needed by
records of one kind, and what is looked up for a record before its constructor
is referred to are the checks of its kind, in the order in which the factory
makes them. So whatever a check finds wrong, a record of its kind would have
failed with, and a record fails otherwise only because its constructor cannot be
referred to.
-/

namespace AssemblyGraph

/-- The kinds of records, one for each operation of a factory. -/
inductive RecordKind where
  | compilerGenerated
  | embedded
  | nullable
  | nullableFlags
  | nullableContext
  | nullablePublicOnly
  | attributeUsage
  | referenceAssembly
  deriving DecidableEq

def Request.kind : Request → RecordKind
  | .compilerGenerated => .compilerGenerated
  | .embedded => .embedded
  | .nullable _ => .nullable
  | .nullableFlags _ => .nullableFlags
  | .nullableContext _ => .nullableContext
  | .nullablePublicOnly _ => .nullablePublicOnly
  | .attributeUsage .. => .attributeUsage
  | .referenceAssembly => .referenceAssembly

theorem RecordKind.exists_request (kind : RecordKind) :
    ∃ request : Request, request.kind = kind := by
  cases kind with
  | compilerGenerated => exact ⟨.compilerGenerated, rfl⟩
  | embedded => exact ⟨.embedded, rfl⟩
  | nullable => exact ⟨.nullable 0, rfl⟩
  | nullableFlags => exact ⟨.nullableFlags [], rfl⟩
  | nullableContext => exact ⟨.nullableContext 0, rfl⟩
  | nullablePublicOnly => exact ⟨.nullablePublicOnly true, rfl⟩
  | attributeUsage => exact ⟨.attributeUsage ⟨0⟩ none none, rfl⟩
  | referenceAssembly => exact ⟨.referenceAssembly, rfl⟩

/-- What is checked of a factory before it is used. -/
inductive Check where
  | compilerGenerated
  | attributeUsage
  | referenceAssembly
  /-- The targets that attribute usages are declared with. -/
  | attributeTargets
  | embedded
  | nullableScalar
  | nullableArray
  | nullableContext
  | nullablePublicOnly
  deriving DecidableEq

namespace Check

/-- All checks, in the order in which they are made. -/
def all : List Check :=
  [compilerGenerated, attributeUsage, referenceAssembly, attributeTargets, embedded,
    nullableScalar, nullableArray, nullableContext, nullablePublicOnly]

theorem mem_all (check : Check) : check ∈ all := by
  cases check <;> decide

/-- The kind of the records that need what is checked. -/
def kind : Check → RecordKind
  | compilerGenerated => .compilerGenerated
  | attributeUsage => .attributeUsage
  | referenceAssembly => .referenceAssembly
  | attributeTargets => .attributeUsage
  | embedded => .embedded
  | nullableScalar => .nullable
  | nullableArray => .nullableFlags
  | nullableContext => .nullableContext
  | nullablePublicOnly => .nullablePublicOnly

/-- The checks that are made for records of a kind. -/
def ofKind (k : RecordKind) : List Check :=
  all.filter fun check => check.kind = k

end Check

namespace Factory

variable {f : Factory} {g : Graph}

/-- One check: the constructor or the framework type that it is about is looked up. -/
def check (f : Factory) (g : Graph) : Check → Except Error Unit
  | .compilerGenerated => discard <| f.wellKnownConstructor g .compilerGeneratedAttribute .noArgs
  | .attributeUsage => discard <| f.wellKnownConstructor g .attributeUsageAttribute .oneArg
  | .referenceAssembly => discard <| f.wellKnownConstructor g .referenceAssemblyAttribute .noArgs
  | .attributeTargets => discard <| f.table.get .attributeTargets
  | .embedded => discard <| constructorOn g f.embedded .noArgs
  | .nullableScalar => discard <| constructorOn g f.nullable .oneScalarArg
  | .nullableArray => discard <| constructorOn g f.nullable .oneArrayArg
  | .nullableContext => discard <| constructorOn g f.nullableContext .oneArg
  | .nullablePublicOnly => discard <| constructorOn g f.nullablePublicOnly .oneArg

theorem validate_eq (f : Factory) (g : Graph) : f.validate g = Check.all.forM (f.check g) := by
  have hlast : ∀ result : Except Error Unit, (result >>= fun _ => .ok ()) = result := by
    intro result
    cases result <;> rfl
  rw [Check.all]
  repeat rw [forM_cons_eq]
  rw [show ([] : List Check).forM (f.check g) = .ok () from rfl, hlast]
  rfl

/-- A failing validation reports the first check that fails. -/
theorem validate_eq_error_iff {cause : Error} :
    f.validate g = .error cause ↔ ∃ before check after,
      Check.all = before ++ check :: after ∧
        (∀ earlier ∈ before, f.check g earlier = .ok ()) ∧ f.check g check = .error cause := by
  rw [validate_eq, forM_eq_error_iff]

theorem validate_eq_ok_iff : f.validate g = .ok () ↔ ∀ check, f.check g check = .ok () := by
  rw [validate_eq, forM_eq_ok_iff]
  exact ⟨fun h check => h check check.mem_all, fun h check _ => h check⟩

/-- What is looked up for a record before its constructor is referred to. -/
def prepare (f : Factory) (g : Graph) (request : Request) :
    Except Error (MethodEntry × List TypedArg) := do
  let entry ← f.constructorFor g request
  let args ← f.fixedArgs request
  return (entry, args)

theorem prepare_eq_ok_iff {request : Request} {entry : MethodEntry} {args : List TypedArg} :
    f.prepare g request = .ok (entry, args) ↔
      f.constructorFor g request = .ok entry ∧ f.fixedArgs request = .ok args := by
  simp only [prepare, bind_eq_ok_iff]
  constructor
  · rintro ⟨entry', hentry, args', hargs, hmade⟩
    cases hmade
    exact ⟨hentry, hargs⟩
  · rintro ⟨hentry, hargs⟩
    exact ⟨entry, hentry, args, hargs, rfl⟩

/-- Only the constructor and the targets are looked up; the other arguments are made from the
request and cannot fail. -/
theorem discard_prepare (f : Factory) (g : Graph) (request : Request) :
    discard (f.prepare g request) = (Check.ofKind request.kind).forM (f.check g) := by
  have hconstructor : ∀ (found : Except Error MethodEntry) (args : List TypedArg),
      discard (found >>= fun entry => Except.ok args >>= fun args =>
        (return (entry, args) : Except Error _)) = (discard found >>= fun _ => .ok ()) := by
    intro found args
    cases found <;> rfl
  cases request with
  | attributeUsage validOn allowMultiple inherited =>
      have hboth : ∀ (found : Except Error MethodEntry) (targets : Except Error TypeId)
          (args : TypeId → List TypedArg),
          discard (found >>= fun entry => targets.map args >>= fun args =>
            (return (entry, args) : Except Error _)) =
              (discard found >>= fun _ => discard targets >>= fun _ => .ok ()) := by
        intro found targets args
        cases found with
        | error cause => rfl
        | ok entry => cases targets <;> rfl
      exact hboth _ _ _
  | _ => exact hconstructor _ _

theorem build_eq (f : Factory) (g : Graph) (m : TargetModule) (request : Request) :
    f.build g m request = f.prepare g request >>= fun (entry, args) =>
      (m.refer g entry).map fun (reference, m) =>
        (⟨reference, args, f.namedArgs request⟩, m) := by
  rw [build, prepare]
  cases f.constructorFor g request with
  | error cause => rfl
  | ok entry =>
      cases f.fixedArgs request with
      | error cause => rfl
      | ok args =>
          show (m.refer g entry >>= _) = (m.refer g entry).map _
          cases m.refer g entry <;> rfl

end Factory

end AssemblyGraph
