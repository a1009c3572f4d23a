import AssemblyGraph.TargetModule

/-!
Requests for references to methods.

A module under construction changes in one way only: it is asked for a
reference to a method, and may gain a row by it. A request is kept with all
that its answer is computed from, so the history of a module is a list of
requests.
-/

namespace AssemblyGraph

/-- A request of a module for a reference to a method, at the moment at which it
is made. -/
structure Referral where
  /-- The identity of the module. -/
  target : ModuleId
  /-- The module before the request. -/
  module : TargetModule
  graph : Graph
  entry : MethodEntry

/-- A module can refer to every method that has a living declaring type, and to no other. -/
theorem TargetModule.refer_eq_error_iff {m : TargetModule} {g : Graph} {entry : MethodEntry}
    {cause : Error} :
    m.refer g entry = .error cause ↔ g.declaringType? entry.method = none ∧
      cause = .inconsistent (.noDeclaringType entry.method.name entry.method.token) := by
  rw [refer]
  cases ht : g.declaringType? entry.method with
  | none => simp [eq_comm]
  | some t =>
      obtain ⟨d, hd⟩ := Graph.isAlive_iff.mp (Graph.follow?_eq_some_iff.mp ht).2
      by_cases horigin : d.origin = m.origin
      · simp [hd, horigin]
      · simp [hd, horigin]

theorem TargetModule.declared_of_refer {m m' : TargetModule} {g : Graph} {entry : MethodEntry}
    {reference : MethodReference} (h : m.refer g entry = .ok (reference, m')) :
    ∃ t d, g.declaringType? entry.method = some t ∧ g.type? t = some d := by
  cases ht : g.declaringType? entry.method with
  | none =>
      rw [refer_eq_error_iff.mpr ⟨ht, rfl⟩] at h
      cases h
  | some t =>
      obtain ⟨d, hd⟩ := Graph.isAlive_iff.mp (Graph.follow?_eq_some_iff.mp ht).2
      exact ⟨t, d, rfl, hd⟩

/-- A method is referred to directly if it is declared by a type of the module's own. -/
theorem TargetModule.own_of_refer {m m' : TargetModule} {g : Graph} {entry entry' : MethodEntry}
    (h : m.refer g entry = .ok (.definition entry', m')) :
    entry' = entry ∧ m' = m ∧
      ∃ t d, g.declaringType? entry.method = some t ∧ g.type? t = some d ∧ d.origin = m.origin := by
  obtain ⟨t, d, ht, hd⟩ := declared_of_refer h
  simp only [refer, ht, hd] at h
  split at h
  · rename_i horigin
    cases h
    exact ⟨rfl, rfl, t, d, ht, hd, horigin⟩
  · cases h

namespace Referral

/-- The answer to the request. -/
def outcome (r : Referral) : Except Error (MethodReference × TargetModule) :=
  r.module.refer r.graph r.entry

/-- The module after the request; a failed one leaves it as it was. -/
def after (r : Referral) : TargetModule :=
  match r.outcome with
  | .ok (_, m) => m
  | .error _ => r.module

/-- The row that the request is answered with, if it succeeds for a method of
another module. -/
def row? (r : Referral) : Option MemberRef :=
  match r.outcome with
  | .ok (reference, _) => reference.member?
  | .error _ => none

/-- The row that the request has created: the one that it is answered with, if
the module did not hold it before. -/
def created? (r : Referral) : Option MemberRef :=
  r.row?.filter fun row => r.module.memberRef? row.token ≠ some row

/-- The living type that declares the method. -/
def declaring? (r : Referral) : Option TypeDecl :=
  (r.graph.declaringType? r.entry.method).bind r.graph.type?

/-- The declaring origin and the token of the method, if the request succeeds for
a method of another module. -/
def importedKey? (r : Referral) : Option ImportKey :=
  if r.row?.isSome then r.declaring?.map fun d => ⟨d.origin, r.entry.method.token⟩ else none

/-- The same request of a module that does not cache its imports. -/
def uncached (r : Referral) : Referral :=
  { r with module := { r.module with cachesImports := false } }

theorem after_of_ok {id : ModuleId} {m m' : TargetModule} {g : Graph} {entry : MethodEntry}
    {reference : MethodReference} (h : m.refer g entry = .ok (reference, m')) :
    (Referral.mk id m g entry).after = m' := by
  simp only [after, outcome, h]

theorem after_of_error {id : ModuleId} {m : TargetModule} {g : Graph} {entry : MethodEntry}
    {cause : Error} (h : m.refer g entry = .error cause) :
    (Referral.mk id m g entry).after = m := by
  simp only [after, outcome, h]

/-! ### What a request comes to -/

/-- The method is declared by a living type of another module. -/
structure Imports (r : Referral) (t : TypeId) (d : TypeDecl) : Prop where
  declaringType : r.graph.declaringType? r.entry.method = some t
  alive : r.graph.type? t = some d
  foreign : d.origin ≠ r.module.origin

/-- The row that an import of the method makes now. -/
def newRow (r : Referral) (t : TypeId) (d : TypeDecl) : MemberRef :=
  r.module.rowFor r.graph r.entry.method t d

/-- The module once a row has been made for a key. -/
def withRow (r : Referral) (key : ImportKey) (row : MemberRef) : TargetModule :=
  if r.module.cachesImports then
    { r.module.addRow row with importCache := r.module.importCache.insert key row }
  else r.module.addRow row

@[simp] theorem nextMemberRef_withRow (r : Referral) (key : ImportKey) (row : MemberRef) :
    (r.withRow key row).nextMemberRef = r.module.nextMemberRef + 1 := by
  rw [withRow]
  split <;> rfl

@[simp] theorem memberRefs_withRow (r : Referral) (key : ImportKey) (row : MemberRef) :
    (r.withRow key row).memberRefs = r.module.memberRefs.insert row.token row := by
  rw [withRow]
  split <;> rfl

@[simp] theorem cachesImports_withRow (r : Referral) (key : ImportKey) (row : MemberRef) :
    (r.withRow key row).cachesImports = r.module.cachesImports := by
  rw [withRow]
  split <;> rfl

theorem getElem?_importCache_withRow (r : Referral) (key : ImportKey) (row : MemberRef)
    (k : ImportKey) :
    (r.withRow key row).importCache[k]? =
      if r.module.cachesImports = true ∧ key = k then some row else r.module.importCache[k]? := by
  by_cases hcaches : r.module.cachesImports = true
  · simp [withRow, hcaches, Std.HashMap.getElem?_insert]
  · simp [withRow, hcaches, TargetModule.addRow]

theorem isSome_row?_of_importedKey? {r : Referral} {key : ImportKey}
    (h : r.importedKey? = some key) : r.row?.isSome := by
  rw [importedKey?] at h
  split at h
  · assumption
  · cases h

theorem outcome_of_imports {r : Referral} {t : TypeId} {d : TypeDecl} (h : r.Imports t d) :
    r.outcome = .ok (.imported (r.module.importForeign r.graph r.entry.method t d).1,
      (r.module.importForeign r.graph r.entry.method t d).2) := by
  simp only [outcome, TargetModule.refer, h.declaringType, h.alive, if_neg h.foreign]

/-- Without a cache the answer is a new row. -/
theorem row?_uncached_of_imports {r : Referral} {t : TypeId} {d : TypeDecl}
    (h : r.Imports t d) : r.uncached.row? = some (r.newRow t d) := by
  have himports : r.uncached.Imports t d := ⟨h.declaringType, h.alive, h.foreign⟩
  simp only [row?, outcome_of_imports himports]
  rfl

theorem importedKey?_of_imports {r : Referral} {t : TypeId} {d : TypeDecl} (h : r.Imports t d) :
    r.importedKey? = some ⟨d.origin, r.entry.method.token⟩ := by
  have hrow : r.row?.isSome := by
    simp [row?, outcome_of_imports h, MethodReference.member?]
  simp [importedKey?, hrow, declaring?, h.declaringType, h.alive]

/-- A request that is not for a living method of another module fails or is
answered with the method itself, and it leaves the module as it was. -/
theorem of_not_imports {r : Referral} (h : ∀ t d, ¬ r.Imports t d) :
    r.row? = none ∧ r.after = r.module := by
  rw [row?, after, outcome, TargetModule.refer]
  cases ht : r.graph.declaringType? r.entry.method with
  | none => exact ⟨rfl, rfl⟩
  | some t =>
  simp only
  cases hd : r.graph.type? t with
  | none => exact ⟨rfl, rfl⟩
  | some d =>
  simp only
  by_cases horigin : d.origin = r.module.origin
  · rw [if_pos horigin]
    exact ⟨rfl, rfl⟩
  · exact absurd ⟨ht, hd, horigin⟩ (h t d)

theorem not_imports_of_error {r : Referral} {cause : Error} (h : r.outcome = .error cause)
    (t : TypeId) (d : TypeDecl) : ¬ r.Imports t d := by
  intro himports
  rw [outcome_of_imports himports] at h
  cases h

theorem not_imports_of_own {r : Referral} {d : TypeDecl} (h : r.declaring? = some d)
    (own : d.origin = r.module.origin) (t : TypeId) (d' : TypeDecl) : ¬ r.Imports t d' := by
  intro himports
  rw [declaring?, himports.declaringType, Option.bind_some, himports.alive] at h
  obtain rfl := Option.some_inj.mp h
  exact himports.foreign own

/-- Everything that a request can do: nothing, or answer with a row that is
remembered, or make a row and answer with it. -/
theorem refer_cases (r : Referral) :
    (r.importedKey? = none ∧ r.row? = none ∧ r.after = r.module) ∨
    (∃ key row, r.importedKey? = some key ∧ r.row? = some row ∧ r.module.cachesImports = true ∧
      r.module.importCache[key]? = some row ∧ r.after = r.module) ∨
    (∃ t d key, r.Imports t d ∧ r.importedKey? = some key ∧ r.row? = some (r.newRow t d) ∧
      (r.module.cachesImports = true → r.module.importCache[key]? = none) ∧
      r.after = r.withRow key (r.newRow t d)) := by
  by_cases himports : ∃ t d, r.Imports t d
  · obtain ⟨t, d, himports⟩ := himports
    have houtcome := outcome_of_imports himports
    have hkey := importedKey?_of_imports himports
    rw [TargetModule.importForeign] at houtcome
    by_cases hcaches : r.module.cachesImports = true
    · simp only [if_pos hcaches] at houtcome
      cases hcache : r.module.importCache[ImportKey.mk d.origin r.entry.method.token]? with
      | some earlier =>
          simp only [hcache] at houtcome
          refine .inr (.inl ⟨_, earlier, hkey, ?_, hcaches, hcache, ?_⟩)
          · simp [row?, houtcome, MethodReference.member?]
          · simp [after, houtcome]
      | none =>
          simp only [hcache] at houtcome
          refine .inr (.inr ⟨t, d, _, himports, hkey, ?_, fun _ => hcache, ?_⟩)
          · simp [row?, houtcome, MethodReference.member?, newRow]
          · simp [after, houtcome, withRow, hcaches, newRow]
    · simp only [if_neg hcaches] at houtcome
      refine .inr (.inr ⟨t, d, _, himports, hkey, ?_, fun h => absurd h hcaches, ?_⟩)
      · simp [row?, houtcome, MethodReference.member?, newRow]
      · simp [after, houtcome, withRow, hcaches, newRow]
  · have hnot : ∀ t d, ¬ r.Imports t d := fun t d h => himports ⟨t, d, h⟩
    obtain ⟨hrow, hafter⟩ := of_not_imports hnot
    refine .inl ⟨?_, hrow, hafter⟩
    simp [importedKey?, hrow]

/-- A key is imported by the requests for living methods of other modules, and by no
others. -/
theorem importedKey?_eq_some_iff {r : Referral} {key : ImportKey} :
    r.importedKey? = some key ↔
      ∃ t d, r.Imports t d ∧ key = ⟨d.origin, r.entry.method.token⟩ := by
  constructor
  · intro hkey
    have hrow := isSome_row?_of_importedKey? hkey
    by_cases himports : ∃ t d, r.Imports t d
    · obtain ⟨t, d, himports⟩ := himports
      rw [importedKey?_of_imports himports] at hkey
      exact ⟨t, d, himports, (Option.some_inj.mp hkey).symm⟩
    · have hnone := (of_not_imports fun t d h => himports ⟨t, d, h⟩).1
      rw [hnone] at hrow
      cases hrow
  · rintro ⟨t, d, himports, rfl⟩
    exact importedKey?_of_imports himports

@[simp] theorem importedKey?_uncached (r : Referral) :
    r.uncached.importedKey? = r.importedKey? := by
  refine Option.ext fun key => ?_
  rw [importedKey?_eq_some_iff, importedKey?_eq_some_iff]
  constructor
  · rintro ⟨t, d, himports, rfl⟩
    exact ⟨t, d, ⟨himports.declaringType, himports.alive, himports.foreign⟩, rfl⟩
  · rintro ⟨t, d, himports, rfl⟩
    exact ⟨t, d, ⟨himports.declaringType, himports.alive, himports.foreign⟩, rfl⟩

/-- A method of another module has yet to be given a row: the module keeps no row for it, or
makes a new one for every request. -/
def NeedsRow (r : Referral) (d : TypeDecl) : Prop :=
  d.origin ≠ r.module.origin ∧ (r.module.cachesImports = true →
    r.module.importCache[ImportKey.mk d.origin r.entry.method.token]? = none)

/-- A request that succeeds makes a row if one is needed, and changes nothing otherwise. -/
theorem after_of_declared {r : Referral} {t : TypeId} {d : TypeDecl}
    (declaring : r.graph.declaringType? r.entry.method = some t)
    (alive : r.graph.type? t = some d) :
    (r.NeedsRow d →
      r.after = r.withRow ⟨d.origin, r.entry.method.token⟩ (r.newRow t d)) ∧
    (¬ r.NeedsRow d → r.after = r.module) := by
  rcases r.refer_cases with
    ⟨hkey, -, hafter⟩ | ⟨key, row, hkey, -, hcaches, hcache, hafter⟩ |
    ⟨t', d', key, himports, hkey, -, hmiss, hafter⟩
  · refine ⟨fun hneeds => ?_, fun _ => hafter⟩
    rw [importedKey?_of_imports ⟨declaring, alive, hneeds.1⟩] at hkey
    cases hkey
  · refine ⟨fun hneeds => ?_, fun _ => hafter⟩
    rw [importedKey?_of_imports ⟨declaring, alive, hneeds.1⟩] at hkey
    obtain rfl := Option.some_inj.mp hkey
    rw [hneeds.2 hcaches] at hcache
    cases hcache
  · obtain rfl : t = t' := Option.some_inj.mp (declaring.symm.trans himports.declaringType)
    obtain rfl : d = d' := Option.some_inj.mp (alive.symm.trans himports.alive)
    rw [importedKey?_of_imports himports] at hkey
    obtain rfl := Option.some_inj.mp hkey
    exact ⟨fun _ => hafter, fun hnot => absurd ⟨himports.foreign, hmiss⟩ hnot⟩

/-- A module never changes its name or whether it caches its imports. -/
theorem settings_after (r : Referral) :
    r.after.name = r.module.name ∧ r.after.cachesImports = r.module.cachesImports := by
  rcases r.refer_cases with ⟨-, -, h⟩ | ⟨key, row, -, -, -, -, h⟩ | ⟨t, d, key, -, -, -, -, h⟩
  · rw [h]
    exact ⟨rfl, rfl⟩
  · rw [h]
    exact ⟨rfl, rfl⟩
  · rw [h, withRow]
    split <;> exact ⟨rfl, rfl⟩

end Referral

/-! ### Modules of one name -/

section Name

variable {m m' : TargetModule}

theorem TargetModule.origin_eq_of_name (h : m'.name = m.name) : m'.origin = m.origin := by
  rw [origin, origin, h]

/-- Whether a method can be referred to, and whether it is imported, is the same for all
modules of one name. -/
theorem TargetModule.refer_cases_of_name (h : m'.name = m.name) (g : Graph)
    (entry : MethodEntry) :
    (∃ cause, m.refer g entry = .error cause ∧ m'.refer g entry = .error cause) ∨
    ∃ made made', m.refer g entry = .ok made ∧ m'.refer g entry = .ok made' ∧
      made.1.isImported = made'.1.isImported := by
  rw [refer, refer, origin_eq_of_name h]
  cases g.declaringType? entry.method with
  | none => exact .inl ⟨_, rfl, rfl⟩
  | some t =>
      simp only
      cases g.type? t with
      | none => exact .inl ⟨_, rfl, rfl⟩
      | some d =>
          simp only
          split
          · exact .inr ⟨_, _, rfl, rfl, rfl⟩
          · exact .inr ⟨_, _, rfl, rfl, rfl⟩

/-- The key of an import is the same for all modules of one name. -/
theorem Referral.importedKey?_of_name (h : m'.name = m.name) (id : ModuleId) (g : Graph)
    (entry : MethodEntry) :
    (Referral.mk id m' g entry).importedKey? = (Referral.mk id m g entry).importedKey? := by
  refine Option.ext fun key => ?_
  rw [importedKey?_eq_some_iff, importedKey?_eq_some_iff]
  refine exists_congr fun t => exists_congr fun d => and_congr_left fun _ => ?_
  constructor
  · intro himports
    exact ⟨himports.declaringType, himports.alive,
      TargetModule.origin_eq_of_name h ▸ himports.foreign⟩
  · intro himports
    exact ⟨himports.declaringType, himports.alive,
      (TargetModule.origin_eq_of_name h).symm ▸ himports.foreign⟩

end Name

end AssemblyGraph
