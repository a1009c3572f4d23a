import AssemblyGraph.Proofs.Session.Keyed
import AssemblyGraph.Proofs.Session.MemberTable

/-!
What a cached import answers with.

The cache is asked by the origin of the declaring type and the token of the
method. Its answer is the row of the first import of the two, with the full
name that the declaring type had then. So it is the row that an import without
a cache would have made at that time, and apart from its token and that full
name it is the row that one would make now, if the first import was of the same
method.
-/

namespace AssemblyGraph.Session

open TargetModule

/-! ### The methods of a history -/

/-- A method that a module was asked for is still there, and has only grown. -/
theorem Moves.methods {s s' : Session} {rs : List Referral} (h : Moves s rs s') :
    ∀ r ∈ rs, r.graph.methodWithId? r.entry.id = some r.entry ∧
      r.graph.KeepsMethods s'.graph := by
  induction h with
  | refl => simp
  | @tail s' s'' rs rs' _ hmove ih =>
      intro r hr
      rcases List.mem_append.mp hr with hr | hr
      · exact ⟨(ih r hr).1, (ih r hr).2.trans hmove.keepsMethods⟩
      · cases hmove with
        | @refer r' now known found =>
            obtain rfl := List.mem_singleton.mp hr
            rw [now]
            exact ⟨found, .of_eq rfl⟩
        | _ => cases hr

theorem methods_of_run (commands : List Command) (id : ModuleId) :
    ∀ r ∈ empty.historyOf commands id, r.graph.methodWithId? r.entry.id = some r.entry ∧
      r.graph.KeepsMethods (empty.run commands).graph :=
  fun r hr => (run_moves empty commands).methods r (List.mem_filter.mp hr).1

/-! ### The answer -/

/-- The request that is made now of a module of the session. -/
def requestNow (s : Session) (id : ModuleId) (m : TargetModule) (entry : MethodEntry) : Referral :=
  ⟨id, m, s.graph, entry⟩

/-- A module of the session caches its imports, and a living type of another module
declares a method. -/
structure CachesImport (s : Session) (id : ModuleId) (m : TargetModule) (entry : MethodEntry)
    (t : TypeId) (d : TypeDecl) : Prop where
  target : s.target? id = some m
  caches : m.cachesImports = true
  held : s.graph.methodWithId? entry.id = some entry
  declaring : s.graph.declaringType? entry.method = some t
  alive : s.graph.type? t = some d
  foreign : d.origin ≠ m.origin

/-- The key that a method is imported under. -/
def CachesImport.key {s : Session} {id : ModuleId} {m : TargetModule} {entry : MethodEntry}
    {t : TypeId} {d : TypeDecl} (_ : s.CachesImport id m entry t d) : ImportKey :=
  ⟨d.origin, entry.method.token⟩

/-- The answer is the row that would have been made without a cache when the key was first
imported. -/
theorem CachesImport.refer_eq_first {commands : List Command} {id : ModuleId} {m : TargetModule}
    {entry : MethodEntry} {t : TypeId} {d : TypeDecl}
    (h : (empty.run commands).CachesImport id m entry t d) :
    ∃ row m', m.refer (empty.run commands).graph entry = .ok (.imported row, m') ∧
      (firstFor (empty.historyOf commands id) h.key
        ((empty.run commands).requestNow id m entry)).uncached.row? = some row := by
  have himports : ((empty.run commands).requestNow id m entry).Imports t d :=
    ⟨h.declaring, h.alive, h.foreign⟩
  have hkey : ((empty.run commands).requestNow id m entry).importedKey? = some h.key :=
    Referral.importedKey?_of_imports himports
  have houtcome := Referral.outcome_of_imports himports
  obtain ⟨name, config, hserves⟩ := serves_of_run commands h.target
  refine ⟨_, _, houtcome, ?_⟩
  have hfirst := Serves.row?_eq_first (r := (empty.run commands).requestNow id m entry)
    hserves h.caches hkey
  rw [← hfirst, Referral.row?, houtcome]
  rfl

/-- The first request for the key of a method imports that key too, of a method that the
session still holds. -/
theorem CachesImport.firstFor_facts {commands : List Command} {id : ModuleId} {m : TargetModule}
    {entry : MethodEntry} {t : TypeId} {d : TypeDecl}
    (h : (empty.run commands).CachesImport id m entry t d) :
    let first := firstFor (empty.historyOf commands id) h.key
      ((empty.run commands).requestNow id m entry)
    first.importedKey? = some h.key ∧
      first.graph.methodWithId? first.entry.id = some first.entry ∧
      first.graph.KeepsMethods (empty.run commands).graph := by
  intro first
  rcases firstFor_cases (empty.historyOf commands id) h.key
    ((empty.run commands).requestNow id m entry) with hnow | ⟨hmem, hkey⟩
  · rw [show first = (empty.run commands).requestNow id m entry from hnow]
    exact ⟨Referral.importedKey?_of_imports ⟨h.declaring, h.alive, h.foreign⟩, h.held, .of_eq rfl⟩
  · exact ⟨hkey, methods_of_run commands id first hmem⟩

/-- Two imports of one method under one key differ in the tokens that they give out and in
the full name that the declaring type has at the time. -/
theorem newRow_eq_of_same {r r' : Referral} {t t' : TypeId} {d d' : TypeDecl}
    (h : r.Imports t d) (h' : r'.Imports t' d') (grows : r.entry.method.Grows r'.entry.method)
    (origin : d.origin = d'.origin) :
    r.newRow t d = { r'.newRow t' d' with
      token := (r.newRow t d).token
      declaringTypeName := r.graph.fullName t' } := by
  have htype : t = t' := by
    have hlink := (Graph.follow?_eq_some_iff.mp h.declaringType).1
    have hlink' := (Graph.follow?_eq_some_iff.mp h'.declaringType).1
    exact Option.some_inj.mp ((grows.declaringType? t hlink).symm.trans hlink')
  subst htype
  simp only [Referral.newRow, rowFor, grows.name, grows.signature, grows.token, origin]

/-- A module that caches its imports answers a request for a living method of another
module with a row that has the origin and the token asked for. It is the row that the
module would have made without its cache for the first request for the two. If that was
for the same method, then the row is the one that the module would make now without its
cache, but for the token and for the full name, which is that of the first request. -/
theorem cachedImport_of_run (commands : List Command) {id : ModuleId} {m : TargetModule}
    {entry : MethodEntry} {t : TypeId} {d : TypeDecl}
    (h : (empty.run commands).CachesImport id m entry t d) :
    let g := (empty.run commands).graph
    let now := (empty.run commands).requestNow id m entry
    let first := firstFor (empty.historyOf commands id) ⟨d.origin, entry.method.token⟩ now
    now.uncached.row? = some (m.rowFor g entry.method t d) ∧
      ∃ row m', m.refer g entry = .ok (.imported row, m') ∧
        first.uncached.row? = some row ∧
        row.declaringOrigin = d.origin ∧ row.foreignToken = entry.method.token ∧
        (first.entry.id = entry.id → row = { m.rowFor g entry.method t d with
          token := row.token
          declaringTypeName := first.graph.fullName t }) := by
  intro g now first
  have himports : now.Imports t d := ⟨h.declaring, h.alive, h.foreign⟩
  obtain ⟨row, m', hrefer, hrow⟩ := h.refer_eq_first
  refine ⟨Referral.row?_uncached_of_imports himports, row, m', hrefer, hrow, ?_⟩
  obtain ⟨hkey, hheld, hkeeps⟩ := h.firstFor_facts
  obtain ⟨t₁, d₁, himports₁, hkeys⟩ := Referral.importedKey?_eq_some_iff.mp hkey
  obtain ⟨horigin, htoken⟩ := ImportKey.mk.inj hkeys
  have hnew := Referral.row?_uncached_of_imports himports₁
  rw [hrow] at hnew
  obtain rfl := Option.some_inj.mp hnew
  refine ⟨horigin.symm, htoken.symm, fun hsame => ?_⟩
  exact newRow_eq_of_same himports₁ himports (hkeeps.grows hheld h.held hsame) horigin.symm

/-! ### Answers that are out of date -/

/-- Whether a module answers a request for a living method of another module as it would
without its cache, apart from the token. -/
def AnswersAsUncached (s : Session) (id : ModuleId) (e : MethodId) : Prop :=
  ∀ m entry t d, entry.id = e → s.CachesImport id m entry t d →
    ∃ row m', m.refer s.graph entry = .ok (.imported row, m') ∧
      row = { m.rowFor s.graph entry.method t d with token := row.token }

/-- What has to be looked up in a run to see that a module that has had requests caches the
imports of a method. -/
theorem exists_cachesImport {commands : List Command} {id : ModuleId} {e : MethodId} {t : TypeId}
    {key : ImportKey} (name : String) (foreign : key.origin ≠ .module name)
    (settings : (empty.historyOf commands id).head?.map
      (fun r => (r.module.name, r.module.cachesImports)) = some (name, true))
    (target : ((empty.run commands).target? id).isSome)
    (declaring : ((empty.run commands).graph.methodWithId? e).map (fun entry =>
      (entry.method.token, (empty.run commands).graph.declaringType? entry.method)) =
        some (key.method, some t))
    (alive : ((empty.run commands).graph.type? t).map (·.origin) = some key.origin) :
    ∃ m entry d, ∃ h : (empty.run commands).CachesImport id m entry t d,
      entry.id = e ∧ h.key = key := by
  obtain ⟨m, hm⟩ := Option.isSome_iff_exists.mp target
  obtain ⟨r, hr, hsettings⟩ := Option.map_eq_some_iff.mp settings
  obtain ⟨entry, hentry, hmethod⟩ := Option.map_eq_some_iff.mp declaring
  obtain ⟨d, hd, horigin⟩ := Option.map_eq_some_iff.mp alive
  obtain ⟨start, config, hserves⟩ := serves_of_run commands hm
  obtain ⟨hname, hcaches⟩ := hserves.settings_of_mem (List.mem_of_head? hr)
  obtain ⟨hname', hcaches'⟩ := Prod.mk.inj hsettings
  obtain ⟨htoken, hdeclaring⟩ := Prod.mk.inj hmethod
  have hid := Graph.id_eq_of_methodWithId? hentry
  have hforeign : d.origin ≠ m.origin := by
    rw [horigin, TargetModule.origin, ← hname, hname']
    exact foreign
  refine ⟨m, entry, d, ⟨hm, hcaches.symm.trans hcaches', ?_, hdeclaring, hd, hforeign⟩, hid, ?_⟩
  · rw [hid]
    exact hentry
  · rw [CachesImport.key, horigin, htoken]

/-- A type that is nested in another one after its constructor has been imported. -/
def nestedLater : List Command := [
  .newType ⟨⟨0x02000001⟩, "N", "T", 0, .module "lib"⟩ (some "t"),
  .newType ⟨⟨0x02000002⟩, "N", "E", 0, .module "lib"⟩ (some "e"),
  .newMethod ⟨⟨0x06000001⟩, ".ctor", 6, 0, .instanceMethod [], none⟩ (some "f"),
  .setDeclaringType "f" "t", .newModule "app" "m" .standard, .importMethod "m" "f" none,
  .setEnclosing "t" "e"]

theorem nestedLater_cachesImport :
    ∃ m entry d, ∃ h : (empty.run nestedLater).CachesImport ⟨0⟩ m entry ⟨0⟩ d,
      entry.id = ⟨0⟩ ∧ h.key = ⟨.module "lib", ⟨0x06000001⟩⟩ :=
  exists_cachesImport "app" (by decide) (by decide +kernel) (by decide +kernel)
    (by decide +kernel) (by decide +kernel)

/-- The constructor is imported under the full name that its type had before. -/
theorem cachedImport_of_nestedLater :
    ∃ m entry d row m', (empty.run nestedLater).CachesImport ⟨0⟩ m entry ⟨0⟩ d ∧
      m.refer (empty.run nestedLater).graph entry = .ok (.imported row, m') ∧
      row = { m.rowFor (empty.run nestedLater).graph entry.method ⟨0⟩ d with
        token := row.token
        declaringTypeName := "N.T" } ∧
      (empty.run nestedLater).graph.fullName ⟨0⟩ = "N.E/T" := by
  obtain ⟨m, entry, d, h, hid, hkey⟩ := nestedLater_cachesImport
  obtain ⟨-, row, m', hrefer, -, -, -, hsame⟩ := cachedImport_of_run nestedLater h
  have hkey' : ImportKey.mk d.origin entry.method.token = ⟨.module "lib", ⟨0x06000001⟩⟩ := hkey
  have hfirst : ((empty.historyOf nestedLater ⟨0⟩).find? fun r =>
      r.uncached.importedKey? = some ⟨.module "lib", ⟨0x06000001⟩⟩).map
      (fun r => (r.entry.id, r.graph.fullName ⟨0⟩)) = some (⟨0⟩, "N.T") := by
    decide +kernel
  have hnow := eq_of_firstFor hfirst ((empty.run nestedLater).requestNow ⟨0⟩ m entry)
  obtain ⟨hentry, hname⟩ := Prod.mk.inj hnow
  rw [hkey', hname] at hsame
  refine ⟨m, entry, d, row, m', h, hrefer, hsame (hentry.trans hid.symm), ?_⟩
  decide +kernel

/-- Two registries that stand for one module and give out the same token for the
constructors of different types, one of which is imported. -/
def sharedToken : List Command := [
  .newRegistry (.module "lib") "a", .newRegistry (.module "lib") "b",
  .createType "a" "N" "T" 0 (some "t"), .createType "b" "N" "U" 0 (some "u"),
  .createConstructor "a" "t" [] (some "f"), .createConstructor "b" "u" [.byte] (some "g"),
  .newModule "app" "m" .standard, .importMethod "m" "f" none]

theorem sharedToken_cachesImport :
    ∃ m entry d, ∃ h : (empty.run sharedToken).CachesImport ⟨0⟩ m entry ⟨13⟩ d,
      entry.id = ⟨1⟩ ∧ h.key = ⟨.module "lib", ⟨0x06000001⟩⟩ :=
  exists_cachesImport "app" (by decide) (by decide +kernel) (by decide +kernel)
    (by decide +kernel) (by decide +kernel)

/-- A module that answers as without its cache agrees, in all but the token, with the row
of the first import. -/
theorem AnswersAsUncached.eq_of_first {commands : List Command} {id : ModuleId} {e : MethodId}
    {m : TargetModule} {entry : MethodEntry} {t : TypeId} {d : TypeDecl} {key : ImportKey}
    {α : Type} {f : MemberRef → α} {a : α}
    (htransparent : (empty.run commands).AnswersAsUncached id e) (hid : entry.id = e)
    (h : (empty.run commands).CachesImport id m entry t d) (hkey : h.key = key)
    (hfirst : ((empty.historyOf commands id).find? fun r =>
      r.uncached.importedKey? = some key).map (fun r => r.uncached.row?.map f) = some (some a)) :
    ∃ token,
      f { m.rowFor (empty.run commands).graph entry.method t d with token := token } = a := by
  obtain ⟨row, m', hrefer, hrow⟩ := h.refer_eq_first
  obtain ⟨row', m'', hrefer', hrow'⟩ := htransparent m entry t d hid h
  rw [hrefer] at hrefer'
  cases hrefer'
  have hanswer := eq_of_firstFor hfirst ((empty.run commands).requestNow id m entry)
  rw [← hkey, hrow, Option.map_some] at hanswer
  refine ⟨row.token, ?_⟩
  rw [← hrow']
  exact Option.some_inj.mp hanswer

/-- The answer need not be the one that would be given without the cache: the full name of
the type can be outdated, and the row can be that of another method with the same token. -/
theorem cachedImport_not_transparent :
    ¬ (empty.run nestedLater).AnswersAsUncached ⟨0⟩ ⟨0⟩ ∧
      ¬ (empty.run sharedToken).AnswersAsUncached ⟨0⟩ ⟨1⟩ := by
  constructor
  · intro htransparent
    obtain ⟨m, entry, d, h, hid, hkey⟩ := nestedLater_cachesImport
    have hold : ((empty.historyOf nestedLater ⟨0⟩).find? fun r =>
        r.uncached.importedKey? = some ⟨.module "lib", ⟨0x06000001⟩⟩).map
        (fun r => r.uncached.row?.map (·.declaringTypeName)) = some (some "N.T") := by
      decide +kernel
    have hnew : (empty.run nestedLater).graph.fullName ⟨0⟩ = "N.E/T" := by decide +kernel
    obtain ⟨token, hname⟩ := htransparent.eq_of_first hid h hkey hold
    have hname : (empty.run nestedLater).graph.fullName ⟨0⟩ = "N.T" := hname
    rw [hnew] at hname
    exact absurd hname (by decide)
  · intro htransparent
    obtain ⟨m, entry, d, h, hid, hkey⟩ := sharedToken_cachesImport
    have hother : ((empty.historyOf sharedToken ⟨0⟩).find? fun r =>
        r.uncached.importedKey? = some ⟨.module "lib", ⟨0x06000001⟩⟩).map
        (fun r => r.uncached.row?.map (·.declaringType)) = some (some ⟨12⟩) := by
      decide +kernel
    obtain ⟨token, htype⟩ := htransparent.eq_of_first hid h hkey hother
    have htype : (⟨13⟩ : TypeId) = ⟨12⟩ := htype
    exact absurd htype (by decide)

end AssemblyGraph.Session
