import AssemblyGraph.Proofs.Factory.Validation
import AssemblyGraph.Proofs.Session.Frame
import AssemblyGraph.Proofs.Session.Owners
import Mathlib.Data.Fintype.Card
import Mathlib.Data.Fintype.EquivFin

/-!
What outlives its owners.

A type lives for as long as something owns it. A record that is attached to a type is owned by
that type and owns the types of its arguments, so types can own each other, and types that own
each other in a circle stay alive when nothing outside of it does. These are all that is left
over: in every state the living types are those that are reached from a bound object and those
that are reached from a circle. A circle is closed by attaching a record to a type that one of
the record's argument types owns or is, and in no other way.
-/

namespace AssemblyGraph

open Relation

/-! ### Types that own each other -/

namespace Graph

/-- A type owns another one through a record that is attached to it. -/
def Owns (g : Graph) (t u : TypeId) : Prop :=
  ∃ d record, g.type? t = some d ∧ record ∈ d.attributes ∧ u ∈ record.ownedTypes

/-- A type owns itself, directly or through others. -/
def OwnsItself (g : Graph) (t : TypeId) : Prop :=
  TransGen g.Owns t t

/-- No type owns itself. -/
def Acyclic (g : Graph) : Prop :=
  ∀ t, ¬ g.OwnsItself t

variable {g g' : Graph} {t u : TypeId}

theorem mem_attachedTypes_iff_owns : u ∈ g.attachedTypes ↔ ∃ t, g.Owns t u := by
  rw [mem_attachedTypes_iff]
  constructor
  · rintro ⟨t, d, record, hd, hrecord, hu⟩
    exact ⟨t, d, record, hd, hrecord, hu⟩
  · rintro ⟨t, d, record, hd, hrecord, hu⟩
    exact ⟨t, d, record, hd, hrecord, hu⟩

theorem Owns.isAlive (h : g.Owns t u) : g.isAlive t := by
  obtain ⟨d, -, hd, -⟩ := h
  exact isAlive_iff.mpr ⟨d, hd⟩

theorem owns_of_attach {v : TypeId} {record : AttributeRecord}
    (h : (g.attach v record).Owns t u) : g.Owns t u ∨ (t = v ∧ u ∈ record.ownedTypes) := by
  obtain ⟨d', record', hd', hrecord, hu⟩ := h
  rw [attach, type?_modifyType] at hd'
  split at hd'
  · rename_i htv
    obtain ⟨d, hd, rfl⟩ := Option.map_eq_some_iff.mp hd'
    rcases List.mem_append.mp hrecord with hold | hnew
    · exact .inl ⟨d, record', hd, hold, hu⟩
    · obtain rfl := List.mem_singleton.mp hnew
      exact .inr ⟨htv, hu⟩
  · exact .inl ⟨d', record', hd', hrecord, hu⟩

/-- A type carries a record that owns another type. -/
def Carries (u : TypeId) (d : TypeDecl) : Prop :=
  ∃ record ∈ d.attributes, u ∈ record.ownedTypes

/-- Only what works on the records of a type could make it own another one. -/
theorem carries_frame (u : TypeId) : Frame (Inherits (Carries u)) := by
  refine inherits_frame (fun d fresh => ?_) fun same => ?_
  · rintro ⟨record, hrecord, -⟩
    rw [fresh.bare] at hrecord
    cases hrecord
  · rintro ⟨record, hrecord, hu⟩
    exact ⟨record, same.attributes ▸ hrecord, hu⟩

theorem Inherits.owns (h : Inherits (Carries u) g g') (howns : g'.Owns t u) : g.Owns t u := by
  obtain ⟨d', record', hd', hrecord', hu'⟩ := howns
  obtain ⟨d, hd, record, hrecord, hu⟩ := h t d' hd' ⟨record', hrecord', hu'⟩
  exact ⟨d, record, hd, hrecord, hu⟩

end Graph

namespace Session

variable {s : Session} {command : Command} {t u : TypeId}

/-! ### What is reached -/

/-- A type is reached from a bound object by going from owners to what they own. -/
inductive Rooted (s : Session) : TypeId → Prop
  | type {name : String} {t : TypeId} (bound : s.types[name]? = some t) : Rooted s t
  | registry {name : String} {r : Registry} {t : TypeId} (bound : s.registries[name]? = some r)
      (mem : t ∈ r.all) : Rooted s t
  | table {name : String} {table : WellKnownTable} {t : TypeId}
      (bound : s.tables[name]? = some table) (mem : t ∈ table.ownedTypes) : Rooted s t
  | factory {name : String} {f : Factory} {t : TypeId} (bound : s.factories[name]? = some f)
      (mem : t ∈ f.ownedTypes) : Rooted s t
  | record {name : String} {record : AttributeRecord} {t : TypeId}
      (bound : s.records[name]? = some record) (mem : t ∈ record.ownedTypes) : Rooted s t
  | attached {t u : TypeId} (rooted : Rooted s t) (owns : s.graph.Owns t u) : Rooted s u

/-- A type is reached from one that owns itself. -/
def KeptByCycle (s : Session) (t : TypeId) : Prop :=
  ∃ u, s.graph.OwnsItself u ∧ ReflTransGen s.graph.Owns u t

theorem isAlive_of_owns (alive : s.OwnersAlive) (h : s.graph.Owns t u) :
    s.graph.isAlive u = true :=
  alive u (mem_ownedTypes_iff.mpr (.attached (Graph.mem_attachedTypes_iff_owns.mpr ⟨t, h⟩)))

theorem Rooted.isAlive (h : s.Rooted t) (alive : s.OwnersAlive) : s.graph.isAlive t = true := by
  cases h with
  | type bound => exact alive t (mem_ownedTypes_iff.mpr (.type bound))
  | registry bound mem => exact alive t (mem_ownedTypes_iff.mpr (.registry bound mem))
  | table bound mem => exact alive t (mem_ownedTypes_iff.mpr (.table bound mem))
  | factory bound mem => exact alive t (mem_ownedTypes_iff.mpr (.factory bound mem))
  | record bound mem => exact alive t (mem_ownedTypes_iff.mpr (.record bound mem))
  | attached _ owns => exact isAlive_of_owns alive owns

theorem KeptByCycle.isAlive (h : s.KeptByCycle t) (alive : s.OwnersAlive) :
    s.graph.isAlive t = true := by
  obtain ⟨u, hcycle, hpath⟩ := h
  obtain ⟨v, -, hlast⟩ := TransGen.tail'_iff.mp (hcycle.trans_left hpath)
  exact isAlive_of_owns alive hlast

/-- A living type is bound to or registered under something, or a living type owns it. -/
theorem rooted_or_owned (settled : s.Settled) (halive : s.graph.isAlive t = true) :
    s.Rooted t ∨ ∃ u, s.graph.Owns u t := by
  cases mem_ownedTypes_iff.mp (settled t halive) with
  | type bound => exact .inl (.type bound)
  | registry bound mem => exact .inl (.registry bound mem)
  | table bound mem => exact .inl (.table bound mem)
  | factory bound mem => exact .inl (.factory bound mem)
  | record bound mem => exact .inl (.record bound mem)
  | attached mem => exact .inr (Graph.mem_attachedTypes_iff_owns.mp mem)

/-- Going back from owner to owner ends at a bound object, as there are only finitely many living
types, unless the way is joined by a circle. -/
theorem rooted_or_keptByCycle (settled : s.Settled) (halive : s.graph.isAlive t = true) :
    s.Rooted t ∨ s.KeptByCycle t := by
  apply or_iff_not_imp_right.mpr
  intro hcycle
  let Ancestor := { u : TypeId // s.graph.isAlive u = true ∧ ReflTransGen s.graph.Owns u t }
  have hfinite : Finite Ancestor := by
    refine Finite.of_injective (fun u : Ancestor =>
      (⟨u.1.index, Graph.index_lt_of_alive u.2.1⟩ : Fin s.graph.types.size)) fun u v huv => ?_
    exact Subtype.ext (congrArg TypeId.mk (Fin.mk.inj huv))
  let before : Ancestor → Ancestor → Prop := fun u v => TransGen s.graph.Owns u.1 v.1
  have htrans : IsTrans Ancestor before := ⟨fun _ _ _ => TransGen.trans⟩
  have hirrefl : Std.Irrefl before := ⟨fun u hu => hcycle ⟨u.1, hu, u.2.2⟩⟩
  have hrooted : ∀ u : Ancestor, s.Rooted u.1 := by
    intro u
    -- by induction on how far the ancestors of a type go back
    induction u using (Finite.wellFounded_of_trans_of_irrefl before).induction with
    | h u ih =>
        rcases rooted_or_owned settled u.2.1 with hroot | ⟨v, howns⟩
        · exact hroot
        · let w : Ancestor := ⟨v, howns.isAlive, .head howns u.2.2⟩
          exact .attached (ih w (.single howns)) howns
  exact hrooted ⟨t, halive, .refl⟩

/-! ### How a circle is closed -/

/-- A command attaches a record to a type that one of the record's argument types owns or is. -/
def ClosesCycle (s : Session) (command : Command) : Prop :=
  ∃ type name t record u, command = .attach type name ∧ s.types[type]? = some t ∧
    s.records[name]? = some record ∧ u ∈ record.ownedTypes ∧ ReflTransGen s.graph.Owns u t

/-- A type comes to own another one by attaching a record to it. -/
theorem owns_step (h : (s.step command).1.graph.Owns t u) :
    s.graph.Owns t u ∨ ∃ type name record, command = .attach type name ∧
      s.types[type]? = some t ∧ s.records[name]? = some record ∧ u ∈ record.ownedTypes := by
  by_cases hattach : ∃ type name, command = .attach type name
  · obtain ⟨type, name, rfl⟩ := hattach
    have hperform : (s.attach type name).1.graph.Owns t u :=
      (frame_settle (Graph.carries_frame u).flat _).owns h
    cases htype : s.types[type]? with
    | none => exact .inl (by simpa only [attach, find, htype] using hperform)
    | some v =>
        cases hrecord : s.records[name]? with
        | none => exact .inl (by simpa only [attach, find, htype, hrecord] using hperform)
        | some record =>
            simp only [attach, find, htype, hrecord, reply] at hperform
            rcases Graph.owns_of_attach hperform with hold | ⟨rfl, hu⟩
            · exact .inl hold
            · exact .inr ⟨type, name, record, rfl, htype, hrecord, hu⟩
  · refine .inl ((inherits_step (Graph.carries_frame u) s (fun _ _ _ _ _ => id)
      (fun _ _ _ _ _ => id) (fun _ _ => id)
      (fun type name h => absurd ⟨type, name, h⟩ hattach) ?_).owns h)
    rintro _ _ _ _ _ _ _ _ d - bare ⟨record, hrecord, -⟩
    rw [bare] at hrecord
    cases hrecord

/-- A way that uses what a type has newly come to own leads to that type, and on from what it
owns. -/
theorem path_cases {α : Type} {old new : α → α → Prop} {source : α} {targets : α → Prop}
    (cases : ∀ a b, new a b → old a b ∨ (a = source ∧ targets b)) {a b : α}
    (path : TransGen new a b) :
    TransGen old a b ∨ (ReflTransGen old a source ∧ ∃ c, targets c ∧ ReflTransGen old c b) := by
  induction path with
  | single h =>
      rcases cases _ _ h with hold | ⟨rfl, htarget⟩
      · exact .inl (.single hold)
      · exact .inr ⟨.refl, _, htarget, .refl⟩
  | tail _ h ih =>
      rcases cases _ _ h with hold | ⟨rfl, htarget⟩
      · rcases ih with hpath | ⟨hto, c, hc, hfrom⟩
        · exact .inl (hpath.tail hold)
        · exact .inr ⟨hto, c, hc, hfrom.tail hold⟩
      · rcases ih with hpath | ⟨hto, -⟩
        · exact .inr ⟨hpath.to_reflTransGen, _, htarget, .refl⟩
        · exact .inr ⟨hto, _, htarget, .refl⟩

theorem acyclic_step (acyclic : s.graph.Acyclic) (opens : ¬ s.ClosesCycle command) :
    (s.step command).1.graph.Acyclic := by
  intro t hcycle
  by_cases hattach : ∃ type name v record, command = .attach type name ∧
      s.types[type]? = some v ∧ s.records[name]? = some record
  · obtain ⟨type, name, v, record, rfl, htype, hrecord⟩ := hattach
    have hcases : ∀ a b, (s.step (.attach type name)).1.graph.Owns a b →
        s.graph.Owns a b ∨ (a = v ∧ b ∈ record.ownedTypes) := by
      intro a b hab
      rcases owns_step hab with hold | ⟨type', name', record', hcommand, htype', hrecord', hb⟩
      · exact .inl hold
      · cases hcommand
        rw [htype] at htype'
        rw [hrecord] at hrecord'
        cases htype'
        cases hrecord'
        exact .inr ⟨rfl, hb⟩
    rcases path_cases hcases hcycle with hold | ⟨hto, u, hu, hfrom⟩
    · exact acyclic t hold
    · exact opens ⟨type, name, v, record, u, rfl, htype, hrecord, hu, hfrom.trans hto⟩
  · refine acyclic t (TransGen.mono (fun a b hab => ?_) _ _ hcycle)
    rcases owns_step hab with hold | ⟨type, name, record, hcommand, htype, hrecord, -⟩
    · exact hold
    · exact absurd ⟨type, name, a, record, hcommand, htype, hrecord⟩ hattach

/-- A run in which no command closes a circle. -/
def OpensOnly (commands : List Command) : Prop :=
  ∀ before command after, commands = before ++ command :: after →
    ¬ (empty.run before).ClosesCycle command

/-- Only attaching a record closes a circle. -/
theorem opensOnly_of_notMem {commands : List Command}
    (h : ∀ type name, .attach type name ∉ commands) : OpensOnly commands := by
  rintro before command after rfl ⟨type, name, _, _, _, rfl, -⟩
  exact h type name (List.mem_append_right before List.mem_cons_self)

theorem opensOnly_concat_iff {commands : List Command} :
    OpensOnly (commands ++ [command]) ↔
      OpensOnly commands ∧ ¬ (empty.run commands).ClosesCycle command :=
  forall_split_concat_iff

/-- A run can go on in any way that attaches no record. -/
theorem OpensOnly.append {commands commands' : List Command} (opens : OpensOnly commands)
    (h : ∀ type name, .attach type name ∉ commands') : OpensOnly (commands ++ commands') := by
  induction commands' using List.reverseRecOn with
  | nil => rwa [List.append_nil]
  | append_singleton commands' command ih =>
      rw [← List.append_assoc]
      refine opensOnly_concat_iff.mpr ⟨ih fun type name hmem => ?_, ?_⟩
      · exact h type name (List.mem_append_left _ hmem)
      · rintro ⟨type, name, _, _, _, rfl, -⟩
        exact h type name (List.mem_append_right _ (List.mem_singleton_self _))

theorem acyclic_run {commands : List Command} (opens : OpensOnly commands) :
    (empty.run commands).graph.Acyclic := by
  induction commands using List.reverseRecOn with
  | nil =>
      intro t hcycle
      obtain ⟨u, -, d, -, hd, -⟩ := TransGen.tail'_iff.mp hcycle
      simp [run] at hd
  | append_singleton commands command ih =>
      obtain ⟨hopens, hopen⟩ := opensOnly_concat_iff.mp opens
      rw [run_append]
      exact acyclic_step (ih hopens) hopen

/-! ### What is left over -/

/-- Nothing is bound that could own a type. -/
structure NothingBound (s : Session) : Prop where
  types : s.types.isEmpty = true
  registries : s.registries.isEmpty = true
  tables : s.tables.isEmpty = true
  factories : s.factories.isEmpty = true
  records : s.records.isEmpty = true

theorem not_rooted_of_nothingBound (nothing : s.NothingBound) : ¬ s.Rooted t := by
  have hfree : ∀ {α : Type} {bindings : Bindings α} {name : String} {a : α},
      bindings.isEmpty = true → bindings[name]? ≠ some a := by
    intro α bindings name a hempty hbound
    rw [Std.TreeMap.getElem?_of_isEmpty hempty] at hbound
    cases hbound
  intro hrooted
  induction hrooted with
  | type bound => exact hfree nothing.types bound
  | registry bound => exact hfree nothing.registries bound
  | table bound => exact hfree nothing.tables bound
  | factory bound => exact hfree nothing.factories bound
  | record bound => exact hfree nothing.records bound
  | attached _ _ ih => exact ih

/-- The living types are those that are reached from a bound object or from a circle of types
that own each other. So if no command of a run closes a circle, exactly what is reached is
alive, and if nothing is bound any more, exactly the circles and what they own are left. -/
theorem alive_iff_rooted_or_keptByCycle (commands : List Command) :
    let s := empty.run commands
    (∀ t, s.graph.isAlive t = true ↔ s.Rooted t ∨ s.KeptByCycle t) ∧
    (OpensOnly commands → ∀ t, s.graph.isAlive t = true ↔ s.Rooted t) ∧
    (s.NothingBound → ∀ t, s.graph.isAlive t = true ↔ s.KeptByCycle t) := by
  intro s
  have halive : s.OwnersAlive := (sound_of_run commands).1
  have hboth : ∀ t, s.graph.isAlive t = true ↔ s.Rooted t ∨ s.KeptByCycle t := by
    intro t
    constructor
    · exact rooted_or_keptByCycle (settled_run commands)
    · rintro (hrooted | hkept)
      · exact hrooted.isAlive halive
      · exact hkept.isAlive halive
  refine ⟨hboth, fun opens t => ?_, fun nothing t => ?_⟩
  · refine (hboth t).trans (or_iff_left ?_)
    rintro ⟨u, hcycle, -⟩
    exact acyclic_run opens u hcycle
  · exact (hboth t).trans (or_iff_right (not_rooted_of_nothingBound nothing))

/-- A factory that has built a record whose argument is a byte. -/
def builtRecord : List Command :=
  strictFactory .standard ++ [.build "f" (.nullable 1) (some "rec")]

/-- A weak reference to the type of bytes is taken, and everything that is bound is dropped. -/
def dropEverything : List Command := [
  .makeLink "byte" "w", .drop .type "byte", .drop .type "boolean", .drop .type "a",
  .drop .type "b", .drop .registry "r", .drop .module "m", .drop .factory "f",
  .drop .record "rec"]

/-- The record is attached to a type that its argument types lead to in no way. -/
def annotatedType : List Command :=
  builtRecord ++ [.attach "a" "rec"] ++ dropEverything

/-- The attached record owns the type of bytes, and nothing keeps the type that it is attached
to. -/
theorem released_of_annotatedType :
    (empty.run (builtRecord ++ [.attach "a" "rec"])).graph.attachedTypes = [⟨2⟩] ∧
      OpensOnly annotatedType ∧ (empty.run annotatedType).NothingBound ∧
      ∀ t, (empty.run annotatedType).graph.isAlive t = false := by
  have hbuilt : OpensOnly builtRecord :=
    opensOnly_of_notMem (by simp [builtRecord, strictFactory, attributeTypes, makeFactory])
  have hapart : ¬ (empty.run builtRecord).ClosesCycle (.attach "a" "rec") := by
    rintro ⟨_, _, t, record, u, ⟨⟩, ht, hrecord, hu, hpath⟩
    have ha : (empty.run builtRecord).types["a"]? = some ⟨6⟩ := by decide +kernel
    have hrec : (empty.run builtRecord).records["rec"]?.map (·.ownedTypes) = some [⟨2⟩] := by
      decide +kernel
    have hnone : (empty.run builtRecord).graph.attachedTypes = [] := by decide +kernel
    obtain rfl := Option.some_inj.mp (ha.symm.trans ht)
    rw [hrecord, Option.map_some, Option.some_inj] at hrec
    obtain rfl := List.mem_singleton.mp (hrec ▸ hu)
    -- no record has been attached yet, so a way could not even leave the type of bytes
    rcases hpath.cases_tail with h | ⟨v, -, howns⟩
    · cases h
    · have hmem := Graph.mem_attachedTypes_iff_owns.mpr ⟨v, howns⟩
      rw [hnone] at hmem
      cases hmem
  have hopens : OpensOnly annotatedType :=
    (opensOnly_concat_iff.mpr ⟨hbuilt, hapart⟩).append (by simp [dropEverything])
  have hnothing : (empty.run annotatedType).NothingBound := by
    constructor <;> decide +kernel
  obtain ⟨-, halive, -⟩ := alive_iff_rooted_or_keptByCycle annotatedType
  refine ⟨by decide +kernel, hopens, hnothing, fun t => Bool.eq_false_iff.mpr fun ht => ?_⟩
  exact not_rooted_of_nothingBound hnothing ((halive hopens t).mp ht)

/-- A type is gone if no bound object leads to it. -/
def ReleasesUnreached (s : Session) : Prop :=
  ∀ t, ¬ s.Rooted t → s.graph.isAlive t = false

/-- The record is attached to the type of bytes itself. -/
def selfOwningType : List Command :=
  builtRecord ++ [.attach "byte" "rec"] ++ dropEverything

/-- The type that owns itself outlives its registry and all that is bound. -/
theorem ownership_cycle_leaks :
    (empty.run selfOwningType).NothingBound ∧ ¬ (empty.run selfOwningType).ReleasesUnreached := by
  have hnothing : (empty.run selfOwningType).NothingBound := by
    constructor <;> decide +kernel
  have halive : (empty.run selfOwningType).graph.isAlive ⟨2⟩ = true := by decide +kernel
  refine ⟨hnothing, fun hreleases => ?_⟩
  rw [hreleases _ (not_rooted_of_nothingBound hnothing)] at halive
  cases halive

end Session

end AssemblyGraph
