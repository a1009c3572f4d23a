import AssemblyGraph.Proofs.Identity.Members
import AssemblyGraph.Proofs.Session.Handles
import AssemblyGraph.Proofs.Session.Owners

/-!
What can change the identity of a type.

Hash, full name and identity are read off the chain of a type anew each time. A command
changes the part of at most one type in them: it nests a type that was not nested, which
is then the outermost one of every chain that it is on, or it gives a type a generic
parameter, which neither a hash nor a full name shows. Apart from that, a chain only
changes when one of its members loses its last owner.
-/

namespace AssemblyGraph

/-- Whether a command can change what takes part in the identity of a type. -/
def Command.worksOnFacets : Command → Bool
  | .setEnclosing .. | .addGenericParam .. => true
  | _ => false

namespace Session

/-- A command nests a type that was not nested before. -/
def Nests (s : Session) (command : Command) (t : TypeId) : Prop :=
  ∃ type enclosing e d, command = .setEnclosing type enclosing ∧ s.types[type]? = some t ∧
    s.types[enclosing]? = some e ∧ s.graph.type? t = some d ∧ d.isNested = false

/-- A command gives a type a generic parameter. -/
def Widens (s : Session) (command : Command) (t : TypeId) : Prop :=
  ∃ reg type name r, command = .addGenericParam reg type name ∧
    s.registries[reg]? = some r ∧ s.types[type]? = some t

/-- A command nests the outermost type of a chain, or a type on it loses its last owner. -/
inductive Disturbs (s : Session) (command : Command) (t : TypeId) : Prop
  | nests {u : TypeId} (member : s.graph.OnChain t u) (nests : s.Nests command u)
  | releases {u : TypeId} (member : s.graph.OnChain t u) (owned : u ∈ s.ownedTypes)
      (unowned : u ∉ (s.step command).1.ownedTypes)

/-- A command gives a type on a chain a generic parameter. -/
def WidensChain (s : Session) (command : Command) (t : TypeId) : Prop :=
  ∃ u, s.graph.OnChain t u ∧ s.Widens command u

/-! ### Facets -/

/-- A type of one state is gone in another, or it has kept its facet. -/
def KeepsFacets (s s' : Session) : Prop :=
  s.graph.KeepsFacets s'.graph

/-- The two commands that work on facets apart, a command keeps the facets of the types that
live on. -/
theorem keepsFacets_perform (s : Session) {command : Command}
    (quiet : command.worksOnFacets = false) : s.KeepsFacets (s.perform command).1 := by
  refine frame_perform Graph.keepsFacets_frame s command fun marks => ?_
  have hs : s.KeepsFacets s := Graph.KeepsFacets.refl s.graph
  cases command with
  | setEnclosing | addGenericParam => cases quiet
  | attach =>
      exact find_keeps hs fun t _ => find_keeps hs fun record _ =>
        s.graph.keepsFacets_attach t record
  | setDefinition =>
      exact find_keeps hs fun _ _ => find_keeps hs fun _ _ =>
        attempt_keeps hs fun _ hset => s.graph.keepsFacets_setDefinition hset
  | chain times names enclosing? place bindTo =>
      cases place with
      | free =>
          exact frame_freeChain Graph.keepsFacets_frame s
            (fun g _ _ _ => g.keepsFacets_addType _) times names enclosing? _ _ _ bindTo
      | registered => cases marks
  | _ => cases marks

/-! ### One type -/

/-- What a command may make of a declaration that lives on. -/
structure Alters (s : Session) (command : Command) (t : TypeId) (d d' : TypeDecl) : Prop where
  name : d'.name = d.name
  namespaceName : d'.namespaceName = d.namespaceName
  enclosing? : d'.enclosing? = d.enclosing? ∨ s.Nests command t
  arity : d'.arity = d.arity ∨ s.Widens command t

/-- A type lives on in a later state, altered as a command may do it. -/
def Keeps (s : Session) (command : Command) (t : TypeId) (d : TypeDecl) (s' : Session) : Prop :=
  ∃ d', s'.graph.type? t = some d' ∧ s.Alters command t d d'

variable {s : Session} {command : Command} {t : TypeId} {d : TypeDecl}

theorem Keeps.refl (command : Command) (hd : s.graph.type? t = some d) :
    s.Keeps command t d s :=
  ⟨d, hd, rfl, rfl, .inl rfl, .inl rfl⟩

theorem keeps_of_facet {s' : Session} (hd : s.graph.type? t = some d)
    (h : s'.graph.facet? t = s.graph.facet? t) : s.Keeps command t d s' := by
  rw [Graph.facet?, Graph.facet?, hd, Option.map_some] at h
  obtain ⟨d', hd', hfacet⟩ := Option.map_eq_some_iff.mp h
  obtain ⟨hshape, henclosing⟩ := Prod.mk.inj hfacet
  exact ⟨d', hd', congrArg IdentityShape.name hshape, congrArg IdentityShape.namespaceName hshape,
    .inl henclosing, .inl (congrArg IdentityShape.arity hshape)⟩

/-- Only a type that is not nested can be nested. -/
theorem keeps_setEnclosing (hd : s.graph.type? t = some d) (type enclosing : String) :
    s.Keeps (.setEnclosing type enclosing) t d (s.setEnclosing type enclosing).1 := by
  have hs := Keeps.refl (.setEnclosing type enclosing) hd
  refine find_keeps hs fun u hu => find_keeps hs fun e he => attempt_keeps hs fun g hset => ?_
  rcases s.graph.setEnclosing_cases hset with ⟨-, rfl⟩ | ⟨x, hx, hfree, rfl⟩
  · exact hs
  · by_cases htu : t = u
    · subst htu
      obtain rfl := Option.some_inj.mp (hd.symm.trans hx)
      refine ⟨{ d with enclosing? := some e }, ?_, rfl, rfl, .inr ?_, .inl rfl⟩
      · exact (Graph.type?_modifyType ..).trans ((if_pos rfl).trans (congrArg _ hd))
      · exact ⟨type, enclosing, e, d, rfl, hu, he, hd, by rw [TypeDecl.isNested, hfree]; rfl⟩
    · refine ⟨d, ?_, rfl, rfl, .inl rfl, .inl rfl⟩
      exact (Graph.type?_modifyType ..).trans ((if_neg htu).trans hd)

theorem keeps_addGenericParam (hd : s.graph.type? t = some d) (reg type name : String) :
    s.Keeps (.addGenericParam reg type name) t d (s.addGenericParam reg type name).1 := by
  have hs := Keeps.refl (.addGenericParam reg type name) hd
  refine find_keeps hs fun r hr => find_keeps hs fun u hu => ?_
  let p := (r.addGenericParam s.graph u name).2.2
  by_cases htu : t = u
  · subst htu
    refine ⟨{ d with genericParams := d.genericParams ++ [p] }, ?_, rfl, rfl, .inl rfl, .inr ?_⟩
    · exact (Graph.type?_modifyType ..).trans ((if_pos rfl).trans (congrArg _ hd))
    · exact ⟨reg, type, name, r, rfl, hr, hu⟩
  · refine ⟨d, ?_, rfl, rfl, .inl rfl, .inl rfl⟩
    exact (Graph.type?_modifyType ..).trans ((if_neg htu).trans hd)

theorem perform_type (command : Command) (hd : s.graph.type? t = some d) :
    (s.perform command).1.graph.type? t = none ∨ s.Keeps command t d (s.perform command).1 := by
  by_cases hworks : command.worksOnFacets = true
  · cases command with
    | setEnclosing type enclosing => exact .inr (keeps_setEnclosing hd type enclosing)
    | addGenericParam reg type name => exact .inr (keeps_addGenericParam hd reg type name)
    | _ => cases hworks
  · have hkeeps := s.keepsFacets_perform (Bool.eq_false_iff.mpr hworks)
    have hlt := Graph.index_lt_of_alive (Graph.isAlive_iff.mpr ⟨d, hd⟩)
    exact (hkeeps.facet t hlt).imp_right (keeps_of_facet hd)

/-- A step leaves everything of a type that its identity is made of, but for what the two
commands do that work on it, or the type is gone. -/
theorem step_type (command : Command) (hd : s.graph.type? t = some d) :
    (s.step command).1.graph.type? t = none ∨ s.Keeps command t d (s.step command).1 := by
  rcases (releases_settle (s.perform command).1).2 t with hsame | ⟨hgone, -⟩
  · rcases perform_type command hd with hdead | ⟨d', hd', halters⟩
    · exact .inl (hsame.trans hdead)
    · exact .inr ⟨d', hsame.trans hd', halters⟩
  · exact .inl hgone

/-- A type that is gone stays gone. -/
theorem step_dead (command : Command) (ht : t.index < s.graph.types.size)
    (dead : s.graph.type? t = none) : (s.step command).1.graph.type? t = none :=
  (step_moves s command).continues.1.dead ht dead

/-! ### Chains -/

/-- A chain that is not disturbed still leads through living types with their links. -/
theorem keeps_of_onChain {commands : List Command} (hs : s = empty.run commands)
    (still : ¬ s.Disturbs command t) {u : TypeId} {d : TypeDecl} (hu : s.graph.OnChain t u)
    (hd : s.graph.type? u = some d) : s.Keeps command u d (s.step command).1 := by
  rcases step_type command hd with hgone | hkeeps
  · refine absurd (.releases hu (u := u) ?_ fun howned => ?_) still
    · rw [hs] at hu ⊢
      exact (isAlive_iff_owned commands u).mp hu.alive
    · have halive := isAlive_of_step hs (mem_ownedTypes_iff.mp howned)
      rw [Graph.isAlive, hgone] at halive
      cases halive
  · exact hkeeps

/-- What is read along a chain that is not disturbed is what was read there before, if it is
what a member keeps. -/
theorem chain_map_step {α : Type} {f : TypeDecl → α} {commands : List Command}
    (hs : s = empty.run commands) (still : ¬ s.Disturbs command t)
    (kept : ∀ u d d', s.graph.OnChain t u → s.graph.type? u = some d →
      s.Alters command u d d' → d'.enclosing? = d.enclosing? → f d' = f d)
    (alive : s.graph.isAlive t) (n : Nat) :
    ((s.step command).1.graph.chain n (some t)).map f = (s.graph.chain n (some t)).map f := by
  refine Graph.chain_map_of_onChain (fun u d hu hd => ?_) (fun u d e _ hd he hdead => ?_) n
    (.self alive)
  · obtain ⟨d', hd', halters⟩ := keeps_of_onChain hs still hu hd
    have hlink : d'.enclosing? = d.enclosing? :=
      halters.enclosing?.resolve_right fun hnests => still (.nests hu hnests)
    exact ⟨d', hd', kept u d d' hu hd halters hlink, hlink⟩
  · have hgrounded := (sound_of_run commands).2
    rw [← hs] at hgrounded
    exact step_dead command (hgrounded u d e hd he) hdead

/-! ### Names, hashes and identity -/

end Session

/-- A type lives on, and the names along its chain are the same in both graphs. So are its full
name and its hash, which are read off them, unless the chain leads in a circle: the walk along
it has then no end in either graph. -/
structure Graph.SameNames (g g' : Graph) (t : TypeId) : Prop where
  alive : g'.isAlive t
  walk : ∀ n, g'.namesAlong n (some t) = g.namesAlong n (some t)
  ends : g'.Ends (some t) ↔ g.Ends (some t)
  fullName : g.Ends (some t) → g'.fullName t = g.fullName t
  hash : g.Ends (some t) → ∀ hashName,
    g'.identityHash hashName (some t) = g.identityHash hashName (some t)

theorem Graph.SameNames.of_walk {g g' : Graph} {t : TypeId} (alive : g'.isAlive t)
    (walk : ∀ n, g'.namesAlong n (some t) = g.namesAlong n (some t)) : g.SameNames g' t where
  alive := alive
  walk := walk
  ends := ends_iff_of_namesAlong walk
  fullName ends := fullName_eq_of_namesAlong ends walk
  hash ends := identityHash_eq_of_namesAlong ends walk

namespace Session

section

variable {commands : List Command} {s : Session} {command : Command} {t u : TypeId}

theorem sameNames_step (hs : s = empty.run commands) (alive : s.graph.isAlive t)
    (still : ¬ s.Disturbs command t) : s.graph.SameNames (s.step command).1.graph t := by
  obtain ⟨d, hd⟩ := Graph.isAlive_iff.mp alive
  obtain ⟨d', hd', -⟩ := keeps_of_onChain hs still (.self alive) hd
  refine .of_walk (Graph.isAlive_iff.mpr ⟨d', hd'⟩) (chain_map_step hs still ?_ alive)
  intro u d d' _ _ halters _
  rw [halters.name, halters.namespaceName]

theorem chainShapes_step (hs : s = empty.run commands) (alive : s.graph.isAlive t)
    (still : ¬ s.Disturbs command t) (narrow : ¬ s.WidensChain command t) (n : Nat) :
    (s.step command).1.graph.chainShapes n (some t) = s.graph.chainShapes n (some t) := by
  refine chain_map_step hs still (fun u d d' hu _ halters hlink => ?_) alive n
  have harity : d'.arity = d.arity :=
    halters.arity.resolve_right fun hwidens => narrow ⟨u, hu, hwidens⟩
  simp only [TypeDecl.identityShape, TypeDecl.isNested, hlink, halters.name,
    halters.namespaceName, harity]

theorem sameIdentity_step (hs : s = empty.run commands) (alive : s.graph.isAlive t)
    (alive' : s.graph.isAlive u) (still : ¬ s.Disturbs command t) (still' : ¬ s.Disturbs command u)
    (narrow : ¬ s.WidensChain command t) (narrow' : ¬ s.WidensChain command u) :
    (s.step command).1.graph.sameIdentity (some t) (some u) =
      s.graph.sameIdentity (some t) (some u) :=
  Graph.sameIdentity_eq_of_chainShapes (chainShapes_step hs alive still narrow)
    (chainShapes_step hs alive' still' narrow')

/-- A command that takes no handle away releases nothing. -/
theorem mem_ownedTypes_step (hs : s = empty.run commands) (free : s.TakesNoHandle command)
    (owned : t ∈ s.ownedTypes) : t ∈ (s.step command).1.ownedTypes := by
  have hsettled : s.Settled := by
    rw [hs]
    exact settled_run commands
  have hrecorded : s.Recorded := by
    rw [hs]
    exact recorded_run commands
  have hkeeps := (keepsOwners_perform hsettled hrecorded free).settle hsettled hrecorded
  exact hkeeps.mem_ownedTypes hrecorded owned

theorem not_disturbs_of_free (hs : s = empty.run commands) (quiet : command.worksOnFacets = false)
    (free : s.TakesNoHandle command) : ¬ s.Disturbs command t := by
  rintro (⟨-, type, enclosing, e, d, rfl, -⟩ | ⟨-, howned, hunowned⟩)
  · cases quiet
  · exact hunowned (mem_ownedTypes_step hs free howned)

theorem not_widensChain (quiet : command.worksOnFacets = false) : ¬ s.WidensChain command t := by
  rintro ⟨u, -, reg, type, name, r, rfl, -⟩
  cases quiet

end

/-- Identity is stable. Whatever the command, full name and hash of a living type stay as they
are, unless the command nests the outermost type of its chain or takes the last owner of a type
on it away. Whether two living types are the same stays as it is, unless the command does that
to one of their chains or gives a type on them a generic parameter. So a command of another
kind that takes no handle away changes none of this for any type. -/
theorem identity_of_step (commands : List Command) (command : Command) :
    let s := empty.run commands
    let s' := (s.step command).1
    (∀ t, s.graph.isAlive t → s.graph.SameNames s'.graph t ∨ s.Disturbs command t) ∧
    (∀ t u, s.graph.isAlive t → s.graph.isAlive u →
      s'.graph.sameIdentity (some t) (some u) = s.graph.sameIdentity (some t) (some u) ∨
        s.Disturbs command t ∨ s.Disturbs command u ∨
        s.WidensChain command t ∨ s.WidensChain command u) ∧
    (command.worksOnFacets = false → s.TakesNoHandle command →
      ∀ t, s.graph.isAlive t → s.graph.SameNames s'.graph t ∧
        ∀ u, s.graph.isAlive u →
          s'.graph.sameIdentity (some t) (some u) = s.graph.sameIdentity (some t) (some u)) := by
  intro s s'
  refine ⟨fun t ht => ?_, fun t u ht hu => ?_, fun quiet free t ht => ?_⟩
  · by_cases hstill : s.Disturbs command t
    · exact .inr hstill
    · exact .inl (sameNames_step rfl ht hstill)
  · by_cases hchange : s.Disturbs command t ∨ s.Disturbs command u ∨
        s.WidensChain command t ∨ s.WidensChain command u
    · exact .inr hchange
    · obtain ⟨hstill, hstill', hnarrow, hnarrow'⟩ : _ ∧ _ ∧ _ ∧ _ := by
        simpa only [not_or] using hchange
      exact .inl (sameIdentity_step rfl ht hu hstill hstill' hnarrow hnarrow')
  · have hstill : ∀ u, ¬ s.Disturbs command u := fun _ => not_disturbs_of_free rfl quiet free
    refine ⟨sameNames_step rfl ht (hstill t), fun u hu => ?_⟩
    exact sameIdentity_step rfl ht hu (hstill t) (hstill u) (not_widensChain quiet)
      (not_widensChain quiet)

end Session

end AssemblyGraph
