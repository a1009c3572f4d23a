import AssemblyGraph.Proofs.Graph.FullName
import AssemblyGraph.Proofs.Registry.Keyed
import Mathlib.Algebra.BigOperators.Group.Finset.Basic
import Mathlib.Algebra.Ring.Nat
import Mathlib.Data.List.Nodup

/-!
What a registry has taken in.

A registration says which type a registry has taken in, under which token and
under which full name. The two indices of a registry only restate the list of
its registrations: the token index finds the one that has a token, and the name
index lists those that have a full name, in their order. What an operation does
to a registry is then said by the registrations that it adds, which are one or
none.
-/

namespace AssemblyGraph

/-- The entry of a type in a registry, with the full name that the type had when it was
entered. -/
structure Registration where
  type : TypeId
  token : Token
  fullName : String

/-- The entry of a type that is registered at this moment. -/
def Graph.registration? (g : Graph) (t : TypeId) : Option Registration :=
  (g.type? t).map fun d => ⟨t, d.token, g.fullName t⟩

/-- The registration that an attempt to create a type has made, if it has succeeded. -/
def Creation.registered (c : Creation) : List Registration :=
  match c.result with
  | .ok t => (c.graph.registration? t).toList
  | .error _ => []

namespace Registry

/-- The tokens that are listed under a full name. -/
def bucket (r : Registry) (fullName : String) : List Token :=
  r.byFullName.getD fullName []

theorem bucket_enter (r : Registry) (token : Token) (fullName : String) (t : TypeId)
    (n : String) : (r.enter token fullName t).bucket n =
      if fullName = n then r.bucket n ++ [token] else r.bucket n := by
  rw [bucket, enter, Std.TreeMap.getD_insert]
  by_cases h : fullName = n
  · subst h
    simp [bucket]
  · simp [bucket, h]

/-- The indices of a registry restate the registrations that it has taken in. -/
structure Records (r : Registry) (log : List Registration) : Prop where
  types : ∀ token, r.types[token]? = (log.find? (·.token = token)).map (·.type)
  distinct : (log.map (·.token)).Nodup
  named : ∀ n, r.bucket n = (log.filter (·.fullName = n)).map (·.token)

namespace Records

variable {r r' : Registry} {log : List Registration}

theorem find?_eq_some_iff (h : r.Records log) {token : Token} {x : Registration} :
    log.find? (·.token = token) = some x ↔ x ∈ log ∧ x.token = token := by
  constructor
  · intro hfind
    exact ⟨List.mem_of_find?_eq_some hfind, by simpa using List.find?_some hfind⟩
  · rintro ⟨hx, rfl⟩
    cases hfind : log.find? (·.token = x.token) with
    | none => simpa using List.find?_eq_none.mp hfind x hx
    | some y =>
        have hy : y.token = x.token := by simpa using List.find?_some hfind
        rw [List.inj_on_of_nodup_map h.distinct (List.mem_of_find?_eq_some hfind) hx hy]

theorem get?_eq_some_iff (h : r.Records log) {token : Token} {t : TypeId} :
    r.get? token = some t ↔ ∃ x ∈ log, x.token = token ∧ x.type = t := by
  rw [get?, h.types, Option.map_eq_some_iff]
  simp only [h.find?_eq_some_iff, and_assoc]

theorem get?_of_mem (h : r.Records log) {x : Registration} (hx : x ∈ log) :
    r.get? x.token = some x.type :=
  h.get?_eq_some_iff.mpr ⟨x, hx, rfl, rfl⟩

theorem contains_iff (h : r.Records log) {token : Token} :
    r.types.contains token ↔ token ∈ log.map (·.token) := by
  rw [Std.TreeMap.contains_eq_isSome_getElem?, Option.isSome_iff_exists, List.mem_map]
  constructor
  · rintro ⟨t, ht⟩
    obtain ⟨x, hx, htoken, -⟩ := h.get?_eq_some_iff.mp ht
    exact ⟨x, hx, htoken⟩
  · rintro ⟨x, hx, rfl⟩
    exact ⟨x.type, h.get?_of_mem hx⟩

theorem congr (h : r.Records log) (types : r'.types = r.types)
    (byFullName : r'.byFullName = r.byFullName) : r'.Records log := by
  refine ⟨fun token => ?_, h.distinct, fun n => ?_⟩
  · rw [types]
    exact h.types token
  · rw [bucket, byFullName]
    exact h.named n

/-- A type that is entered under a free token is recorded last. -/
theorem enter (h : r.Records log) {x : Registration} (free : ¬ r.types.contains x.token) :
    (r.enter x.token x.fullName x.type).Records (log ++ [x]) := by
  have hnew : x.token ∉ log.map (·.token) := fun hx => free (h.contains_iff.mpr hx)
  refine ⟨fun token => ?_, ?_, fun n => ?_⟩
  · rw [Registry.enter, OrderedMap.getElem?_insert, List.find?_append, h.types]
    by_cases htoken : x.token = token
    · subst htoken
      have hnone : log.find? (·.token = x.token) = none := by
        refine List.find?_eq_none.mpr fun y hy hxy => hnew ?_
        exact List.mem_map.mpr ⟨y, hy, by simpa using hxy⟩
      simp [hnone]
    · simp [htoken]
  · rw [List.map_append, List.nodup_append]
    refine ⟨h.distinct, List.nodup_singleton _, fun token htoken token' htoken' => ?_⟩
    obtain rfl : token' = x.token := List.mem_singleton.mp htoken'
    exact fun heq => hnew (heq ▸ htoken)
  · rw [bucket_enter, List.filter_append, List.map_append, ← h.named]
    by_cases hname : x.fullName = n
    · simp [hname]
    · simp [hname]

/-! ### What the records say of the two indices -/

/-- The token index lists the registrations in another order. -/
theorem toList_perm (h : r.Records log) :
    r.types.toList.Perm (log.map fun x => (x.token, x.type)) := by
  have hkeys : (log.map fun x => (x.token, x.type)).Nodup := by
    refine List.Nodup.of_map Prod.fst ?_
    rw [List.map_map]
    exact h.distinct
  have hentries : r.types.toList.Nodup := by
    refine Std.TreeMap.distinct_keys_toList.imp fun {a b} hne heq => hne ?_
    rw [heq]
    exact Std.ReflCmp.compare_self
  refine (List.perm_ext_iff_of_nodup hentries hkeys).mpr fun entry => ?_
  obtain ⟨token, t⟩ := entry
  rw [Std.TreeMap.mem_toList_iff_getElem?_eq_some, List.mem_map]
  refine h.get?_eq_some_iff.trans (exists_congr fun x => and_congr_right fun _ => ?_)
  rw [Prod.mk.injEq]

theorem all_perm (h : r.Records log) : r.all.Perm (log.map (·.type)) := by
  rw [all, OrderedMap.values_eq_map_toList]
  have hperm := h.toList_perm.map Prod.snd
  rwa [List.map_map] at hperm

theorem size (h : r.Records log) : r.size = log.length := by
  rw [Registry.size, ← Std.TreeMap.length_toList, h.toList_perm.length_eq, List.length_map]

/-- The lists of the name index share the registrations out among themselves. -/
theorem total (h : r.Records log) :
    (r.byFullName.values.map List.length).sum = log.length := by
  let names := log.map (·.fullName)
  let keys := r.byFullName.toList.map Prod.fst
  have hbucket : ∀ entry ∈ r.byFullName.toList, entry.2.length = names.count entry.1 := by
    intro entry hentry
    have hsome := Std.TreeMap.mem_toList_iff_getElem?_eq_some.mp hentry
    have hnamed := h.named entry.1
    rw [bucket, Std.TreeMap.getD_eq_getD_getElem?, hsome, Option.getD_some] at hnamed
    rw [hnamed, List.length_map, ← List.countP_eq_length_filter, List.count, List.countP_map]
    exact List.countP_congr fun x _ => by simp
  have hkeys : keys.Nodup := by
    refine List.pairwise_map.mpr (Std.TreeMap.distinct_keys_toList.imp fun {a b} hne heq => hne ?_)
    rw [heq]
    exact Std.ReflCmp.compare_self
  -- a full name that nothing is listed under is not one of a registration
  have hcover : ∀ n ∈ (names : Multiset String), n ∈ keys.toFinset := by
    intro n hn
    obtain ⟨x, hx, rfl⟩ := List.mem_map.mp (Multiset.mem_coe.mp hn)
    have hmem : x.token ∈ r.bucket x.fullName := by
      rw [h.named]
      exact List.mem_map_of_mem (List.mem_filter.mpr ⟨hx, by simp⟩)
    rw [bucket, Std.TreeMap.getD_eq_getD_getElem?] at hmem
    cases hget : r.byFullName[x.fullName]? with
    | none =>
        rw [hget] at hmem
        cases hmem
    | some tokens =>
        exact List.mem_toFinset.mpr (List.mem_map.mpr
          ⟨_, Std.TreeMap.mem_toList_iff_getElem?_eq_some.mpr hget, rfl⟩)
  calc (r.byFullName.values.map List.length).sum
      = (keys.map names.count).sum := by
        rw [OrderedMap.values_eq_map_toList, List.map_map, List.map_map]
        exact congrArg List.sum (List.map_congr_left hbucket)
    _ = ∑ n ∈ keys.toFinset, (names : Multiset String).count n := by
        simp only [Multiset.coe_count]
        exact (List.sum_toFinset _ hkeys).symm
    _ = log.length := by
        rw [Multiset.sum_count_eq_card hcover, Multiset.coe_card, List.length_map]

/-- A registered type is listed once, under the full name that it had when it was entered, and
under no other one. -/
theorem count_bucket (h : r.Records log) {x : Registration} (hx : x ∈ log) (n : String) :
    (r.bucket n).count x.token = if x.fullName = n then 1 else 0 := by
  have hsublist := (List.filter_sublist (p := fun y => decide (y.fullName = n)) (l := log)).map
    (·.token)
  have hnodup := h.distinct.sublist hsublist
  rw [h.named]
  split
  · rename_i hname
    exact List.count_eq_one_of_mem hnodup
      (List.mem_map_of_mem (List.mem_filter.mpr ⟨hx, by simpa using hname⟩))
  · rename_i hname
    refine List.count_eq_zero.mpr fun hmem => hname ?_
    obtain ⟨y, hy, htoken⟩ := List.mem_map.mp hmem
    obtain ⟨hylog, hyname⟩ := List.mem_filter.mp hy
    rw [← List.inj_on_of_nodup_map h.distinct hylog hx htoken]
    simpa using hyname

theorem contains_of_mem_bucket (h : r.Records log) {n : String} {token : Token}
    (hmem : token ∈ r.bucket n) : r.types.contains token := by
  rw [h.named] at hmem
  exact h.contains_iff.mpr ((List.filter_sublist.map _).subset hmem)

theorem namedAll_eq (h : r.Records log) (n : String) :
    r.namedAll n = (log.filter (·.fullName = n)).map (·.type) := by
  have hget : ∀ x ∈ log.filter (·.fullName = n), r.get? x.token = some x.type :=
    fun x hx => h.get?_of_mem (List.mem_filter.mp hx).1
  rw [namedAll, ← bucket, h.named, List.filterMap_map]
  exact (List.filterMap_congr hget).trans (congrFun List.filterMap_eq_map' _)

/-- The first of several types with one full name is the one that was registered first. -/
theorem named?_eq (h : r.Records log) (n : String) :
    r.named? n = (log.find? (·.fullName = n)).map (·.type) := by
  have hhead : r.named? n = (r.namedAll n).head? := List.head?_filterMap.symm
  rw [hhead, h.namedAll_eq, List.head?_map, List.head?_filter]

theorem named?_eq_none_iff (h : r.Records log) {n : String} :
    r.named? n = none ↔ ∀ x ∈ log, x.fullName ≠ n := by
  rw [h.named?_eq, Option.map_eq_none_iff, List.find?_eq_none]
  simp only [decide_eq_true_eq, ne_eq]

theorem exists_named?_iff (h : r.Records log) {n : String} :
    (∃ t, r.named? n = some t) ↔ ∃ x ∈ log, x.fullName = n := by
  rw [← Option.isSome_iff_exists, ← Option.ne_none_iff_isSome, ne_eq, h.named?_eq_none_iff]
  simp only [ne_eq, not_forall, not_not, exists_prop]

theorem split_of_named? (h : r.Records log) {n : String} {t : TypeId} (ht : r.named? n = some t) :
    ∃ before x after, log = before ++ x :: after ∧ (∀ y ∈ before, y.fullName ≠ n) ∧
      x.fullName = n ∧ x.type = t := by
  rw [h.named?_eq, Option.map_eq_some_iff] at ht
  obtain ⟨x, hfind, htype⟩ := ht
  obtain ⟨hname, before, after, hsplit, hbefore⟩ := List.find?_eq_some_iff_append.mp hfind
  refine ⟨before, x, after, hsplit, fun y hy => ?_, by simpa using hname, htype⟩
  simpa using hbefore y hy

end Records

end Registry

end AssemblyGraph
