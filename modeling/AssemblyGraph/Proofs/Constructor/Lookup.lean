import AssemblyGraph.Constructor.Lookup

/-!
The search for a constructor.

A scan that has used up its candidates holds the first of those that were
admitted and their number, so its outcome depends on the list of them only. From
there the search is read both ways: what each outcome says about the candidates,
and what the candidates have to be like for an outcome.
-/

namespace AssemblyGraph

variable {α : Type}

/-! ### What a scan has seen -/

namespace ConstructorScan

/-- The scan that has admitted these candidates, in this order. -/
def ofAdmitted (seen : List α) : ConstructorScan α :=
  ⟨seen.head?, seen.length⟩

theorem visit_ofAdmitted (admitted : α → Bool) (seen : List α) (candidate : α) :
    visit admitted (ofAdmitted seen) candidate =
      ofAdmitted (seen ++ [candidate].filter admitted) := by
  cases h : admitted candidate with
  | false => simp [visit, h]
  | true => simp [visit, h, ofAdmitted, List.head?_append]

/-- A scan keeps the order in which it admits candidates. -/
theorem foldl_visit_ofAdmitted (admitted : α → Bool) (seen candidates : List α) :
    candidates.foldl (visit admitted) (ofAdmitted seen) =
      ofAdmitted (seen ++ candidates.filter admitted) := by
  induction candidates generalizing seen with
  | nil => simp
  | cons candidate rest ih =>
      rw [List.foldl_cons, visit_ofAdmitted, ih, List.append_assoc, ← List.filter_append,
        List.singleton_append]

variable {seen : List α} {candidate : α} {count : Nat}

theorem outcome_eq_unique_iff :
    (ofAdmitted seen).outcome = .unique candidate ↔ seen = [candidate] := by
  rcases seen with _ | ⟨first, _ | ⟨second, rest⟩⟩ <;> simp [ofAdmitted, outcome]

theorem outcome_eq_notFound_iff : (ofAdmitted seen).outcome = .notFound ↔ seen = [] := by
  rcases seen with _ | ⟨first, _ | ⟨second, rest⟩⟩ <;> simp [ofAdmitted, outcome]

theorem outcome_eq_ambiguous_iff :
    (ofAdmitted seen).outcome = .ambiguous count ↔ 2 ≤ count ∧ seen.length = count := by
  rcases seen with _ | ⟨first, _ | ⟨second, rest⟩⟩ <;>
    simp [ofAdmitted, outcome] <;> omega

end ConstructorScan

/-! ### What an outcome says about the candidates -/

namespace ConstructorShape

variable {shape : ConstructorShape} {methodOf : α → Method} {candidates others : List α}
variable {candidate : α} {count : Nat}

/-- How many of the candidates are constructors of the shape. -/
def admittedCount (shape : ConstructorShape) (methodOf : α → Method) (candidates : List α) : Nat :=
  candidates.countP fun candidate => shape.admits (methodOf candidate)

theorem find_eq (shape : ConstructorShape) (methodOf : α → Method) (candidates : List α) :
    shape.find methodOf candidates =
      (ConstructorScan.ofAdmitted
        (candidates.filter fun candidate => shape.admits (methodOf candidate))).outcome := by
  rw [find, ← List.nil_append (candidates.filter _),
    ← ConstructorScan.foldl_visit_ofAdmitted _ [] candidates]
  rfl

theorem find_eq_unique_iff_filter :
    shape.find methodOf candidates = .unique candidate ↔
      candidates.filter (fun candidate => shape.admits (methodOf candidate)) = [candidate] := by
  rw [find_eq, ConstructorScan.outcome_eq_unique_iff]

/-- The one that is found stands at one place of the list, and it alone is admitted. -/
theorem find_eq_unique_iff :
    shape.find methodOf candidates = .unique candidate ↔
      ∃ before after, candidates = before ++ candidate :: after ∧
        shape.admits (methodOf candidate) = true ∧
        ∀ other ∈ before ++ after, shape.admits (methodOf other) = false := by
  rw [find_eq_unique_iff_filter, List.filter_eq_cons_iff]
  simp only [List.filter_eq_nil_iff, List.forall_mem_append, Bool.not_eq_true]
  constructor
  · rintro ⟨before, after, hsplit, hbefore, hadmits, hafter⟩
    exact ⟨before, after, hsplit, hadmits, hbefore, hafter⟩
  · rintro ⟨before, after, hsplit, hadmits, hbefore, hafter⟩
    exact ⟨before, after, hsplit, hbefore, hadmits, hafter⟩

theorem find_eq_notFound_iff :
    shape.find methodOf candidates = .notFound ↔
      ∀ candidate ∈ candidates, shape.admits (methodOf candidate) = false := by
  rw [find_eq, ConstructorScan.outcome_eq_notFound_iff, List.filter_eq_nil_iff]
  simp only [Bool.not_eq_true]

theorem find_eq_ambiguous_iff :
    shape.find methodOf candidates = .ambiguous count ↔
      2 ≤ count ∧ shape.admittedCount methodOf candidates = count := by
  rw [find_eq, ConstructorScan.outcome_eq_ambiguous_iff, admittedCount,
    List.countP_eq_length_filter]

theorem mem_of_find {m : α} (h : shape.find methodOf candidates = .unique m) :
    m ∈ candidates ∧ shape.admits (methodOf m) = true := by
  obtain ⟨before, after, rfl, hadmits, -⟩ := find_eq_unique_iff.mp h
  exact ⟨List.mem_append_right before (List.mem_cons_self ..), hadmits⟩

theorem admittedCount_eq_zero_iff :
    shape.admittedCount methodOf candidates = 0 ↔ shape.find methodOf candidates = .notFound := by
  rw [find_eq_notFound_iff, admittedCount, List.countP_eq_zero]
  simp only [Bool.not_eq_true]

theorem admittedCount_eq_one_iff :
    shape.admittedCount methodOf candidates = 1 ↔
      ∃ m, shape.find methodOf candidates = .unique m := by
  simp only [find_eq_unique_iff_filter, admittedCount, List.countP_eq_length_filter,
    List.length_eq_one_iff]

theorem fails_iff :
    (shape.find methodOf candidates = .notFound ∨
        ∃ n, shape.find methodOf candidates = .ambiguous n) ↔
      shape.admittedCount methodOf candidates ≠ 1 := by
  rw [Ne, admittedCount_eq_one_iff]
  cases shape.find methodOf candidates <;> simp

theorem toExcept_find_eq_ok_iff {typeName : String} {reported : ConstructorShape} :
    (shape.find methodOf candidates).toExcept typeName reported = .ok candidate ↔
      shape.find methodOf candidates = .unique candidate := by
  cases shape.find methodOf candidates <;> simp [ConstructorLookup.toExcept]

/-- A mismatch reports how many constructors of the shape there are. -/
theorem toExcept_find_eq_error_iff {typeName : String} {reported : ConstructorShape}
    {cause : Error} :
    (shape.find methodOf candidates).toExcept typeName reported = .error cause ↔
      (shape.find methodOf candidates = .notFound ∨
        ∃ n, shape.find methodOf candidates = .ambiguous n) ∧
      cause = .constructorMismatch typeName reported
        (shape.admittedCount methodOf candidates) := by
  cases hfind : shape.find methodOf candidates with
  | unique m => simp [ConstructorLookup.toExcept]
  | notFound =>
      have hzero := admittedCount_eq_zero_iff.mpr hfind
      simp [ConstructorLookup.toExcept, hzero, eq_comm]
  | ambiguous count =>
      obtain ⟨-, hcount⟩ := find_eq_ambiguous_iff.mp hfind
      simp [ConstructorLookup.toExcept, hcount, eq_comm]

/-! ### The order of the candidates -/

theorem admittedCount_perm (h : candidates.Perm others) :
    shape.admittedCount methodOf candidates = shape.admittedCount methodOf others :=
  h.countP_eq _

/-- Not even the constructor that is found depends on the order. -/
theorem find_perm (h : candidates.Perm others) :
    shape.find methodOf candidates = shape.find methodOf others := by
  have hfilter := h.filter fun candidate => shape.admits (methodOf candidate)
  cases hfind : shape.find methodOf candidates with
  | unique m =>
      rw [find_eq_unique_iff_filter.mp hfind] at hfilter
      exact (find_eq_unique_iff_filter.mpr hfilter.symm.eq_singleton).symm
  | notFound =>
      rw [find_eq_notFound_iff] at hfind
      exact (find_eq_notFound_iff.mpr fun m hm => hfind m (h.mem_iff.mpr hm)).symm
  | ambiguous count =>
      rw [find_eq_ambiguous_iff, admittedCount_perm h] at hfind
      exact (find_eq_ambiguous_iff.mpr hfind).symm

/-! ### The shapes with one parameter -/

/-- A list with one parameter holds an array or does not. -/
theorem fits_oneArg (params : List Parameter) :
    oneArg.fits params = (oneScalarArg.fits params ^^ oneArrayArg.fits params) := by
  rcases params with _ | ⟨param, _ | ⟨second, rest⟩⟩
  · rfl
  · simp [fits]
  · rfl

theorem fits_oneScalarArg_and_oneArrayArg (params : List Parameter) :
    (oneScalarArg.fits params && oneArrayArg.fits params) = false := by
  rcases params with _ | ⟨param, _ | ⟨second, rest⟩⟩
  · rfl
  · simp [fits]
  · rfl

theorem admits_oneArg (m : Method) :
    oneArg.admits m = (oneScalarArg.admits m ^^ oneArrayArg.admits m) := by
  rw [admits, admits, admits, fits_oneArg, Bool.and_xor_distrib_left]

/-- No method is a constructor of both kinds. -/
theorem admits_oneScalarArg_and_oneArrayArg (m : Method) :
    (oneScalarArg.admits m && oneArrayArg.admits m) = false := by
  have hfits := fits_oneScalarArg_and_oneArrayArg m.signature.params
  rw [admits, admits]
  cases m.isConstructor && !m.isStatic with
  | false => rfl
  | true => simpa using hfits

theorem admittedCount_oneArg (methodOf : α → Method) (candidates : List α) :
    oneArg.admittedCount methodOf candidates =
      oneScalarArg.admittedCount methodOf candidates +
        oneArrayArg.admittedCount methodOf candidates := by
  simp only [admittedCount]
  induction candidates with
  | nil => rfl
  | cons candidate rest ih =>
      have hsum := admits_oneArg (methodOf candidate)
      have hdisjoint := admits_oneScalarArg_and_oneArrayArg (methodOf candidate)
      simp only [List.countP_cons, ih, hsum]
      cases hscalar : oneScalarArg.admits (methodOf candidate) with
      | false => simp [Nat.add_assoc]
      | true =>
          have harray : oneArrayArg.admits (methodOf candidate) = false := by
            simpa [hscalar] using hdisjoint
          simp [harray, Nat.add_right_comm]

theorem find_eq_unique_iff_count :
    shape.find methodOf candidates = .unique candidate ↔
      candidate ∈ candidates ∧ shape.admits (methodOf candidate) = true ∧
        shape.admittedCount methodOf candidates = 1 := by
  constructor
  · intro h
    obtain ⟨hmem, hadmits⟩ := mem_of_find h
    exact ⟨hmem, hadmits, admittedCount_eq_one_iff.mpr ⟨candidate, h⟩⟩
  · rintro ⟨hmem, hadmits, hcount⟩
    obtain ⟨m, hm⟩ := admittedCount_eq_one_iff.mp hcount
    have hfilter : candidate ∈ candidates.filter fun c => shape.admits (methodOf c) :=
      List.mem_filter.mpr ⟨hmem, hadmits⟩
    rw [find_eq_unique_iff_filter.mp hm, List.mem_singleton] at hfilter
    rw [hm, hfilter]

theorem one_le_admittedCount (hmem : candidate ∈ candidates)
    (hadmits : shape.admits (methodOf candidate) = true) :
    1 ≤ shape.admittedCount methodOf candidates :=
  List.countP_pos_iff.mpr ⟨candidate, hmem, hadmits⟩

theorem find_oneArg_eq_unique_iff :
    oneArg.find methodOf candidates = .unique candidate ↔
      (oneScalarArg.find methodOf candidates = .unique candidate ∧
        oneArrayArg.find methodOf candidates = .notFound) ∨
      (oneScalarArg.find methodOf candidates = .notFound ∧
        oneArrayArg.find methodOf candidates = .unique candidate) := by
  have hsum := admittedCount_oneArg methodOf candidates
  have hadmits := admits_oneArg (methodOf candidate)
  simp only [find_eq_unique_iff_count, ← admittedCount_eq_zero_iff]
  constructor
  · rintro ⟨hmem, hone, hcount⟩
    cases hscalar : oneScalarArg.admits (methodOf candidate) with
    | true =>
        have hpos := one_le_admittedCount hmem hscalar
        exact .inl ⟨⟨hmem, rfl, by omega⟩, by omega⟩
    | false =>
        have harray : oneArrayArg.admits (methodOf candidate) = true := by
          simpa [hscalar, hone] using hadmits.symm
        have hpos := one_le_admittedCount hmem harray
        exact .inr ⟨by omega, hmem, harray, by omega⟩
  · have hdisjoint := admits_oneScalarArg_and_oneArrayArg (methodOf candidate)
    rintro (⟨⟨hmem, hscalar, hcount⟩, hzero⟩ | ⟨hzero, hmem, harray, hcount⟩)
    · have harray : oneArrayArg.admits (methodOf candidate) = false := by
        simpa [hscalar] using hdisjoint
      exact ⟨hmem, by rw [hadmits, hscalar, harray]; rfl, by omega⟩
    · have hscalar : oneScalarArg.admits (methodOf candidate) = false := by
        simpa [harray] using hdisjoint
      exact ⟨hmem, by rw [hadmits, hscalar, harray]; rfl, by omega⟩

end ConstructorShape

end AssemblyGraph
