/-!
Steps that can fail, one after the other.
-/

namespace AssemblyGraph

theorem bind_eq_ok_iff {ε α β : Type} {first : Except ε α} {next : α → Except ε β} {b : β} :
    first >>= next = .ok b ↔ ∃ a, first = .ok a ∧ next a = .ok b := by
  constructor
  · intro h
    cases first with
    | error cause => cases h
    | ok a => exact ⟨a, rfl, h⟩
  · rintro ⟨a, rfl, h⟩
    exact h

theorem bind_eq_error_iff {ε α β : Type} {first : Except ε α} {next : α → Except ε β} {cause : ε} :
    first >>= next = .error cause ↔
      first = .error cause ∨ ∃ a, first = .ok a ∧ next a = .error cause := by
  cases first with
  | error cause' =>
      constructor
      · intro h
        cases h
        exact .inl rfl
      · rintro (h | ⟨a, ha, -⟩)
        · cases h
          rfl
        · cases ha
  | ok a =>
      constructor
      · intro h
        exact .inr ⟨a, rfl, h⟩
      · rintro (h | ⟨a', ha, h⟩)
        · cases h
        · cases ha
          exact h

theorem mapError_eq_ok_iff {ε ε' α : Type} {f : ε → ε'} {result : Except ε α} {a : α} :
    result.mapError f = .ok a ↔ result = .ok a := by
  constructor
  · intro h
    cases result with
    | error cause => cases h
    | ok b =>
        cases h
        rfl
  · rintro rfl
    rfl

theorem map_eq_ok_iff {ε α β : Type} {f : α → β} {result : Except ε α} {b : β} :
    result.map f = .ok b ↔ ∃ a, result = .ok a ∧ f a = b := by
  cases result with
  | error cause => simp [Except.map]
  | ok a => simp [Except.map]

theorem map_eq_error_iff {ε α β : Type} {f : α → β} {result : Except ε α} {cause : ε} :
    result.map f = .error cause ↔ result = .error cause := by
  constructor
  · intro h
    cases result with
    | error cause' =>
        cases h
        rfl
    | ok a => cases h
  · rintro rfl
    rfl

theorem discard_eq_ok_iff {ε α : Type} {result : Except ε α} :
    discard result = .ok () ↔ ∃ a, result = .ok a := by
  constructor
  · intro h
    cases result with
    | error cause => cases h
    | ok a => exact ⟨a, rfl⟩
  · rintro ⟨a, rfl⟩
    rfl

theorem discard_eq_error_iff {ε α : Type} {result : Except ε α} {cause : ε} :
    discard result = .error cause ↔ result = .error cause :=
  map_eq_error_iff (f := fun _ => PUnit.unit)

theorem toBool_eq_true_iff {ε α : Type} {result : Except ε α} :
    result.toBool = true ↔ ∃ a, result = .ok a := by
  cases result <;> simp [Except.toBool]

theorem toBool_eq_false_iff {ε α : Type} {result : Except ε α} :
    result.toBool = false ↔ ∃ cause, result = .error cause := by
  cases result <;> simp [Except.toBool]

theorem toOption_eq_some_iff {ε α : Type} {result : Except ε α} {a : α} :
    result.toOption = some a ↔ result = .ok a := by
  cases result <;> simp [Except.toOption]

/-! ### A pass over a list that stops at the first failure -/

section Pass

variable {ε α : Type} {step : α → Except ε Unit} {xs : List α}

theorem forM_cons_eq (step : α → Except ε Unit) (x : α) (xs : List α) :
    (x :: xs).forM step = step x >>= fun _ => xs.forM step :=
  rfl

theorem forM_eq_ok_iff : xs.forM step = .ok () ↔ ∀ x ∈ xs, step x = .ok () := by
  induction xs with
  | nil =>
      constructor
      · intro _ x hx
        cases hx
      · intro _
        rfl
  | cons x xs ih =>
      rw [forM_cons_eq, bind_eq_ok_iff, List.forall_mem_cons, ← ih]
      constructor
      · rintro ⟨⟨⟩, hx, hxs⟩
        exact ⟨hx, hxs⟩
      · rintro ⟨hx, hxs⟩
        exact ⟨(), hx, hxs⟩

/-- A pass fails as the first element does that fails at all. -/
theorem forM_eq_error_iff {cause : ε} :
    xs.forM step = .error cause ↔ ∃ before x after, xs = before ++ x :: after ∧
      (∀ y ∈ before, step y = .ok ()) ∧ step x = .error cause := by
  induction xs with
  | nil =>
      constructor
      · intro h
        cases h
      · rintro ⟨before, x, after, hsplit, -⟩
        simp at hsplit
  | cons y ys ih =>
      rw [forM_cons_eq, bind_eq_error_iff, ih]
      constructor
      · rintro (hy | ⟨⟨⟩, hy, before, x, after, rfl, hbefore, hx⟩)
        · exact ⟨[], y, ys, rfl, by simp, hy⟩
        · exact ⟨y :: before, x, after, rfl, List.forall_mem_cons.mpr ⟨hy, hbefore⟩, hx⟩
      · rintro ⟨before, x, after, hsplit, hbefore, hx⟩
        cases before with
        | nil =>
            obtain ⟨rfl, rfl⟩ := List.cons.inj hsplit
            exact .inl hx
        | cons z before =>
            obtain ⟨rfl, rfl⟩ := List.cons.inj hsplit
            obtain ⟨hy, hbefore⟩ := List.forall_mem_cons.mp hbefore
            exact .inr ⟨(), hy, before, x, after, rfl, hbefore, hx⟩

/-- A pass over some of the elements fails like the whole pass, if the element at which that
one stops is among them. -/
theorem forM_filter_eq_error {before after : List α} {x : α} {cause : ε}
    (hbefore : ∀ y ∈ before, step y = .ok ()) (hx : step x = .error cause) {p : α → Bool}
    (hp : p x = true) : ((before ++ x :: after).filter p).forM step = .error cause := by
  refine forM_eq_error_iff.mpr ⟨before.filter p, x, after.filter p, ?_, fun y hy => ?_, hx⟩
  · rw [List.filter_append, List.filter_cons_of_pos hp]
  · exact hbefore y ((List.mem_filter.mp hy).1)

end Pass

/-- If it depends on the element alone whether a step fails and with what, a pass fails as the
checks of its elements do. -/
theorem discard_foldlM {ε α β : Type} {step : β → α → Except ε β} {check : α → Except ε Unit}
    (h : ∀ b x, discard (step b x) = check x) (xs : List α) (b : β) :
    discard (xs.foldlM step b) = xs.forM check := by
  induction xs generalizing b with
  | nil => rfl
  | cons x xs ih =>
      rw [List.foldlM_cons, forM_cons_eq, ← h b x]
      cases step b x with
      | error cause => rfl
      | ok b' => exact ih b'

/-- What every step of a pass keeps, told from the elements that are done with, holds at its end. -/
theorem foldlM_induction {ε α β : Type} {step : β → α → Except ε β} {P : List α → β → Prop}
    (next : ∀ done b x b', P done b → step b x = .ok b' → P (done ++ [x]) b') {done xs : List α}
    {first last : β} (start : P done first) (h : xs.foldlM step first = .ok last) :
    P (done ++ xs) last := by
  induction xs generalizing done first with
  | nil =>
      cases h
      rw [List.append_nil]
      exact start
  | cons x xs ih =>
      rw [List.foldlM_cons, bind_eq_ok_iff] at h
      obtain ⟨b, hb, hrest⟩ := h
      rw [List.append_cons]
      exact ih (next done first x b start hb) hrest

end AssemblyGraph
