import Mathlib.Data.List.Basic

/-!
# Loops that an exception ends

`forEach` runs a body on the elements of a list, up to the first on which it raises, and
gives the state it reached and the exception.

If whether the body raises depends on the element alone, the loop ends normally exactly
if the body raises on no element (`forEach_ends_iff`). What the body keeps, a relation of
the elements so far to the state, holds of all elements where the loop ends normally
(`forEach_keeps`). A body that adds one thing for each element has added as many as the
elements it got to (`forEach_appends`), and one that appends each element to one list or
another sorts the elements, in their order (`foldlM_filterMap`).
-/

namespace Loop

variable {σ α ε : Type*} {body : σ → α → Except ε σ}

def forEach (body : σ → α → Except ε σ) : σ → List α → σ × Option ε
  | s, [] => (s, none)
  | s, a :: as =>
    match body s a with
    | .ok s' => forEach body s' as
    | .error err => (s, some err)

theorem forEach_cons_ok {s s' : σ} {a : α} (h : body s a = .ok s') (as : List α) :
    forEach body s (a :: as) = forEach body s' as := by
  simp [forEach, h]

theorem forEach_cons_error {s : σ} {a : α} {err : ε} (h : body s a = .error err)
    (as : List α) : forEach body s (a :: as) = (s, some err) := by
  simp [forEach, h]

theorem forEach_map {γ : Type*} (f : γ → α) : ∀ (as : List γ) (s : σ),
    forEach body s (as.map f) = forEach (fun s a => body s (f a)) s as
  | [], _ => rfl
  | a :: as, s => by
    cases hb : body s (f a) with
    | ok s' => simp [forEach, hb, forEach_map f as s']
    | error err => simp [forEach, hb]

theorem forEach_ends_iff {Quiet : α → Prop}
    (h : ∀ s a, (∃ s', body s a = .ok s') ↔ Quiet a) :
    ∀ (as : List α) (s : σ), (forEach body s as).2 = none ↔ ∀ a ∈ as, Quiet a
  | [], s => by simp [forEach]
  | a :: as, s => by
    cases hb : body s a with
    | ok s' =>
      have ha : Quiet a := (h s a).1 ⟨s', hb⟩
      simp [forEach_cons_ok hb, forEach_ends_iff h as s', ha]
    | error err =>
      have ha : ¬Quiet a := fun ha => by
        obtain ⟨s', hs'⟩ := (h s a).2 ha
        cases hb.symm.trans hs'
      simp [forEach_cons_error hb, ha]

theorem forEach_keeps {I : List α → σ → Prop}
    (h : ∀ done s a s', I done s → body s a = .ok s' → I (done ++ [a]) s') :
    ∀ {as done : List α} {s : σ}, I done s → (forEach body s as).2 = none →
      I (done ++ as) (forEach body s as).1
  | [], done, s, hI, _ => by simpa [forEach] using hI
  | a :: as, done, s, hI, hends => by
    cases hb : body s a with
    | ok s' =>
      rw [forEach_cons_ok hb] at hends ⊢
      simpa using forEach_keeps h (h done s a s' hI hb) hends
    | error err => simp [forEach_cons_error hb] at hends

/-- A body that adds one thing for each element it does not raise on : the loop adds those
of the elements up to the one that ends it. -/
theorem forEach_appends {β : Type*} {body : List β → α → Except ε (List β)} {Out : α → β → Prop} :
    ∀ {as : List α} (s : List β), (∀ a ∈ as, ∀ s s', body s a = .ok s' →
      ∃ b, s' = s ++ [b] ∧ Out a b) → ∃ new, (forEach body s as).1 = s ++ new ∧
        new.length ≤ as.length ∧
        (∀ (k : ℕ) (b : β), new[k]? = some b → ∃ a, as[k]? = some a ∧ Out a b) ∧
          ((forEach body s as).2 = none → new.length = as.length)
  | [], s, _ => ⟨[], by simp [forEach], Nat.le_refl _, by simp, fun _ => rfl⟩
  | a :: as, s, h => by
    obtain ⟨ha, has⟩ := List.forall_mem_cons.1 h
    cases hb : body s a with
    | error err =>
      rw [forEach_cons_error hb]
      exact ⟨[], (List.append_nil s).symm, Nat.zero_le _, by simp, by simp⟩
    | ok s' =>
      obtain ⟨b, rfl, hout⟩ := ha s s' hb
      obtain ⟨new, hstate, hle, hall, hends⟩ := forEach_appends (s ++ [b]) has
      rw [forEach_cons_ok hb]
      refine ⟨b :: new, by rw [hstate, List.append_assoc, List.singleton_append],
        Nat.succ_le_succ hle, ?_, fun hnone => congrArg (· + 1) (hends hnone)⟩
      rintro (_ | k) c hc
      · obtain rfl : b = c := by simpa using hc
        exact ⟨a, rfl, hout⟩
      · exact hall k c hc

theorem filterMap_cons_eq {β : Type*} (f : α → Option β) (a : α) (as : List α) :
    (a :: as).filterMap f = (f a).toList ++ as.filterMap f := by
  cases h : f a <;> simp [h]

/-- The two lists a body appends to hold what it makes of the elements, in their order. -/
theorem foldlM_filterMap {β γ : Type*} {step : List β × List γ → α → Except ε (List β × List γ)}
    {left : α → Option β} {right : α → Option γ}
    (h : ∀ acc a, step acc a = .ok (acc.1 ++ (left a).toList, acc.2 ++ (right a).toList)) :
    ∀ (as : List α) (acc : List β × List γ),
      as.foldlM step acc = .ok (acc.1 ++ as.filterMap left, acc.2 ++ as.filterMap right)
  | [], acc => by simp [pure, Except.pure]
  | a :: as, acc => by
    rw [List.foldlM_cons, h]
    show as.foldlM step _ = _
    rw [foldlM_filterMap h as, filterMap_cons_eq, filterMap_cons_eq, List.append_assoc,
      List.append_assoc]

end Loop
