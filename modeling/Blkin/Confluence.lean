import Blkin.Machine

/-!
# Machines whose concurrent steps commute

The actions of such a machine are the parties that may take their next step. Where two
parties can, either order leads to the same state with the same outputs, and at most one
of the two steps has any (`Commutes`).

If one run ends where no party can step, then every run from its start can be completed
to a run to that end (`Commutes.complete`). The completed run has the same number of
steps and the same outputs in the same order, so no order of steps gets stuck early,
goes on for longer, or puts the outputs in another order.
-/

namespace Machine

variable {σ ι β : Type*} {step : σ → ι → Option (List β × σ)} {I : σ → Prop}

/-- No party can step. -/
def Final (step : σ → ι → Option (List β × σ)) (s : σ) : Prop :=
  ∀ i, step s i = none

/-- Concurrent steps commute in a state that satisfies `I`, and every step keeps `I`. -/
structure Commutes (step : σ → ι → Option (List β × σ)) (I : σ → Prop) : Prop where
  keeps : Keeps step fun s _ => I s
  swap : ∀ {s i j out₁ s₁ out₂ s₂}, I s → i ≠ j → step s i = some (out₁, s₁) →
    step s j = some (out₂, s₂) → ∃ s', step s₁ j = some (out₂, s') ∧ step s₂ i = some (out₁, s')
  quiet : ∀ {s i j out₁ s₁ out₂ s₂}, I s → i ≠ j → step s i = some (out₁, s₁) →
    step s j = some (out₂, s₂) → out₁ = [] ∨ out₂ = []

namespace Commutes

theorem keeps_step (h : Commutes step I) {s s' : σ} {i : ι} {out : List β} (hI : I s)
    (hs : step s i = some (out, s')) : I s' :=
  h.keeps s [] i out s' hI hs

/-- A step that is possible now can be taken first in a run to an end. -/
theorem step_first (h : Commutes step I) : ∀ {is : List ι} {s t : σ} {out : List β}, I s →
    run step s is = some (out, t) → Final step t → ∀ {i : ι} {out₁ : List β} {s₁ : σ},
      step s i = some (out₁, s₁) → ∃ js out₂, run step s₁ js = some (out₂, t) ∧
        js.length + 1 = is.length ∧ out = out₁ ++ out₂
  | [], s, t, out, _, hr, hfinal, i, out₁, s₁, hi => by
    obtain ⟨rfl, rfl⟩ : [] = out ∧ s = t := by simpa using hr
    rw [hfinal i] at hi
    cases hi
  | j :: is, s, t, out, hI, hr, hfinal, i, out₁, s₁, hi => by
    obtain ⟨out₂, s₂, rest, hj, hrest, rfl⟩ := run_cons_eq_some.1 hr
    by_cases hij : i = j
    · subst hij
      obtain ⟨rfl, rfl⟩ := Prod.mk.inj (Option.some.inj (hi.symm.trans hj))
      exact ⟨is, rest, hrest, rfl, rfl⟩
    · obtain ⟨s', hj', hi'⟩ := h.swap hI hij hi hj
      obtain ⟨js, rest', hjs, hlen, rfl⟩ :=
        h.step_first (h.keeps_step hI hj) hrest hfinal hi'
      refine ⟨j :: js, out₂ ++ rest', run_cons_eq_some.2 ⟨_, _, _, hj', hjs, rfl⟩,
        by simp [hlen], ?_⟩
      rcases h.quiet hI hij hi hj with rfl | rfl
      · simp
      · simp

/-- Every run is completed to the end of one that ends. -/
theorem complete (h : Commutes step I) {t : σ} (hfinal : Final step t) :
    ∀ {js is : List ι} {s s₁ : σ} {out out₁ : List β}, I s → run step s is = some (out, t) →
      run step s js = some (out₁, s₁) → ∃ ks out₂, run step s₁ ks = some (out₂, t) ∧
        js.length + ks.length = is.length ∧ out = out₁ ++ out₂
  | [], is, s, s₁, out, out₁, _, hr, hjs => by
    obtain ⟨rfl, rfl⟩ : [] = out₁ ∧ s = s₁ := by simpa using hjs
    exact ⟨is, out, hr, by simp, rfl⟩
  | j :: js, is, s, s₁, out, out₁, hI, hr, hjs => by
    obtain ⟨o, s', o', hj, hjs', rfl⟩ := run_cons_eq_some.1 hjs
    obtain ⟨is', rest, hrest, hlen, rfl⟩ := h.step_first hI hr hfinal hj
    obtain ⟨ks, out₂, hks, hlen', rfl⟩ :=
      h.complete hfinal (h.keeps_step hI hj) hrest hjs'
    exact ⟨ks, out₂, hks, by simp only [List.length_cons]; omega, by simp⟩

end Commutes

end Machine
