import Mathlib.Data.List.Basic

/-!
# Runs of a partial machine

A machine is a step function from a state and an action to a list of outputs and a new
state. It is undefined (`none`) where the action is not allowed or the program it models
has no defined behaviour. `run` takes a list of actions, puts the outputs in order, and
is undefined as soon as a step is.

A property of the state and the outputs so far that every step keeps is kept by every
run (`Keeps.run`). A relation that lets every step of one machine be answered by a step
of another with the same outputs lets every run be answered (`Simulates.run`).
-/

namespace Machine

variable {σ τ α β γ : Type*}

/-- The outputs of the actions in order, and the last state. -/
def run (step : σ → α → Option (List β × σ)) : σ → List α → Option (List β × σ)
  | s, [] => some ([], s)
  | s, a :: as =>
    (step s a).bind fun r => (run step r.2 as).map fun r' => (r.1 ++ r'.1, r'.2)

@[simp] theorem run_nil (step : σ → α → Option (List β × σ)) (s : σ) :
    run step s [] = some ([], s) :=
  rfl

theorem run_cons_eq_some {step : σ → α → Option (List β × σ)} {s s' : σ} {a : α} {as : List α}
    {out : List β} : run step s (a :: as) = some (out, s') ↔
      ∃ out₁ s₁ out₂, step s a = some (out₁, s₁) ∧ run step s₁ as = some (out₂, s') ∧
        out = out₁ ++ out₂ := by
  simp only [run, Option.bind_eq_some_iff, Option.map_eq_some_iff, Prod.exists, Prod.mk.injEq]
  constructor
  · rintro ⟨out₁, s₁, h, out₂, s₂, h', rfl, rfl⟩
    exact ⟨out₁, s₁, out₂, h, h', rfl⟩
  · rintro ⟨out₁, s₁, out₂, h, h', rfl⟩
    exact ⟨out₁, s₁, h, out₂, s', h', rfl, rfl⟩

theorem run_singleton (step : σ → α → Option (List β × σ)) (s : σ) (a : α) :
    run step s [a] = step s a := by
  cases h : step s a <;> simp [run, h]

theorem run_append_eq_some {step : σ → α → Option (List β × σ)} {s' : σ} :
    ∀ {as bs : List α} {s : σ} {out : List β}, run step s (as ++ bs) = some (out, s') ↔
      ∃ out₁ s₁ out₂, run step s as = some (out₁, s₁) ∧ run step s₁ bs = some (out₂, s') ∧
        out = out₁ ++ out₂
  | [], bs, s, out => by simp
  | a :: as, bs, s, out => by
    simp only [List.cons_append, run_cons_eq_some, run_append_eq_some]
    constructor
    · rintro ⟨o₁, s₁, _, h₁, ⟨o₂, s₂, o₃, h₂, h₃, rfl⟩, rfl⟩
      exact ⟨_, s₂, o₃, ⟨o₁, s₁, o₂, h₁, h₂, rfl⟩, h₃, by simp⟩
    · rintro ⟨_, s₂, o₃, ⟨o₁, s₁, o₂, h₁, h₂, rfl⟩, h₃, rfl⟩
      exact ⟨o₁, s₁, _, h₁, ⟨o₂, s₂, o₃, h₂, h₃, rfl⟩, by simp⟩

theorem run_map (step : σ → α → Option (List β × σ)) (f : γ → α) :
    ∀ (s : σ) (as : List γ), run step s (as.map f) = run (fun s a => step s (f a)) s as
  | _, [] => rfl
  | s, a :: as => by simp only [List.map_cons, run, run_map step f]

/-- A run is known by what `f` makes of its outputs and last state. -/
theorem exists_of_map_eq {r : Option (List β × σ)} {f : List β × σ → γ} {c : γ}
    {P : List β → σ → Prop} (h : r.map f = some c)
    (hP : ∀ out s, r = some (out, s) → f (out, s) = c → P out s) :
    ∃ out s, r = some (out, s) ∧ P out s := by
  obtain ⟨⟨out, s⟩, hr, hf⟩ := Option.map_eq_some_iff.1 h
  exact ⟨out, s, hr, hP out s hr hf⟩

/-- Every step keeps `I`, a property of the state and of the outputs so far. -/
def Keeps (step : σ → α → Option (List β × σ)) (I : σ → List β → Prop) : Prop :=
  ∀ s outs a out s', I s outs → step s a = some (out, s') → I s' (outs ++ out)

theorem Keeps.run {step : σ → α → Option (List β × σ)} {I : σ → List β → Prop}
    (h : Keeps step I) : ∀ {as : List α} {s s' : σ} {outs out : List β}, I s outs →
      run step s as = some (out, s') → I s' (outs ++ out)
  | [], s, s', outs, out, hI, hr => by
    obtain ⟨rfl, rfl⟩ : [] = out ∧ s = s' := by simpa using hr
    simpa using hI
  | a :: as, s, s', outs, out, hI, hr => by
    obtain ⟨out₁, s₁, out₂, h₁, h₂, rfl⟩ := run_cons_eq_some.1 hr
    rw [← List.append_assoc]
    exact h.run (h s outs a out₁ s₁ hI h₁) h₂

/-- A property of the state alone. -/
theorem Keeps.run_state {step : σ → α → Option (List β × σ)} {I : σ → Prop}
    (h : Keeps step fun s _ => I s) {as : List α} {s s' : σ} {out : List β} (hI : I s)
    (hr : Machine.run step s as = some (out, s')) : I s' :=
  @Keeps.run σ α β step (fun s _ => I s) h as s s' [] out hI hr

/-- Every step from related states is answered by a step with the same outputs. -/
def Simulates (step : σ → α → Option (List β × σ)) (step' : τ → α → Option (List β × τ))
    (R : σ → τ → Prop) : Prop :=
  ∀ s t a out s', R s t → step s a = some (out, s') →
    ∃ t', step' t a = some (out, t') ∧ R s' t'

theorem Simulates.run {step : σ → α → Option (List β × σ)}
    {step' : τ → α → Option (List β × τ)} {R : σ → τ → Prop} (h : Simulates step step' R) :
    ∀ {as : List α} {s s' : σ} {t : τ} {out : List β}, R s t →
      run step s as = some (out, s') → ∃ t', run step' t as = some (out, t') ∧ R s' t'
  | [], s, s', t, out, hR, hr => by
    obtain ⟨rfl, rfl⟩ : [] = out ∧ s = s' := by simpa using hr
    exact ⟨t, rfl, hR⟩
  | a :: as, s, s', t, out, hR, hr => by
    obtain ⟨out₁, s₁, out₂, h₁, h₂, rfl⟩ := run_cons_eq_some.1 hr
    obtain ⟨t₁, ht₁, hR₁⟩ := h s t a out₁ s₁ hR h₁
    obtain ⟨t₂, ht₂, hR₂⟩ := h.run hR₁ h₂
    exact ⟨t₂, run_cons_eq_some.2 ⟨out₁, t₁, out₂, ht₁, ht₂, rfl⟩, hR₂⟩

end Machine
