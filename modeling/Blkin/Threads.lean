import Blkin.Machine
import Mathlib.Logic.Function.Basic

/-!
# Threads and a lock

Any number of threads run the same `Code` over a shared state. An action lets one thread
take its next step, with an answer from outside where the step asks for one. A step may
take the lock, which it can only do while nobody holds it, or give it back.

`Discipline` is what a thread's code must keep by itself : a property of the shared state
and one of the state and a thread, where only the thread inside the locked section may
disturb others, and only others inside it. `Discipline.keeps` : then every step of every
interleaving keeps both, and at most one thread is inside.
-/

open Machine

namespace Threads

/-- What a step does with the lock. -/
inductive LockOp
  | keep
  | acquire
  | release
  deriving DecidableEq

variable {σ τ α β : Type*}

/-- The next step of a thread, on the shared state and its own. -/
structure Code (σ τ α β : Type*) where
  lock : τ → LockOp
  next : σ → τ → α → Option (List β × σ × τ)

structure State (σ τ : Type*) where
  shared : σ
  owner : Option ℕ
  thread : ℕ → τ

/-- Who holds the lock after a step of the thread `t`. -/
def LockOp.owner (op : LockOp) (t : ℕ) (before : Option ℕ) : Option ℕ :=
  match op with
  | keep => before
  | acquire => some t
  | release => none

namespace Code

variable (code : Code σ τ α β)

/-- The thread `t` takes its next step, and waits if that needs a lock that is held. -/
def step (s : State σ τ) (act : ℕ × α) : Option (List (ℕ × β) × State σ τ) :=
  let op := code.lock (s.thread act.1)
  if op = .acquire ∧ s.owner ≠ none then none
  else (code.next s.shared (s.thread act.1) act.2).map fun r =>
    (r.1.map fun o => (act.1, o),
      ⟨r.2.1, op.owner act.1 s.owner, Function.update s.thread act.1 r.2.2⟩)

variable {code}

theorem step_eq_some {s s' : State σ τ} {t : ℕ} {a : α} {out : List (ℕ × β)} :
    code.step s (t, a) = some (out, s') ↔
      (code.lock (s.thread t) = .acquire → s.owner = none) ∧
      ∃ o g th, code.next s.shared (s.thread t) a = some (o, g, th) ∧
        out = o.map (fun o => (t, o)) ∧
        s' = ⟨g, (code.lock (s.thread t)).owner t s.owner, Function.update s.thread t th⟩ := by
  unfold step
  by_cases hlock : code.lock (s.thread t) = .acquire ∧ s.owner ≠ none
  · rw [if_pos hlock]
    simp only [reduceCtorEq, false_iff]
    exact fun h => hlock.2 (h.1 hlock.1)
  · have hfree : code.lock (s.thread t) = .acquire → s.owner = none := fun h =>
      not_not.1 fun howner => hlock ⟨h, howner⟩
    simp only [if_neg hlock, Option.map_eq_some_iff, Prod.exists, Prod.mk.injEq]
    constructor
    · rintro ⟨o, g, th, hnext, rfl, rfl⟩
      exact ⟨hfree, o, g, th, hnext, rfl, rfl⟩
    · rintro ⟨-, o, g, th, hnext, rfl, rfl⟩
      exact ⟨o, g, th, hnext, rfl, rfl⟩

end Code

/-- `inside` is the locked section. Every step keeps `I` of the shared state and `J` of its
own thread, a step from outside the section keeps `J` of any thread, and any step keeps
`J` of a thread outside. -/
structure Discipline (code : Code σ τ α β) (inside : τ → Prop) (I : σ → Prop)
    (J : σ → τ → Prop) : Prop where
  lock : ∀ {g th a out g' th'}, code.next g th a = some (out, g', th') →
    match code.lock th with
    | .keep => inside th' ↔ inside th
    | .acquire => ¬inside th ∧ inside th'
    | .release => inside th ∧ ¬inside th'
  own : ∀ {g th a out g' th'}, I g → J g th → code.next g th a = some (out, g', th') →
    I g' ∧ J g' th'
  outside : ∀ {g th a out g' th' u}, code.next g th a = some (out, g', th') → ¬inside th →
    J g u → J g' u
  stable : ∀ {g th a out g' th' u}, J g th → code.next g th a = some (out, g', th') →
    ¬inside u → J g u → J g' u

/-- The shared state and every thread are in order, and the lock's owner is the thread
inside. -/
structure Locked (inside : τ → Prop) (I : σ → Prop) (J : σ → τ → Prop) (s : State σ τ) :
    Prop where
  shared : I s.shared
  thread : ∀ t, J s.shared (s.thread t)
  owner : ∀ t, inside (s.thread t) ↔ s.owner = some t

variable {code : Code σ τ α β} {inside : τ → Prop} {I : σ → Prop} {J : σ → τ → Prop}

theorem Locked.eq_of_inside {s : State σ τ} (h : Locked inside I J s) {t u : ℕ}
    (ht : inside (s.thread t)) (hu : inside (s.thread u)) : t = u :=
  Option.some.inj (((h.owner t).1 ht).symm.trans ((h.owner u).1 hu))

/-- The lock after a step of the thread `t`. -/
theorem Locked.owner_step {s : State σ τ} (h : Locked inside I J s)
    (hd : Discipline code inside I J) {t : ℕ} {a : α} {o : List β} {g : σ} {th : τ}
    (hfree : code.lock (s.thread t) = .acquire → s.owner = none)
    (hnext : code.next s.shared (s.thread t) a = some (o, g, th)) (u : ℕ) :
    inside (Function.update s.thread t th u) ↔
      (code.lock (s.thread t)).owner t s.owner = some u := by
  have hlock := hd.lock hnext
  rcases eq_or_ne u t with rfl | hu
  · rw [Function.update_self]
    cases hop : code.lock (s.thread u) with
    | keep =>
      rw [hop] at hlock
      exact hlock.trans (h.owner u)
    | acquire =>
      rw [hop] at hlock
      exact iff_of_true hlock.2 rfl
    | release =>
      rw [hop] at hlock
      exact iff_of_false hlock.2 (by simp [LockOp.owner])
  · rw [Function.update_of_ne hu, h.owner u]
    cases hop : code.lock (s.thread t) with
    | keep => rfl
    | acquire =>
      rw [hfree hop]
      exact iff_of_false (by simp) fun heq => hu (Option.some.inj heq).symm
    | release =>
      rw [hop] at hlock
      have howner := (h.owner t).1 hlock.1
      rw [howner]
      exact iff_of_false (fun heq => hu (Option.some.inj heq).symm) (by simp [LockOp.owner])

/-- One step of one thread, in any interleaving. -/
theorem Discipline.keeps (hd : Discipline code inside I J) :
    Keeps code.step fun s _ => Locked inside I J s := by
  rintro s outs ⟨t, a⟩ out s' h hs
  obtain ⟨hfree, o, g, th, hnext, -, rfl⟩ := Code.step_eq_some.1 hs
  obtain ⟨hI, hJ⟩ := hd.own h.shared (h.thread t) hnext
  refine ⟨hI, fun u => ?_, h.owner_step hd hfree hnext⟩
  rcases eq_or_ne u t with rfl | hu
  · simpa using hJ
  · show J g (Function.update s.thread t th u)
    rw [Function.update_of_ne hu]
    by_cases ht : inside (s.thread t)
    · exact hd.stable (h.thread t) hnext (fun hin => hu (h.eq_of_inside hin ht)) (h.thread u)
    · exact hd.outside hnext ht (h.thread u)

/-! ## A thread that runs alone -/

/-- The steps of one thread. -/
def Code.alone (code : Code σ τ α β) (s : σ × τ) (a : α) : Option (List β × σ × τ) :=
  code.next s.1 s.2 a

/-- While all others are outside the locked section, a thread can run as if it were the
only one. -/
theorem Discipline.run_alone (hd : Discipline code inside I J) {t : ℕ} :
    ∀ {as : List α} {s : State σ τ} {outs : List β} {g : σ} {th : τ}, Locked inside I J s →
      (∀ u, u ≠ t → ¬inside (s.thread u)) →
      run code.alone (s.shared, s.thread t) as = some (outs, g, th) →
      ∃ owner, run code.step s (as.map fun a => (t, a)) =
        some (outs.map fun o => (t, o), ⟨g, owner, Function.update s.thread t th⟩)
  | [], s, outs, g, th, _, _, hrun => by
    obtain ⟨rfl, rfl, rfl⟩ : [] = outs ∧ s.shared = g ∧ s.thread t = th := by simpa using hrun
    exact ⟨s.owner, by simp⟩
  | a :: as, s, outs, g, th, h, hothers, hrun => by
    obtain ⟨out₁, ⟨g₁, th₁⟩, out₂, h₁, h₂, rfl⟩ := run_cons_eq_some.1 hrun
    have hfree : code.lock (s.thread t) = .acquire → s.owner = none := fun hop => by
      have hlock := hd.lock h₁
      rw [hop] at hlock
      by_contra howner
      obtain ⟨u, hu⟩ := Option.ne_none_iff_exists'.1 howner
      have hin := (h.owner u).2 hu
      rcases eq_or_ne u t with rfl | hne
      · exact hlock.1 hin
      · exact hothers u hne hin
    have hstep := Code.step_eq_some.2 ⟨hfree, out₁, g₁, th₁, h₁, rfl, rfl⟩
    have hothers₁ : ∀ u, u ≠ t → ¬inside (Function.update s.thread t th₁ u) := fun u hu => by
      rw [Function.update_of_ne hu]
      exact hothers u hu
    obtain ⟨owner, hrest⟩ := hd.run_alone (hd.keeps s [] (t, a) _ _ h hstep) hothers₁
      (by simpa using h₂)
    rw [Function.update_idem] at hrest
    exact ⟨owner, run_cons_eq_some.2 ⟨_, _, _, hstep, hrest, by rw [List.map_append]⟩⟩

end Threads
