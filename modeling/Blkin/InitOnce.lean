import Blkin.InitThreads

/-!
# A process that calls `blkin_init` more than once

`blkinInit` is one call by itself. `call_alone` : it is what the threads' code does when a
call runs while no other thread is in the locked section.

`initStep` makes calls and draws identifiers in any order. The test of `initialized` comes
after the descriptor was opened and `rand()` was seeded, and the descriptor is never
closed. So a call in a process that is initialized already keeps the pointers and the
flag, but leaves one more descriptor open or seeds `rand()` with a local it did not read
(`idempotent_iff`).
-/

open Machine Threads

namespace Blkin

/-! ## A call by itself -/

/-- The answers to the assignments that are left. -/
def resolveScript (dlsym : String → Option ℕ) : List (Pointer × String) → List Answer
  | [] => [.done]
  | b :: rest =>
    [.dlsym (dlsym b.2), .done] ++ if dlsym b.2 = none then [] else resolveScript dlsym rest

section Alone

variable {s s' : Front} {th th' : Thread} {a : Answer} {as : List Answer} {o outs : List Shown}

theorem alone_cons (h : th.next s a = some (o, s', th')) {r : Front × Thread}
    (hrest : run initCode.alone (s', th') as = some (outs, r)) :
    run initCode.alone (s, th) (a :: as) = some (o ++ outs, r) :=
  run_cons_eq_some.2 ⟨o, (s', th'), outs, h, hrest, rfl⟩

/-- From the call to the test of the flag. -/
theorem alone_enter {inf : Option ℕ} {full : Bool} (hopen : s.openUrandom inf = some s')
    (hread : ¬(full = true ∧ inf = none)) (seed : UInt32) (d found failed : Bool) :
    run initCode.alone (s, ⟨.outside, d, found, failed⟩)
        [.done, .open inf, .read seed full, .done, .done] =
      some ([.seeded full], s'.srand seed, ⟨.testing, d, found, failed⟩) := by
  have hopen' : Thread.next s ⟨.opening, d, found, failed⟩ (.open inf) =
      some ([], s', ⟨.reading inf, d, found, failed⟩) := by
    simp [Thread.next, hopen]
  have hread' : Thread.next s' ⟨.reading inf, d, found, failed⟩ (.read seed full) =
      some ([], s', ⟨.seeding seed full, d, found, failed⟩) := if_neg hread
  refine alone_cons (o := []) rfl (alone_cons hopen' (alone_cons hread' ?_))
  refine alone_cons (o := [.seeded full]) rfl (alone_cons (o := []) rfl ?_)
  rfl

/-- `resolve_symbols` from some assignment on. -/
theorem alone_resolving (dlsym : String → Option ℕ) (found : Bool) :
    ∀ (rest : List (Pointer × String)) (s : Front),
      ∃ outs failed, run initCode.alone (s, ⟨.resolving rest, false, found, false⟩)
        (resolveScript dlsym rest) = some (outs,
          { s with pointers := (resolveFrom dlsym rest s.pointers).2 },
          ⟨.deciding (resolveFrom dlsym rest s.pointers).1, false, found, failed⟩) ∧
        ∀ o ∈ outs, o.Writes
  | [], s => ⟨[], false, rfl, by simp⟩
  | b :: rest, s => by
    cases hsym : dlsym b.2 with
    | none =>
      refine ⟨[.wrotePointer b.1], true, ?_, by simp [Shown.Writes]⟩
      simp only [resolveScript, resolveFrom, hsym, if_true]
      refine alone_cons (o := [.wrotePointer b.1]) rfl (alone_cons (o := []) rfl ?_)
      rfl
    | some addr =>
      obtain ⟨outs, failed, hrest, houts⟩ := alone_resolving dlsym found rest
        { s with pointers := s.pointers.assign b (some addr) }
      refine ⟨.wrotePointer b.1 :: outs, failed, ?_, List.forall_mem_cons.2 ⟨trivial, houts⟩⟩
      simp only [resolveScript, resolveFrom, hsym, reduceCtorEq, if_false]
      exact alone_cons (o := [.wrotePointer b.1]) rfl (alone_cons (o := []) rfl hrest)

/-- `resolve_symbols` -/
theorem alone_loading (answers : Answers) (s : Front) (d found failed : Bool) :
    ∃ as outs failed',
    run initCode.alone (s, ⟨.loading, d, found, failed⟩) as =
      some (outs, { s with pointers := (resolveSymbols answers s.pointers).2 },
        ⟨.deciding (resolveSymbols answers s.pointers).1, false, found, failed'⟩) ∧
      ∀ o ∈ outs, o.Writes := by
  cases hhandle : answers.handle with
  | true =>
    obtain ⟨outs, failed', hrest, houts⟩ := alone_resolving answers.dlsym found assignments s
    refine ⟨[.dlopen true, .done] ++ resolveScript answers.dlsym assignments, outs, failed', ?_,
      houts⟩
    simp only [resolveSymbols, hhandle, if_true]
    exact alone_cons (o := []) rfl (alone_cons (o := []) rfl hrest)
  | false =>
    refine ⟨[.dlopen false], [], true, ?_, by simp⟩
    simp only [resolveSymbols, hhandle, Bool.false_eq_true, if_false]
    exact alone_cons (o := []) (by simp [Thread.next]) rfl

/-- Giving back the mutex and returning. -/
theorem alone_unlocking (ret : Option Int32) (s : Front) (d found failed : Bool) :
    run initCode.alone (s, ⟨.unlocking ret, d, found, failed⟩) [.done, .done] =
      some ([.returned ⟨ret, found, failed, s.initialized⟩], s, ⟨.outside, d, found, failed⟩) :=
  rfl

/-- From what `resolve_symbols` returned to the end of the call. -/
theorem alone_deciding (ret : Int32) (s : Front) (d found failed : Bool) : ∃ as outs r,
    run initCode.alone (s, ⟨.deciding ret, d, found, failed⟩) as =
      some (outs ++ [.returned r], if 0 ≤ ret then { s with initialized := true } else s,
        ⟨.outside, d, found, failed⟩) ∧ (∀ o ∈ outs, o.Writes) ∧ r.ret = some ret := by
  by_cases hret : 0 ≤ ret
  · have hnext : Thread.next s ⟨.deciding ret, d, found, failed⟩ .done =
        some ([], s, ⟨.setting ret, d, found, failed⟩) := by simp [Thread.next, hret]
    refine ⟨[.done, .done, .done, .done], [.wroteFlag], ⟨some ret, found, failed, true⟩, ?_,
      by simp [Shown.Writes], rfl⟩
    rw [if_pos hret]
    exact alone_cons hnext (alone_cons (o := [.wroteFlag]) rfl
      (alone_unlocking (some ret) { s with initialized := true } d found failed))
  · have hnext : Thread.next s ⟨.deciding ret, d, found, failed⟩ .done =
        some ([], s, ⟨.unlocking (some ret), d, found, failed⟩) := by simp [Thread.next, hret]
    refine ⟨[.done, .done, .done], [], ⟨some ret, found, failed, s.initialized⟩, ?_, by simp,
      rfl⟩
    rw [if_neg hret]
    exact alone_cons hnext (alone_unlocking (some ret) s d found failed)

end Alone

/-- What shows of a call of `srand`. -/
def Seeding.shown (x : Seeding) : Shown :=
  .seeded x.full

/-- A call by itself does what `blkinInit` says : it calls `srand` as that says, then at most
writes the pointers and the flag, and returns what that returns. -/
theorem call_alone {s s' : Front} {answers : Answers} {seeded : List Seeding}
    {ret : Option Int32} (h : blkinInit s answers = some (seeded, ret, s'))
    (d found failed : Bool) : ∃ as outs r th,
      run initCode.alone (s, ⟨.outside, d, found, failed⟩) as =
        some (seeded.map Seeding.shown ++ outs ++ [.returned r], s', th) ∧
      (∀ o ∈ outs, o.Writes) ∧ th.pc = .outside ∧ r.ret = ret := by
  obtain ⟨s₁, hopen, h⟩ := Option.bind_eq_some_iff.1 h
  by_cases hread : answers.full = true ∧ answers.inf = none
  · rw [if_pos hread] at h
    cases h
  rw [if_neg hread] at h
  have henter := alone_enter hopen hread answers.seed d found failed
  change (if (s₁.srand answers.seed).initialized = true then
    some ([Seeding.mk answers.seed answers.full], none, s₁.srand answers.seed) else _) = _ at h
  generalize s₁.srand answers.seed = s₂ at h henter
  cases hset : s₂.initialized with
  | true =>
    simp only [hset, if_true, Option.some.injEq, Prod.mk.injEq] at h
    obtain ⟨rfl, rfl, rfl⟩ := h
    have htest : Thread.next s₂ ⟨.testing, d, found, failed⟩ .done =
        some ([], s₂, ⟨.unlocking none, d, true, false⟩) := by simp [Thread.next, hset]
    exact ⟨_, [], _, ⟨.outside, d, true, false⟩, run_append_eq_some.2
      ⟨_, _, _, henter, alone_cons htest (alone_unlocking none s₂ d true false), rfl⟩,
      by simp, rfl, rfl⟩
  | false =>
    rw [if_neg (Bool.eq_false_iff.1 hset)] at h
    simp only [Option.some.injEq, Prod.mk.injEq] at h
    obtain ⟨rfl, rfl, rfl⟩ := h
    have htest : Thread.next s₂ ⟨.testing, d, found, failed⟩ .done =
        some ([], s₂, ⟨.loading, d, false, false⟩) := by simp [Thread.next, hset]
    obtain ⟨as, outs, failed', hload, houts⟩ := alone_loading answers s₂ d false false
    obtain ⟨as', outs', r, hdecide, houts', hr⟩ :=
      alone_deciding (resolveSymbols answers s₂.pointers).1
        { s₂ with pointers := (resolveSymbols answers s₂.pointers).2 } false false failed'
    have hcall := run_append_eq_some.2
      ⟨_, _, _, alone_cons htest hload, hdecide, List.append_assoc outs outs' [.returned r]⟩
    refine ⟨_, outs ++ outs', r, ⟨.outside, false, false, failed'⟩, run_append_eq_some.2
      ⟨_, _, _, henter, hcall, List.append_assoc _ (outs ++ outs') _⟩, fun o ho => ?_, rfl, hr⟩
    exact (List.mem_append.1 ho).elim (houts o) (houts' o)

/-- While all others are outside the locked section, a thread of any number makes the call
as `blkinInit` says. -/
theorem InitInv.call {s : State Front Thread} {t : ℕ} {answers : Answers}
    {seeded : List Seeding} {ret : Option Int32} {g : Front} (h : InitInv s)
    (hothers : ∀ u, u ≠ t → ¬(s.thread u).Inside) (ht : (s.thread t).pc = .outside)
    (hcall : blkinInit s.shared answers = some (seeded, ret, g)) :
    ∃ as outs r s', run initCode.step s (stepsOf t as) = some (outs ++ [(t, .returned r)], s') ∧
      s'.shared = g ∧ (s'.thread t).pc = .outside ∧ r.ret = ret := by
  obtain ⟨as, outs, r, th, halone, -, hth, hret⟩ :=
    call_alone hcall (s.thread t).dlerror (s.thread t).found (s.thread t).failed
  rw [← ht] at halone
  obtain ⟨owner, hrun⟩ := discipline_init.run_alone h hothers halone
  rw [List.map_append] at hrun
  exact ⟨as, _, r, _, hrun, rfl, by simpa using hth, hret⟩

/-! ## Calls and draws -/

/-- A call with its calls of `srand`, and the process before and after it. -/
structure InitCall where
  before : Front
  answers : Answers
  seeded : List Seeding
  after : Front

inductive InitAct
  | init (answers : Answers)
  | draw

/-- `blkin_init` is called, or an identifier drawn. -/
def initStep (s : Front) : InitAct → Option (List InitCall × Front)
  | .init answers => (blkinInit s answers).map fun r => ([⟨s, answers, r.1, r.2.2⟩], r.2.2)
  | .draw => some ([], s.randomBig)

/-- The call leaves a process that is initialized as it was, and calls `srand` only with
what it read. -/
def InitCall.Idempotent (c : InitCall) : Prop :=
  (c.before.initialized = true → c.after = c.before) ∧ ∀ x ∈ c.seeded, x.full = true

section Call

variable {s s' : Front} {answers : Answers} {seeded : List Seeding} {ret : Option Int32}

/-- A call opens the device and seeds `rand()`. Only then it looks at the flag. -/
theorem of_blkinInit (h : blkinInit s answers = some (seeded, ret, s')) : ∃ s₁,
    s.openUrandom answers.inf = some s₁ ∧ (answers.inf = none → answers.full = false) ∧
      seeded = [⟨answers.seed, answers.full⟩] ∧ s'.fds = s₁.fds ∧
      s'.gen = ⟨answers.seed, 0⟩ ∧
      (s₁.initialized = true → ret = none ∧ s' = s₁.srand answers.seed) := by
  obtain ⟨s₁, hopen, h⟩ := Option.bind_eq_some_iff.1 h
  by_cases hread : answers.full = true ∧ answers.inf = none
  · rw [if_pos hread] at h
    cases h
  rw [if_neg hread] at h
  refine ⟨s₁, hopen, fun hinf => Bool.eq_false_iff.2 fun hfull => hread ⟨hfull, hinf⟩, ?_⟩
  change (if s₁.initialized = true then
    some ([Seeding.mk answers.seed answers.full], none, s₁.srand answers.seed) else _) = _ at h
  cases hset : s₁.initialized with
  | true =>
    rw [if_pos hset] at h
    obtain ⟨rfl, rfl, rfl⟩ : _ = seeded ∧ none = ret ∧ _ = s' := by
      simpa only [Option.some.injEq, Prod.mk.injEq] using h
    exact ⟨rfl, rfl, rfl, fun _ => ⟨rfl, rfl⟩⟩
  | false =>
    rw [if_neg (Bool.eq_false_iff.1 hset)] at h
    obtain ⟨rfl, rfl, rfl⟩ : _ = seeded ∧ some _ = ret ∧ _ = s' := by
      simpa only [Option.some.injEq, Prod.mk.injEq] using h
    exact ⟨rfl, by split_ifs <;> rfl, by split_ifs <;> rfl, fun h => by cases h⟩

/-- A call that finds the flag set keeps the flag and the pointers, and returns an
unassigned local. It keeps the descriptors only if it could not open the device, and then
it read no seed. -/
theorem blkinInit_of_initialized (h : blkinInit s answers = some (seeded, ret, s'))
    (hset : s.initialized = true) :
    ret = none ∧ s'.pointers = s.pointers ∧ s'.initialized = true ∧
      (s'.fds = s.fds ↔ answers.inf = none) ∧ s'.gen = ⟨answers.seed, 0⟩ ∧
      (answers.inf = none → answers.full = false) := by
  obtain ⟨s₁, hopen, hread, -, hfds, hgen, hcall⟩ := of_blkinInit h
  obtain ⟨hp, hi⟩ := Front.openUrandom_shared hopen
  obtain ⟨hret, hs'⟩ := hcall (hi.trans hset)
  refine ⟨hret, ?_, ?_, ?_, hgen, hread⟩
  · rw [hs']
    exact hp
  · rw [hs']
    exact hi.trans hset
  · rw [hfds]
    obtain ⟨hinf, rfl⟩ | ⟨fd, hinf, hfd, rfl⟩ := Front.of_openUrandom hopen
    · exact iff_of_true rfl hinf
    · exact iff_of_false (fun heq => hfd (heq ▸ Finset.mem_insert_self fd s.fds)) (by simp [hinf])

end Call

/-- Every call of a run is one of `blkinInit`. -/
theorem keeps_calls : Keeps initStep fun _ calls =>
    ∀ c ∈ calls, ∃ ret, blkinInit c.before c.answers = some (c.seeded, ret, c.after) := by
  rintro s calls act out s' hcalls hstep c hc
  rcases List.mem_append.1 hc with hc | hc
  · exact hcalls c hc
  · cases act with
    | init answers =>
      obtain ⟨⟨seeded, ret, s₁⟩, hcall, h⟩ := Option.map_eq_some_iff.1 hstep
      obtain ⟨rfl, rfl⟩ := Prod.mk.inj h
      obtain rfl := List.mem_singleton.1 hc
      exact ⟨ret, hcall⟩
    | draw =>
      obtain ⟨rfl, -⟩ := Prod.mk.inj (Option.some.inj hstep)
      cases hc

/-- In every run of calls and draws, all calls leave an initialized process as it was and
call `srand` only with what they read exactly if no call is made in an initialized process
and every call reads its seed. A call in an initialized process keeps the pointers and the
flag, but keeps the descriptors only if it cannot open the device, and always seeds
`rand()` again. -/
theorem idempotent_iff {fds : Finset ℕ} {limit : ℕ} {gen : Generator} {acts : List InitAct}
    {calls : List InitCall} {s : Front}
    (hrun : run initStep (.start fds limit gen) acts = some (calls, s)) :
    ((∀ c ∈ calls, c.Idempotent) ↔
      ∀ c ∈ calls, c.before.initialized = false ∧ c.answers.full = true) ∧
    ∀ c ∈ calls, c.before.initialized = true →
      c.after.pointers = c.before.pointers ∧ c.after.initialized = true ∧
      (c.after.fds = c.before.fds ↔ c.answers.inf = none) ∧
      c.after.gen = ⟨c.answers.seed, 0⟩ := by
  have hstart : ∀ c ∈ ([] : List InitCall),
      ∃ ret, blkinInit c.before c.answers = some (c.seeded, ret, c.after) := by simp
  have hcalls := keeps_calls.run hstart hrun
  refine ⟨forall₂_congr fun c hc => ?_, fun c hc hset => ?_⟩
  · obtain ⟨ret, hcall⟩ := hcalls c hc
    obtain ⟨-, -, -, hseeded, -⟩ := of_blkinInit hcall
    have hread : (∀ x ∈ c.seeded, x.full = true) ↔ c.answers.full = true := by
      simp [hseeded]
    rw [InitCall.Idempotent, hread]
    refine and_congr_left fun hfull => ⟨fun hkept => ?_, fun hunset hset => ?_⟩
    · refine Bool.eq_false_iff.2 fun hset => ?_
      obtain ⟨-, -, -, hfds, -, hnone⟩ := blkinInit_of_initialized hcall hset
      have hunread := hnone (hfds.1 (by rw [hkept hset]))
      rw [hfull] at hunread
      cases hunread
    · rw [hunset] at hset
      cases hset
  · obtain ⟨ret, hcall⟩ := hcalls c hc
    obtain ⟨-, hp, hi, hfds, hgen, -⟩ := blkinInit_of_initialized hcall hset
    exact ⟨hp, hi, hfds, hgen⟩

/-- All symbols are found, and the device gives this descriptor and seed. -/
def Answers.found (inf : Option ℕ) (seed : UInt32) (full : Bool) : Answers :=
  ⟨inf, seed, full, true, fun _ => some 0⟩

theorem idempotent_iff_once : ∃ calls s,
    run initStep (.start ∅ 2 ⟨1, 0⟩) [.draw, .init (.found (some 3) 7 true), .draw] =
      some (calls, s) ∧ s.initialized = true ∧ ∀ c ∈ calls, c.Idempotent := by
  refine exists_of_map_eq (f := fun r => (r.2.initialized,
    decide (∀ c ∈ r.1, c.before.initialized = false ∧ c.answers.full = true)))
    (c := (true, true)) (by decide) ?_
  intro calls s hr hf
  obtain ⟨hset, hcalls⟩ := Prod.mk.inj hf
  exact ⟨hset, (idempotent_iff hr).1.2 (of_decide_eq_true hcalls)⟩

/-- The second call opens a second descriptor and seeds `rand()` again after a draw. No
descriptor is left for the third, which seeds `rand()` with what was in the local. -/
theorem repeated_call_leaks : ∃ calls s,
    run initStep (.start ∅ 2 ⟨1, 0⟩) [.init (.found (some 3) 7 true), .draw,
      .init (.found (some 4) 9 true), .init (.found none 5 false)] = some (calls, s) ∧
    (∃ c ∈ calls, c.before.initialized = true ∧ c.after.fds ≠ c.before.fds ∧
      c.after.gen ≠ c.before.gen ∧ c.seeded = [⟨9, true⟩] ∧ ¬c.Idempotent) ∧
    ∃ c ∈ calls, c.before.initialized = true ∧ c.seeded = [⟨5, false⟩] ∧ ¬c.Idempotent := by
  refine exists_of_map_eq (f := fun r =>
      (decide (∃ c ∈ r.1, c.before.initialized = true ∧ c.after.fds ≠ c.before.fds ∧
          c.after.gen ≠ c.before.gen ∧ c.seeded = [⟨9, true⟩]),
        decide (∃ c ∈ r.1, c.before.initialized = true ∧ c.seeded = [⟨5, false⟩])))
    (c := (true, true)) (by decide) ?_
  intro calls s hr hf
  obtain ⟨hsecond, hthird⟩ := Prod.mk.inj hf
  obtain ⟨c, hc, hset, hfds, hgen, hseeded⟩ := of_decide_eq_true hsecond
  obtain ⟨c', hc', hset', hseeded'⟩ := of_decide_eq_true hthird
  refine ⟨⟨c, hc, hset, hfds, hgen, hseeded, fun h => hfds (by rw [h.1 hset])⟩,
    c', hc', hset', hseeded', fun h => ?_⟩
  have hfull := h.2 ⟨5, false⟩ (by simp [hseeded'])
  cases hfull

end Blkin
