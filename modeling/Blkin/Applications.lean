import Blkin.Calls
import Blkin.InitThreads

/-!
# Applications

An application calls the library through the function pointers, which are `NULL` until
`blkin_init` resolves them. The programs of the repository keep to one rule : a thread calls
`blkin_init`, or `ztrace_init`, which returns its result, gives up where that is negative,
and goes on to call the library and to create threads where it is not.

A call through `NULL`, or through a pointer that holds the symbol of another function, is
undefined. `linked` says that threads which keep to the rule never make one, in any
interleaving, although `blkin_init` may return an unassigned local : to the library, what
they do is a program of its calls, in which `rand()` is seeded now and then.

Each call of the library is made as a whole. Nothing in the source keeps the `srand` of
another thread, or its `rand()`, from coming between the two draws of a `random_big`.
-/

open Machine Threads

namespace Blkin

/-- The pointer that the call goes through. -/
def Call.pointer : Call → Pointer
  | .newTrace .. => .initNewTrace
  | .child .. => .initChild
  | .childInfo .. => .initChildInfo
  | .endpoint .. => .initEndpoint
  | .string .. => Pointer.initStringAnnotation
  | .timestamp .. => Pointer.initTimestampAnnotation
  | .record .. => .record
  | .getInfo .. => .getTraceInfo
  | .setInfo .. => .setTraceInfo
  | .pack .. => .packTraceInfo
  | .unpack .. => .unpackTraceInfo

/-- The function that it is a call of. -/
def Call.symbol : Call → String
  | .newTrace .. => "_blkin_init_new_trace"
  | .child .. => "_blkin_init_child"
  | .childInfo .. => "_blkin_init_child_info"
  | .endpoint .. => "_blkin_init_endpoint"
  | .string .. => "_blkin_init_string_annotation"
  | .timestamp .. => "_blkin_init_timestamp_annotation"
  | .record .. => "_blkin_record"
  | .getInfo .. => "_blkin_get_trace_info"
  | .setInfo .. => "_blkin_set_trace_info"
  | .pack .. => "_blkin_pack_trace_info"
  | .unpack .. => "_blkin_unpack_trace_info"

/-- The call through its pointer. -/
def Call.through (c : Call) (pointers : Pointers) (m : Mem) : Option (List Tracepoint × Mem) :=
  match pointers c.pointer with
  | none => none
  | some r => if r.symbol = c.symbol then step m c else none

/-- `srand(seed)`, where `sequence` is what `rand()` gives for each seed. -/
def Mem.srand (m : Mem) (sequence : UInt32 → ℕ → RandResult) (seed : UInt32) : Mem :=
  { m with rands := sequence seed, drawn := 0 }

/-- What a process does to the library. -/
inductive LibAct
  | srand (seed : UInt32)
  | call (c : Call)
  deriving DecidableEq

/-- The library, linked directly. -/
def libStep (sequence : UInt32 → ℕ → RandResult) (m : Mem) :
    LibAct → Option (List Tracepoint × Mem)
  | .srand seed => some ([], m.srand sequence seed)
  | .call c => step m c

/-- What a thread knows of the library. -/
inductive Standing
  | fresh
  /-- `blkin_init` returned, and the result is not checked yet. -/
  | returned (ret : Option Int32)
  | ready
  | gone
  deriving DecidableEq

/-- The threads in `blkin_init`, what each knows, and the memory of the library, with the
generator that its calls draw from. -/
structure App where
  init : State Front Thread
  standing : ℕ → Standing
  mem : Mem

/-- What a thread does : a step of `blkin_init`, the check of its result, whose value is
`v`, a call, and the creation of the thread `u`. -/
inductive AppAct
  | init (a : Answer)
  | check (v : Int32)
  | call (c : Call)
  | create (u : ℕ)

namespace Thread

/-- The seed of the thread's next step. -/
def seeds (th : Thread) : Option UInt32 :=
  match th.pc with
  | .seeding seed _ => some seed
  | _ => none

/-- What the thread knows after its next step. -/
def after (th : Thread) : Standing :=
  match th.pc with
  | .returning ret => .returned ret
  | _ => .fresh

end Thread

namespace App

/-- Nothing was called. -/
def start (fds : Finset ℕ) (limit : ℕ) (gen : Generator) (dlerror : ℕ → Bool) (m : Mem) : App :=
  ⟨startInit fds limit gen dlerror, fun _ => .fresh, m⟩

/-- What a thread knows is set. -/
def tell (s : App) (t : ℕ) (standing : Standing) : App :=
  { s with standing := Function.update s.standing t standing }

/-- The thread `t` does `act`, a call of the library as a whole. The outputs are what it does
to the library, with the events fired. -/
def step (sequence : UInt32 → ℕ → RandResult) (s : App) :
    ℕ × AppAct → Option (List (LibAct × List Tracepoint) × App)
  | (t, .init a) =>
    if s.standing t = .fresh ∨ s.standing t = .ready then
      let th := s.init.thread t
      (initCode.step s.init (t, a)).map fun r =>
        (th.seeds.toList.map fun seed => (.srand seed, []),
          { init := r.2, standing := Function.update s.standing t th.after,
            mem := th.seeds.elim s.mem (s.mem.srand sequence) })
    else none
  | (t, .check v) =>
    match s.standing t with
    | .returned ret =>
      -- an unassigned local may hold any value
      if ret = none ∨ ret = some v then
        some ([], s.tell t (if v < 0 then .gone else .ready))
      else none
    | _ => none
  | (t, .call c) =>
    if s.standing t = .ready then
      (c.through s.init.shared.pointers s.mem).map fun r =>
        ([(.call c, r.1)], { s with mem := r.2 })
    else none
  | (t, .create u) =>
    if s.standing t = .ready ∧ s.standing u = .fresh ∧ (s.init.thread u).pc = .outside then
      some ([], s.tell u .ready)
    else none

end App

/-! ## What a thread was told -/

/-- A thread that found the flag set leaves with it set. -/
def Thread.Settled (s : Front) (th : Thread) : Prop :=
  th.pc = .unlocking none ∨ th.pc = .returning none → s.initialized = true

/-- The standing is that of a thread in a process whose flag is `set`. -/
def Standing.Ok (set : Bool) : Standing → Prop
  | .fresh => True
  | .returned ret => ∀ v, 0 ≤ v → ret = none ∨ ret = some v → set = true
  | .ready => set = true
  | .gone => True

theorem Standing.Ok.mono {set set' : Bool} {standing : Standing} (h : standing.Ok set)
    (hset : set = true → set' = true) : standing.Ok set' := by
  cases standing with
  | fresh => trivial
  | returned ret => exact fun v hv hret => hset (h v hv hret)
  | ready => exact hset h
  | gone => trivial

namespace Thread

variable {s s' : Front} {th th' : Thread} {a : Answer} {out : List Shown}

/-- The flag is never cleared. -/
theorem next_initialized (h : th.next s a = some (out, s', th')) (hset : s.initialized = true) :
    s'.initialized = true := by
  obtain ⟨-, hi, -⟩ | ⟨b, rest, addr, -, rfl, -⟩ | ⟨ret, -, rfl, -⟩ | ⟨ret, -, rfl, -⟩ :=
    next_cases h
  · exact hi.trans hset
  · exact hset
  · rfl
  · exact hset

theorem next_settled (hth : th.Settled s) (h : th.next s a = some (out, s', th')) :
    th'.Settled s' := by
  have hset := next_initialized h
  unfold next at h
  split at h
  case h_2 hpc =>
    obtain ⟨s₁, -, h⟩ := Option.map_eq_some_iff.1 h
    simp only [Prod.mk.injEq] at h
    obtain ⟨-, -, rfl⟩ := h
    simp [Settled]
  case h_3 hpc =>
    split_ifs at h
    simp only [Option.some.injEq, Prod.mk.injEq] at h
    obtain ⟨-, -, rfl⟩ := h
    simp [Settled]
  case h_16 => cases h
  all_goals
    rename_i hpc
    simp only [Option.some.injEq, Prod.mk.injEq] at h
    obtain ⟨-, rfl, rfl⟩ := h
  case h_6 =>
    intro hleaves
    by_contra hunset
    simp [hunset] at hleaves
  case h_14 ret =>
    rintro (hleaves | hleaves)
    · cases hleaves
    · obtain rfl := Pc.returning.inj hleaves
      exact hth (.inl hpc)
  all_goals
    simp only [Settled]
    try split_ifs
  all_goals simp

end Thread

/-! ## Calls through resolved pointers -/

theorem Call.symbol_eq (c : Call) : c.symbol = "_" ++ c.pointer.name := by
  cases c <;> rfl

theorem Call.through_of_resolved {pointers : Pointers} (h : pointers.Resolved) (c : Call)
    (m : Mem) : c.through pointers m = step m c := by
  obtain ⟨addr, hp⟩ := h _ (mem_assignments c.pointer)
  simp [through, hp, symbol_eq]

/-- A call that has an outcome is one of the library. -/
theorem Call.through_eq_some {pointers : Pointers} {c : Call} {m : Mem}
    {r : List Tracepoint × Mem} (h : c.through pointers m = some r) : step m c = some r := by
  unfold through at h
  split at h
  · cases h
  · split_ifs at h
    exact h

namespace App

variable {sequence : UInt32 → ℕ → RandResult} {s s' : App} {act : ℕ × AppAct}
  {out : List (LibAct × List Tracepoint)}

/-- A step is one of `blkin_init`, a check, a call through a pointer, or the creation of a
thread. -/
theorem step_cases {t : ℕ} {act : AppAct} (h : s.step sequence (t, act) = some (out, s')) :
    (∃ a outs init, initCode.step s.init (t, a) = some (outs, init) ∧
      out = (s.init.thread t).seeds.toList.map (fun seed => (.srand seed, [])) ∧
      s' = ⟨init, Function.update s.standing t (s.init.thread t).after,
        (s.init.thread t).seeds.elim s.mem (s.mem.srand sequence)⟩) ∨
    (∃ ret v, s.standing t = .returned ret ∧ (ret = none ∨ ret = some v) ∧ out = [] ∧
      s' = s.tell t (if v < 0 then .gone else .ready)) ∨
    (∃ c r, c.through s.init.shared.pointers s.mem = some r ∧ out = [(.call c, r.1)] ∧
      s' = { s with mem := r.2 }) ∨
    ∃ u, s.standing t = .ready ∧ out = [] ∧ s' = s.tell u .ready := by
  cases act with
  | init a =>
    simp only [step] at h
    split_ifs at h
    obtain ⟨⟨outs, init⟩, hinit, heq⟩ := Option.map_eq_some_iff.1 h
    obtain ⟨rfl, rfl⟩ := Prod.mk.inj heq
    exact .inl ⟨a, outs, init, hinit, rfl, rfl⟩
  | check v =>
    simp only [step] at h
    split at h
    · rename_i ret hstanding
      by_cases hret : ret = none ∨ ret = some v
      · rw [if_pos hret] at h
        obtain ⟨rfl, rfl⟩ := Prod.mk.inj (Option.some.inj h)
        exact .inr (.inl ⟨ret, v, hstanding, hret, rfl, rfl⟩)
      · rw [if_neg hret] at h
        cases h
    · cases h
  | call c =>
    simp only [step] at h
    split_ifs at h
    obtain ⟨r, hr, heq⟩ := Option.map_eq_some_iff.1 h
    obtain ⟨rfl, rfl⟩ := Prod.mk.inj heq
    exact .inr (.inr (.inl ⟨c, r, hr, rfl, rfl⟩))
  | create u =>
    simp only [step] at h
    split_ifs at h with hready
    obtain ⟨rfl, rfl⟩ := Prod.mk.inj (Option.some.inj h)
    exact .inr (.inr (.inr ⟨u, hready.1, rfl, rfl⟩))

/-- What a step does to the library, by itself. -/
theorem step_lib (h : s.step sequence act = some (out, s')) :
    run (libStep sequence) s.mem (out.map Prod.fst) = some (out.flatMap Prod.snd, s'.mem) := by
  obtain ⟨a, outs, init, -, rfl, rfl⟩ | ⟨ret, v, -, -, rfl, rfl⟩ | ⟨c, r, hr, rfl, rfl⟩ |
    ⟨u, -, rfl, rfl⟩ := step_cases h
  · cases (s.init.thread act.1).seeds with
    | none => rfl
    | some seed => rfl
  · rfl
  · show run (libStep sequence) s.mem [.call c] = some (r.1 ++ [], r.2)
    rw [run_singleton, libStep, Call.through_eq_some hr, List.append_nil]
  · rfl

/-- The flag is set wherever a thread was told so. -/
structure Inv (s : App) : Prop where
  init : InitInv s.init
  settled : ∀ t, (s.init.thread t).Settled s.init.shared
  standing : ∀ t, (s.standing t).Ok s.init.shared.initialized

theorem inv_start (fds : Finset ℕ) (limit : ℕ) (gen : Generator) (dlerror : ℕ → Bool) (m : Mem) :
    Inv (start fds limit gen dlerror m) where
  init := initInv_start fds limit gen dlerror
  settled t := by simp [start, startInit, Thread.Settled]
  standing _ := trivial

/-- One more thread was told. -/
theorem Inv.tell (h : s.Inv) {t : ℕ} {standing : Standing}
    (hok : standing.Ok s.init.shared.initialized) : (s.tell t standing).Inv where
  init := h.init
  settled := h.settled
  standing u := by
    show (Function.update s.standing t standing u).Ok _
    rcases eq_or_ne u t with rfl | hne
    · rwa [Function.update_self]
    · rw [Function.update_of_ne hne]
      exact h.standing u

/-- What a thread knows after a step of `blkin_init`. -/
theorem Inv.after_ok (h : s.Inv) (t : ℕ) :
    (s.init.thread t).after.Ok s.init.shared.initialized := by
  have hok := h.init.thread t
  have hsettled := h.settled t
  unfold Thread.after
  split
  · rename_i ret hpc
    rw [Thread.Ok, hpc] at hok
    rintro v hv (rfl | rfl)
    · exact hsettled (.inr hpc)
    · obtain ⟨-, hret⟩ | ⟨-, -, hret | hret⟩ | ⟨-, -, -, hset⟩ := hok
      · cases hret
      · obtain rfl : v = -enoent := Option.some.inj hret
        exact absurd hv (by decide)
      · obtain rfl : v = -enxio := Option.some.inj hret
        exact absurd hv (by decide)
      · exact hset
  · trivial

/-- A step of `blkin_init`. -/
theorem Inv.init_step (h : s.Inv) {t : ℕ} {a : Answer} {outs : List (ℕ × Shown)}
    {init : State Front Thread} (hs : initCode.step s.init (t, a) = some (outs, init)) (m : Mem) :
    Inv ⟨init, Function.update s.standing t (s.init.thread t).after, m⟩ := by
  have hinit := discipline_init.keeps s.init [] (t, a) outs init h.init hs
  have hafter := h.after_ok t
  obtain ⟨-, o, g, th, hnext, -, rfl⟩ := Code.step_eq_some.1 hs
  have hset : s.init.shared.initialized = true → g.initialized = true :=
    Thread.next_initialized hnext
  refine ⟨hinit, fun u => ?_, fun u => ?_⟩
  · rcases eq_or_ne u t with rfl | hne
    · simpa using Thread.next_settled (h.settled u) hnext
    · show (Function.update s.init.thread t th u).Settled g
      rw [Function.update_of_ne hne]
      exact fun hpc => hset (h.settled u hpc)
  · show (Function.update s.standing t (s.init.thread t).after u).Ok g.initialized
    rcases eq_or_ne u t with rfl | hne
    · rw [Function.update_self]
      exact hafter.mono hset
    · rw [Function.update_of_ne hne]
      exact (h.standing u).mono hset

theorem Inv.step (h : s.Inv) (hs : s.step sequence act = some (out, s')) : s'.Inv := by
  have hok := h.standing act.1
  obtain ⟨a, outs, init, hinit, -, rfl⟩ | ⟨ret, v, hstanding, hret, -, rfl⟩ |
    ⟨c, r, -, -, rfl⟩ | ⟨u, hready, -, rfl⟩ := step_cases hs
  · exact h.init_step hinit _
  · rw [hstanding] at hok
    split_ifs with hneg
    · exact h.tell trivial
    · exact h.tell (hok v (Int32.not_lt.1 hneg) hret)
  · exact ⟨h.init, h.settled, h.standing⟩
  · rw [hready] at hok
    exact h.tell hok

/-- A thread that may call the library calls it. -/
theorem Inv.call (h : s.Inv) {t : ℕ} (ht : s.standing t = .ready) (c : Call) :
    s.step sequence (t, .call c) =
      (Blkin.step s.mem c).map fun r => ([(.call c, r.1)], { s with mem := r.2 }) := by
  have hset := h.standing t
  rw [ht] at hset
  simp only [App.step, if_pos ht]
  rw [Call.through_of_resolved (h.init.shared hset)]

/-- In every interleaving of threads that keep to the rule, what they did is a program of
the library, and each thread that was told so can make every call that the library can. -/
theorem linked {fds : Finset ℕ} {limit : ℕ} {gen : Generator} {dlerror : ℕ → Bool} {m : Mem}
    {acts : List (ℕ × AppAct)} {outs : List (LibAct × List Tracepoint)}
    (hrun : run (step sequence) (start fds limit gen dlerror m) acts = some (outs, s)) :
    run (libStep sequence) m (outs.map Prod.fst) = some (outs.flatMap Prod.snd, s.mem) ∧
      ∀ t, s.standing t = .ready → ∀ c, s.step sequence (t, .call c) =
        (Blkin.step s.mem c).map fun r => ([(.call c, r.1)], { s with mem := r.2 }) := by
  have keeps : Keeps (step sequence) fun s outs => s.Inv ∧
      run (libStep sequence) m (outs.map Prod.fst) = some (outs.flatMap Prod.snd, s.mem) := by
    rintro s outs act out s' ⟨hinv, hlib⟩ hs
    refine ⟨hinv.step hs, ?_⟩
    rw [List.map_append, List.flatMap_append]
    exact run_append_eq_some.2 ⟨_, _, _, hlib, step_lib hs, rfl⟩
  have hstart : Inv (start fds limit gen dlerror m) ∧
      run (libStep sequence) m (([] : List (LibAct × List Tracepoint)).map Prod.fst) =
        some ([], m) := ⟨inv_start fds limit gen dlerror m, rfl⟩
  obtain ⟨hinv, hlib⟩ := keeps.run hstart hrun
  exact ⟨hlib, fun t ht c => hinv.call ht c⟩

/-- The steps of the thread `t` in `blkin_init` with these answers. -/
def initSteps (t : ℕ) (answers : List Answer) : List (ℕ × AppAct) :=
  answers.map fun a => (t, .init a)

/-- The thread 0 resolves the symbols and creates 1, which sets up an endpoint. 2 finds the
flag set, is returned an unassigned local that is 7, and starts a trace. -/
def threeThreads : List (ℕ × AppAct) :=
  initSteps 0 (enterAnswers ++ resolveAnswers) ++ [(0, .check 0), (0, .create 1)] ++
    initSteps 2 (enterAnswers ++ [.done, .done]) ++
    [(1, .call (.endpoint (some 0) none 80 none)), (2, .check 7),
      (2, .call (.newTrace (some 0) none (some 0)))]

theorem linked_three_threads :
    let sequence : UInt32 → ℕ → RandResult := fun seed n => .ofNat (seed.toNat + n)
    let m : Mem := .static .little (sequence 1)
    ∃ outs s, run (step sequence) (start ∅ 0 ⟨1, 0⟩ (fun _ => false) m) threeThreads =
        some (outs, s) ∧
      run (libStep sequence) m [.srand 0, .srand 0, .call (.endpoint (some 0) none 80 none),
        .call (.newTrace (some 0) none (some 0))] = some (outs.flatMap Prod.snd, s.mem) ∧
      ∀ c, s.step sequence (2, .call c) =
        (Blkin.step s.mem c).map fun r => ([(.call c, r.1)], { s with mem := r.2 }) := by
  intro sequence m
  refine exists_of_map_eq (f := fun r => (r.1.map Prod.fst, r.2.standing 2))
    (c := ([.srand 0, .srand 0, .call (.endpoint (some 0) none 80 none),
      .call (.newTrace (some 0) none (some 0))], .ready)) (by decide +kernel) ?_
  intro outs s hr hf
  obtain ⟨hacts, hready⟩ := Prod.mk.inj hf
  obtain ⟨hlib, hcall⟩ := linked hr
  rw [← hacts]
  exact ⟨hlib, hcall 2 hready⟩

end App

end Blkin
