import Blkin.Front
import Blkin.Threads

/-!
# Threads in `blkin_init`

Any number of threads call `blkin_init` any number of times. A step of a thread is one
call it makes, or one access to what threads share, with the answer of the system where
there is one. The descriptors and the generator are used outside the mutex, the flag and
the pointers inside.

`resolution_safe` : in any interleaving at most one thread is in the locked section,
`initialized` is set only once every pointer holds the symbol of its own name, and from
then on nothing writes the flag or a pointer again.

`returns_iff` is about the status a call returns. It tells whether the library is
initialized exactly if the call found `initialized` unset, and made the library
initialized itself or returns before another thread does. A call that found the flag set
returns an unassigned local.
-/

open Machine Threads

namespace Blkin

/-- Where a thread is. -/
inductive Pc
  | outside
  | opening
  | reading (inf : Option ℕ)
  | seeding (seed : UInt32) (full : Bool)
  | locking
  | testing
  | loading
  | clearing
  /-- The assignments that are left. -/
  | resolving (rest : List (Pointer × String))
  /-- `dlerror` is checked for the assignment before these. -/
  | checking (rest : List (Pointer × String))
  /-- `resolve_symbols` returned. -/
  | deciding (ret : Int32)
  | setting (ret : Int32)
  | unlocking (ret : Option Int32)
  | returning (ret : Option Int32)
  deriving DecidableEq

/-- A thread, whether `dlerror` has an error to report in it, and what its call met : the
flag as it was tested, and whether a `dlopen` or `dlsym` failed. -/
structure Thread where
  pc : Pc
  dlerror : Bool
  found : Bool
  failed : Bool
  deriving DecidableEq

/-- An answer of the system. -/
inductive Answer
  | done
  | open (inf : Option ℕ)
  | read (seed : UInt32) (full : Bool)
  | dlopen (handle : Bool)
  | dlsym (addr : Option ℕ)

/-- What a call returned, what it met, and the flag as it returns. -/
structure Returned where
  ret : Option Int32
  found : Bool
  failed : Bool
  initialized : Bool
  deriving DecidableEq

/-- What a step does that shows. -/
inductive Shown
  | seeded (full : Bool)
  | wrotePointer (p : Pointer)
  | wroteFlag
  | returned (r : Returned)
  deriving DecidableEq

namespace Thread

def lock (th : Thread) : LockOp :=
  match th.pc with
  | .locking => .acquire
  | .unlocking _ => .release
  | _ => .keep

/-- What the thread returns with `ret`. -/
def result (s : Front) (th : Thread) (ret : Option Int32) : Returned :=
  ⟨ret, th.found, th.failed, s.initialized⟩

/-- The next step of `blkin_init`. -/
def next (s : Front) (th : Thread) (a : Answer) : Option (List Shown × Front × Thread) :=
  match th.pc, a with
  | .outside, .done => some ([], s, { th with pc := .opening })
  | .opening, .open inf => (s.openUrandom inf).map fun s => ([], s, { th with pc := .reading inf })
  | .reading inf, .read seed full =>
    if full ∧ inf = none then none else some ([], s, { th with pc := .seeding seed full })
  | .seeding seed full, .done => some ([.seeded full], s.srand seed, { th with pc := .locking })
  | .locking, .done => some ([], s, { th with pc := .testing })
  | .testing, .done =>
    let pc := if s.initialized then .unlocking none else .loading
    some ([], s, { th with pc := pc, found := s.initialized, failed := false })
  | .loading, .dlopen handle =>
    -- a failure is printed with `dlerror()`, which clears it
    let pc := if handle then .clearing else .deciding (-enoent)
    some ([], s, { th with pc := pc, dlerror := th.dlerror && handle, failed := !handle })
  | .clearing, .done => some ([], s, { th with pc := .resolving assignments, dlerror := false })
  | .resolving [], .done => some ([], s, { th with pc := .deciding 0 })
  | .resolving (b :: rest), .dlsym addr =>
    some ([.wrotePointer b.1], { s with pointers := s.pointers.assign b addr },
      { th with pc := .checking rest, dlerror := th.dlerror || addr.isNone,
                failed := th.failed || addr.isNone })
  | .checking rest, .done =>
    let pc := if th.dlerror then .deciding (-enxio) else .resolving rest
    some ([], s, { th with pc := pc, dlerror := false })
  | .deciding ret, .done =>
    let pc := if 0 ≤ ret then .setting ret else .unlocking (some ret)
    some ([], s, { th with pc := pc })
  | .setting ret, .done =>
    some ([.wroteFlag], { s with initialized := true }, { th with pc := .unlocking (some ret) })
  | .unlocking ret, .done => some ([], s, { th with pc := .returning ret })
  | .returning ret, .done =>
    some ([.returned (th.result s ret)], s, { th with pc := .outside })
  | _, _ => none

end Thread

/-- The code every thread runs. -/
def initCode : Code Front Thread Answer Shown :=
  ⟨Thread.lock, Thread.next⟩

/-- No thread is in `blkin_init`, and nothing was resolved. `dlerror` may have an error of
the application to report. -/
def startInit (fds : Finset ℕ) (limit : ℕ) (gen : Generator) (dlerror : ℕ → Bool) :
    State Front Thread :=
  ⟨.start fds limit gen, none, fun t => ⟨.outside, dlerror t, false, false⟩⟩

/-! ## The locked section -/

/-- Between taking the mutex and giving it back. -/
def Thread.Inside (th : Thread) : Prop :=
  match th.pc with
  | .testing | .loading | .clearing | .resolving _ | .checking _ | .deciding _ | .setting _
  | .unlocking _ => True
  | _ => False

/-- Every pointer holds its symbol. -/
def Pointers.Resolved (pointers : Pointers) : Prop :=
  ∀ b ∈ assignments, pointers.Holds b

/-- The flag is set only once every pointer holds its symbol. -/
def Front.Sound (s : Front) : Prop :=
  s.initialized = true → s.pointers.Resolved

/-- The call found the flag unset and it still is. -/
def Thread.Working (s : Front) (th : Thread) : Prop :=
  s.initialized = false ∧ th.found = false

/-- The assignments before `rest` were made and their pointers hold their symbols. -/
def Pointers.Before (pointers : Pointers) (rest : List (Pointer × String)) : Prop :=
  ∃ made, assignments = made ++ rest ∧ ∀ b ∈ made, pointers.Holds b

/-- What `resolve_symbols` returned. -/
def Thread.Outcome (s : Front) (th : Thread) (ret : Int32) : Prop :=
  th.failed = true ∧ (ret = -enoent ∨ ret = -enxio) ∨
    th.failed = false ∧ ret = 0 ∧ s.pointers.Resolved

/-- What a call returns : an unassigned local if it found the flag set, an error if it
failed, and 0 if it did not, with the flag set. -/
def Returned.Ok (r : Returned) : Prop :=
  r.found = true ∧ r.ret = none ∨
    r.found = false ∧ r.failed = true ∧ (r.ret = some (-enoent) ∨ r.ret = some (-enxio)) ∨
    r.found = false ∧ r.failed = false ∧ r.ret = some 0 ∧ r.initialized = true

/-- What holds where the thread is. -/
def Thread.Ok (s : Front) (th : Thread) : Prop :=
  match th.pc with
  | .loading => th.Working s
  | .clearing => th.Working s ∧ th.failed = false
  | .resolving rest =>
    th.Working s ∧ th.failed = false ∧ th.dlerror = false ∧ s.pointers.Before rest
  | .checking rest =>
    th.Working s ∧ th.failed = th.dlerror ∧ (th.dlerror = false → s.pointers.Before rest)
  | .deciding ret => th.Working s ∧ th.Outcome s ret
  | .setting ret => th.Working s ∧ th.failed = false ∧ ret = 0 ∧ s.pointers.Resolved
  | .unlocking ret => (th.result s ret).Ok
  | .returning ret => (th.result s ret).Ok
  | _ => True

/-- A pointer or the flag is written. -/
def Shown.Writes : Shown → Prop
  | .wrotePointer _ => True
  | .wroteFlag => True
  | _ => False

theorem Pointers.before_assignments (pointers : Pointers) : pointers.Before assignments :=
  ⟨[], rfl, by simp⟩

theorem Pointers.Before.resolved {pointers : Pointers} (h : pointers.Before []) :
    pointers.Resolved := by
  obtain ⟨made, hmade, hholds⟩ := h
  rw [List.append_nil] at hmade
  rw [Resolved, hmade]
  exact hholds

/-- An assignment that succeeds, of a pointer that was not assigned before. -/
theorem Pointers.Before.assign {pointers : Pointers} {b : Pointer × String}
    {rest : List (Pointer × String)} {addr : Option ℕ} (h : pointers.Before (b :: rest))
    (haddr : addr ≠ none) : (pointers.assign b addr).Before rest := by
  obtain ⟨made, hmade, hholds⟩ := h
  have hnodup := nodup_assignments
  rw [hmade, List.map_append, List.nodup_append] at hnodup
  refine ⟨made ++ [b], by simp [hmade], fun b' hb' => ?_⟩
  rcases List.mem_append.1 hb' with hb' | hb'
  · exact (hholds b' hb').assign
      (hnodup.2.2 _ (List.mem_map_of_mem hb') _ (by simp))
  · obtain rfl := List.mem_singleton.1 hb'
    exact Pointers.holds_assign haddr

theorem Front.openUrandom_shared {s s' : Front} {inf : Option ℕ}
    (h : s.openUrandom inf = some s') :
    s'.pointers = s.pointers ∧ s'.initialized = s.initialized := by
  obtain ⟨-, rfl⟩ | ⟨fd, -, -, rfl⟩ := Front.of_openUrandom h
  · exact ⟨rfl, rfl⟩
  · exact ⟨rfl, rfl⟩

namespace Thread

variable {s s' : Front} {th th' : Thread} {a : Answer} {out : List Shown}

/-- What a step does to the pointers and the flag, and what shows of it. -/
theorem next_cases (h : th.next s a = some (out, s', th')) :
    (s'.pointers = s.pointers ∧ s'.initialized = s.initialized ∧
      ∀ o ∈ out, ∃ full, o = .seeded full) ∨
    (∃ b rest addr, th.pc = .resolving (b :: rest) ∧
      s' = { s with pointers := s.pointers.assign b addr } ∧ out = [.wrotePointer b.1]) ∨
    (∃ ret, th.pc = .setting ret ∧ s' = { s with initialized := true } ∧ out = [.wroteFlag]) ∨
    ∃ ret, th.pc = .returning ret ∧ s' = s ∧ out = [.returned (th.result s ret)] := by
  unfold next at h
  split at h
  case h_2 inf _ =>
    obtain ⟨s₁, hopen, h⟩ := Option.map_eq_some_iff.1 h
    simp only [Prod.mk.injEq] at h
    obtain ⟨rfl, rfl, -⟩ := h
    obtain ⟨hp, hi⟩ := Front.openUrandom_shared hopen
    exact .inl ⟨hp, hi, by simp⟩
  case h_3 =>
    split_ifs at h
    simp only [Option.some.injEq, Prod.mk.injEq] at h
    obtain ⟨rfl, rfl, -⟩ := h
    exact .inl ⟨rfl, rfl, by simp⟩
  case h_10 _ b rest addr hpc =>
    simp only [Option.some.injEq, Prod.mk.injEq] at h
    obtain ⟨rfl, rfl, -⟩ := h
    exact .inr (.inl ⟨b, rest, addr, hpc, rfl, rfl⟩)
  case h_13 _ ret hpc =>
    simp only [Option.some.injEq, Prod.mk.injEq] at h
    obtain ⟨rfl, rfl, -⟩ := h
    exact .inr (.inr (.inl ⟨ret, hpc, rfl, rfl⟩))
  case h_15 _ ret hpc =>
    simp only [Option.some.injEq, Prod.mk.injEq] at h
    obtain ⟨rfl, rfl, -⟩ := h
    exact .inr (.inr (.inr ⟨ret, hpc, rfl, rfl⟩))
  case h_16 => cases h
  all_goals
    simp only [Option.some.injEq, Prod.mk.injEq] at h
    obtain ⟨rfl, rfl, -⟩ := h
    exact .inl ⟨rfl, rfl, by simp⟩

/-- What holds where a thread is depends on the pointers and the flag. -/
theorem Ok.congr (h : th.Ok s) (hp : s'.pointers = s.pointers)
    (hi : s'.initialized = s.initialized) : th.Ok s' := by
  unfold Ok Working Outcome result at h ⊢
  simpa only [hp, hi] using h

/-- Outside the locked section nothing but the flag matters, once it is set. -/
theorem Ok.of_not_inside (h : th.Ok s) (hth : ¬th.Inside)
    (hi : s.initialized = true → s'.initialized = true) : th.Ok s' := by
  unfold Inside at hth
  unfold Ok at h ⊢
  cases hpc : th.pc with
  | returning ret =>
    rw [hpc] at h
    exact h.imp_right fun h => h.imp_right fun ⟨hfound, hfailed, hret, hset⟩ =>
      ⟨hfound, hfailed, hret, hi hset⟩
  | outside | opening | reading | seeding | locking => trivial
  | _ => exact absurd trivial (by rwa [hpc] at hth)

/-- Taking and giving back the mutex. -/
theorem next_lock (h : th.next s a = some (out, s', th')) :
    match th.lock with
    | .keep => th'.Inside ↔ th.Inside
    | .acquire => ¬th.Inside ∧ th'.Inside
    | .release => th.Inside ∧ ¬th'.Inside := by
  unfold next at h
  split at h
  case h_2 hpc =>
    obtain ⟨s₁, -, h⟩ := Option.map_eq_some_iff.1 h
    simp only [Prod.mk.injEq] at h
    obtain ⟨-, -, rfl⟩ := h
    simp [lock, Inside, hpc]
  case h_3 hpc =>
    split_ifs at h
    simp only [Option.some.injEq, Prod.mk.injEq] at h
    obtain ⟨-, -, rfl⟩ := h
    simp [lock, Inside, hpc]
  case h_16 => cases h
  all_goals
    rename_i hpc
    simp only [Option.some.injEq, Prod.mk.injEq] at h
    obtain ⟨-, -, rfl⟩ := h
    simp only [lock, Inside, hpc]
    try split_ifs
  all_goals trivial

/-- Every step of a thread keeps what holds of what it shares and of itself. -/
theorem next_own (hs : s.Sound) (hok : th.Ok s) (h : th.next s a = some (out, s', th')) :
    s'.Sound ∧ th'.Ok s' := by
  unfold Ok at hok
  unfold next at h
  split at h
  case h_2 hpc =>
    obtain ⟨s₁, hopen, h⟩ := Option.map_eq_some_iff.1 h
    simp only [Prod.mk.injEq] at h
    obtain ⟨-, rfl, rfl⟩ := h
    obtain ⟨hp, hi⟩ := Front.openUrandom_shared hopen
    exact ⟨by rwa [Front.Sound, hp, hi], trivial⟩
  case h_3 =>
    split_ifs at h
    simp only [Option.some.injEq, Prod.mk.injEq] at h
    obtain ⟨-, rfl, rfl⟩ := h
    exact ⟨hs, trivial⟩
  case h_16 => cases h
  all_goals
    rename_i hpc
    rw [hpc] at hok
    simp only [Option.some.injEq, Prod.mk.injEq] at h
    obtain ⟨-, rfl, rfl⟩ := h
  case h_1 | h_4 | h_5 | h_15 => exact ⟨hs, trivial⟩
  case h_6 =>
    cases hset : s.initialized with
    | true => exact ⟨hs, .inl ⟨rfl, rfl⟩⟩
    | false => exact ⟨hs, hset, rfl⟩
  case h_7 handle =>
    cases handle with
    | true => exact ⟨hs, hok, rfl⟩
    | false => exact ⟨hs, hok, .inl ⟨rfl, .inl rfl⟩⟩
  case h_8 => exact ⟨hs, hok.1, hok.2, rfl, s.pointers.before_assignments⟩
  case h_9 => exact ⟨hs, hok.1, .inr ⟨hok.2.1, rfl, hok.2.2.2.resolved⟩⟩
  case h_10 b rest addr =>
    obtain ⟨hworking, hfailed, hdlerror, hbefore⟩ := hok
    refine ⟨fun hset => absurd hset (by simp [hworking.1]), hworking, by simp [hfailed, hdlerror],
      fun herror => hbefore.assign ?_⟩
    rintro rfl
    simp at herror
  case h_11 rest =>
    obtain ⟨hworking, hfailed, hbefore⟩ := hok
    refine ⟨hs, ?_⟩
    cases herror : th.dlerror with
    | true => exact ⟨hworking, .inl ⟨hfailed.trans herror, .inr rfl⟩⟩
    | false => exact ⟨hworking, hfailed.trans herror, rfl, hbefore herror⟩
  case h_12 ret =>
    obtain ⟨hworking, houtcome⟩ := hok
    refine ⟨hs, ?_⟩
    obtain ⟨hfailed, rfl | rfl⟩ | ⟨hfailed, rfl, hresolved⟩ := houtcome
    · exact .inr (.inl ⟨hworking.2, hfailed, .inl rfl⟩)
    · exact .inr (.inl ⟨hworking.2, hfailed, .inr rfl⟩)
    · exact ⟨hworking, hfailed, rfl, hresolved⟩
  case h_13 ret =>
    obtain ⟨hworking, hfailed, rfl, hresolved⟩ := hok
    exact ⟨fun _ => hresolved, .inr (.inr ⟨hworking.2, hfailed, rfl, rfl⟩)⟩
  case h_14 => exact ⟨hs, hok⟩

end Thread

/-- The code of `blkin_init` keeps to the mutex. -/
theorem discipline_init : Discipline initCode Thread.Inside Front.Sound fun s th => th.Ok s where
  lock h := Thread.next_lock h
  own hs hok h := Thread.next_own hs hok h
  outside h hth hu := by
    obtain ⟨hp, hi, -⟩ | ⟨b, rest, addr, hpc, -⟩ | ⟨ret, hpc, -⟩ | ⟨ret, -, rfl, -⟩ :=
      Thread.next_cases h
    · exact hu.congr hp hi
    · exact absurd (by simp [Thread.Inside, hpc]) hth
    · exact absurd (by simp [Thread.Inside, hpc]) hth
    · exact hu
  stable _ h hu hok := by
    refine hok.of_not_inside hu fun hset => ?_
    obtain ⟨-, hi, -⟩ | ⟨b, rest, addr, -, rfl, -⟩ | ⟨ret, -, rfl, -⟩ | ⟨ret, -, rfl, -⟩ :=
      Thread.next_cases h
    · rwa [hi]
    · exact hset
    · rfl
    · exact hset

/-- The invariant of any number of threads in `blkin_init`. -/
abbrev InitInv (s : State Front Thread) : Prop :=
  Locked Thread.Inside Front.Sound (fun s th => Thread.Ok s th) s

theorem initInv_start (fds : Finset ℕ) (limit : ℕ) (gen : Generator) (dlerror : ℕ → Bool) :
    InitInv (startInit fds limit gen dlerror) where
  shared h := by cases h
  thread t := trivial
  owner t := by simp [startInit, Thread.Inside]

/-! ## The flag, the pointers, and the status -/

/-- Nothing is written once the flag is set. -/
theorem InitInv.writes_nothing {s s' : State Front Thread} {act : ℕ × Answer}
    {out : List (ℕ × Shown)} (h : InitInv s) (hset : s.shared.initialized = true)
    (hs : initCode.step s act = some (out, s')) : s'.shared.initialized = true ∧
      s'.shared.pointers = s.shared.pointers ∧ ∀ o ∈ out, ¬o.2.Writes := by
  obtain ⟨t, a⟩ := act
  obtain ⟨-, o, g, th, hnext, rfl, rfl⟩ := Code.step_eq_some.1 hs
  have hok := h.thread t
  unfold Thread.Ok at hok
  obtain ⟨hp, hi, hquiet⟩ | ⟨b, rest, addr, hpc, -⟩ | ⟨ret, hpc, -⟩ | ⟨ret, -, rfl, rfl⟩ :=
    Thread.next_cases hnext
  · refine ⟨hi.trans hset, hp, fun o ho => ?_⟩
    obtain ⟨o', ho', rfl⟩ := List.mem_map.1 ho
    obtain ⟨full, rfl⟩ := hquiet o' ho'
    exact id
  · simp only [hpc] at hok
    exact absurd hset (by simp [hok.1.1])
  · simp only [hpc] at hok
    exact absurd hset (by simp [hok.1.1])
  · exact ⟨hset, rfl, by simp [Shown.Writes]⟩

theorem InitInv.run_writes_nothing {s s' : State Front Thread} {acts : List (ℕ × Answer)}
    {outs : List (ℕ × Shown)} (h : InitInv s) (hset : s.shared.initialized = true)
    (hrun : run initCode.step s acts = some (outs, s')) : s'.shared.initialized = true ∧
      s'.shared.pointers = s.shared.pointers ∧ ∀ o ∈ outs, ¬o.2.Writes := by
  have keeps : Keeps initCode.step fun r outs => InitInv r ∧ r.shared.initialized = true ∧
      r.shared.pointers = s.shared.pointers ∧ ∀ o ∈ outs, ¬o.2.Writes := by
    rintro r outs act out r' ⟨hr, hset, hp, hquiet⟩ hstep
    obtain ⟨hset', hp', hquiet'⟩ := hr.writes_nothing hset hstep
    refine ⟨discipline_init.keeps r outs act out r' hr hstep, hset', hp'.trans hp, ?_⟩
    exact fun o ho => (List.mem_append.1 ho).elim (hquiet o) (hquiet' o)
  have hstart : InitInv s ∧ s.shared.initialized = true ∧
      s.shared.pointers = s.shared.pointers ∧ ∀ o ∈ ([] : List (ℕ × Shown)), ¬o.2.Writes :=
    ⟨h, hset, rfl, by simp⟩
  exact (keeps.run hstart hrun).2

/-- In every interleaving of any number of calls, whatever fails : at most one thread is
in the locked section; the flag is set only if every pointer holds the symbol of its own
name; and once it is, neither the flag nor a pointer is written again. -/
theorem resolution_safe {fds : Finset ℕ} {limit : ℕ} {gen : Generator} {dlerror : ℕ → Bool}
    {acts : List (ℕ × Answer)} {outs : List (ℕ × Shown)} {s : State Front Thread}
    (hrun : run initCode.step (startInit fds limit gen dlerror) acts = some (outs, s)) :
    (∀ t u, (s.thread t).Inside → (s.thread u).Inside → t = u) ∧
    (s.shared.initialized = true → ∀ p : Pointer, ∃ addr,
      s.shared.pointers p = some ⟨"_" ++ p.name, addr⟩) ∧
    (s.shared.initialized = true → ∀ acts' outs' s',
      run initCode.step s acts' = some (outs', s') → s'.shared.initialized = true ∧
        s'.shared.pointers = s.shared.pointers ∧ ∀ o ∈ outs', ¬o.2.Writes) := by
  have h : InitInv s :=
    discipline_init.keeps.run_state (initInv_start fds limit gen dlerror) hrun
  refine ⟨fun t u ht hu => h.eq_of_inside ht hu, fun hset p => ?_, fun hset _ _ _ hrun' =>
    h.run_writes_nothing hset hrun'⟩
  exact h.shared hset _ (mem_assignments p)

/-- The answers until the flag is tested, with no descriptor left to open. -/
def enterAnswers : List Answer :=
  [.done, .open none, .read 0 false, .done, .done, .done]

/-- The answers from there on if every symbol is found. -/
def resolveAnswers : List Answer :=
  [.dlopen true, .done] ++ assignments.flatMap (fun _ => [.dlsym (some 0), .done]) ++
    [.done, .done, .done, .done, .done]

/-- The answers from there on until the mutex is given back, if the second symbol is not
found. -/
def failAnswers : List Answer :=
  [.dlopen true, .done, .dlsym (some 0), .done, .dlsym none, .done, .done, .done]

/-- The steps of the thread `t` with these answers. -/
def stepsOf (t : ℕ) (answers : List Answer) : List (ℕ × Answer) :=
  answers.map fun a => (t, a)

/-- The threads 0 and 1 are in `blkin_init` together. 0 takes the mutex first and fails,
1 resolves all symbols and returns, 0 returns and calls again. -/
def twoThreads : List (ℕ × Answer) :=
  stepsOf 1 (enterAnswers.take 4) ++ stepsOf 0 (enterAnswers ++ failAnswers) ++
    stepsOf 1 (enterAnswers.drop 4 ++ resolveAnswers) ++
    stepsOf 0 ([.done] ++ enterAnswers ++ [.done, .done])

theorem resolution_safe_two_threads : ∃ outs s,
    run initCode.step (startInit ∅ 0 ⟨1, 0⟩ fun _ => true) twoThreads = some (outs, s) ∧
      s.shared.initialized = true ∧
      ∀ p : Pointer, ∃ addr, s.shared.pointers p = some ⟨"_" ++ p.name, addr⟩ := by
  refine exists_of_map_eq (f := fun r => r.2.shared.initialized) (c := true) (by decide) ?_
  intro outs s hr hf
  exact ⟨hf, (resolution_safe hr).2.1 hf⟩

namespace Returned

/-- The status is assigned, and tells whether the library is initialized. -/
def Tells (r : Returned) : Prop :=
  ∃ v, r.ret = some v ∧ (0 ≤ v ↔ r.initialized = true) ∧
    (r.initialized = false → v = -enoent ∨ v = -enxio)

theorem Ok.tells_iff {r : Returned} (h : r.Ok) :
    r.Tells ↔ r.found = false ∧ (r.failed = false ∨ r.initialized = false) := by
  obtain ⟨hfound, hret⟩ | ⟨hfound, hfailed, hret⟩ | ⟨hfound, hfailed, hret, hset⟩ := h
  · refine iff_of_false ?_ (by simp [hfound])
    rintro ⟨v, hv, -⟩
    rw [hret] at hv
    cases hv
  · constructor
    · rintro ⟨v, hv, hiff, -⟩
      refine ⟨hfound, .inr (Bool.eq_false_iff.2 fun hset => ?_)⟩
      have hnonneg := hiff.2 hset
      rcases hret with hret | hret
      · obtain rfl := Option.some.inj (hret.symm.trans hv)
        exact absurd hnonneg (by decide)
      · obtain rfl := Option.some.inj (hret.symm.trans hv)
        exact absurd hnonneg (by decide)
    · rintro ⟨-, hset⟩
      have hset := hset.resolve_left (by simp [hfailed])
      rcases hret with hret | hret
      · exact ⟨_, hret, iff_of_false (by decide) (by simp [hset]), fun _ => .inl rfl⟩
      · exact ⟨_, hret, iff_of_false (by decide) (by simp [hset]), fun _ => .inr rfl⟩
  · refine iff_of_true ⟨0, hret, iff_of_true (by decide) hset, ?_⟩ ⟨hfound, .inl hfailed⟩
    simp [hset]

end Returned

/-- What a thread returns is its result. -/
theorem Thread.next_returned {s s' : Front} {th th' : Thread} {a : Answer} {out : List Shown}
    (h : th.next s a = some (out, s', th')) {r : Returned} (hr : .returned r ∈ out) :
    s' = s ∧ ∃ ret, th.pc = .returning ret ∧ r = th.result s ret := by
  obtain ⟨-, -, hquiet⟩ | ⟨b, rest, addr, -, -, rfl⟩ | ⟨ret, -, -, rfl⟩ | ⟨ret, hpc, hs, rfl⟩ :=
    Thread.next_cases h
  · obtain ⟨full, hr⟩ := hquiet _ hr
    cases hr
  · simp at hr
  · simp at hr
  · exact ⟨hs, ret, hpc, Shown.returned.inj (List.mem_singleton.1 hr)⟩

/-- What every call returned so far, and that the flag stays set. -/
def Returns (s : State Front Thread) (outs : List (ℕ × Shown)) : Prop :=
  ∀ t r, (t, .returned r) ∈ outs →
    r.Ok ∧ (r.initialized = true → s.shared.initialized = true)

theorem keeps_returns : Keeps initCode.step fun s outs => InitInv s ∧ Returns s outs := by
  rintro s outs ⟨u, a⟩ out s' ⟨hs, hrets⟩ hstep
  refine ⟨discipline_init.keeps s outs (u, a) out s' hs hstep, fun t r hr => ?_⟩
  rcases List.mem_append.1 hr with hr | hr
  · obtain ⟨hok, hset⟩ := hrets t r hr
    exact ⟨hok, fun h => (hs.writes_nothing (hset h) hstep).1⟩
  · obtain ⟨-, o, g, th, hnext, rfl, rfl⟩ := Code.step_eq_some.1 hstep
    obtain ⟨o', ho', heq⟩ := List.mem_map.1 hr
    obtain ⟨-, rfl⟩ := Prod.mk.inj heq
    obtain ⟨rfl, ret, hpc, rfl⟩ := Thread.next_returned hnext ho'
    have hok := hs.thread u
    rw [Thread.Ok, hpc] at hok
    exact ⟨hok, id⟩

/-- The status a call returns tells whether the library is initialized as it returns
exactly if the call found the flag unset, and did not itself fail or returns while the
library is not initialized. Where it is, every pointer holds its symbol from then on. -/
theorem returns_iff {fds : Finset ℕ} {limit : ℕ} {gen : Generator} {dlerror : ℕ → Bool}
    {acts : List (ℕ × Answer)} {outs : List (ℕ × Shown)} {s : State Front Thread}
    (hrun : run initCode.step (startInit fds limit gen dlerror) acts = some (outs, s)) :
    ∀ t r, (t, .returned r) ∈ outs →
      (r.Tells ↔ r.found = false ∧ (r.failed = false ∨ r.initialized = false)) ∧
      (r.initialized = true → s.shared.pointers.Resolved) := by
  have hstart : InitInv (startInit fds limit gen dlerror) ∧
      Returns (startInit fds limit gen dlerror) [] :=
    ⟨initInv_start fds limit gen dlerror, fun t r hr => absurd hr List.not_mem_nil⟩
  obtain ⟨hinv, hrets⟩ := keeps_returns.run hstart hrun
  intro t r hr
  obtain ⟨hok, hset⟩ := hrets t r hr
  exact ⟨hok.tells_iff, fun h => hinv.shared (hset h)⟩

/-- The first of the two threads reports its failure only after the second made up for
it. -/
theorem returns_iff_two_threads : ∃ outs s,
    run initCode.step (startInit ∅ 0 ⟨1, 0⟩ fun _ => true) twoThreads = some (outs, s) ∧
      (1, .returned ⟨some 0, false, false, true⟩) ∈ outs ∧
      Returned.Tells ⟨some 0, false, false, true⟩ ∧
      (0, .returned ⟨some (-enxio), false, true, true⟩) ∈ outs ∧
      ¬Returned.Tells ⟨some (-enxio), false, true, true⟩ := by
  refine exists_of_map_eq (f := fun r =>
      (decide ((1, .returned ⟨some 0, false, false, true⟩) ∈ r.1),
        decide ((0, .returned ⟨some (-enxio), false, true, true⟩) ∈ r.1)))
    (c := (true, true)) (by decide) ?_
  intro outs s hr hf
  obtain ⟨hone, hzero⟩ := Prod.mk.inj hf
  have hone := of_decide_eq_true hone
  have hzero := of_decide_eq_true hzero
  exact ⟨hone, (returns_iff hr 1 _ hone).1.2 ⟨rfl, .inl rfl⟩, hzero,
    fun h => absurd ((returns_iff hr 0 _ hzero).1.1 h).2 (by decide)⟩

/-- One thread calls `blkin_init` twice. The second call returns an unassigned local. -/
theorem second_call_unassigned : ∃ outs s,
    run initCode.step (startInit ∅ 0 ⟨1, 0⟩ fun _ => false)
      (stepsOf 0 (enterAnswers ++ resolveAnswers ++ enterAnswers ++ [.done, .done])) =
        some (outs, s) ∧
      (0, .returned ⟨none, true, false, true⟩) ∈ outs ∧
      ¬Returned.Tells ⟨none, true, false, true⟩ := by
  refine exists_of_map_eq (f := fun r => decide ((0, .returned ⟨none, true, false, true⟩) ∈ r.1))
    (c := true) (by decide) ?_
  intro outs s hr hf
  refine ⟨of_decide_eq_true hf, ?_⟩
  rintro ⟨v, hv, -⟩
  cases hv

end Blkin
