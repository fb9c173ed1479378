import Blkin.Relay
import Blkin.SharedMemory

/-!
# The two threads of `test.cc`

`tests/test.cc` has the conversation of `tests/test_p.cc` between two threads of one
process. They share the memory and the sequence of `rand()`, so which ids a thread gets
depends on what the other drew before. Since a thread waits for a message whenever it is
not its turn, the two never call the library at the same time, and the ids are the same in
every run (`threads_emit`).
-/

open Duplex Machine

namespace Blkin

namespace Speaker

variable (A B : Speaker)

/-- Both threads, for `n` turns of their loops, once `main` made `Parent` and `Child`. -/
def threads (n : ℕ) (h : ZTracer.Heap) : State ZTracer.Heap (Move ZCall) Buffer Packet :=
  Duplex.start [] [] ((List.range' 0 n).map (A.cppRound B)) h h

/-- The events of the rounds `is`. A round takes `rand()` for the number in the message, for
the first span and for its child. -/
def talk (m : Mem) (is : List ℕ) : List Tracepoint :=
  is.flatMap fun i =>
    let k := (A.numbers + 6) * i + A.numbers
    A.exchange B (m.rootAt k) (m.childIdsAt (k + 4) (m.rootAt k))

variable {A B}

/-- The rounds from the `i`-th on, on one heap. -/
theorem passes (htrace : ∀ i, A.trace i ≠ B.trace i) (m₀ : Mem) : ∀ (n i : ℕ) {h : ZTracer.Heap},
    A.Ready m₀ ((A.numbers + 6) * i) h.mem → B.Ready m₀ ((A.numbers + 6) * i) h.mem →
      ∃ h', Round.Passes cppHost ((List.range' i n).map (A.cppRound B)) h
        (A.talk B m₀ (List.range' i n)) h'
  | 0, i, h, _, _ => ⟨h, .nil h⟩
  | n + 1, i, h, hA, hB => by
    obtain ⟨m₁, hopen, hs₁, ht₁, hv⟩ := hA.opening (B := B) (i := i)
    let u := m₀.rootAt ((A.numbers + 6) * i + A.numbers)
    let m₂ := m₁.writeInfo (.info (B.info i)) u
    have hs₂ : m₁.Spends 0 m₂ := ⟨fun h => ⟨h.rands, h.drawn, h.endp⟩⟩
    have hA₂ := hs₂.ready (hs₁.ready hA)
    have hB₂ := hs₂.ready (hs₁.ready hB)
    obtain ⟨m₃, hserve, hs₃, hkeeps⟩ := hB₂.serving (A := A) (Function.update_self ..)
    have ht₃ : A.Holds i u m₃ := hkeeps (htrace i) ht₁
    obtain ⟨m₄, hclose, hs₄, -⟩ := (hs₃.ready hA₂).record ht₃ (A.endAnnot i) A.endEvent
    have hA₄ := hs₄.ready (hs₃.ready hA₂)
    have hB₄ := hs₄.ready (hs₃.ready hB₂)
    -- The heaps of the round : only the endpoints of its two traces are set.
    let h₂ : ZTracer.Heap := ⟨m₂, (A.created i h m₁).ep⟩
    have harrive : cppHost.take (A.created i h m₁) (A.cppRound B i).arrival
        (cppHost.out (A.created i h m₁) (A.cppRound B i).request) = some h₂ :=
      congrArg (fun v => some (⟨m₁.writeInfo (.info (B.info i)) v, _⟩ : ZTracer.Heap)) hv
    have hep : (B.created i h₂ m₃).ep (A.trace i) = some A.endp :=
      (Function.update_of_ne (htrace i) _ _).trans (A.ep_created i h m₁)
    obtain ⟨h', hrest⟩ := passes htrace m₀ n (i + 1) (h := ⟨m₄, (B.created i h₂ m₃).ep⟩) hA₄ hB₄
    exact ⟨h', .cons (zrun_opening hopen) harrive (zrun_serving (h := h₂) hserve) rfl
      (zrun_closing hep ((run_moves _ _).trans hclose)) hrest⟩

theorem length_threads (A B : Speaker) (n : ℕ) (h : ZTracer.Heap) :
    (A.threads B n h .a).prog.length + (A.threads B n h .b).prog.length =
      (A.numbers + 11) * n := by
  simp [threads, Duplex.start, join, Round.leader, Round.follower, cppRound, List.length_flatMap,
    Function.comp_def]
  ring

/-- `main` makes both endpoints. -/
theorem ready_of_main {h h₀ : ZTracer.Heap} {out : List Tracepoint} (hendp : A.endp ≠ B.endp)
    (hmain : run ZTracer.step h (A.cppSetup ++ B.cppSetup) = some (out, h₀)) :
    A.Ready h.mem 0 h₀.mem ∧ B.Ready h.mem 0 h₀.mem := by
  obtain ⟨m₁, hsetup, hA, -⟩ := A.run_setup h.mem
  obtain ⟨m₂, hsetup', hB, hkeeps⟩ := B.run_setup m₁
  have hfirst := (zrun_moves _ _).symm.trans (zstep_setup hsetup)
  have hsecond := (zrun_moves _ _).symm.trans (zstep_setup (h := { h with mem := m₁ }) hsetup')
  have hboth := run_append_eq_some.2 ⟨_, _, _, hfirst, hsecond, rfl⟩
  obtain ⟨-, rfl⟩ := Prod.mk.inj (Option.some.inj (hmain.symm.trans hboth))
  exact ⟨hkeeps hendp hA, ⟨hB.rands.trans hA.rands, hB.drawn.trans hA.drawn, hB.endp⟩⟩

/-- In every order of their steps the threads emit a beginning of their talk, can go on to
its end, and never both can take a step. -/
theorem threads_emit (A B : Speaker) (n : ℕ) {h h₀ : ZTracer.Heap} {out : List Tracepoint}
    (hendp : A.endp ≠ B.endp) (htrace : ∀ i, A.trace i ≠ B.trace i)
    (hmain : run ZTracer.step h (A.cppSetup ++ B.cppSetup) = some (out, h₀)) {sched : List Side}
    {s : State ZTracer.Heap (Move ZCall) Buffer Packet} {seen : List Tracepoint}
    (hs : run cppHost.sharedStep (A.threads B n h₀) sched = some (seen, s)) :
    GoesOn cppHost.sharedStep s seen ((A.numbers + 11) * n - sched.length)
      (A.talk B h.mem (List.range n)) ∧
    ∀ i j r r', cppHost.sharedStep s i = some r → cppHost.sharedStep s j = some r' → i = j := by
  obtain ⟨hA, hB⟩ := ready_of_main hendp hmain
  obtain ⟨h', hpasses⟩ := passes htrace h.mem n 0 hA hB
  obtain ⟨⟨rest, unseen, hrest, hlen, heq⟩, honly⟩ := shared_complete hpasses hs
  refine ⟨⟨rest, unseen, _, hrest, fun i => by cases i <;> exact ⟨rfl, rfl⟩, ?_, ?_⟩, honly⟩
  · have hprog := A.length_threads B n h₀
    rw [threads] at hprog
    omega
  · rw [heq, List.range_eq_range']

/-- The threads of `test.cc` in their second round. -/
theorem threads_emit_test :
    let A := parent 0 (2 * ·) id id (2 * ·) fun _ => 0
    let B := child 1 (2 * · + 1) id id (2 * · + 1) fun _ => 0
    let h : ZTracer.Heap := ⟨.static .little fun n => .ofNat n, fun _ => none⟩
    ∃ out h₀, run ZTracer.step h (A.cppSetup ++ B.cppSetup) = some (out, h₀) ∧
      ∃ seen s, run cppHost.sharedStep (A.threads B 10 h₀)
        [.a, .a, .a, .a, .a, .b, .b, .b, .b, .b, .a, .a, .a] = some (seen, s) ∧
      seen.length = 4 ∧
      GoesOn cppHost.sharedStep s seen 107 (A.talk B h.mem (List.range 10)) ∧
      ∀ i j r r', cppHost.sharedStep s i = some r → cppHost.sharedStep s j = some r' → i = j := by
  intro A B h
  have hlength : ((run ZTracer.step h (A.cppSetup ++ B.cppSetup)).bind fun r =>
      (run cppHost.sharedStep (A.threads B 10 r.2)
        [.a, .a, .a, .a, .a, .b, .b, .b, .b, .b, .a, .a, .a]).map (·.1.length)) = some 4 := by
    decide +kernel
  obtain ⟨⟨out, h₀⟩, hmain, hrun⟩ := Option.bind_eq_some_iff.1 hlength
  refine ⟨out, h₀, hmain, exists_of_map_eq hrun fun seen s hs hseen => ⟨hseen, ?_⟩⟩
  have htrace : ∀ i, A.trace i ≠ B.trace i := fun i => Nat.ne_of_lt (Nat.lt_succ_self (2 * i))
  exact threads_emit A B 10 (by decide) htrace hmain hs

end Speaker

end Blkin
