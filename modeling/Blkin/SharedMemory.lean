import Blkin.Duplex

/-!
# Two threads over one memory

Two threads of one process run the programs of two parties, on one memory instead of two.
If a thread is at a receive whenever it does not have the turn, then at any time one of the
two at most can take a step (`exclusive`) : no two calls are ever made at the same time,
and there is only one order of the steps.
-/

open Machine

namespace Duplex

variable {μ α κ π β : Type*}

/-- Both threads see the memory `m`. -/
def share (m : μ) (s : State μ α κ π) : State μ α κ π :=
  fun i => { s i with mem := m }

/-- Thread `i` has the program and inbox `p`, and its peer `q`. -/
def both (i : Side) (m : μ) (p q : List (Instr α κ) × List π) : State μ α κ π :=
  join i ⟨m, p.1, p.2⟩ ⟨m, q.1, q.2⟩

theorem share_join (m : μ) (i : Side) (p q : Party μ α κ π) :
    share m (join i p q) = both i m (p.prog, p.inbox) (q.prog, q.inbox) := by
  funext j
  cases i <;> cases j <;> rfl

theorem both_swap (i : Side) (m : μ) (p q : List (Instr α κ) × List π) :
    both i.peer m q p = both i m p q :=
  join_swap ..

/-- No call is made while a thread waits. -/
abbrev Never (_ : α) : Prop :=
  False

theorem Turn.share {i : Side} {s : State μ α κ π} {Q : α → Prop} (h : Turn Q i s) (m : μ) :
    Turn Q i (share m s) := by
  cases h with
  | taken n hi hpeer hin hin' => exact .taken n hi hpeer hin hin'
  | given n msg hi hpeer hin hin' => exact .given n msg hi hpeer hin hin'

namespace Host

variable (H : Host μ α κ π β)

/-- Thread `i` runs its next instruction. -/
def sharedStep (s : State μ α κ π) (i : Side) : Option (List β × State μ α κ π) :=
  (H.step s i).map fun r => (r.1, share (r.2 i).mem r.2)

variable {H} {i : Side} {m m' : μ} {rest : List (Instr α κ)} {inbox : List π}
  {q : List (Instr α κ) × List π} {s : State μ α κ π}

/-- The thread that does not have the turn is stuck. -/
theorem step_peer_eq_none (h : Turn Never i s) : H.step s i.peer = none := by
  have hwaits : ∀ {n : ℕ} {p : Party μ α κ π} {closed : Bool}, Session Never .waiting n p.prog →
      p.inbox = [] → (closed = true → n = 0) → H.move p closed = none := by
    rintro n ⟨m, prog, inbox⟩ closed hp rfl hclosed
    cases hp with
    | done => rfl
    | wait x hx => exact hx.elim
    | recv k => cases closed <;> simp_all [move]
  have hclosed : ∀ {n : ℕ} {r : Role}, Session Never r n (s i).prog →
      (s i).prog.isEmpty = true → n = 0 := by
    intro n r hi hempty
    cases n with
    | zero => rfl
    | succ n =>
      rw [hi.ne_nil] at hempty
      cases hempty
  rw [step, Side.peer_peer, Option.map_eq_none_iff]
  cases h with
  | taken n hi hpeer _ hin' => exact hwaits hpeer hin' (hclosed hi)
  | given n msg hi hpeer _ hin' =>
    exact hwaits hpeer hin' fun hempty => by cases hclosed hi hempty

/-- At most one thread can take a step. -/
theorem exclusive (h : Balanced Never s) {i j : Side} {r r' : List β × State μ α κ π}
    (hi : H.sharedStep s i = some r) (hj : H.sharedStep s j = some r') : i = j := by
  obtain ⟨t, ht⟩ := h
  have hturn : ∀ {k : Side} {r : List β × State μ α κ π}, H.sharedStep s k = some r → k = t := by
    intro k r hk
    by_contra hne
    rw [Side.eq_peer (Ne.symm hne), sharedStep, step_peer_eq_none ht] at hk
    cases hk
  rw [hturn hi, hturn hj]

theorem commutes_sharedStep (H : Host μ α κ π β) : Commutes H.sharedStep (Balanced Never) where
  keeps s _ i out s' h hs := by
    obtain ⟨⟨out, t⟩, ht, heq⟩ := Option.map_eq_some_iff.1 hs
    obtain ⟨rfl, rfl⟩ := Prod.mk.inj heq
    obtain ⟨j, hj⟩ := h.step ht
    exact ⟨j, hj.share _⟩
  swap h hij hi hj := absurd (exclusive h hi hj) hij
  quiet h hij hi hj := absurd (exclusive h hi hj) hij

/-! ## Running one thread -/

theorem sharedStep_call {x : α} {out : List β} (h : H.call m x = some (out, m')) :
    H.sharedStep (both i m (.call x :: rest, inbox) q) i =
      some (out, both i m' (rest, inbox) q) := by
  simp [sharedStep, step, both, move, h, share_join]

theorem sharedRun_calls : ∀ {xs : List α} {m m' : μ} {out : List β},
    run H.call m xs = some (out, m') →
      run H.sharedStep (both i m (xs.map .call ++ rest, inbox) q) (List.replicate xs.length i) =
        some (out, both i m' (rest, inbox) q)
  | [], m, m', out, h => by
    obtain ⟨rfl, rfl⟩ : [] = out ∧ m = m' := by simpa using h
    rfl
  | x :: xs, m, m', out, h => by
    obtain ⟨out₁, m₁, out₂, hx, hxs, rfl⟩ := run_cons_eq_some.1 h
    exact run_cons_eq_some.2 ⟨out₁, _, out₂, sharedStep_call hx, sharedRun_calls hxs, rfl⟩

theorem sharedRun_send {k : κ} : run H.sharedStep (both i m (.send k :: rest, inbox) q) [i] =
    some ([], both i m (rest, inbox) (q.1, q.2 ++ [H.out m k])) := by
  rw [run_singleton]
  simp [sharedStep, step, both, move, share_join, Party.push]

theorem sharedRun_recv {k : κ} {msg : π} (h : H.take m k msg = some m') :
    run H.sharedStep (both i m (.recv k :: rest, msg :: inbox) q) [i] =
      some ([], both i m' (rest, inbox) q) := by
  rw [run_singleton]
  simp [sharedStep, step, both, move, h, share_join]

end Host

/-! ## Rounds -/

namespace Round

/-- The rounds one after the other on one memory : its contents before them, the outputs,
and its contents after them. -/
inductive Passes (H : Host μ α κ π β) : List (Round α κ) → μ → List β → μ → Prop
  | nil (m) : Passes H [] m [] m
  | cons {r rs m m₁ m₂ m₃ m₄ m₅ m' opened served closed outs} :
      run H.call m r.opening = some (opened, m₁) →
      H.take m₁ r.arrival (H.out m₁ r.request) = some m₂ →
      run H.call m₂ r.serving = some (served, m₃) →
      H.take m₃ r.answer (H.out m₃ r.reply) = some m₄ →
      run H.call m₄ r.closing = some (closed, m₅) →
      Passes H rs m₅ outs m' →
      Passes H (r :: rs) m (opened ++ (served ++ (closed ++ outs))) m'

/-- The rounds are a run of the two threads. -/
theorem Passes.run {H : Host μ α κ π β} {i : Side} {rs : List (Round α κ)} {m m' : μ}
    {outs : List β} (h : Passes H rs m outs m') :
    ∃ sched, Machine.run H.sharedStep (both i m (rs.flatMap leader, []) (rs.flatMap follower, []))
        sched = some (outs, both i m' ([], []) ([], [])) ∧
      sched.length = (rs.flatMap leader).length + (rs.flatMap follower).length := by
  induction h with
  | nil m => exact ⟨[], rfl, rfl⟩
  | @cons r rs m m₁ m₂ m₃ m₄ m₅ m' opened served closed outs hopen harrive hserve hanswer
      hclose _ ih =>
    obtain ⟨sched, hrun, hlen⟩ := ih
    refine ⟨List.replicate r.opening.length i ++ ([i] ++ ([i.peer] ++
      (List.replicate r.serving.length i.peer ++ ([i.peer] ++ ([i] ++
        (List.replicate r.closing.length i ++ sched)))))), ?_, ?_⟩
    · simp only [List.flatMap_cons, leader, follower, List.append_assoc, List.cons_append]
      refine run_append_eq_some.2 ⟨_, _, _, Host.sharedRun_calls hopen, ?_, rfl⟩
      refine run_append_eq_some.2 ⟨_, _, _, Host.sharedRun_send, ?_, rfl⟩
      rw [← both_swap]
      refine run_append_eq_some.2 ⟨_, _, _, Host.sharedRun_recv harrive, ?_, rfl⟩
      refine run_append_eq_some.2 ⟨_, _, _, Host.sharedRun_calls hserve, ?_, rfl⟩
      refine run_append_eq_some.2 ⟨_, _, _, Host.sharedRun_send, ?_, rfl⟩
      rw [both_swap]
      refine run_append_eq_some.2 ⟨_, _, _, Host.sharedRun_recv hanswer, ?_, rfl⟩
      exact run_append_eq_some.2 ⟨_, _, _, Host.sharedRun_calls hclose, hrun, rfl⟩
    · simp only [List.flatMap_cons, leader, follower, List.length_append, List.length_cons,
        List.length_map, List.length_replicate, List.length_nil, hlen]
      omega

end Round

/-- Every run of a leader and a follower is the beginning of a run to the end of both, with
the outputs of the rounds one after the other, and only one of them can go on. -/
theorem shared_complete {H : Host μ α κ π β} {rs : List (Round α κ)} {m m' : μ} {outs : List β}
    (hrounds : Round.Passes H rs m outs m') {sched : List Side} {s : State μ α κ π} {seen : List β}
    (hs : run H.sharedStep (start [] [] rs m m) sched = some (seen, s)) :
    (∃ rest unseen, run H.sharedStep s rest = some (unseen, both .a m' ([], []) ([], [])) ∧
      sched.length + rest.length =
        ((start [] [] rs m m : State μ α κ π) .a).prog.length +
          ((start [] [] rs m m : State μ α κ π) .b).prog.length ∧
      seen ++ unseen = outs) ∧
    ∀ (i j : Side) (r r' : List β × State μ α κ π), H.sharedStep s i = some r →
      H.sharedStep s j = some r' → i = j := by
  obtain ⟨last, hlast, hlen⟩ := hrounds.run (i := .a)
  have hfinal : Final H.sharedStep (both .a m' ([], []) ([], []) : State μ α κ π) := by
    intro i
    cases i <;> rfl
  have hbalanced : Balanced Never (start [] [] rs m m : State μ α κ π) :=
    ⟨.a, .taken (2 * rs.length) (Round.session_leader Never rs) (Round.session_follower Never rs)
      rfl rfl⟩
  obtain ⟨rest, unseen, hrest, hcount, heq⟩ :=
    H.commutes_sharedStep.complete hfinal hbalanced hlast hs
  refine ⟨⟨rest, unseen, hrest, hcount.trans hlen, heq.symm⟩, fun i j r r' => ?_⟩
  exact Host.exclusive (H.commutes_sharedStep.keeps.run_state hbalanced hs)

end Duplex
