import Blkin.Confluence
import Mathlib.Data.List.Basic

/-!
# Two programs over a connection

Two parties, each with a memory of its own and a program without branches, are joined by
a connection that delivers what one sends to the other whole, once and in order. A
receive waits for a message. Once the peer is done and everything it sent has been taken,
a receive finds the end of the connection and goes on without one.

A party that may fire outputs holds the turn; the other runs silent instructions up to
its next receive (`Session`). Two programs that agree on the number of messages keep the
turn unique (`Balanced`), so their concurrent steps commute (`commutes`) : by
`Machine.Commutes.complete`, one run of the two programs to their ends tells what every
order of their steps does.
-/

open Machine

namespace Duplex

inductive Side
  | a
  | b
  deriving DecidableEq

/-- The other party. -/
def Side.peer : Side → Side
  | a => b
  | b => a

@[simp] theorem Side.peer_peer (i : Side) : i.peer.peer = i := by
  cases i <;> rfl

@[simp] theorem Side.peer_ne (i : Side) : i.peer ≠ i := by
  cases i <;> decide

theorem Side.eq_peer {i j : Side} (h : i ≠ j) : j = i.peer := by
  cases i <;> cases j <;> first | rfl | exact absurd rfl h

/-- An instruction : a call that concerns the memory alone, or sending from or receiving
at a place in memory. -/
inductive Instr (α κ : Type*)
  | call (x : α)
  | send (k : κ)
  | recv (k : κ)

variable {μ α κ π β : Type*}

/-- What instructions do to the memory. -/
structure Host (μ α κ π β : Type*) where
  /-- A call. -/
  call : μ → α → Option (List β × μ)
  /-- The message that is sent from a place. -/
  out : μ → κ → π
  /-- The memory once a message was received at a place. -/
  take : μ → κ → π → Option μ

/-- A party, with the instructions it has left and the messages it did not take yet. -/
structure Party (μ α κ π : Type*) where
  mem : μ
  prog : List (Instr α κ)
  inbox : List π

/-- More messages arrive. -/
def Party.push (p : Party μ α κ π) (msgs : List π) : Party μ α κ π :=
  { p with inbox := p.inbox ++ msgs }

@[simp] theorem Party.push_nil (p : Party μ α κ π) : p.push [] = p := by
  simp [push]

@[simp] theorem Party.prog_push (p : Party μ α κ π) (msgs : List π) :
    (p.push msgs).prog = p.prog := rfl

abbrev State (μ α κ π : Type*) := Side → Party μ α κ π

/-- Party `i` is `p`, and its peer is `q`. -/
def join (i : Side) (p q : Party μ α κ π) : State μ α κ π :=
  fun j => if j = i then p else q

@[simp] theorem join_self (i : Side) (p q : Party μ α κ π) : join i p q i = p := by
  simp [join]

@[simp] theorem join_peer (i : Side) (p q : Party μ α κ π) : join i p q i.peer = q := by
  simp [join]

theorem join_swap (i : Side) (p q : Party μ α κ π) : join i.peer q p = join i p q := by
  funext j
  cases i <;> cases j <;> rfl

namespace Host

variable (H : Host μ α κ π β)

/-- The next instruction of a party : its outputs, the party after it, and what it sent.
The peer may have `closed` the connection. -/
def move (p : Party μ α κ π) (closed : Bool) : Option (List β × Party μ α κ π × List π) :=
  match p.prog with
  | [] => none
  | .call x :: rest => (H.call p.mem x).map fun r => (r.1, ⟨r.2, rest, p.inbox⟩, [])
  | .send k :: rest => some ([], ⟨p.mem, rest, p.inbox⟩, [H.out p.mem k])
  | .recv k :: rest =>
    match p.inbox with
    | msg :: inbox => (H.take p.mem k msg).map fun m => ([], ⟨m, rest, inbox⟩, [])
    | [] => if closed then some ([], ⟨p.mem, rest, []⟩, []) else none

/-- Party `i` runs its next instruction. -/
def step (s : State μ α κ π) (i : Side) : Option (List β × State μ α κ π) :=
  (H.move (s i) (s i.peer).prog.isEmpty).map fun r =>
    (r.1, join i r.2.1 ((s i.peer).push r.2.2))

variable {H}

/-- A step of a party whose peer is not done does not depend on what else arrives, or on
whether the peer is done by then. -/
theorem move_push {p p' : Party μ α κ π} {out : List β} {sent : List π}
    (h : H.move p false = some (out, p', sent)) (msgs : List π) (closed : Bool) :
    H.move (p.push msgs) closed = some (out, p'.push msgs, sent) := by
  obtain ⟨m, prog, inbox⟩ := p
  match prog, inbox with
  | [], _ => simp [move] at h
  | .call x :: rest, inbox =>
    obtain ⟨r, hr, heq⟩ := Option.map_eq_some_iff.1 h
    simp only [Prod.mk.injEq] at heq
    obtain ⟨rfl, rfl, rfl⟩ := heq
    simp [move, Party.push, hr]
  | .send k :: rest, inbox =>
    simp only [move, Option.some.injEq, Prod.mk.injEq] at h
    obtain ⟨rfl, rfl, rfl⟩ := h
    simp [move, Party.push]
  | .recv k :: rest, msg :: inbox =>
    obtain ⟨m', hm', heq⟩ := Option.map_eq_some_iff.1 h
    simp only [Prod.mk.injEq] at heq
    obtain ⟨rfl, rfl, rfl⟩ := heq
    simp [move, Party.push, hm']
  | .recv k :: rest, [] => simp [move] at h

theorem prog_of_move {p p' : Party μ α κ π} {closed : Bool} {out : List β} {sent : List π}
    (h : H.move p closed = some (out, p', sent)) : p.prog.isEmpty = false := by
  cases hp : p.prog with
  | nil => simp [move, hp] at h
  | cons x rest => rfl

theorem step_eq_some {s s' : State μ α κ π} {i : Side} {out : List β} :
    H.step s i = some (out, s') ↔ ∃ p sent,
      H.move (s i) (s i.peer).prog.isEmpty = some (out, p, sent) ∧
        s' = join i p ((s i.peer).push sent) := by
  simp only [step, Option.map_eq_some_iff, Prod.exists, Prod.mk.injEq]
  constructor
  · rintro ⟨_, p, sent, h, rfl, rfl⟩
    exact ⟨p, sent, h, rfl⟩
  · rintro ⟨p, sent, h, rfl⟩
    exact ⟨out, p, sent, h, rfl, rfl⟩

/-- The steps of the two parties commute. -/
theorem step_swap {s s₁ s₂ : State μ α κ π} {i j : Side} {out₁ out₂ : List β} (hij : i ≠ j)
    (hi : H.step s i = some (out₁, s₁)) (hj : H.step s j = some (out₂, s₂)) :
    ∃ s', H.step s₁ j = some (out₂, s') ∧ H.step s₂ i = some (out₁, s') := by
  obtain rfl := Side.eq_peer hij
  obtain ⟨p, sent, hp, rfl⟩ := step_eq_some.1 hi
  obtain ⟨q, sent', hq, rfl⟩ := step_eq_some.1 hj
  rw [prog_of_move hq] at hp
  rw [Side.peer_peer, prog_of_move hp] at hq
  refine ⟨join i (p.push sent') (q.push sent), step_eq_some.2 ⟨q.push sent, sent', ?_, ?_⟩,
    step_eq_some.2 ⟨p.push sent', sent, ?_, ?_⟩⟩
  · rw [join_peer]
    exact move_push hq sent _
  · rw [Side.peer_peer, join_self, join_swap]
  · rw [join_swap, Side.peer_peer, join_self, join_peer]
    exact move_push hp sent' _
  · rw [join_swap, Side.peer_peer, join_peer]

end Host

/-! ## Turns -/

/-- The party may fire outputs, or has to wait for a message first. -/
inductive Role
  | active
  | waiting

/-- A program that sends and receives in turn, `n` messages in all. While it waits for its
turn it only runs calls in `Q`. -/
inductive Session (Q : α → Prop) : Role → ℕ → List (Instr α κ) → Prop
  | done (r) : Session Q r 0 []
  | call (x) {n rest} : Session Q .active n rest → Session Q .active n (.call x :: rest)
  | send (k) {n rest} : Session Q .waiting n rest → Session Q .active (n + 1) (.send k :: rest)
  | wait (x) {n rest} : Q x → Session Q .waiting n rest → Session Q .waiting n (.call x :: rest)
  | recv (k) {n rest} : Session Q .active n rest → Session Q .waiting (n + 1) (.recv k :: rest)

variable {Q : α → Prop}

/-- Party `i` has the turn, or the message that gives it the turn is on its way. -/
inductive Turn (Q : α → Prop) (i : Side) (s : State μ α κ π) : Prop
  | taken (n) : Session Q .active n (s i).prog → Session Q .waiting n (s i.peer).prog →
      (s i).inbox = [] → (s i.peer).inbox = [] → Turn Q i s
  | given (n) (msg : π) : Session Q .waiting (n + 1) (s i).prog →
      Session Q .waiting n (s i.peer).prog → (s i).inbox = [msg] → (s i.peer).inbox = [] →
      Turn Q i s

/-- One of the parties has the turn. -/
def Balanced (Q : α → Prop) (s : State μ α κ π) : Prop :=
  ∃ i, Turn Q i s

theorem Turn.waiting {i : Side} {s : State μ α κ π} (h : Turn Q i s) :
    ∃ n, Session Q .waiting n (s i.peer).prog := by
  cases h with
  | taken n _ h' => exact ⟨n, h'⟩
  | given n _ _ h' => exact ⟨n, h'⟩

theorem Session.ne_nil {r : Role} {n : ℕ} {prog : List (Instr α κ)}
    (h : Session Q r (n + 1) prog) : prog.isEmpty = false := by
  cases h <;> rfl

/-- The calls that fire nothing. -/
def Host.Silent (H : Host μ α κ π β) (x : α) : Prop :=
  ∀ m out m', H.call m x = some (out, m') → out = []

section Steps

variable {H : Host μ α κ π β}

/-- A party that waits sends nothing, and fires nothing if its calls are silent. Without a
message it goes on waiting, unless its peer is done. -/
theorem Host.move_waiting {p p' : Party μ α κ π} {closed : Bool} {out : List β} {sent : List π}
    {n : ℕ} (h : Session Q .waiting n p.prog) (hm : H.move p closed = some (out, p', sent)) :
    ((∀ x, Q x → H.Silent x) → out = []) ∧ sent = [] ∧
      (p'.inbox = p.inbox ∧ Session Q .waiting n p'.prog ∨
        (p.inbox = [] → closed = true) ∧ p'.inbox = p.inbox.tail ∧
          ∃ k, n = k + 1 ∧ Session Q .active k p'.prog) := by
  obtain ⟨m, prog, inbox⟩ := p
  cases h with
  | done => simp [move] at hm
  | wait x hx hrest =>
    obtain ⟨r, hr, heq⟩ := Option.map_eq_some_iff.1 hm
    simp only [Prod.mk.injEq] at heq
    obtain ⟨rfl, rfl, rfl⟩ := heq
    exact ⟨fun hQ => hQ x hx _ _ _ hr, rfl, .inl ⟨rfl, hrest⟩⟩
  | recv k hrest =>
    cases inbox with
    | nil =>
      simp only [move, Option.ite_none_right_eq_some, Option.some.injEq, Prod.mk.injEq] at hm
      obtain ⟨hclosed, rfl, rfl, rfl⟩ := hm
      exact ⟨fun _ => rfl, rfl, .inr ⟨fun _ => hclosed, rfl, _, rfl, hrest⟩⟩
    | cons msg inbox =>
      obtain ⟨m', hm', heq⟩ := Option.map_eq_some_iff.1 hm
      simp only [Prod.mk.injEq] at heq
      obtain ⟨rfl, rfl, rfl⟩ := heq
      exact ⟨fun _ => rfl, rfl, .inr ⟨by simp, rfl, _, rfl, hrest⟩⟩

/-- A party that has the turn keeps it until it sends. -/
theorem Host.move_active {p p' : Party μ α κ π} {closed : Bool} {out : List β} {sent : List π}
    {n : ℕ} (h : Session Q .active n p.prog) (hm : H.move p closed = some (out, p', sent)) :
    p'.inbox = p.inbox ∧ (sent = [] ∧ Session Q .active n p'.prog ∨
      ∃ msg k, sent = [msg] ∧ n = k + 1 ∧ Session Q .waiting k p'.prog) := by
  obtain ⟨m, prog, inbox⟩ := p
  cases h with
  | done => simp [move] at hm
  | call x hrest =>
    obtain ⟨r, hr, heq⟩ := Option.map_eq_some_iff.1 hm
    simp only [Prod.mk.injEq] at heq
    obtain ⟨rfl, rfl, rfl⟩ := heq
    exact ⟨rfl, .inl ⟨rfl, hrest⟩⟩
  | send k hrest =>
    simp only [move, Option.some.injEq, Prod.mk.injEq] at hm
    obtain ⟨rfl, rfl, rfl⟩ := hm
    exact ⟨rfl, .inr ⟨_, _, rfl, rfl, hrest⟩⟩

/-- The step of the party that has the turn, or gets it. -/
theorem Turn.step_self {i : Side} {s s' : State μ α κ π} {out : List β} (h : Turn Q i s)
    (hs : H.step s i = some (out, s')) : Balanced Q s' := by
  obtain ⟨p, sent, hm, rfl⟩ := Host.step_eq_some.1 hs
  cases h with
  | taken n hi hpeer hin hin' =>
    obtain ⟨hp, ⟨rfl, hrest⟩ | ⟨msg, k, rfl, rfl, hrest⟩⟩ := Host.move_active hi hm
    · refine ⟨i, .taken n ?_ ?_ ?_ ?_⟩ <;> simp [*]
    · refine ⟨i.peer, .given k msg ?_ ?_ ?_ ?_⟩ <;> simp [*, Party.push]
  | given n msg hi hpeer hin hin' =>
    obtain ⟨-, rfl, ⟨hp, hrest⟩ | ⟨-, hp, k, hk, hrest⟩⟩ := Host.move_waiting hi hm
    · refine ⟨i, .given n msg ?_ ?_ ?_ ?_⟩ <;> simp [*]
    · obtain rfl := Nat.succ.inj hk
      refine ⟨i, .taken n ?_ ?_ ?_ ?_⟩ <;> simp [*]

/-- The step of the other party. It does not find the connection closed, since its peer
has as many messages to go. -/
theorem Turn.step_peer {i : Side} {s s' : State μ α κ π} {out : List β} (h : Turn Q i s)
    (hs : H.step s i.peer = some (out, s')) : Balanced Q s' := by
  obtain ⟨p, sent, hm, rfl⟩ := Host.step_eq_some.1 hs
  rw [Side.peer_peer] at hm ⊢
  rw [join_swap]
  cases h with
  | taken n hi hpeer hin hin' =>
    obtain ⟨-, rfl, ⟨hp, hrest⟩ | ⟨hclosed, -, k, rfl, -⟩⟩ := Host.move_waiting hpeer hm
    · refine ⟨i, .taken n ?_ ?_ ?_ ?_⟩ <;> simp [*]
    · rw [hi.ne_nil] at hclosed
      cases hclosed hin'
  | given n msg hi hpeer hin hin' =>
    obtain ⟨-, rfl, ⟨hp, hrest⟩ | ⟨hclosed, -, k, -, -⟩⟩ := Host.move_waiting hpeer hm
    · refine ⟨i, .given n msg ?_ ?_ ?_ ?_⟩ <;> simp [*]
    · rw [hi.ne_nil] at hclosed
      cases hclosed hin'

theorem Balanced.step {i : Side} {s s' : State μ α κ π} {out : List β} (h : Balanced Q s)
    (hs : H.step s i = some (out, s')) : Balanced Q s' := by
  obtain ⟨j, hj⟩ := h
  by_cases hij : j = i
  · subst hij
    exact hj.step_self hs
  · obtain rfl := Side.eq_peer hij
    exact hj.step_peer hs

theorem commutes (H : Host μ α κ π β) (hQ : ∀ x, Q x → H.Silent x) :
    Commutes H.step (Balanced Q) where
  keeps _ _ _ _ _ h hs := h.step hs
  swap _ := Host.step_swap
  quiet {s i j out₁ s₁ out₂ s₂} h hij hi hj := by
    obtain ⟨t, ht⟩ := h
    obtain ⟨n, hwaiting⟩ := ht.waiting
    obtain ⟨p, sent, hp, -⟩ := Host.step_eq_some.1 hi
    obtain ⟨q, sent', hq, -⟩ := Host.step_eq_some.1 hj
    by_cases hti : t = i
    · subst hti
      obtain rfl := Side.eq_peer hij
      exact .inr ((Host.move_waiting hwaiting hq).1 hQ)
    · rw [← Side.eq_peer hti] at hwaiting
      exact .inl ((Host.move_waiting hwaiting hp).1 hQ)

end Steps

/-! ## Running one party -/

namespace Host

variable {H : Host μ α κ π β}

/-- No instruction is left. -/
def Finished (s : State μ α κ π) : Prop :=
  ∀ i, (s i).prog = []

theorem Finished.final {s : State μ α κ π} (h : Finished s) : Final H.step s := by
  intro i
  simp [step, move, h i]

/-- A party runs its calls up to the next message. -/
theorem run_calls {i : Side} {q : Party μ α κ π} {rest : List (Instr α κ)} {inbox : List π} :
    ∀ {xs : List α} {m m' : μ} {out : List β}, run H.call m xs = some (out, m') →
      run H.step (join i ⟨m, xs.map .call ++ rest, inbox⟩ q) (List.replicate xs.length i) =
        some (out, join i ⟨m', rest, inbox⟩ q)
  | [], m, m', out, h => by
    obtain ⟨rfl, rfl⟩ : [] = out ∧ m = m' := by simpa using h
    rfl
  | x :: xs, m, m', out, h => by
    obtain ⟨out₁, m₁, out₂, hx, hxs, rfl⟩ := run_cons_eq_some.1 h
    refine run_cons_eq_some.2 ⟨out₁, _, out₂, ?_, run_calls hxs, rfl⟩
    simp [step, move, hx]

theorem run_send {i : Side} {m : μ} {k : κ} {rest : List (Instr α κ)} {inbox : List π}
    {q : Party μ α κ π} : run H.step (join i ⟨m, .send k :: rest, inbox⟩ q) [i] =
      some ([], join i ⟨m, rest, inbox⟩ (q.push [H.out m k])) := by
  rw [run_singleton]
  simp [step, move]

theorem run_recv {i : Side} {m m' : μ} {k : κ} {rest : List (Instr α κ)} {msg : π}
    {inbox : List π} {q : Party μ α κ π} (h : H.take m k msg = some m') :
    run H.step (join i ⟨m, .recv k :: rest, msg :: inbox⟩ q) [i] =
      some ([], join i ⟨m', rest, inbox⟩ q) := by
  rw [run_singleton]
  simp [step, move, h]

end Host

/-! ## Rounds of a request and a reply -/

/-- One round : the leader sends a request between its opening and its closing calls, and
the follower serves it before it replies. -/
structure Round (α κ : Type*) where
  opening : List α
  request : κ
  arrival : κ
  serving : List α
  reply : κ
  answer : κ
  closing : List α

namespace Round

/-- The leader's instructions. -/
def leader (r : Round α κ) : List (Instr α κ) :=
  r.opening.map .call ++ .send r.request :: .recv r.answer :: r.closing.map .call

/-- The follower's instructions. -/
def follower (r : Round α κ) : List (Instr α κ) :=
  .recv r.arrival :: (r.serving.map .call ++ [.send r.reply])

/-- The rounds one after the other : the memories of the leader and the follower before
them, the outputs, and the memories after them. -/
inductive Runs (H : Host μ α κ π β) : List (Round α κ) → μ → μ → List β → μ → μ → Prop
  | nil (m n) : Runs H [] m n [] m n
  | cons {r rs m n m₁ n₁ n₂ m₂ m₃ m' n' opened served closed outs} :
      run H.call m r.opening = some (opened, m₁) →
      H.take n r.arrival (H.out m₁ r.request) = some n₁ →
      run H.call n₁ r.serving = some (served, n₂) →
      H.take m₁ r.answer (H.out n₂ r.reply) = some m₂ →
      run H.call m₂ r.closing = some (closed, m₃) →
      Runs H rs m₃ n₂ outs m' n' →
      Runs H (r :: rs) m n (opened ++ (served ++ (closed ++ outs))) m' n'

theorem session_calls {n : ℕ} {rest : List (Instr α κ)} (h : Session Q .active n rest) :
    ∀ xs : List α, Session Q .active n (xs.map .call ++ rest)
  | [] => h
  | x :: xs => .call x (session_calls h xs)

theorem session_wait {n : ℕ} {rest : List (Instr α κ)} (h : Session Q .waiting n rest) :
    ∀ {xs : List α}, (∀ x ∈ xs, Q x) → Session Q .waiting n (xs.map .call ++ rest)
  | [], _ => h
  | x :: xs, hxs => .wait x (hxs x (by simp))
      (session_wait h fun y hy => hxs y (List.mem_cons_of_mem x hy))

theorem session_leader (Q : α → Prop) :
    ∀ rs : List (Round α κ), Session Q .active (2 * rs.length) (rs.flatMap leader)
  | [] => .done _
  | r :: rs => by
    have hrest := session_calls (session_leader Q rs) r.closing
    rw [List.flatMap_cons, leader, List.append_assoc]
    exact session_calls (.send _ (.recv _ hrest)) r.opening

theorem session_follower (Q : α → Prop) :
    ∀ rs : List (Round α κ), Session Q .waiting (2 * rs.length) (rs.flatMap follower)
  | [] => .done _
  | r :: rs => by
    have hrest := session_calls (.send r.reply (session_follower Q rs)) r.serving
    rw [List.flatMap_cons, follower, List.cons_append, List.append_assoc]
    exact .recv _ hrest

/-- The rounds are a run of the two programs. -/
theorem Runs.run {H : Host μ α κ π β} {i : Side} {rs : List (Round α κ)} {m n m' n' : μ}
    {outs : List β} (h : Runs H rs m n outs m' n') :
    ∃ sched, Machine.run H.step (join i ⟨m, rs.flatMap leader, []⟩ ⟨n, rs.flatMap follower, []⟩)
        sched = some (outs, join i ⟨m', [], []⟩ ⟨n', [], []⟩) ∧
      sched.length = (rs.flatMap leader).length + (rs.flatMap follower).length := by
  induction h with
  | nil m n => exact ⟨[], rfl, rfl⟩
  | @cons r rs m n m₁ n₁ n₂ m₂ m₃ m' n' opened served closed outs hopen harrive hserve hanswer
      hclose _ ih =>
    obtain ⟨sched, hrun, hlen⟩ := ih
    refine ⟨List.replicate r.opening.length i ++ ([i] ++ ([i.peer] ++
      (List.replicate r.serving.length i.peer ++ ([i.peer] ++ ([i] ++
        (List.replicate r.closing.length i ++ sched)))))), ?_, ?_⟩
    · simp only [List.flatMap_cons, leader, follower, List.append_assoc, List.cons_append]
      refine run_append_eq_some.2 ⟨_, _, _, Host.run_calls hopen, ?_, rfl⟩
      refine run_append_eq_some.2 ⟨_, _, _, Host.run_send, ?_, rfl⟩
      rw [← join_swap]
      refine run_append_eq_some.2 ⟨_, _, _, Host.run_recv harrive, ?_, rfl⟩
      refine run_append_eq_some.2 ⟨_, _, _, Host.run_calls hserve, ?_, rfl⟩
      refine run_append_eq_some.2 ⟨_, _, _, Host.run_send, ?_, rfl⟩
      rw [join_swap]
      refine run_append_eq_some.2 ⟨_, _, _, Host.run_recv hanswer, ?_, rfl⟩
      exact run_append_eq_some.2 ⟨_, _, _, Host.run_calls hclose, hrun, rfl⟩
    · simp only [List.flatMap_cons, leader, follower, List.length_append, List.length_cons,
        List.length_map, List.length_replicate, List.length_nil, hlen]
      omega

/-- A round of another host with the same outputs and messages. `R` relates the memories
between rounds, `D` those of the leaders while they wait for an answer. -/
structure Answers {μ' α' κ' : Type*} (H : Host μ α κ π β) (H' : Host μ' α' κ' π β)
    (R D : μ → μ' → Prop) (r : Round α κ) (r' : Round α' κ') : Prop where
  opening : ∀ {m h out m₁}, R m h → run H.call m r.opening = some (out, m₁) →
    ∃ h₁, run H'.call h r'.opening = some (out, h₁) ∧ D m₁ h₁
  request : ∀ {m h}, D m h → H'.out h r'.request = H.out m r.request
  arrival : ∀ {m h msg m₁}, R m h → H.take m r.arrival msg = some m₁ →
    ∃ h₁, H'.take h r'.arrival msg = some h₁ ∧ R m₁ h₁
  serving : ∀ {m h out m₁}, R m h → run H.call m r.serving = some (out, m₁) →
    ∃ h₁, run H'.call h r'.serving = some (out, h₁) ∧ R m₁ h₁
  reply : ∀ {m h}, R m h → H'.out h r'.reply = H.out m r.reply
  answer : ∀ {m h msg m₁}, D m h → H.take m r.answer msg = some m₁ →
    ∃ h₁, H'.take h r'.answer msg = some h₁ ∧ D m₁ h₁
  closing : ∀ {m h out m₁}, D m h → run H.call m r.closing = some (out, m₁) →
    ∃ h₁, run H'.call h r'.closing = some (out, h₁) ∧ R m₁ h₁

/-- Rounds that answer each other have the same outputs. -/
theorem Runs.answered {ι μ' α' κ' : Type*} {H : Host μ α κ π β} {H' : Host μ' α' κ' π β}
    {R : μ → μ' → Prop} {D : ι → μ → μ' → Prop} {f : ι → Round α κ} {g : ι → Round α' κ'}
    (ha : ∀ i, Answers H H' R (D i) (f i) (g i)) :
    ∀ {is : List ι} {m n m' n' : μ} {h k : μ'} {outs : List β},
      Runs H (is.map f) m n outs m' n' → R m h → R n k →
        ∃ h' k', Runs H' (is.map g) h k outs h' k'
  | [], _, _, _, _, h, k, _, .nil _ _, _, _ => ⟨h, k, .nil h k⟩
  | i :: is, _, _, _, _, h, k, _, .cons hopen harrive hserve hanswer hclose hrest, hm, hn => by
    obtain ⟨h₁, hopen', hd⟩ := (ha i).opening hm hopen
    obtain ⟨k₁, harrive', hk₁⟩ := (ha i).arrival hn harrive
    obtain ⟨k₂, hserve', hk₂⟩ := (ha i).serving hk₁ hserve
    obtain ⟨h₂, hanswer', hd₂⟩ := (ha i).answer hd hanswer
    obtain ⟨h₃, hclose', hh₃⟩ := (ha i).closing hd₂ hclose
    obtain ⟨h', k', hrest'⟩ := Runs.answered ha hrest hh₃ hk₂
    rw [← (ha i).request hd] at harrive'
    rw [← (ha i).reply hk₂] at hanswer'
    exact ⟨h', k', .cons hopen' harrive' hserve' hanswer' hclose' hrest'⟩

end Round

/-- Leader and follower of the rounds, each after calls of its own. -/
def start (setup setup' : List α) (rs : List (Round α κ)) (m n : μ) : State μ α κ π :=
  join .a ⟨m, setup.map .call ++ rs.flatMap Round.leader, []⟩
    ⟨n, setup'.map .call ++ rs.flatMap Round.follower, []⟩

/-- Every order of steps of a leader and a follower, of which the follower's setup is
silent, is the beginning of a run to the end of both, with the outputs of the setup and of
the rounds one after the other. -/
theorem start_complete {H : Host μ α κ π β} {setup setup' : List α} {rs : List (Round α κ)}
    {m n m₁ n₁ m' n' : μ} {out outs : List β}
    (hsetup : run H.call m setup = some (out, m₁))
    (hsetup' : run H.call n setup' = some ([], n₁))
    (hsilent : ∀ x ∈ setup', H.Silent x)
    (hrounds : Round.Runs H rs m₁ n₁ outs m' n') {sched : List Side} {s : State μ α κ π}
    {seen : List β} (hs : run H.step (start setup setup' rs m n) sched = some (seen, s)) :
    ∃ rest unseen, run H.step s rest = some (unseen, join .a ⟨m', [], []⟩ ⟨n', [], []⟩) ∧
      sched.length + rest.length =
        ((start setup setup' rs m n : State μ α κ π) .a).prog.length +
          ((start setup setup' rs m n : State μ α κ π) .b).prog.length ∧
      seen ++ unseen = out ++ outs := by
  obtain ⟨last, hlast, hlen⟩ := hrounds.run (i := .a)
  have hwhole : run H.step (start setup setup' rs m n)
      (List.replicate setup.length .a ++ (List.replicate setup'.length .b ++ last)) =
        some (out ++ outs, join .a ⟨m', [], []⟩ ⟨n', [], []⟩) := by
    refine run_append_eq_some.2 ⟨_, _, outs, Host.run_calls hsetup, ?_, rfl⟩
    rw [← join_swap]
    refine run_append_eq_some.2 ⟨_, _, outs, Host.run_calls hsetup', ?_, rfl⟩
    change run H.step (join Side.a.peer _ _) last = _
    rw [join_swap]
    exact hlast
  have hfinal : Final H.step (join .a ⟨m', [], []⟩ ⟨n', [], []⟩ : State μ α κ π) :=
    Host.Finished.final fun i => by cases i <;> rfl
  have hbalanced : Balanced H.Silent (start setup setup' rs m n : State μ α κ π) := by
    refine ⟨.a, .taken (2 * rs.length) ?_ ?_ rfl rfl⟩
    · exact Round.session_calls (Round.session_leader H.Silent rs) setup
    · exact Round.session_wait (Round.session_follower H.Silent rs) hsilent
  obtain ⟨rest, unseen, hrest, hcount, heq⟩ :=
    (commutes H fun _ hx => hx).complete hfinal hbalanced hwhole hs
  refine ⟨rest, unseen, hrest, ?_, heq.symm⟩
  rw [hcount]
  simp only [start, join, List.length_append, List.length_replicate, hlen]
  simp
  omega

end Duplex
