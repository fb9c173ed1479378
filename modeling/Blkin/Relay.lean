import Blkin.Duplex
import Blkin.Rejections
import Mathlib.Tactic.Ring

/-!
# The two processes of the tests

`tests/testc.c` traces a conversation of two processes over a socket. In every round one
starts a trace and sends its context along with a message, the other continues the trace
with a child span and acknowledges, and each records the start and the end of its part.
`tests/test_p.cc` has the same conversation through the C++ wrapper; there the first process
calls `rand()` itself for the number in its message.

Both processes are initialised and connected before they start here. How they connect is
left out : where one of them connects before the other listens, it ends, and the other
waits for a connection.

A message is small enough to arrive whole. A receive that does not fit what was sent, of
a message where an acknowledgement is next or the other way round, would split it and is
undefined here; the conversation has none.

`conversation` is the list of events of all rounds. `relay_emits` says that every order
of the steps of the two processes emits a beginning of it and can go on to its end.
-/

open Duplex Machine

namespace Blkin

/-- What goes through the socket : a `struct message`, of which the context is modelled,
or the byte of an acknowledgement. -/
inductive Packet
  | message (info : TraceInfo)
  | ack
  deriving DecidableEq

/-- Where a packet is sent from or received : a `struct message` with its context at an
address, or a byte. -/
inductive Buffer
  | message (i : Addr)
  | ack
  deriving DecidableEq

/-- What is sent from a buffer. -/
def Mem.send (m : Mem) : Buffer → Packet
  | .message i => .message (m.infos i)
  | .ack => .ack

/-- The memory once the packet is received. -/
def Mem.recv (m : Mem) : Buffer → Packet → Option Mem
  | .message i, .message v => some (m.writeInfo (.info i) v)
  | .ack, .ack => some m
  | _, _ => none

/-- What a process does between messages : a call, or `rand()` for a number of its own. -/
inductive Move (χ : Type)
  | rand
  | call (c : χ)

/-- A process that calls the library. -/
def cHost : Host Mem (Move Call) Buffer Packet Tracepoint where
  call m x :=
    match x with
    | .rand => some ([], m.rand.2)
    | .call c => Blkin.step m c
  out := Mem.send
  take := Mem.recv

/-- The strings and objects of one of the two processes. The objects of a round may be
others than those of the round before. -/
structure Speaker where
  ip : CString
  port : Int32
  service : CString
  name : CString
  startEvent : CString
  endEvent : CString
  endp : Addr
  trace : ℕ → Addr
  startAnnot : ℕ → Addr
  endAnnot : ℕ → Addr
  info : ℕ → Addr
  /-- How often the process calls `rand()` itself before it starts a trace. -/
  numbers : ℕ
  /-- The status `get_trace_info` leaves unassigned. -/
  res : ℕ → Int32

/-- `process_a` of `testc.c`, whose objects are the locals at these addresses. -/
def processA (endp trace annot info : Addr) (res : ℕ → Int32) : Speaker where
  ip := .lit "10.0.0.1"
  port := 5000
  service := .lit "service a"
  name := .lit "process a"
  startEvent := .lit "start"
  endEvent := .lit "end"
  endp := endp
  trace _ := trace
  startAnnot _ := annot
  endAnnot _ := annot
  info _ := info
  numbers := 0
  res := res

/-- `process_b` of `testc.c` -/
def processB (endp trace annot info : Addr) (res : ℕ → Int32) : Speaker where
  ip := .lit "10.0.0.2"
  port := 5001
  service := .lit "service b"
  name := .lit "process b"
  startEvent := .lit "start"
  endEvent := .lit "end"
  endp := endp
  trace _ := trace
  startAnnot _ := annot
  endAnnot _ := annot
  info _ := info
  numbers := 0
  res := res

/-- `Parent` of `test_p.cc` -/
def parent (endp : Addr) (trace startAnnot endAnnot info : ℕ → Addr) (res : ℕ → Int32) :
    Speaker where
  ip := .lit "0.0.0.0"
  port := 1
  service := .lit "parent"
  name := .lit "parent process"
  startEvent := .lit "parent start"
  endEvent := .lit "parent end"
  endp := endp
  trace := trace
  startAnnot := startAnnot
  endAnnot := endAnnot
  info := info
  numbers := 1
  res := res

/-- `Child` of `test_p.cc` -/
def child (endp : Addr) (trace startAnnot endAnnot info : ℕ → Addr) (res : ℕ → Int32) :
    Speaker where
  ip := .lit "0.0.0.1"
  port := 2
  service := .lit "child"
  name := .lit "Child process"
  startEvent := .lit "child start"
  endEvent := .lit "child end"
  endp := endp
  trace := trace
  startAnnot := startAnnot
  endAnnot := endAnnot
  info := info
  numbers := 0
  res := res

namespace Speaker

variable (A B P : Speaker)

/-- Before the loop. -/
def setup : List Call :=
  [.endpoint (some P.endp) (some P.ip) P.port (some P.service)]

/-- An annotation is initialised and recorded. -/
def start (i : ℕ) : List Call :=
  [.timestamp (some (P.startAnnot i)) (some P.startEvent) (some P.endp),
    .record (some (P.trace i)) (some (P.startAnnot i))]

@[inherit_doc start]
def finish (i : ℕ) : List Call :=
  [.timestamp (some (P.endAnnot i)) (some P.endEvent) (some P.endp),
    .record (some (P.trace i)) (some (P.endAnnot i))]

/-- The `i`-th turn of the loops of `process_a` and `process_b`. -/
def round (i : ℕ) : Round (Move Call) Buffer where
  opening := List.replicate A.numbers .rand ++
    (Call.newTrace (some (A.trace i)) (some A.name) (some A.endp) :: (A.start i ++
      [Call.getInfo (A.res i) (some (A.trace i)) (some (.info (A.info i)))])).map .call
  request := .message (A.info i)
  arrival := .message (B.info i)
  serving := (Call.childInfo (some (B.trace i)) (some (.info (B.info i))) (some B.endp)
    (some B.name) :: (B.start i ++ B.finish i)).map .call
  reply := .ack
  answer := .ack
  closing := (A.finish i).map .call

/-- Both processes, once they are connected, for `n` turns of their loops. -/
def relay (n : ℕ) (m : Side → Mem) : State Mem (Move Call) Buffer Packet :=
  Duplex.start (A.setup.map .call) (B.setup.map .call) ((List.range' 0 n).map (A.round B))
    (m .a) (m .b)

/-- The event of the process on a span with the ids `v`. -/
def event (v : TraceInfo) (text : CString) : Tracepoint :=
  .timestamp P.name P.service P.port P.ip v.traceId v.spanId v.parentSpanId text

end Speaker

namespace Mem

variable (m : Mem) (k : ℕ)

/-- The value of `random_big()` after `k` more calls of `rand()`. -/
def bigAt : Int64 :=
  Blkin.randomBig (m.rands (m.drawn + k)) (m.rands (m.drawn + k + 1))

/-- The ids of a new trace then. -/
def rootAt : TraceInfo :=
  ⟨m.bigAt k, m.bigAt (k + 2), 0⟩

/-- The ids of a child then. -/
def childIdsAt (v : TraceInfo) : TraceInfo :=
  ⟨v.traceId, m.bigAt k, v.spanId⟩

end Mem

namespace Speaker

variable (A B : Speaker)

/-- The events of a round whose spans have the ids `u` and `v`. -/
def exchange (u v : TraceInfo) : List Tracepoint :=
  [A.event u A.startEvent, B.event v B.startEvent, B.event v B.endEvent, A.event u A.endEvent]

/-- The ids of the span that starts the `i`-th round. -/
def rootIds (m : Mem) (i : ℕ) : TraceInfo :=
  m.rootAt ((A.numbers + 4) * i + A.numbers)

/-- The events of the rounds `is`. -/
def conversation (m : Side → Mem) (is : List ℕ) : List Tracepoint :=
  is.flatMap fun i => A.exchange B (A.rootIds (m .a) i)
    ((m .b).childIdsAt (2 * i) (A.rootIds (m .a) i))

end Speaker

/-- The processes, which emitted `seen` so far, can go on for `k` steps and no more, after
which they emitted `all`, are both done, and left no message unread. -/
def GoesOn {μ α : Type} (step : State μ α Buffer Packet → Side →
    Option (List Tracepoint × State μ α Buffer Packet)) (s : State μ α Buffer Packet)
    (seen : List Tracepoint) (k : ℕ) (all : List Tracepoint) : Prop :=
  ∃ rest unseen last, run step s rest = some (unseen, last) ∧
    (∀ i, (last i).prog = [] ∧ (last i).inbox = []) ∧ rest.length = k ∧ seen ++ unseen = all

/-! ## The same conversation through the wrapper -/

/-- A process that calls the wrapper. -/
def cppHost : Host ZTracer.Heap (Move ZCall) Buffer Packet Tracepoint where
  call h x :=
    match x with
    | .rand => some ([], { h with mem := h.mem.rand.2 })
    | .call c => ZTracer.step h c
  out h := h.mem.send
  take h k p := (h.mem.recv k p).map fun m => { h with mem := m }

namespace Speaker

variable (A B P : Speaker)

/-- The constructors of `Parent` and `Child`. -/
def cppSetup : List ZCall :=
  [.createZTraceEndpoint P.endp P.ip.bytes P.port P.service.bytes]

/-- The `i`-th turn of the loops of `Parent` and `Child`. -/
def cppRound (i : ℕ) : Round (Move ZCall) Buffer where
  opening := List.replicate A.numbers .rand ++
    [.createZTrace (A.trace i) A.name.bytes A.endp,
      .event (A.startAnnot i) (A.trace i) A.startEvent.bytes,
      .getTraceInfo (A.res i) (A.trace i) (some (A.info i))].map .call
  request := .message (A.info i)
  arrival := .message (B.info i)
  serving := [.createZTraceInfo (B.res i) (B.trace i) B.name.bytes B.endp (some (B.info i)) true,
    .event (B.startAnnot i) (B.trace i) B.startEvent.bytes,
    .event (B.endAnnot i) (B.trace i) B.endEvent.bytes].map .call
  reply := .ack
  answer := .ack
  closing := [.event (A.endAnnot i) (A.trace i) A.endEvent.bytes].map .call

/-- Both processes of `test_p.cc`, once they are connected, for `n` turns of their loops. -/
def cppRelay (n : ℕ) (h : Side → ZTracer.Heap) :
    State ZTracer.Heap (Move ZCall) Buffer Packet :=
  Duplex.start (A.cppSetup.map .call) (B.cppSetup.map .call)
    ((List.range' 0 n).map (A.cppRound B)) (h .a) (h .b)

end Speaker

/-! ## One process -/

/-- Calls of the library alone. -/
theorem run_moves (m : Mem) (cs : List Call) :
    run cHost.call m (cs.map .call) = run Blkin.step m cs :=
  run_map ..

/-- A process that is set up, `k` calls of `rand()` after it had the memory `m₀`. -/
structure Speaker.Ready (P : Speaker) (m₀ : Mem) (k : ℕ) (m : Mem) : Prop where
  rands : m.rands = m₀.rands
  drawn : m.drawn = m₀.drawn + k
  endp : m.endps P.endp = ⟨some P.ip, P.port, some P.service⟩

/-- The trace of the `i`-th round has the ids `v`. -/
def Speaker.Holds (P : Speaker) (i : ℕ) (v : TraceInfo) (m : Mem) : Prop :=
  m.traces (P.trace i) = ⟨some P.name, v, some P.endp⟩

/-- From `m` to `m'` there are `d` calls of `rand()`, and every process that is set up stays
so. -/
structure Mem.Spends (m : Mem) (d : ℕ) (m' : Mem) : Prop where
  ready : ∀ {Q : Speaker} {m₀ : Mem} {k : ℕ}, Q.Ready m₀ k m → Q.Ready m₀ (k + d) m'

theorem Mem.Spends.trans {m m' m'' : Mem} {d d' : ℕ} (h : m.Spends d m') (h' : m'.Spends d' m'') :
    m.Spends (d + d') m'' where
  ready hQ := by
    rw [← Nat.add_assoc]
    exact h'.ready (h.ready hQ)

namespace Speaker

variable {A B P : Speaker} {m m₀ : Mem} {k i : ℕ}

theorem Ready.big (h : P.Ready m₀ k m) (j : ℕ) : m.big j = m₀.bigAt (k + 2 * j) := by
  simp only [Mem.big, Mem.bigAt, h.rands, h.drawn, Nat.add_assoc]

/-- Numbers that a process draws itself. -/
theorem run_draws : ∀ (j : ℕ) (m : Mem), ∃ m',
    run cHost.call m (List.replicate j .rand) = some ([], m') ∧ m.Spends j m'
  | 0, m => ⟨m, rfl, ⟨fun h => h⟩⟩
  | j + 1, m => by
    have hrand : m.Spends 1 m.rand.2 := ⟨fun h => ⟨h.rands, congrArg (· + 1) h.drawn, h.endp⟩⟩
    obtain ⟨m', hm', hspends⟩ := run_draws j m.rand.2
    refine ⟨m', run_cons_eq_some.2 ⟨[], m.rand.2, [], rfl, hm', rfl⟩, ?_⟩
    rw [Nat.add_comm]
    exact hrand.trans hspends

/-- Setting up fires nothing. -/
theorem run_setup (P : Speaker) (m : Mem) :
    ∃ m', run cHost.call m (P.setup.map .call) = some ([], m') ∧ P.Ready m 0 m' ∧
      ∀ {Q : Speaker} {m₀ : Mem} {k : ℕ}, Q.endp ≠ P.endp → Q.Ready m₀ k m → Q.Ready m₀ k m' := by
  refine ⟨_, rfl, ?_⟩
  rw [initEndpoint_some]
  refine ⟨⟨rfl, rfl, by simp⟩, fun hne h => ⟨h.rands, h.drawn, ?_⟩⟩
  rw [← h.endp]
  exact Function.update_of_ne hne _ _

theorem setup_silent (P : Speaker) : ∀ x ∈ P.setup.map .call, cHost.Silent x := by
  intro x hx m out m' hr
  obtain rfl : x = .call (.endpoint (some P.endp) (some P.ip) P.port (some P.service)) := by
    simpa [setup] using hx
  exact (congrArg Prod.fst (Option.some.inj hr)).symm

/-- Each instruction is one step. -/
theorem length_relay (A B : Speaker) (n : ℕ) (m : Side → Mem) :
    (A.relay B n m .a).prog.length + (A.relay B n m .b).prog.length =
      (A.numbers + 15) * n + 2 := by
  simp [relay, Duplex.start, join, setup, Round.leader, Round.follower, round, start, finish,
    List.length_flatMap, Function.comp_def]
  ring

theorem Ready.newTrace (h : P.Ready m₀ k m) (i : ℕ) : ∃ m', run Blkin.step m
    [.newTrace (some (P.trace i)) (some P.name) (some P.endp)] = some ([], m') ∧
      m.Spends 4 m' ∧ P.Holds i (m₀.rootAt k) m' := by
  refine ⟨_, rfl, ?_⟩
  rw [initNewTrace_some, h.big, h.big]
  exact ⟨⟨fun h => ⟨h.rands, by simp [h.drawn]; omega, h.endp⟩⟩, by simp [Holds, Mem.rootAt]⟩

/-- Only the trace of the child is changed. -/
theorem Ready.childInfo (h : P.Ready m₀ k m) {v : TraceInfo} (hv : m.infos (P.info i) = v) :
    ∃ m', run Blkin.step m [.childInfo (some (P.trace i)) (some (.info (P.info i)))
      (some P.endp) (some P.name)] = some ([], m') ∧ m.Spends 2 m' ∧
        P.Holds i (m₀.childIdsAt k v) m' ∧ ∀ {Q : Speaker} {j : ℕ} {w : TraceInfo},
          Q.trace j ≠ P.trace i → Q.Holds j w m → Q.Holds j w m' := by
  refine ⟨_, rfl, ?_⟩
  rw [initChildInfo_some, if_neg (by simp), Mem.readInfo_info, hv, h.big]
  refine ⟨⟨fun h => ⟨h.rands, by simp [h.drawn]; omega, h.endp⟩⟩,
    by simp [Holds, Mem.childIdsAt], fun hne hQ => ?_⟩
  rw [Holds, ← hQ]
  exact Function.update_of_ne hne _ _

/-- An annotation on the trace, recorded. It has no default to fill in. -/
theorem Ready.record (h : P.Ready m₀ k m) {v : TraceInfo} (ht : P.Holds i v m) (annot : Addr)
    (text : CString) : ∃ m', run Blkin.step m
      (blkinTimestamp annot (some (P.trace i)) (some P.endp) (some text)) =
        some ([P.event v text], m') ∧ m.Spends 0 m' ∧ ∀ {Q : Speaker} {j : ℕ} {w : TraceInfo},
          Q.Holds j w m → Q.Holds j w m' := by
  have hevent : m.timestampEvent (P.trace i) P.endp text = P.event v text := by
    rw [Mem.timestampEvent, ht, h.endp]
    rfl
  rw [run_blkinTimestamp (e := P.endp) rfl, hevent]
  refine ⟨_, rfl, ⟨fun {Q m₀ k} hQ => ⟨hQ.rands, hQ.drawn, ?_⟩⟩, fun {Q j w} hQ => ?_⟩
  · rw [← hQ.endp]
    by_cases heq : Q.endp = P.endp
    · simp [Mem.fillDefaults, heq, h.endp, Endpoint.filled]
    · simp [Mem.fillDefaults, heq]
  · simp only [Holds] at hQ ht ⊢
    by_cases heq : Q.trace j = P.trace i
    · simp [Mem.fillDefaults, heq, ht, Trace.filled, ← hQ]
    · simp [Mem.fillDefaults, heq, hQ]

theorem Holds.getInfo {v : TraceInfo} (ht : P.Holds i v m) (res : Int32) :
    ∃ m', run Blkin.step m [.getInfo res (some (P.trace i)) (some (.info (P.info i)))] =
      some ([], m') ∧ m.Spends 0 m' ∧ P.Holds i v m' ∧ m'.infos (P.info i) = v := by
  refine ⟨_, rfl, ⟨fun h => ⟨h.rands, h.drawn, h.endp⟩⟩, ht, ?_⟩
  simp only [Holds] at ht
  simp [getTraceInfo, Mem.writeInfo, ht]

/-- The first part of a round : a new trace, its first event, and its context. -/
theorem Ready.opening (h : A.Ready m₀ k m) : ∃ m', run cHost.call m (A.round B i).opening =
      some ([A.event (m₀.rootAt (k + A.numbers)) A.startEvent], m') ∧
    m.Spends (A.numbers + 4) m' ∧ A.Holds i (m₀.rootAt (k + A.numbers)) m' ∧
      m'.infos (A.info i) = m₀.rootAt (k + A.numbers) := by
  obtain ⟨m₁, h₁, hs₁⟩ := run_draws A.numbers m
  obtain ⟨m₂, h₂, hs₂, ht₂⟩ := (hs₁.ready h).newTrace i
  have hA₂ := hs₂.ready (hs₁.ready h)
  obtain ⟨m₃, h₃, hs₃, ht₃⟩ := hA₂.record ht₂ (A.startAnnot i) A.startEvent
  obtain ⟨m₄, h₄, hs₄, ht₄, hv⟩ := (ht₃ ht₂).getInfo (A.res i)
  exact ⟨m₄, run_append_eq_some.2 ⟨_, _, _, h₁, (run_moves _ _).trans
    (run_append_eq_some.2 ⟨_, _, _, h₂, run_append_eq_some.2 ⟨_, _, _, h₃, h₄, rfl⟩, rfl⟩), rfl⟩,
    ((hs₁.trans hs₂).trans hs₃).trans hs₄, ht₄, hv⟩

/-- What the other process does with the context it received. -/
theorem Ready.serving (h : B.Ready m₀ k m) {v : TraceInfo} (hv : m.infos (B.info i) = v) :
    ∃ m', run cHost.call m (A.round B i).serving =
      some ([B.event (m₀.childIdsAt k v) B.startEvent, B.event (m₀.childIdsAt k v) B.endEvent],
        m') ∧
    m.Spends 2 m' ∧ ∀ {Q : Speaker} {j : ℕ} {w : TraceInfo}, Q.trace j ≠ B.trace i →
      Q.Holds j w m → Q.Holds j w m' := by
  obtain ⟨m₁, h₁, hs₁, ht₁, hk₁⟩ := h.childInfo hv
  have hB₁ := hs₁.ready h
  obtain ⟨m₂, h₂, hs₂, hk₂⟩ := hB₁.record ht₁ (B.startAnnot i) B.startEvent
  obtain ⟨m₃, h₃, hs₃, hk₃⟩ := (hs₂.ready hB₁).record (hk₂ ht₁) (B.endAnnot i) B.endEvent
  exact ⟨m₃, (run_moves _ _).trans (run_append_eq_some.2 ⟨_, _, _, h₁,
    run_append_eq_some.2 ⟨_, _, _, h₂, h₃, rfl⟩, rfl⟩), (hs₁.trans hs₂).trans hs₃,
    fun hne hQ => hk₃ (hk₂ (hk₁ hne hQ))⟩

/-- The other process stores the context. -/
theorem take_arrival {u : TraceInfo} (hv : m.infos (A.info i) = u) (n : Mem) :
    cHost.take n (A.round B i).arrival (cHost.out m (A.round B i).request) =
      some (n.writeInfo (.info (B.info i)) u) := by
  rw [← hv]
  rfl

/-- The rounds from the `i`-th on, one after the other. -/
theorem runs (A B : Speaker) (m₀ : Side → Mem) : ∀ (n i : ℕ) {m m' : Mem},
    A.Ready (m₀ .a) ((A.numbers + 4) * i) m → B.Ready (m₀ .b) (2 * i) m' → ∃ l l',
      Round.Runs cHost ((List.range' i n).map (A.round B)) m m'
        (A.conversation B m₀ (List.range' i n)) l l'
  | 0, i, m, m', _, _ => ⟨m, m', .nil m m'⟩
  | n + 1, i, m, m', hA, hB => by
    obtain ⟨m₁, hopen, hs₁, ht, hv⟩ := hA.opening (B := B)
    have hB₁ : B.Ready (m₀ .b) (2 * i)
        (m'.writeInfo (.info (B.info i)) (A.rootIds (m₀ .a) i)) :=
      ⟨hB.rands, hB.drawn, hB.endp⟩
    obtain ⟨m₂, hserve, hs₂, -⟩ := hB₁.serving (A := A) (Function.update_self ..)
    have hA₁ := hs₁.ready hA
    obtain ⟨m₃, hclose, hs₃, -⟩ := hA₁.record ht (A.endAnnot i) A.endEvent
    obtain ⟨l, l', hrest⟩ := runs A B m₀ n (i + 1) (hs₃.ready hA₁) (hs₂.ready hB₁)
    exact ⟨l, l', .cons hopen (take_arrival hv m') hserve rfl ((run_moves _ _).trans hclose)
      hrest⟩

/-- Both processes by themselves. -/
theorem exists_runs (A B : Speaker) (n : ℕ) (m : Side → Mem) : ∃ m₁ m₁' l l',
    run cHost.call (m .a) (A.setup.map .call) = some ([], m₁) ∧
      run cHost.call (m .b) (B.setup.map .call) = some ([], m₁') ∧
        Round.Runs cHost ((List.range' 0 n).map (A.round B)) m₁ m₁'
          (A.conversation B m (List.range n)) l l' := by
  obtain ⟨m₁, hsetup, hA, -⟩ := A.run_setup (m .a)
  obtain ⟨m₁', hsetup', hB, -⟩ := B.run_setup (m .b)
  obtain ⟨l, l', hruns⟩ := runs A B m n 0 hA hB
  exact ⟨m₁, m₁', l, l', hsetup, hsetup', List.range_eq_range' ▸ hruns⟩

/-- Every order of the steps of the two processes, whatever is in their memories, emits a
beginning of the conversation and can go on to its end. -/
theorem relay_emits (A B : Speaker) (n : ℕ) (m : Side → Mem) {sched : List Side}
    {s : State Mem (Move Call) Buffer Packet} {seen : List Tracepoint}
    (hs : run cHost.step (A.relay B n m) sched = some (seen, s)) :
    GoesOn cHost.step s seen ((A.numbers + 15) * n + 2 - sched.length)
      (A.conversation B m (List.range n)) := by
  obtain ⟨m₁, m₁', l, l', hsetup, hsetup', hruns⟩ := exists_runs A B n m
  obtain ⟨rest, unseen, hrest, hlen, heq⟩ :=
    start_complete hsetup hsetup' (setup_silent B) hruns hs
  refine ⟨rest, unseen, _, hrest, fun i => by cases i <;> exact ⟨rfl, rfl⟩, ?_, heq⟩
  have hprog := A.length_relay B n m
  rw [relay] at hprog
  omega

/-- The processes of `testc.c` after some steps of both. -/
theorem relay_emits_testc :
    let A := processA 0 0 0 0 fun _ => 0
    let B := processB 0 0 0 0 fun _ => 0
    let m : Side → Mem := fun _ => .static .little fun n => .ofNat n
    ∃ seen s, run cHost.step (A.relay B 10 m) [.a, .a, .b, .a, .a, .a, .a, .b] = some (seen, s) ∧
      seen = [A.event ⟨1, 8589934595, 0⟩ (.lit "start")] ∧
      GoesOn cHost.step s seen 144 (A.conversation B m (List.range 10)) := by
  intro A B m
  exact exists_of_map_eq (f := Prod.fst) (by decide +kernel) fun seen s hs hseen =>
    ⟨hseen, relay_emits A B 10 m hs⟩

/-! ## The wrapper's conversation -/

theorem toCstr_bytes (s : CString) : toCstr s.bytes = s := by
  obtain ⟨bs, h⟩ := s
  simp only [toCstr, CString.cut, CString.mk.injEq]
  exact List.takeWhile_eq_self_iff.2 fun b hb => by simpa using ne_of_mem_of_not_mem hb h

/-- An operation of the wrapper, from the calls it makes. -/
theorem zstep_of_calls {h : ZTracer.Heap} {c : ZCall} {cs : List Call} {m' : Mem}
    {out : List Tracepoint} (hc : c.calls h = some cs)
    (hr : run Blkin.step h.mem cs = some (out, m')) :
    ZTracer.step h c = some (out, ⟨m', c.eps h⟩) := by
  rw [ZTracer.step_eq_calls, hc, Option.bind_some, hr]
  rfl

/-- `event` on a trace whose handle is the endpoint of the process. -/
theorem zstep_event {h : ZTracer.Heap} {m' : Mem} {annot : Addr} {text : CString}
    {out : List Tracepoint} (hep : h.ep (P.trace i) = some P.endp)
    (hr : run Blkin.step h.mem
      (blkinTimestamp annot (some (P.trace i)) (some P.endp) (some text)) = some (out, m')) :
    ZTracer.step h (.event annot (P.trace i) text.bytes) = some (out, { h with mem := m' }) := by
  refine zstep_of_calls ?_ hr
  simp [ZCall.calls, hep, toCstr_bytes]

/-- The process made its trace of the `i`-th round, and nothing else since. -/
def created (P : Speaker) (i : ℕ) (h : ZTracer.Heap) (m : Mem) : ZTracer.Heap :=
  ⟨m, Function.update h.ep (P.trace i) (some P.endp)⟩

theorem ep_created (P : Speaker) (i : ℕ) (h : ZTracer.Heap) (m : Mem) :
    (P.created i h m).ep (P.trace i) = some P.endp :=
  Function.update_self ..

theorem zstep_createZTrace {h : ZTracer.Heap} {m' : Mem} {out : List Tracepoint}
    (hr : Blkin.step h.mem (.newTrace (some (P.trace i)) (some P.name) (some P.endp)) =
      some (out, m')) : ZTracer.step h (.createZTrace (P.trace i) P.name.bytes P.endp) =
        some (out, P.created i h m') :=
  zstep_of_calls rfl (by rw [run_singleton, toCstr_bytes]; exact hr)

theorem zstep_createZTraceInfo {h : ZTracer.Heap} {m' : Mem} {out : List Tracepoint}
    (res : Int32) (hr : Blkin.step h.mem (.childInfo (some (P.trace i)) (some (.info (P.info i)))
      (some P.endp) (some P.name)) = some (out, m')) : ZTracer.step h (.createZTraceInfo res
        (P.trace i) P.name.bytes P.endp (some (P.info i)) true) =
          some (out, P.created i h m') :=
  zstep_of_calls rfl (by rw [run_singleton, toCstr_bytes]; exact hr)

/-- Calls of the wrapper alone. -/
theorem zrun_moves (h : ZTracer.Heap) (cs : List ZCall) :
    run cppHost.call h (cs.map .call) = run ZTracer.step h cs :=
  run_map ..

theorem zrun_draws : ∀ {j : ℕ} {h : ZTracer.Heap} {m' : Mem} {out : List Tracepoint},
    run cHost.call h.mem (List.replicate j .rand) = some (out, m') →
      run cppHost.call h (List.replicate j .rand) = some (out, { h with mem := m' })
  | 0, _, _, _, hr => by
    obtain ⟨rfl, rfl⟩ := Prod.mk.inj (Option.some.inj hr)
    rfl
  | _ + 1, h, _, _, hr => by
    obtain ⟨_, m, _, hrand, hrest, rfl⟩ := run_cons_eq_some.1 hr
    obtain ⟨rfl, rfl⟩ := Prod.mk.inj (Option.some.inj hrand)
    have hdraws := zrun_draws (h := { h with mem := h.mem.rand.2 }) hrest
    exact run_cons_eq_some.2 ⟨_, _, _, rfl, hdraws, rfl⟩

section Rounds

variable {h : ZTracer.Heap} {m' : Mem} {out : List Tracepoint}

theorem zrun_opening (hr : run cHost.call h.mem (A.round B i).opening = some (out, m')) :
    run cppHost.call h (A.cppRound B i).opening = some (out, A.created i h m') := by
  obtain ⟨_, m₀, _, h₀, hcalls, rfl⟩ := run_append_eq_some.1 hr
  obtain ⟨_, m₁, _, h₁, hrest, rfl⟩ := run_cons_eq_some.1 ((run_moves _ _).symm.trans hcalls)
  obtain ⟨_, m₂, _, h₂, h₃, rfl⟩ := run_append_eq_some.1 hrest
  have hcreate := zstep_createZTrace (h := { h with mem := m₀ }) h₁
  have hevent := zstep_event (A.ep_created i h m₁) h₂
  have hinfo := zstep_of_calls (c := .getTraceInfo (A.res i) (A.trace i) (some (A.info i)))
    (congrArg (Option.map _) (A.ep_created i h m₂)) h₃
  refine run_append_eq_some.2 ⟨_, _, _, zrun_draws h₀, ?_, rfl⟩
  rw [zrun_moves]
  exact run_cons_eq_some.2 ⟨_, _, _, hcreate, run_cons_eq_some.2
    ⟨_, _, _, hevent, (run_singleton ..).trans hinfo, rfl⟩, rfl⟩

theorem zrun_serving (hr : run cHost.call h.mem (A.round B i).serving = some (out, m')) :
    run cppHost.call h (A.cppRound B i).serving = some (out, B.created i h m') := by
  obtain ⟨_, m₁, _, h₁, hrest, rfl⟩ := run_cons_eq_some.1 ((run_moves _ _).symm.trans hr)
  obtain ⟨_, m₂, _, h₂, h₃, rfl⟩ := run_append_eq_some.1 hrest
  have hcreate := zstep_createZTraceInfo (B.res i) h₁
  have hstart := zstep_event (B.ep_created i h m₁) h₂
  have hfinish := zstep_event (B.ep_created i h m₂) h₃
  exact (zrun_moves _ _).trans (run_cons_eq_some.2 ⟨_, _, _, hcreate, run_cons_eq_some.2
    ⟨_, _, _, hstart, (run_singleton ..).trans hfinish, rfl⟩, rfl⟩)

theorem zrun_closing (hep : h.ep (A.trace i) = some A.endp)
    (hr : run cHost.call h.mem (A.round B i).closing = some (out, m')) :
    run cppHost.call h (A.cppRound B i).closing = some (out, { h with mem := m' }) :=
  (zrun_moves _ _).trans ((run_singleton ..).trans
    (zstep_event hep ((run_moves _ _).symm.trans hr)))

end Rounds

/-- The wrapper's rounds answer those of the C program. -/
theorem answers (A B : Speaker) (i : ℕ) :
    Round.Answers cHost cppHost (fun m h => h.mem = m)
      (fun m h => h.mem = m ∧ h.ep (A.trace i) = some A.endp) (A.round B i) (A.cppRound B i) where
  opening := by
    rintro m h out m' rfl hr
    exact ⟨_, zrun_opening hr, rfl, A.ep_created i h m'⟩
  request hd := by rw [← hd.1]; rfl
  arrival := by
    rintro m h msg m' rfl hr
    exact ⟨{ h with mem := m' }, congrArg (Option.map _) hr, rfl⟩
  serving := by
    rintro m h out m' rfl hr
    exact ⟨_, zrun_serving hr, rfl⟩
  reply _ := rfl
  answer := by
    rintro m h msg m' ⟨rfl, hep⟩ hr
    exact ⟨{ h with mem := m' }, congrArg (Option.map _) hr, rfl, hep⟩
  closing := by
    rintro m h out m' ⟨rfl, hep⟩ hr
    exact ⟨_, zrun_closing hep hr, rfl⟩

theorem cppSetup_silent (P : Speaker) : ∀ x ∈ P.cppSetup.map .call, cppHost.Silent x := by
  intro x hx h out h' hr
  obtain rfl : x = .call (.createZTraceEndpoint P.endp P.ip.bytes P.port P.service.bytes) := by
    simpa [cppSetup] using hx
  exact (congrArg Prod.fst (Option.some.inj hr)).symm

theorem length_cppRelay (A B : Speaker) (n : ℕ) (h : Side → ZTracer.Heap) :
    (A.cppRelay B n h .a).prog.length + (A.cppRelay B n h .b).prog.length =
      (A.numbers + 11) * n + 2 := by
  simp [cppRelay, Duplex.start, join, cppSetup, Round.leader, Round.follower, cppRound,
    List.length_flatMap, Function.comp_def]
  ring

theorem zstep_setup {h : ZTracer.Heap} {m' : Mem} {out : List Tracepoint}
    (hr : run cHost.call h.mem (P.setup.map .call) = some (out, m')) :
    run cppHost.call h (P.cppSetup.map .call) = some (out, { h with mem := m' }) := by
  have hcalls : (ZCall.createZTraceEndpoint P.endp P.ip.bytes P.port P.service.bytes).calls h =
      some P.setup := by
    rw [ZCall.calls, toCstr_bytes, toCstr_bytes]
    rfl
  rw [run_moves] at hr
  exact (zrun_moves _ _).trans ((run_singleton ..).trans (zstep_of_calls hcalls hr))

/-- The processes that call the wrapper have the conversation of those that call the
library, in every order of their steps. -/
theorem cppRelay_emits (A B : Speaker) (n : ℕ) (h : Side → ZTracer.Heap) {sched : List Side}
    {s : State ZTracer.Heap (Move ZCall) Buffer Packet} {seen : List Tracepoint}
    (hs : run cppHost.step (A.cppRelay B n h) sched = some (seen, s)) :
    GoesOn cppHost.step s seen ((A.numbers + 11) * n + 2 - sched.length)
      (A.conversation B (fun i => (h i).mem) (List.range n)) := by
  obtain ⟨m₁, m₁', l, l', hsetup, hsetup', hruns⟩ := exists_runs A B n fun i => (h i).mem
  obtain ⟨k, k', hruns'⟩ := Round.Runs.answered (answers A B) hruns
    (h := { h .a with mem := m₁ }) (k := { h .b with mem := m₁' }) rfl rfl
  obtain ⟨rest, unseen, hrest, hlen, heq⟩ := start_complete (zstep_setup hsetup)
    (zstep_setup hsetup') (cppSetup_silent B) hruns' hs
  refine ⟨rest, unseen, _, hrest, fun i => by cases i <;> exact ⟨rfl, rfl⟩, ?_, heq⟩
  have hprog := A.length_cppRelay B n h
  rw [cppRelay] at hprog
  omega

/-- The processes of `test_p.cc` after some steps of both. -/
theorem cppRelay_emits_test_p :
    let A := parent 0 id id id id fun _ => 0
    let B := child 0 id id id id fun _ => 0
    let h : Side → ZTracer.Heap := fun _ => ⟨.static .little fun n => .ofNat n, fun _ => none⟩
    ∃ seen s, run cppHost.step (A.cppRelay B 10 h) [.a, .a, .b, .a, .a, .a, .a, .b] =
        some (seen, s) ∧
      seen = [A.event ⟨4294967298, 12884901892, 0⟩ (.lit "parent start")] ∧
      GoesOn cppHost.step s seen 114 (A.conversation B (fun i => (h i).mem) (List.range 10)) := by
  intro A B h
  exact exists_of_map_eq (f := Prod.fst) (by decide +kernel) fun seen s hs hseen =>
    ⟨hseen, cppRelay_emits A B 10 h hs⟩

end Speaker

end Blkin
