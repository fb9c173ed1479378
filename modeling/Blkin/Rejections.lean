import Blkin.Effects
import Blkin.ZTracer

/-!
# What the C++ wrapper makes of rejections

An operation of the wrapper makes one or two calls of the library. A `Supervised` run
remembers which of them rejected their arguments, what the operation returned, and which
fields of a `ZTrace` were assigned since it was allocated. A call assigns a field if what
the field holds after the call does not depend on what the trace held before it
(`Call.Assigns`). No operation throws.

`get_trace_info` and `set_trace_info` return the status of their call, and no other method
has its arguments rejected. The constructors drop it : with a `NULL` context one of their
calls rejects and nobody is told, and if the object was to become a child it is handed out
as it was allocated. `supervised_iff` says that this is all that goes wrong, in every
sequence of operations.
-/

open Machine

namespace Blkin

/-- The fields of a `blkin_trace`, its three ids as one. -/
inductive TraceField
  | ids
  | name
  | endpoint
  deriving DecidableEq

/-- The traces hold the same in the field. -/
def Trace.SameAt (u v : Trace) : TraceField → Prop
  | .ids => u.info = v.info
  | .name => u.name = v.name
  | .endpoint => u.traceEndpoint = v.traceEndpoint

theorem Trace.SameAt.refl (u : Trace) : ∀ f, u.SameAt u f
  | .ids => rfl
  | .name => rfl
  | .endpoint => rfl

/-- The call assigns the field of the trace at `t` : what it holds after the call is the same
whatever the trace held before. -/
def Call.Assigns (m : Mem) (t : Addr) (c : Call) (f : TraceField) : Prop :=
  ∀ v v' o o', exec (m.modTrace t fun _ => v) c = some o →
    exec (m.modTrace t fun _ => v') c = some o' → (o.mem.traces t).SameAt (o'.mem.traces t) f

namespace Call

variable {m : Mem} {t : Addr} {c : Call}

/-- A call that leaves one trace whatever there was before assigns all its fields. -/
theorem assigns_of_traces {u : Trace}
    (h : ∀ v o, exec (m.modTrace t fun _ => v) c = some o → o.mem.traces t = u) (f : TraceField) :
    c.Assigns m t f := by
  intro v v' o o' ho ho'
  rw [h v o ho, h v' o' ho']
  exact .refl u f

/-- A call that leaves the trace as it is assigns none of them. -/
theorem not_assigns_of_traces
    (h : ∀ v, ∃ o, exec (m.modTrace t fun _ => v) c = some o ∧ o.mem.traces t = v)
    (f : TraceField) : ¬c.Assigns m t f := by
  intro hassigns
  obtain ⟨o, ho, hv⟩ := h ⟨none, ⟨0, 0, 0⟩, none⟩
  obtain ⟨o', ho', hv'⟩ := h ⟨some defaultName, ⟨1, 1, 1⟩, some 0⟩
  have hsame := hassigns _ _ o o' ho ho'
  rw [hv, hv'] at hsame
  cases f <;> simp [Trace.SameAt] at hsame

theorem assigns_newTrace (m : Mem) (t : Addr) (service : Option CString) (e : Ptr) :
    ∀ f, (newTrace (some t) service e).Assigns m t f := by
  refine assigns_of_traces (u := ⟨service, ⟨m.big 0, m.big 1, 0⟩, e⟩) fun v o ho => ?_
  obtain rfl := Option.some.inj ho
  rw [initNewTrace_some]
  simp [Mem.big]

theorem assigns_childInfo (m : Mem) {t : Addr} {i : InfoLoc} (hi : i ≠ .trace t) (e : Addr)
    (name : Option CString) :
    ∀ f, (childInfo (some t) (some i) (some e) name).Assigns m t f := by
  refine assigns_of_traces (u := ⟨name, ⟨(m.readInfo i).traceId, m.big 0, (m.readInfo i).spanId⟩,
    some e⟩) fun v o ho => ?_
  obtain rfl := Option.some.inj ho
  rw [initChildInfo_some, if_neg hi, Mem.readInfo_modTrace _ _ hi]
  simp [Mem.big]

theorem assigns_child (m : Mem) {t p : Addr} (hp : p ≠ t) (e : Addr) (name : Option CString) :
    ∀ f, (child (some t) (some p) (some e) name).Assigns m t f := by
  intro f v v' o o' ho ho'
  have hi : InfoLoc.trace p ≠ .trace t := fun h => hp (InfoLoc.trace.inj h)
  rw [exec, initChild_some] at ho ho'
  exact assigns_childInfo m hi e name f v v' o o' ho ho'

end Call

/-! ## Calls of the library -/

structure Assigning where
  mem : Mem
  assigned : Addr → TraceField → Prop

namespace Assigning

/-- The fields that are assigned once the call is made as well. -/
def assign (s : Assigning) (c : Call) (t : Addr) (f : TraceField) : Prop :=
  s.assigned t f ∨ c.Assigns s.mem t f

/-- One call, with itself as the output if it rejects its arguments. -/
def step (s : Assigning) (c : Call) : Option (List Call × Assigning) :=
  (exec s.mem c).map fun o =>
    (if (c.effect s.mem).isNone then [c] else [], ⟨o.mem, s.assign c⟩)

/-- The calls do what they do unwatched. -/
theorem run_mem : ∀ {cs : List Call} {s s' : Assigning} {rejected : List Call},
    run step s cs = some (rejected, s') →
      ∃ events, run Blkin.step s.mem cs = some (events, s'.mem)
  | [], s, s', rejected, h => by
    obtain ⟨-, rfl⟩ : [] = rejected ∧ s = s' := by simpa using h
    exact ⟨[], rfl⟩
  | c :: cs, s, s', rejected, h => by
    obtain ⟨_, s₁, _, h₁, h₂, -⟩ := run_cons_eq_some.1 h
    obtain ⟨o, ho, heq⟩ := Option.map_eq_some_iff.1 h₁
    obtain ⟨-, rfl⟩ := Prod.mk.inj heq
    obtain ⟨events, hrun⟩ := run_mem h₂
    exact ⟨_, run_cons_eq_some.2 ⟨o.fired.toList, o.mem, events, by simp [Blkin.step, ho], hrun,
      rfl⟩⟩

/-- An assigned field stays one. -/
theorem keeps_assigned (t : Addr) (f : TraceField) :
    Keeps step fun s _ => s.assigned t f := by
  intro s _ c _ s' hassigned hstep
  obtain ⟨o, -, heq⟩ := Option.map_eq_some_iff.1 hstep
  obtain ⟨-, rfl⟩ := Prod.mk.inj heq
  exact .inl hassigned

end Assigning

/-! ## Operations of the wrapper -/

namespace ZTracer

/-- An operation with what it returns, `none` for an object. -/
def perform (h : Heap) : ZCall → Option (Option Int32 × List Tracepoint × Heap)
  | .createZTraceEndpoint dst ip port name =>
    (createZTraceEndpoint h dst ip port name).map (none, ·)
  | .createZTrace dst name ep => (createZTrace h dst name ep).map (none, ·)
  | .createZTraceChild dst name t => (createZTraceChild h dst name t).map (none, ·)
  | .createZTraceChildAt dst name t ep => (createZTraceChildAt h dst name t ep).map (none, ·)
  | .createZTraceInfo res dst name ep info child =>
    (createZTraceInfo res h dst name ep info child).map (none, ·)
  | .keyval annot t key val => (keyval h annot t key val).map fun r => (some r.1, r.2)
  | .event annot t ev => (event h annot t ev).map fun r => (some r.1, r.2)
  | .keyvalAt annot t key val ep => (keyvalAt h annot t key val ep).map fun r => (some r.1, r.2)
  | .eventAt annot t ev ep => (eventAt h annot t ev ep).map fun r => (some r.1, r.2)
  | .getTraceInfo res t info => (getTraceInfo res h t info).map fun r => (some r.1, r.2)
  | .setTraceInfo res t info => (setTraceInfo res h t info).map fun r => (some r.1, r.2)

theorem map_perform (h : Heap) (c : ZCall) : (perform h c).map Prod.snd = step h c := by
  cases c <;> simp [perform, step, Function.comp_def]

end ZTracer

namespace ZCall

/-- The calls of the library that the operation makes. -/
def calls (h : ZTracer.Heap) : ZCall → Option (List Call)
  | createZTraceEndpoint dst ip port name =>
    some [.endpoint (some dst) (some (toCstr ip)) port (some (toCstr name))]
  | createZTrace dst name ep => some [.newTrace (some dst) (some (toCstr name)) (some ep)]
  | createZTraceChild dst name t =>
    (h.ep t).map fun ep => [.child (some dst) (some t) (some ep) (some (toCstr name))]
  | createZTraceChildAt dst name t ep =>
    (h.ep t).map fun _ => [.child (some dst) (some t) (some ep) (some (toCstr name))]
  | createZTraceInfo _ dst name ep info true =>
    some [.childInfo (some dst) (info.map .info) (some ep) (some (toCstr name))]
  | createZTraceInfo res dst name ep info false =>
    some [.newTrace (some dst) (some (toCstr name)) (some ep),
      .setInfo res (some dst) (info.map .info)]
  | keyval annot t key val =>
    (h.ep t).map fun ep =>
      blkinKeyval annot (some t) (some ep) (some (toCstr key)) (some (toCstr val))
  | event annot t ev =>
    (h.ep t).map fun ep => blkinTimestamp annot (some t) (some ep) (some (toCstr ev))
  | keyvalAt annot t key val ep =>
    (h.ep t).map fun _ =>
      blkinKeyval annot (some t) (some ep) (some (toCstr key)) (some (toCstr val))
  | eventAt annot t ev ep =>
    (h.ep t).map fun _ => blkinTimestamp annot (some t) (some ep) (some (toCstr ev))
  | getTraceInfo res t info => (h.ep t).map fun _ => [.getInfo res (some t) (info.map .info)]
  | setTraceInfo res t info => (h.ep t).map fun _ => [.setInfo res (some t) (info.map .info)]

/-- The member `ep` of every `ZTrace` after the operation. -/
def eps (h : ZTracer.Heap) : ZCall → Addr → Ptr
  | createZTrace dst _ ep => Function.update h.ep dst (some ep)
  | createZTraceChild dst _ t => Function.update h.ep dst (h.ep t)
  | createZTraceChildAt dst _ _ ep => Function.update h.ep dst (some ep)
  | createZTraceInfo _ dst _ ep _ _ => Function.update h.ep dst (some ep)
  | _ => h.ep

end ZCall

/-- The operation is its calls of the library. -/
theorem ZTracer.step_eq_calls (h : ZTracer.Heap) (c : ZCall) :
    ZTracer.step h c = (c.calls h).bind fun cs =>
      (run Blkin.step h.mem cs).map fun r => (r.1, ⟨r.2, c.eps h⟩) := by
  cases c with
  | createZTraceEndpoint | createZTrace => rfl
  | createZTraceInfo res dst name ep info child => cases child <;> rfl
  | createZTraceChild dst name t | createZTraceChildAt dst name t | keyval annot t
  | event annot t | keyvalAt annot t | eventAt annot t | getTraceInfo res t
  | setTraceInfo res t =>
    cases hep : h.ep t with
    | none =>
      simp [ZTracer.step, ZCall.calls, hep, ZTracer.createZTraceChild,
        ZTracer.createZTraceChildAt, ZTracer.keyval, ZTracer.event, ZTracer.keyvalAt,
        ZTracer.eventAt, ZTracer.getTraceInfo, ZTracer.setTraceInfo]
    | some e =>
      simp [ZTracer.step, ZCall.calls, ZCall.eps, hep, ZTracer.createZTraceChild,
        ZTracer.createZTraceChildAt, ZTracer.keyval, ZTracer.event, ZTracer.keyvalAt,
        ZTracer.eventAt, ZTracer.getTraceInfo, ZTracer.setTraceInfo, ZTracer.Heap.calls,
        ZTracer.Heap.setEp, run_singleton, Blkin.step, exec, silent]

namespace ZCall

/-- The `ZTrace` the operation is called on or makes a child of. -/
def subjects : ZCall → List Addr
  | createZTraceChild _ _ t => [t]
  | createZTraceChildAt _ _ t _ => [t]
  | keyval _ t _ _ => [t]
  | event _ t _ => [t]
  | keyvalAt _ t _ _ _ => [t]
  | eventAt _ t _ _ => [t]
  | getTraceInfo _ t _ => [t]
  | setTraceInfo _ t _ => [t]
  | _ => []

/-- The `ZTrace` the operation makes a child of. -/
def parents : ZCall → List Addr
  | createZTraceChild _ _ t => [t]
  | createZTraceChildAt _ _ t _ => [t]
  | _ => []

/-- Every operation is on a `ZTrace` of `ts` or one constructed before, and what it constructs
is an object of its own. -/
def onHandles : List Addr → List ZCall → Bool
  | _, [] => true
  | ts, c :: cs => c.subjects.all (fun t => t ∈ ts ∧ t ∉ c.made) && onHandles (c.made ++ ts) cs

/-- A constructor is passed a `NULL` context. -/
def NullInfo : ZCall → Prop
  | createZTraceInfo _ _ _ _ info _ => info = none
  | _ => False

/-- A constructor is passed a `NULL` context to make a child of. -/
def NullParent : ZCall → Prop
  | createZTraceInfo _ _ _ _ info child => info = none ∧ child = true
  | _ => False

instance (c : ZCall) : Decidable c.NullInfo := by
  unfold NullInfo
  cases c <;> infer_instance

instance (c : ZCall) : Decidable c.NullParent := by
  unfold NullParent
  cases c <;> infer_instance

theorem NullParent.nullInfo {c : ZCall} (h : c.NullParent) : c.NullInfo := by
  cases c <;> first | exact h.1 | exact h.elim

theorem NullParent.made {c : ZCall} (h : c.NullParent) : ∃ t, t ∈ c.made := by
  cases c with
  | createZTraceInfo res dst => exact ⟨dst, by simp [ZCall.made]⟩
  | _ => exact h.elim

theorem parents_subset {c : ZCall} {t : Addr} (h : t ∈ c.parents) : t ∈ c.subjects := by
  cases c <;> first | exact h | simp [parents] at h

/-- A constructed `ZTrace` has an endpoint. -/
theorem eps_ne_none {h : ZTracer.Heap} {ts : List Addr} {c : ZCall}
    (hts : ∀ t ∈ ts, h.ep t ≠ none) (hc : ∀ t ∈ c.subjects, t ∈ ts) :
    ∀ t ∈ c.made ++ ts, c.eps h t ≠ none := by
  have hupdate : ∀ {dst : Addr} {e : Ptr}, e ≠ none →
      ∀ t ∈ [dst] ++ ts, Function.update h.ep dst e t ≠ none := by
    intro dst e he t ht
    rcases eq_or_ne t dst with rfl | hne
    · simpa using he
    · rw [Function.update_of_ne hne]
      exact hts t (by simpa [hne] using ht)
  cases c with
  | createZTrace | createZTraceChildAt | createZTraceInfo => exact hupdate (by simp)
  | createZTraceChild dst name t => exact hupdate (hts t (hc t (by simp [subjects])))
  | _ => exact hts

end ZCall

/-! ## Supervised runs -/

/-- An operation : the calls of the library that rejected their arguments, what it returned
(`none` for an object), its events, and the fields assigned before and after it. -/
structure Performed where
  call : ZCall
  rejected : List Call
  returned : Option Int32
  events : List Tracepoint
  before : Addr → TraceField → Prop
  after : Addr → TraceField → Prop

namespace Performed

/-- If a call of the library rejected its arguments, the operation says so. -/
def Reports (r : Performed) : Prop :=
  r.rejected ≠ [] → ∃ n, r.returned = some n ∧ n < 0

/-- The `ZTrace` that is handed out, made a child of, or emits an event has all its fields
assigned. -/
structure Sound (r : Performed) : Prop where
  made : ∀ t ∈ r.call.made, ∀ f, r.after t f
  parents : ∀ t ∈ r.call.parents, ∀ f, r.before t f
  emits : r.events ≠ [] → ∀ t ∈ r.call.subjects, ∀ f, r.before t f

end Performed

structure Supervised where
  heap : ZTracer.Heap
  assigned : Addr → TraceField → Prop

namespace Supervised

/-- No `ZTrace` is constructed. -/
def start (m : Mem) : Supervised :=
  ⟨⟨m, fun _ => none⟩, fun _ _ => False⟩

/-- The assigned fields once the object that `c` constructs is allocated. -/
def allocated (s : Supervised) (c : ZCall) (t : Addr) (f : TraceField) : Prop :=
  t ∉ c.made ∧ s.assigned t f

/-- One operation. -/
def step (s : Supervised) (c : ZCall) : Option (List Performed × Supervised) := do
  let (returned, events, heap) ← ZTracer.perform s.heap c
  let cs ← c.calls s.heap
  let (rejected, a) ← run Assigning.step ⟨s.heap.mem, s.allocated c⟩ cs
  some ([⟨c, rejected, returned, events, s.assigned, a.assigned⟩], ⟨heap, a.assigned⟩)

end Supervised

/-! ## What an operation's calls reject -/

namespace Assigning

variable {s : Assigning}

theorem step_accepts {c : Call} {o : Outcome} {r : Mem × Option Tracepoint}
    (ho : exec s.mem c = some o) (hc : c.effect s.mem = some r) :
    step s c = some ([], ⟨o.mem, s.assign c⟩) := by
  simp [step, ho, hc]

theorem run_accepts {c : Call} {o : Outcome} {r : Mem × Option Tracepoint}
    (ho : exec s.mem c = some o) (hc : c.effect s.mem = some r) :
    run step s [c] = some ([], ⟨o.mem, s.assign c⟩) := by
  rw [run_singleton, step_accepts ho hc]

theorem run_rejects {c : Call} {o : Outcome} (ho : exec s.mem c = some o)
    (hc : c.effect s.mem = none) :
    run step s [c] = some ([c], ⟨o.mem, s.assign c⟩) := by
  rw [run_singleton, step, ho, hc]
  rfl

/-- A call that fires was accepted. -/
theorem effect_of_fired {m : Mem} {c : Call} {o : Outcome} (ho : exec m c = some o)
    (hfired : o.fired ≠ none) : ∃ r, c.effect m = some r := by
  obtain ⟨m', tp, he, -⟩ | ⟨-, rfl⟩ := exec_cases ho
  · exact ⟨_, he⟩
  · exact absurd rfl hfired

/-- An annotation that is accepted and then recorded with an event. -/
theorem run_recorded {c : Call} {o : Outcome} {r : Mem × Option Tracepoint} {record : Call}
    {tp : Tracepoint} {m : Mem} (ho : exec s.mem c = some o) (hc : c.effect s.mem = some r)
    (hquiet : o.fired = none) (hrun : run Blkin.step s.mem [c, record] = some ([tp], m)) :
    ∃ a, run step s [c, record] = some ([], a) := by
  obtain ⟨out, m₁, out', h₁, h₂, hout⟩ := run_cons_eq_some.1 hrun
  obtain ⟨rfl, rfl⟩ : [] = out ∧ o.mem = m₁ := by simpa [Blkin.step, ho, hquiet] using h₁
  rw [run_singleton] at h₂
  obtain ⟨o', ho', heq⟩ := Option.map_eq_some_iff.1 h₂
  obtain ⟨htp, rfl⟩ := Prod.mk.inj heq
  have hfired : o'.fired ≠ none := by
    intro hnone
    rw [hnone] at htp
    subst htp
    simp at hout
  obtain ⟨r', hr'⟩ := effect_of_fired ho' hfired
  have hfirst := step_accepts ho hc
  have hsecond := run_accepts (s := ⟨o.mem, s.assign c⟩) ho' hr'
  exact ⟨_, run_cons_eq_some.2 ⟨_, _, _, hfirst, hsecond, rfl⟩⟩

theorem run_keyval (s : Assigning) (annot t e : Addr) (key val : CString) : ∃ a,
    run step s (blkinKeyval annot (some t) (some e) (some key) (some val)) = some ([], a) :=
  run_recorded rfl rfl rfl (run_blkinKeyval Option.some_or)

theorem run_timestamp (s : Assigning) (annot t e : Addr) (event : CString) : ∃ a,
    run step s (blkinTimestamp annot (some t) (some e) (some event)) = some ([], a) :=
  run_recorded rfl rfl rfl (run_blkinTimestamp Option.some_or)

end Assigning

/-! ## One operation -/

namespace Supervised

open Assigning

variable {s : Supervised}

/-- The operation `c`, on `ZTrace`s of `ts`, does `r` and leads from `s` to `s'`. It reports
what is rejected unless a constructor is passed a `NULL` context. If that is to make a child
it is unsound; otherwise it is sound where all fields of the `ZTrace`s were assigned. -/
structure Performs (s : Supervised) (ts : List Addr) (c : ZCall) (r : Performed)
    (s' : Supervised) : Prop where
  step : s.step c = some ([r], s')
  wrapper : ZTracer.step s.heap c = some (r.events, s'.heap)
  reports : r.Reports ↔ ¬c.NullInfo
  unsound : c.NullParent → ¬r.Sound
  sound : ¬c.NullParent → (∀ t ∈ ts, ∀ f, s.assigned t f) →
    r.Sound ∧ ∀ t ∈ c.made ++ ts, ∀ f, s'.assigned t f
  eps : ∀ t ∈ c.made ++ ts, s'.heap.ep t ≠ none

/-- The operation from what its calls reject and assign. -/
theorem performs_of_calls {ts : List Addr} {c : ZCall} (hts : ∀ t ∈ ts, s.heap.ep t ≠ none)
    (hc : ∀ t ∈ c.subjects, t ∈ ts) {cs rejected : List Call} {a : Assigning}
    (hcalls : c.calls s.heap = some cs)
    (hrun : run Assigning.step ⟨s.heap.mem, s.allocated c⟩ cs = some (rejected, a))
    (hreports : ∀ returned r, ZTracer.perform s.heap c = some (returned, r) →
      ((rejected ≠ [] → ∃ n, returned = some n ∧ n < 0) ↔ ¬c.NullInfo))
    (hmade : ∀ t ∈ c.made, (∀ f, a.assigned t f) ↔ ¬c.NullParent) :
    ∃ r s', Performs s ts c r s' := by
  obtain ⟨events, hmem⟩ := run_mem hrun
  have hz : ZTracer.step s.heap c = some (events, ⟨a.mem, c.eps s.heap⟩) := by
    rw [ZTracer.step_eq_calls, hcalls, Option.bind_some, hmem]
    rfl
  obtain ⟨⟨returned, out⟩, hperform, rfl⟩ :=
    Option.map_eq_some_iff.1 ((ZTracer.map_perform s.heap c).trans hz)
  have hstep : s.step c = some ([⟨c, rejected, returned, events, s.assigned, a.assigned⟩],
      ⟨⟨a.mem, c.eps s.heap⟩, a.assigned⟩) := by
    simp [Supervised.step, hperform, hcalls, hrun]
  refine ⟨_, _, hstep, hz, hreports returned _ hperform, fun hnull hsound => ?_,
    fun hnull hs => ?_, ZCall.eps_ne_none hts hc⟩
  · obtain ⟨t, ht⟩ := hnull.made
    exact (hmade t ht).1 (hsound.made t ht) hnull
  · have hown : ∀ t ∈ c.made, ∀ f, a.assigned t f := fun t ht => (hmade t ht).2 hnull
    have hsubjects : ∀ t ∈ c.subjects, ∀ f, s.assigned t f := fun t ht => hs t (hc t ht)
    refine ⟨⟨hown, fun t ht => hsubjects t (ZCall.parents_subset ht), fun _ => hsubjects⟩,
      fun t ht f => ?_⟩
    by_cases hm : t ∈ c.made
    · exact hown t hm f
    · have hbefore : s.allocated c t f := ⟨hm, hs t ((List.mem_append.1 ht).resolve_left hm) f⟩
      exact (keeps_assigned t f).run_state hbefore hrun

/-- An operation all of whose calls are accepted. -/
theorem performs_accepted {ts : List Addr} {c : ZCall} (hts : ∀ t ∈ ts, s.heap.ep t ≠ none)
    (hc : ∀ t ∈ c.subjects, t ∈ ts) {cs : List Call} {a : Assigning}
    (hcalls : c.calls s.heap = some cs)
    (hrun : run Assigning.step ⟨s.heap.mem, s.allocated c⟩ cs = some ([], a))
    (hnull : ¬c.NullInfo) (hmade : ∀ t ∈ c.made, ∀ f, a.assigned t f) :
    ∃ r s', Performs s ts c r s' :=
  performs_of_calls hts hc hcalls hrun
    (fun _ _ _ => iff_of_true (fun h => absurd rfl h) hnull)
    fun t ht => iff_of_true (hmade t ht) fun h => hnull h.nullInfo

theorem step_performs {ts : List Addr} (hts : ∀ t ∈ ts, s.heap.ep t ≠ none) {c : ZCall}
    (hc : ∀ t ∈ c.subjects, t ∈ ts) (hown : ∀ t ∈ c.subjects, t ∉ c.made) :
    ∃ r s', Performs s ts c r s' := by
  have hep : ∀ t ∈ c.subjects, ∃ e, s.heap.ep t = some e := fun t ht =>
    Option.ne_none_iff_exists'.1 (hts t (hc t ht))
  cases c with
  | createZTraceEndpoint dst ip port name =>
    exact performs_accepted hts hc rfl (run_accepts rfl rfl) id (by simp [ZCall.made])
  | createZTrace dst name ep =>
    exact performs_accepted hts hc rfl (run_accepts rfl rfl) id
      (by simp [ZCall.made, assign, Call.assigns_newTrace])
  | createZTraceChild dst name t =>
    obtain ⟨e, he⟩ := hep t (by simp [ZCall.subjects])
    have hne : t ≠ dst := by simpa [ZCall.subjects, ZCall.made] using hown
    exact performs_accepted hts hc (congrArg (Option.map _) he) (run_accepts rfl rfl) id
      (by simp [ZCall.made, assign, Call.assigns_child _ hne])
  | createZTraceChildAt dst name t ep =>
    obtain ⟨e, he⟩ := hep t (by simp [ZCall.subjects])
    have hne : t ≠ dst := by simpa [ZCall.subjects, ZCall.made] using hown
    exact performs_accepted hts hc (congrArg (Option.map _) he) (run_accepts rfl rfl) id
      (by simp [ZCall.made, assign, Call.assigns_child _ hne])
  | createZTraceInfo res dst name ep info child =>
    have hobject : ∀ returned r, ZTracer.perform s.heap
        (.createZTraceInfo res dst name ep info child) = some (returned, r) → none = returned := by
      intro returned r hr
      obtain ⟨_, -, heq⟩ := Option.map_eq_some_iff.1 hr
      exact (Prod.mk.inj heq).1
    cases info with
    | some i =>
      cases child with
      | true =>
        exact performs_accepted hts hc rfl (run_accepts rfl rfl) (by simp [ZCall.NullInfo])
          (by simp [ZCall.made, assign, Call.assigns_childInfo])
      | false =>
        exact performs_accepted hts hc rfl
          (run_cons_eq_some.2 ⟨_, _, _, step_accepts rfl rfl, run_accepts rfl rfl, rfl⟩)
          (by simp [ZCall.NullInfo]) (by simp [ZCall.made, assign, Call.assigns_newTrace])
    | none =>
      cases child with
      | true =>
        have hleaves := Call.not_assigns_of_traces (m := s.heap.mem) (t := dst)
          (c := .childInfo (some dst) none (some ep) (some (toCstr name)))
          (fun v => ⟨_, rfl, by simp [initChildInfo]⟩) .ids
        refine performs_of_calls hts hc rfl (run_rejects rfl rfl) (fun returned r hr => ?_)
          fun t ht => iff_of_false (fun hall => ?_) (by simp [ZCall.NullParent])
        · obtain rfl := hobject returned r hr
          simp [ZCall.NullInfo]
        · obtain rfl : t = dst := by simpa [ZCall.made] using ht
          exact (hall .ids).elim (fun h => h.1 ht) hleaves
      | false =>
        refine performs_of_calls hts hc rfl
          (run_cons_eq_some.2 ⟨_, _, _, step_accepts rfl rfl, run_rejects rfl rfl, rfl⟩)
          (fun returned r hr => ?_)
          (by simp [ZCall.made, ZCall.NullParent, assign, Call.assigns_newTrace])
        obtain rfl := hobject returned r hr
        simp [ZCall.NullInfo]
  | keyval annot t key val =>
    obtain ⟨e, he⟩ := hep t (by simp [ZCall.subjects])
    obtain ⟨a, ha⟩ := run_keyval ⟨s.heap.mem, _⟩ annot t e (toCstr key) (toCstr val)
    exact performs_accepted hts hc (congrArg (Option.map _) he) ha id (by simp [ZCall.made])
  | event annot t ev =>
    obtain ⟨e, he⟩ := hep t (by simp [ZCall.subjects])
    obtain ⟨a, ha⟩ := run_timestamp ⟨s.heap.mem, _⟩ annot t e (toCstr ev)
    exact performs_accepted hts hc (congrArg (Option.map _) he) ha id (by simp [ZCall.made])
  | keyvalAt annot t key val ep =>
    obtain ⟨e, he⟩ := hep t (by simp [ZCall.subjects])
    obtain ⟨a, ha⟩ := run_keyval ⟨s.heap.mem, _⟩ annot t ep (toCstr key) (toCstr val)
    exact performs_accepted hts hc (congrArg (Option.map _) he) ha id (by simp [ZCall.made])
  | eventAt annot t ev ep =>
    obtain ⟨e, he⟩ := hep t (by simp [ZCall.subjects])
    obtain ⟨a, ha⟩ := run_timestamp ⟨s.heap.mem, _⟩ annot t ep (toCstr ev)
    exact performs_accepted hts hc (congrArg (Option.map _) he) ha id (by simp [ZCall.made])
  | getTraceInfo res t info =>
    obtain ⟨e, he⟩ := hep t (by simp [ZCall.subjects])
    cases info with
    | some i =>
      exact performs_accepted hts hc (congrArg (Option.map _) he) (run_accepts rfl rfl) id
        (by simp [ZCall.made])
    | none =>
      refine performs_of_calls hts hc (congrArg (Option.map _) he) (run_rejects rfl rfl)
        (fun returned r hr => ?_) (by simp [ZCall.made])
      obtain ⟨rfl, -⟩ : some (-einval) = returned ∧ _ = r := by
        simpa [ZTracer.perform, ZTracer.getTraceInfo, he, Blkin.getTraceInfo] using hr
      exact iff_of_true (fun _ => ⟨-einval, rfl, by decide⟩) id
  | setTraceInfo res t info =>
    obtain ⟨e, he⟩ := hep t (by simp [ZCall.subjects])
    cases info with
    | some i =>
      exact performs_accepted hts hc (congrArg (Option.map _) he) (run_accepts rfl rfl) id
        (by simp [ZCall.made])
    | none =>
      refine performs_of_calls hts hc (congrArg (Option.map _) he) (run_rejects rfl rfl)
        (fun returned r hr => ?_) (by simp [ZCall.made])
      obtain ⟨rfl, -⟩ : some (-einval) = returned ∧ _ = r := by
        simpa [ZTracer.perform, ZTracer.setTraceInfo, he, Blkin.setTraceInfo] using hr
      exact iff_of_true (fun _ => ⟨-einval, rfl, by decide⟩) id

/-! ## Sequences of operations -/

/-- The operations `cs`, on `ZTrace`s of `ts` and those they construct, do `rs`. -/
structure PerformsAll (s : Supervised) (ts : List Addr) (cs : List ZCall) (rs : List Performed)
    (s' : Supervised) : Prop where
  run : run step s cs = some (rs, s')
  wrapper : Machine.run ZTracer.step s.heap cs = some (rs.flatMap (·.events), s'.heap)
  reports : (∀ r ∈ rs, r.Reports) ↔ ∀ c ∈ cs, ¬c.NullInfo
  unsound : (∀ r ∈ rs, r.Sound) → ∀ c ∈ cs, ¬c.NullParent
  sound : (∀ c ∈ cs, ¬c.NullParent) → (∀ t ∈ ts, ∀ f, s.assigned t f) → ∀ r ∈ rs, r.Sound

theorem run_performs : ∀ {cs : List ZCall} {ts : List Addr} {s : Supervised},
    (∀ t ∈ ts, s.heap.ep t ≠ none) → ZCall.onHandles ts cs = true →
      ∃ rs s', PerformsAll s ts cs rs s'
  | [], ts, s, _, _ => ⟨[], s, rfl, rfl, by simp, by simp, by simp⟩
  | c :: cs, ts, s, hts, hcs => by
    obtain ⟨hc, hcs⟩ : (∀ t ∈ c.subjects, t ∈ ts ∧ t ∉ c.made) ∧
        ZCall.onHandles (c.made ++ ts) cs = true := by
      simpa [ZCall.onHandles] using hcs
    obtain ⟨r, s₁, hr⟩ := step_performs hts (fun t ht => (hc t ht).1) fun t ht => (hc t ht).2
    obtain ⟨rs, s', hrs⟩ := run_performs hr.eps hcs
    refine ⟨r :: rs, s', run_cons_eq_some.2 ⟨_, _, _, hr.step, hrs.run, rfl⟩,
      run_cons_eq_some.2 ⟨_, _, _, hr.wrapper, hrs.wrapper, rfl⟩, ?_, fun hsound => ?_,
      fun hnull hs => ?_⟩
    · rw [List.forall_mem_cons, List.forall_mem_cons, hr.reports, hrs.reports]
    · obtain ⟨hfirst, hrest⟩ := List.forall_mem_cons.1 hsound
      exact List.forall_mem_cons.2 ⟨fun h => hr.unsound h hfirst, hrs.unsound hrest⟩
    · obtain ⟨hfirst, hrest⟩ := List.forall_mem_cons.1 hnull
      obtain ⟨hsound, hs₁⟩ := hr.sound hfirst hs
      exact List.forall_mem_cons.2 ⟨hsound, hrs.sound hrest hs₁⟩

/-- Every sequence of operations on handles runs. It reports every rejection, and never
hands out, makes a child of, or emits an event on, a `ZTrace` with a field that was never
assigned, exactly if no constructor is passed a `NULL` context; and the latter alone
exactly if none is passed one to make a child of. -/
theorem supervised_iff (m : Mem) {cs : List ZCall} (hcs : ZCall.onHandles [] cs = true) :
    ∃ rs s, run step (start m) cs = some (rs, s) ∧
      run ZTracer.step ⟨m, fun _ => none⟩ cs = some (rs.flatMap (·.events), s.heap) ∧
      ((∀ r ∈ rs, r.Reports ∧ r.Sound) ↔ ∀ c ∈ cs, ¬c.NullInfo) ∧
      ((∀ r ∈ rs, r.Sound) ↔ ∀ c ∈ cs, ¬c.NullParent) := by
  obtain ⟨rs, s, h⟩ := run_performs (s := start m) (by simp) hcs
  have hsound : (∀ r ∈ rs, r.Sound) ↔ ∀ c ∈ cs, ¬c.NullParent :=
    ⟨h.unsound, fun hnull => h.sound hnull (by simp)⟩
  refine ⟨rs, s, h.run, h.wrapper, ?_, hsound⟩
  rw [forall₂_and, h.reports, hsound]
  exact and_iff_left_of_imp fun hnull c hc hparent => hnull c hc hparent.nullInfo

/-- A child of a received context, its own child, and a context that is asked for in vain. -/
theorem supervised_iff_received : ∃ rs s,
    run step (start unnamed) [.createZTraceInfo 0 0 [99] 0 (some 3) true,
      .createZTraceChild 1 [100] 0, .event 7 1 [101], .getTraceInfo 0 1 none] = some (rs, s) ∧
    ∀ r ∈ rs, r.Reports ∧ r.Sound := by
  have hcs : ZCall.onHandles [] [.createZTraceInfo 0 0 [99] 0 (some 3) true,
      .createZTraceChild 1 [100] 0, .event 7 1 [101], .getTraceInfo 0 1 none] = true := by
    decide
  obtain ⟨rs, s, hrun, -, hiff, -⟩ := supervised_iff unnamed hcs
  exact ⟨rs, s, hrun, hiff.2 (by decide)⟩

/-- The child of a `NULL` context is handed out as it was allocated, and nobody is told. It
becomes a parent and emits an event. -/
theorem child_of_null_handed_out : ∃ made child emitted s,
    run step (start unnamed) [.createZTraceInfo 0 0 [99] 0 none true,
      .createZTraceChild 1 [100] 0, .event 7 0 [101]] = some ([made, child, emitted], s) ∧
    made.rejected.length = 1 ∧ made.returned = none ∧ (∀ f, ¬made.after 0 f) ∧
    ¬made.Reports ∧ ¬made.Sound ∧ ¬child.Sound ∧ emitted.events.length = 1 ∧
    ¬emitted.Sound := by
  have hrejected : ∀ (m : Mem) f, ¬(Call.childInfo (some 0) none (some 0)
      (some (toCstr [99]))).Assigns m 0 f := fun m =>
    Call.not_assigns_of_traces fun v => ⟨_, rfl, by simp [initChildInfo]⟩
  have hother : ∀ (m : Mem) f, ¬(Call.child (some 1) (some 0) (some 0)
      (some (toCstr [100]))).Assigns m 0 f := fun m =>
    Call.not_assigns_of_traces fun v => ⟨_, rfl, by
      simp [initChild_some, childEndpoint, initChildInfo_some]⟩
  have hmade : ∀ (s : Supervised) f,
      ¬Assigning.assign ⟨s.heap.mem, s.allocated (.createZTraceInfo 0 0 [99] 0 none true)⟩
        (.childInfo (some 0) none (some 0) (some (toCstr [99]))) 0 f := fun s f h =>
    h.elim (fun h => h.1 (by decide)) (hrejected _ f)
  refine ⟨_, _, _, _, rfl, rfl, rfl, hmade _, fun h => ?_, fun h => ?_, fun h => ?_, rfl,
    fun h => ?_⟩
  · obtain ⟨n, hn, -⟩ := h (by decide)
    cases hn
  · exact hmade _ .ids (h.made 0 (by decide) .ids)
  · exact hmade _ .ids (h.parents 0 (by decide) .ids)
  · refine (h.emits (by decide) 0 (by decide) .ids).elim (fun h => hmade _ .ids h.2)
      (hother _ .ids)

end Supervised

end Blkin
