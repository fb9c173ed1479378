import Blkin.Endpoints

/-!
# The C++ wrapper, `ztracer.hpp` and `ztracer.cc`

A `ZTrace` holds a `blkin_trace` and a handle `ep` to a `ZTraceEndpoint`, which holds a
`blkin_endpoint`; the trace points to an endpoint as well. A `Heap` is the memory of the
library and the member `ep` of every `ZTrace` constructed so far, an object being known
by its address. Every operation is the calls of the library it makes, after a successful
`ztrace_init`, when the front's pointers are the library's functions.

A call with no explicit endpoint passes the `ZTrace`'s handle where a C program passes
`NULL` and leaves the choice to the library. `ZCall.program` is that C program.
`emits_program` says that both emit the same events, and that an event without an
explicit endpoint carries the endpoint of the nearest span that was created with one.
-/

open Machine

namespace Blkin

/-- The bytes of a `std::string`, `NUL` among them. -/
abbrev StdString := List UInt8

/-- `to_cstr`, and `c_str` where a C function reads it. -/
def toCstr (s : StdString) : CString :=
  .cut s

namespace ZTracer

structure Heap where
  mem : Mem
  /-- The member `ep` of the `ZTrace` at an address. -/
  ep : Addr → Ptr

/-- Calls of the library, in order. -/
def Heap.calls (h : Heap) (cs : List Call) : Option (List Tracepoint × Heap) :=
  (run Blkin.step h.mem cs).map fun r => (r.1, { h with mem := r.2 })

/-- The `ZTrace` at `t` with the member `ep`. -/
def Heap.setEp (h : Heap) (t ep : Addr) : Heap :=
  { h with ep := Function.update h.ep t (some ep) }

/-- `create_ZTraceEndpoint(ip, port, name)` at the address `dst` -/
def createZTraceEndpoint (h : Heap) (dst : Addr) (ip : StdString) (port : Int32)
    (name : StdString) : Option (List Tracepoint × Heap) :=
  h.calls [.endpoint (some dst) (some (toCstr ip)) port (some (toCstr name))]

/-- `create_ZTrace(name, ep)` -/
def createZTrace (h : Heap) (dst : Addr) (name : StdString) (ep : Addr) :
    Option (List Tracepoint × Heap) :=
  (h.setEp dst ep).calls [.newTrace (some dst) (some (toCstr name)) (some ep)]

/-- `create_ZTrace(name, t)` -/
def createZTraceChild (h : Heap) (dst : Addr) (name : StdString) (t : Addr) :
    Option (List Tracepoint × Heap) := do
  let ep ← h.ep t
  (h.setEp dst ep).calls [.child (some dst) (some t) (some ep) (some (toCstr name))]

/-- `create_ZTrace(name, t, ep)` -/
def createZTraceChildAt (h : Heap) (dst : Addr) (name : StdString) (t ep : Addr) :
    Option (List Tracepoint × Heap) := do
  let _ ← h.ep t
  (h.setEp dst ep).calls [.child (some dst) (some t) (some ep) (some (toCstr name))]

/-- `create_ZTrace(name, ep, info, child)` -/
def createZTraceInfo (res : Int32) (h : Heap) (dst : Addr) (name : StdString) (ep : Addr)
    (info : Ptr) (child : Bool) : Option (List Tracepoint × Heap) :=
  let h := h.setEp dst ep
  if child then
    h.calls [.childInfo (some dst) (info.map .info) (some ep) (some (toCstr name))]
  else
    h.calls [.newTrace (some dst) (some (toCstr name)) (some ep),
      .setInfo res (some dst) (info.map .info)]

/-- `ZTrace::keyval(key, val)`, with its annotation at `annot`. It returns `0`. -/
def keyval (h : Heap) (annot t : Addr) (key val : StdString) :
    Option (Int32 × List Tracepoint × Heap) := do
  let ep ← h.ep t
  let r ← h.calls (blkinKeyval annot (some t) (some ep) (some (toCstr key)) (some (toCstr val)))
  some (0, r)

/-- `ZTrace::event(event)` -/
def event (h : Heap) (annot t : Addr) (event : StdString) :
    Option (Int32 × List Tracepoint × Heap) := do
  let ep ← h.ep t
  let r ← h.calls (blkinTimestamp annot (some t) (some ep) (some (toCstr event)))
  some (0, r)

/-- `ZTrace::keyval(key, val, ep)` : the argument shadows the member. -/
def keyvalAt (h : Heap) (annot t : Addr) (key val : StdString) (ep : Addr) :
    Option (Int32 × List Tracepoint × Heap) := do
  let _ ← h.ep t
  let r ← h.calls (blkinKeyval annot (some t) (some ep) (some (toCstr key)) (some (toCstr val)))
  some (0, r)

/-- `ZTrace::event(event, ep)` -/
def eventAt (h : Heap) (annot t : Addr) (event : StdString) (ep : Addr) :
    Option (Int32 × List Tracepoint × Heap) := do
  let _ ← h.ep t
  let r ← h.calls (blkinTimestamp annot (some t) (some ep) (some (toCstr event)))
  some (0, r)

/-- `ZTrace::get_trace_info(info)` -/
def getTraceInfo (res : Int32) (h : Heap) (t : Addr) (info : Ptr) :
    Option (Int32 × List Tracepoint × Heap) := do
  let _ ← h.ep t
  let r := Blkin.getTraceInfo res h.mem (some t) (info.map .info)
  some (r.1, [], { h with mem := r.2 })

/-- `ZTrace::set_trace_info(info)` -/
def setTraceInfo (res : Int32) (h : Heap) (t : Addr) (info : Ptr) :
    Option (Int32 × List Tracepoint × Heap) := do
  let _ ← h.ep t
  let r := Blkin.setTraceInfo res h.mem (some t) (info.map .info)
  some (r.1, [], { h with mem := r.2 })

end ZTracer

/-- A call of the wrapper. `dst` is the address of the object it constructs, `annot` of
the annotation on its stack. -/
inductive ZCall
  | createZTraceEndpoint (dst : Addr) (ip : StdString) (port : Int32) (name : StdString)
  | createZTrace (dst : Addr) (name : StdString) (ep : Addr)
  | createZTraceChild (dst : Addr) (name : StdString) (t : Addr)
  | createZTraceChildAt (dst : Addr) (name : StdString) (t ep : Addr)
  | createZTraceInfo (res : Int32) (dst : Addr) (name : StdString) (ep : Addr) (info : Ptr)
      (child : Bool)
  | keyval (annot t : Addr) (key val : StdString)
  | event (annot t : Addr) (event : StdString)
  | keyvalAt (annot t : Addr) (key val : StdString) (ep : Addr)
  | eventAt (annot t : Addr) (event : StdString) (ep : Addr)
  | getTraceInfo (res : Int32) (t : Addr) (info : Ptr)
  | setTraceInfo (res : Int32) (t : Addr) (info : Ptr)

namespace ZTracer

/-- The machine of programs of wrapper calls. -/
def step (h : Heap) : ZCall → Option (List Tracepoint × Heap)
  | .createZTraceEndpoint dst ip port name => createZTraceEndpoint h dst ip port name
  | .createZTrace dst name ep => createZTrace h dst name ep
  | .createZTraceChild dst name t => createZTraceChild h dst name t
  | .createZTraceChildAt dst name t ep => createZTraceChildAt h dst name t ep
  | .createZTraceInfo res dst name ep info child => createZTraceInfo res h dst name ep info child
  | .keyval annot t key val => (keyval h annot t key val).map Prod.snd
  | .event annot t ev => (event h annot t ev).map Prod.snd
  | .keyvalAt annot t key val ep => (keyvalAt h annot t key val ep).map Prod.snd
  | .eventAt annot t ev ep => (eventAt h annot t ev ep).map Prod.snd
  | .getTraceInfo res t info => (getTraceInfo res h t info).map Prod.snd
  | .setTraceInfo res t info => (setTraceInfo res h t info).map Prod.snd

end ZTracer

namespace ZCall

/-- The C program for the call : it passes an endpoint only where the call does. -/
def program : ZCall → List Call
  | createZTraceEndpoint dst ip port name =>
    [.endpoint (some dst) (some (.cut ip)) port (some (.cut name))]
  | createZTrace dst name ep => [.newTrace (some dst) (some (.cut name)) (some ep)]
  | createZTraceChild dst name t => [.child (some dst) (some t) none (some (.cut name))]
  | createZTraceChildAt dst name t ep =>
    [.child (some dst) (some t) (some ep) (some (.cut name))]
  | createZTraceInfo _ dst name ep info true =>
    [.childInfo (some dst) (info.map .info) (some ep) (some (.cut name))]
  | createZTraceInfo res dst name ep info false =>
    [.newTrace (some dst) (some (.cut name)) (some ep),
      .setInfo res (some dst) (info.map .info)]
  | keyval annot t key val =>
    [.string (some annot) (some (.cut key)) (some (.cut val)) none,
      .record (some t) (some annot)]
  | event annot t ev =>
    [.timestamp (some annot) (some (.cut ev)) none, .record (some t) (some annot)]
  | keyvalAt annot t key val ep =>
    [.string (some annot) (some (.cut key)) (some (.cut val)) (some ep),
      .record (some t) (some annot)]
  | eventAt annot t ev ep =>
    [.timestamp (some annot) (some (.cut ev)) (some ep), .record (some t) (some annot)]
  | getTraceInfo res t info => [.getInfo res (some t) (info.map .info)]
  | setTraceInfo res t info => [.setInfo res (some t) (info.map .info)]

/-- The `ZTrace` the call constructs. -/
def made : ZCall → List Addr
  | createZTrace dst _ _ => [dst]
  | createZTraceChild dst _ _ => [dst]
  | createZTraceChildAt dst _ _ _ => [dst]
  | createZTraceInfo _ dst _ _ _ _ => [dst]
  | _ => []

/-- The call is on a `ZTrace` of `ts`, and a context it constructs from is not `NULL`. -/
def valid (ts : List Addr) : ZCall → Bool
  | createZTraceChild _ _ t => t ∈ ts
  | createZTraceChildAt _ _ t _ => t ∈ ts
  | createZTraceInfo _ _ _ _ info _ => info.isSome
  | keyval _ t _ _ => t ∈ ts
  | event _ t _ => t ∈ ts
  | keyvalAt _ t _ _ _ => t ∈ ts
  | eventAt _ t _ _ => t ∈ ts
  | getTraceInfo _ t _ => t ∈ ts
  | setTraceInfo _ t _ => t ∈ ts
  | _ => true

/-- Every call is on a `ZTrace` of `ts` or one constructed before. -/
def handled : List Addr → List ZCall → Bool
  | _, [] => true
  | ts, c :: cs => c.valid ts && handled (c.made ++ ts) cs

end ZCall

/-! ## What the C functions do with the endpoint left out -/

theorem childEndpoint_some (m : Mem) (p e : Addr) : childEndpoint m p (some e) = some e :=
  rfl

theorem run_child {m : Mem} {t p e : Addr} {ep : Ptr} {name : CString}
    (he : childEndpoint m p ep = some e) :
    run Blkin.step m [.child (some t) (some p) ep (some name)] =
      some ([], (initChildInfo m (some t) (some (.trace p)) (some e) (some name)).2) := by
  rw [run_singleton, Blkin.step, exec, initChild_some, he]
  rfl

theorem endpointFor_modAnnot {m : Mem} {t a : Addr} {f : Annotation → Annotation} :
    (m.modAnnot a f).endpointFor t a =
      (f (m.annots a)).annotationEndpoint.or (m.traces t).traceEndpoint := by
  simp [Mem.endpointFor]

theorem run_blkinTimestamp {m : Mem} {annot t e : Addr} {ep : Ptr} {event : CString}
    (he : ep.or (m.traces t).traceEndpoint = some e) :
    run Blkin.step m (blkinTimestamp annot (some t) ep (some event)) =
      some ([m.timestampEvent t e event],
        (m.modAnnot annot fun an => ⟨.timestamp, an.key, some event, some e⟩).fillDefaults
          t annot e) := by
  refine run_cons_eq_some.2 ⟨[], _, [m.timestampEvent t e event], rfl, ?_, rfl⟩
  rw [run_singleton, Blkin.step, exec, initTimestampAnnotation_some, record_some,
    endpointFor_modAnnot, he]
  simp [Mem.eventFor, Mem.timestampEvent, Mem.fillDefaults]

theorem run_blkinKeyval {m : Mem} {annot t e : Addr} {ep : Ptr} {key val : CString}
    (he : ep.or (m.traces t).traceEndpoint = some e) :
    run Blkin.step m (blkinKeyval annot (some t) ep (some key) (some val)) =
      some ([m.keyvalEvent t e key val],
        (m.modAnnot annot fun _ => ⟨.string, some key, some val, some e⟩).fillDefaults
          t annot e) := by
  refine run_cons_eq_some.2 ⟨[], _, [m.keyvalEvent t e key val], rfl, ?_, rfl⟩
  rw [run_singleton, Blkin.step, exec, initStringAnnotation_some, record_some,
    endpointFor_modAnnot, he]
  simp [Mem.eventFor, Mem.keyvalEvent, Mem.fillDefaults]

/-! ## What the wrapper does, by the handle of the `ZTrace` it is called on -/

namespace ZTracer

variable {h : Heap} {t e : Addr}

theorem createZTraceChild_some (dst : Addr) (name : StdString) (hep : h.ep t = some e) :
    createZTraceChild h dst name t = some ([],
      ⟨(initChildInfo h.mem (some dst) (some (.trace t)) (some e) (some (toCstr name))).2,
        Function.update h.ep dst (some e)⟩) := by
  simp [createZTraceChild, hep, Heap.calls, Heap.setEp, run_child (childEndpoint_some _ _ _)]

theorem createZTraceChildAt_some (dst : Addr) (name : StdString) (ep : Addr)
    (hep : h.ep t = some e) :
    createZTraceChildAt h dst name t ep = some ([],
      ⟨(initChildInfo h.mem (some dst) (some (.trace t)) (some ep) (some (toCstr name))).2,
        Function.update h.ep dst (some ep)⟩) := by
  simp [createZTraceChildAt, hep, Heap.calls, Heap.setEp, run_child (childEndpoint_some _ _ _)]

theorem keyvalAt_some (annot : Addr) (key val : StdString) (ep : Addr) (hep : h.ep t = some e) :
    keyvalAt h annot t key val ep = some (0, [h.mem.keyvalEvent t ep (toCstr key) (toCstr val)],
      { h with mem := (h.mem.modAnnot annot fun _ =>
        ⟨.string, some (toCstr key), some (toCstr val), some ep⟩).fillDefaults t annot ep }) := by
  simp [keyvalAt, hep, Heap.calls, run_blkinKeyval Option.some_or]

theorem eventAt_some (annot : Addr) (ev : StdString) (ep : Addr) (hep : h.ep t = some e) :
    eventAt h annot t ev ep = some (0, [h.mem.timestampEvent t ep (toCstr ev)],
      { h with mem := (h.mem.modAnnot annot fun an =>
        ⟨.timestamp, an.key, some (toCstr ev), some ep⟩).fillDefaults t annot ep }) := by
  simp [eventAt, hep, Heap.calls, run_blkinTimestamp Option.some_or]

/-- Without an explicit endpoint the handle of the `ZTrace` stands for it. -/
theorem keyval_eq_keyvalAt (annot : Addr) (key val : StdString) (hep : h.ep t = some e) :
    keyval h annot t key val = keyvalAt h annot t key val e := by
  simp [keyval, keyvalAt, hep]

theorem event_eq_eventAt (annot : Addr) (ev : StdString) (hep : h.ep t = some e) :
    event h annot t ev = eventAt h annot t ev e := by
  simp [event, eventAt, hep]

end ZTracer

/-! ## A run of the wrapper and the C program -/

/-- An event : its tracepoint, the memory before the call, the explicit endpoint of the
call, and the explicit endpoints its span and the spans above it were created with. -/
structure Emitted where
  tp : Tracepoint
  mem : Mem
  explicit : Ptr
  span : Lineage Ptr

/-- The event carries its explicit endpoint, or else that of the nearest span created
with one. -/
def Emitted.CarriesNearest (r : Emitted) : Prop :=
  (r.explicit.or r.span.nearest).map (fun e => (r.mem.endps e).shown) = some r.tp.shown

structure Wrapped where
  heap : ZTracer.Heap
  /-- The explicit endpoints a `ZTrace` and those it descends from were created with. -/
  span : Addr → Option (Lineage Ptr)

namespace Wrapped

/-- No `ZTrace` is constructed. -/
def start (m : Mem) : Wrapped :=
  ⟨⟨m, fun _ => none⟩, fun _ => none⟩

/-- One call of the wrapper. -/
def step (s : Wrapped) (c : ZCall) : Option (List Emitted × Wrapped) := do
  let (out, heap) ← ZTracer.step s.heap c
  let create (t : Addr) (l : Lineage Ptr) : List Emitted × Wrapped :=
    ([], ⟨heap, Function.update s.span t (some l)⟩)
  let emit (explicit : Ptr) (l : Lineage Ptr) : List Emitted × Wrapped :=
    (out.map fun tp => ⟨tp, s.heap.mem, explicit, l⟩, ⟨heap, s.span⟩)
  match c with
  | .createZTrace dst _ ep => some (create dst (.root (some ep)))
  | .createZTraceChild dst _ t => (s.span t).map fun p => create dst (.child none p)
  | .createZTraceChildAt dst _ t ep => (s.span t).map fun p => create dst (.child (some ep) p)
  | .createZTraceInfo _ dst _ ep _ _ => some (create dst (.root (some ep)))
  | .keyval _ t _ _ => (s.span t).map (emit none)
  | .event _ t _ => (s.span t).map (emit none)
  | .keyvalAt _ t _ _ ep => (s.span t).map (emit (some ep))
  | .eventAt _ t _ ep => (s.span t).map (emit (some ep))
  | _ => some ([], ⟨heap, s.span⟩)

/-- The handle of a `ZTrace` is the endpoint its trace points to, which is the endpoint of
the nearest span created with one. -/
def Inv (s : Wrapped) : Prop :=
  ∀ t l, s.span t = some l → ∃ e, s.heap.ep t = some e ∧
    (s.heap.mem.traces t).traceEndpoint = some e ∧ l.nearest = some e

theorem inv_start (m : Mem) : (start m).Inv := by
  intro t l h
  simp [start] at h

variable {s : Wrapped}

theorem Inv.quiet (h : s.Inv) {m : Mem}
    (hm : ∀ t, (m.traces t).traceEndpoint = (s.heap.mem.traces t).traceEndpoint) :
    ({ s with heap.mem := m } : Wrapped).Inv := by
  intro t l ht
  obtain ⟨e, hep, hlink, hl⟩ := h t l ht
  exact ⟨e, hep, (hm t).trans hlink, hl⟩

theorem Inv.create (h : s.Inv) {m : Mem} {t e : Addr} {l : Lineage Ptr}
    (hm : Links s.heap.mem t (some e) m) (hl : l.nearest = some e) :
    (⟨⟨m, Function.update s.heap.ep t (some e)⟩, Function.update s.span t (some l)⟩ :
      Wrapped).Inv := by
  intro u k hu
  rcases eq_or_ne u t with rfl | hne
  · obtain rfl : l = k := by simpa using hu
    exact ⟨e, by simp, hm.own, hl⟩
  · obtain ⟨d, hep, hlink, hk⟩ := h u k (by simpa [hne] using hu)
    exact ⟨d, by simpa [hne] using hep, (hm.others u hne).trans hlink, hk⟩

/-- The call `c` on `ZTrace`s of `ts` leads from `s` to `s'`, and so does its C program,
with the same events, each at the endpoint of the nearest span created with one. -/
structure Follows (s : Wrapped) (ts : List Addr) (c : ZCall) (out : List Emitted)
    (s' : Wrapped) : Prop where
  step : s.step c = some (out, s')
  wrapper : ZTracer.step s.heap c = some (out.map (·.tp), s'.heap)
  program : run Blkin.step s.heap.mem c.program = some (out.map (·.tp), s'.heap.mem)
  inv : s'.Inv
  carries : ∀ r ∈ out, r.CarriesNearest
  spans : ∀ t ∈ c.made ++ ts, ∃ l, s'.span t = some l

/-- A span is created at `t`, and nothing else changes its endpoint. -/
theorem Inv.follows_create (h : s.Inv) {ts : List Addr}
    (hts : ∀ t ∈ ts, ∃ l, s.span t = some l) {c : ZCall} {t e : Addr} {l : Lineage Ptr} {m : Mem}
    (hmade : c.made = [t])
    (hz : ZTracer.step s.heap c = some ([], ⟨m, Function.update s.heap.ep t (some e)⟩))
    (hstep : s.step c = some ([], ⟨⟨m, Function.update s.heap.ep t (some e)⟩,
      Function.update s.span t (some l)⟩))
    (hrun : run Blkin.step s.heap.mem c.program = some ([], m))
    (hm : Links s.heap.mem t (some e) m) (hl : l.nearest = some e) :
    ∃ out s', Follows s ts c out s' := by
  refine ⟨_, _, hstep, hz, hrun, h.create hm hl, by simp, fun u hu => ?_⟩
  rcases eq_or_ne u t with rfl | hne
  · exact ⟨l, by simp⟩
  · simpa [hne] using hts u (by simpa [hmade, hne] using hu)

/-- An event at the endpoint `e` changes no endpoint of a trace. -/
theorem Inv.follows_emit (h : s.Inv) {ts : List Addr}
    (hts : ∀ t ∈ ts, ∃ l, s.span t = some l) {c : ZCall} {e : Addr} (explicit : Ptr)
    (l : Lineage Ptr) {tp : Tracepoint} {m : Mem} (hmade : c.made = [])
    (hz : ZTracer.step s.heap c = some ([tp], { s.heap with mem := m }))
    (hstep : s.step c = some ([⟨tp, s.heap.mem, explicit, l⟩], { s with heap.mem := m }))
    (hrun : run Blkin.step s.heap.mem c.program = some ([tp], m))
    (hm : ∀ u, (m.traces u).traceEndpoint = (s.heap.mem.traces u).traceEndpoint)
    (he : explicit.or l.nearest = some e) (htp : tp.shown = (s.heap.mem.endps e).shown) :
    ∃ out s', Follows s ts c out s' := by
  refine ⟨_, _, hstep, hz, hrun, h.quiet hm, fun r hr => ?_, by simpa [hmade] using hts⟩
  obtain rfl := List.mem_singleton.1 hr
  simp [Emitted.CarriesNearest, he, htp]

theorem Inv.step (h : s.Inv) {ts : List Addr} (hts : ∀ t ∈ ts, ∃ l, s.span t = some l)
    {c : ZCall} (hc : c.valid ts = true) : ∃ out s', Follows s ts c out s' := by
  cases c with
  | createZTraceEndpoint dst ip port name =>
    refine ⟨[], { s with heap.mem := _ }, rfl, rfl, rfl, h.quiet ?_, by simp, hts⟩
    exact (initEndpoint_sameLinks _ _ _ _ _).2
  | createZTrace dst name ep =>
    exact h.follows_create hts rfl rfl rfl rfl (initNewTrace_links _ _ _ _) rfl
  | createZTraceChild dst name t =>
    obtain ⟨p, hp⟩ := hts t (by simpa [ZCall.valid] using hc)
    obtain ⟨e, hep, hlink, hl⟩ := h t p hp
    have hz := ZTracer.createZTraceChild_some dst name hep
    refine h.follows_create hts (l := .child none p) rfl hz
      (by simp [Wrapped.step, ZTracer.step, hz, hp])
      (run_child (by simpa [childEndpoint] using hlink)) (initChildInfo_links ?_)
      (by simpa using hl)
    rw [initChildInfo_some]
  | createZTraceChildAt dst name t ep =>
    obtain ⟨p, hp⟩ := hts t (by simpa [ZCall.valid] using hc)
    obtain ⟨e, hep, -, -⟩ := h t p hp
    have hz := ZTracer.createZTraceChildAt_some dst name ep hep
    refine h.follows_create hts (l := .child (some ep) p) rfl hz
      (by simp [Wrapped.step, ZTracer.step, hz, hp])
      (run_child (childEndpoint_some _ _ _)) (initChildInfo_links ?_) (by simp)
    rw [initChildInfo_some]
  | createZTraceInfo res dst name ep info child =>
    cases info with
    | none => simp [ZCall.valid] at hc
    | some i =>
      cases child with
      | true =>
        exact h.follows_create hts rfl rfl rfl rfl
          (initChildInfo_links (by rw [initChildInfo_some])) rfl
      | false =>
        refine h.follows_create hts rfl rfl rfl rfl ?_ rfl
        have hnew := initNewTrace_links s.heap.mem dst (some (.cut name)) (some ep)
        have hset := setTraceInfo_sameLinks res
          (initNewTrace s.heap.mem (some dst) (some (.cut name)) (some ep)).2 (some dst)
          (some (.info i))
        exact ⟨hset.1.trans hnew.annots, (hset.2 dst).trans hnew.own,
          fun u hu => (hset.2 u).trans (hnew.others u hu)⟩
  | keyval annot t key val =>
    obtain ⟨l, hl⟩ := hts t (by simpa [ZCall.valid] using hc)
    obtain ⟨e, hep, hlink, hnear⟩ := h t l hl
    have hz := (ZTracer.keyval_eq_keyvalAt annot key val hep).trans
      (ZTracer.keyvalAt_some annot key val e hep)
    exact h.follows_emit hts none l rfl (congrArg (Option.map Prod.snd) hz)
      (by simp [Wrapped.step, ZTracer.step, hz, hl])
      (run_blkinKeyval (by simpa using hlink))
      (fun u => Mem.traceEndpoint_fillDefaults _ t annot e u) (by simpa using hnear) rfl
  | event annot t ev =>
    obtain ⟨l, hl⟩ := hts t (by simpa [ZCall.valid] using hc)
    obtain ⟨e, hep, hlink, hnear⟩ := h t l hl
    have hz := (ZTracer.event_eq_eventAt annot ev hep).trans
      (ZTracer.eventAt_some annot ev e hep)
    exact h.follows_emit hts none l rfl (congrArg (Option.map Prod.snd) hz)
      (by simp [Wrapped.step, ZTracer.step, hz, hl])
      (run_blkinTimestamp (by simpa using hlink))
      (fun u => Mem.traceEndpoint_fillDefaults _ t annot e u) (by simpa using hnear) rfl
  | keyvalAt annot t key val ep =>
    obtain ⟨l, hl⟩ := hts t (by simpa [ZCall.valid] using hc)
    obtain ⟨e, hep, -, -⟩ := h t l hl
    have hz := ZTracer.keyvalAt_some annot key val ep hep
    exact h.follows_emit hts (some ep) l rfl (congrArg (Option.map Prod.snd) hz)
      (by simp [Wrapped.step, ZTracer.step, hz, hl])
      (run_blkinKeyval Option.some_or)
      (fun u => Mem.traceEndpoint_fillDefaults _ t annot ep u) Option.some_or rfl
  | eventAt annot t ev ep =>
    obtain ⟨l, hl⟩ := hts t (by simpa [ZCall.valid] using hc)
    obtain ⟨e, hep, -, -⟩ := h t l hl
    have hz := ZTracer.eventAt_some annot ev ep hep
    exact h.follows_emit hts (some ep) l rfl (congrArg (Option.map Prod.snd) hz)
      (by simp [Wrapped.step, ZTracer.step, hz, hl])
      (run_blkinTimestamp Option.some_or)
      (fun u => Mem.traceEndpoint_fillDefaults _ t annot ep u) Option.some_or rfl
  | getTraceInfo res t info =>
    obtain ⟨l, hl⟩ := hts t (by simpa [ZCall.valid] using hc)
    obtain ⟨e, hep, -, -⟩ := h t l hl
    refine ⟨[], { s with heap.mem := _ }, ?_, ?_, rfl, h.quiet
      (getTraceInfo_sameLinks res s.heap.mem (some t) (info.map .info)).2, by simp, hts⟩
    all_goals simp [Wrapped.step, ZTracer.step, ZTracer.getTraceInfo, hep]
  | setTraceInfo res t info =>
    obtain ⟨l, hl⟩ := hts t (by simpa [ZCall.valid] using hc)
    obtain ⟨e, hep, -, -⟩ := h t l hl
    refine ⟨[], { s with heap.mem := _ }, ?_, ?_, rfl, h.quiet
      (setTraceInfo_sameLinks res s.heap.mem (some t) (info.map .info)).2, by simp, hts⟩
    all_goals simp [Wrapped.step, ZTracer.step, ZTracer.setTraceInfo, hep]

theorem Inv.run : ∀ {cs : List ZCall} {ts : List Addr} {s : Wrapped}, s.Inv →
    (∀ t ∈ ts, ∃ l, s.span t = some l) → ZCall.handled ts cs = true →
    ∃ outs s', run Wrapped.step s cs = some (outs, s') ∧
      run ZTracer.step s.heap cs = some (outs.map (·.tp), s'.heap) ∧
      run Blkin.step s.heap.mem (cs.flatMap ZCall.program) =
        some (outs.map (·.tp), s'.heap.mem) ∧ ∀ r ∈ outs, r.CarriesNearest
  | [], _, s, _, _, _ => ⟨[], s, rfl, rfl, rfl, by simp⟩
  | c :: cs, ts, s, h, hts, hcs => by
    obtain ⟨hc, hcs⟩ : c.valid ts = true ∧ ZCall.handled (c.made ++ ts) cs = true := by
      simpa [ZCall.handled] using hcs
    obtain ⟨out, s₁, hf⟩ := h.step hts hc
    obtain ⟨outs, s', hrun, hwrapper, hprogram, hcarries⟩ := hf.inv.run hf.spans hcs
    refine ⟨out ++ outs, s', run_cons_eq_some.2 ⟨out, s₁, outs, hf.step, hrun, rfl⟩,
      run_cons_eq_some.2 ⟨_, _, _, hf.wrapper, hwrapper, by simp⟩, ?_,
      fun r hr => (List.mem_append.1 hr).elim (hf.carries r) (hcarries r)⟩
    rw [List.flatMap_cons]
    exact run_append_eq_some.2 ⟨_, _, _, hf.program, hprogram, by simp⟩

/-- Every program of the wrapper on handles it constructed runs, and emits the events of
its C program on the same results of `rand()`. An event without an explicit endpoint
carries the endpoint of the nearest span created with one. -/
theorem emits_program (m : Mem) {cs : List ZCall} (hcs : ZCall.handled [] cs = true) :
    ∃ outs s, run step (start m) cs = some (outs, s) ∧
      run ZTracer.step ⟨m, fun _ => none⟩ cs = some (outs.map (·.tp), s.heap) ∧
      run Blkin.step m (cs.flatMap ZCall.program) = some (outs.map (·.tp), s.heap.mem) ∧
      ∀ r ∈ outs, r.CarriesNearest :=
  (inv_start m).run (by simp) hcs

/-- A span without an endpoint, below one created with another endpoint than the root, and
a name with a `NUL` in it. -/
theorem emits_program_grandchild :
    let m := Mem.static .little fun n => .ofNat n
    let cs : List ZCall := [.createZTraceEndpoint 0 [49] 1 [97],
      .createZTraceEndpoint 1 [50] 2 [98], .createZTrace 0 [112, 0, 113] 0,
      .createZTraceChildAt 1 [99] 0 1, .createZTraceChild 2 [100] 1, .event 7 2 [101],
      .keyvalAt 7 2 [107] [118] 0]
    ∃ outs s, run step (start m) cs = some (outs, s) ∧
      run ZTracer.step ⟨m, fun _ => none⟩ cs = some (outs.map (·.tp), s.heap) ∧
      run Blkin.step m (cs.flatMap ZCall.program) = some (outs.map (·.tp), s.heap.mem) ∧
      ∀ r ∈ outs, r.CarriesNearest :=
  emits_program _ (by decide)

end Wrapped

end Blkin
