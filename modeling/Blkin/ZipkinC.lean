import Blkin.Memory

/-!
# The library, `zipkin_c.c`

Each function takes the memory and its arguments and gives its status and the memory
after it. `record` also gives the tracepoint it fires, and is undefined where the source
dereferences a `NULL` endpoint or hands the tracepoint a `NULL` string.

`get_trace_info` and `set_trace_info` return a local they only assign when they reject;
`res` is what that local holds.

`record_some` gives a whole call of `record` : the endpoint it settles on
(`endpointFor`), the defaults it fills in (`fillDefaults`), and the event
(`eventFor`).
-/

open Endian

namespace Blkin

def defaultIp : CString := .lit "NaN"

def defaultName : CString := .lit "NoName"

def einval : Int32 := 22

/-- A tracepoint of the provider `zipkin`, with the arguments it is called with. -/
inductive Tracepoint
  | keyval (traceName service : CString) (port : Int32) (ip : CString)
      (trace span parentSpan : Int64) (key val : CString)
  | timestamp (traceName service : CString) (port : Int32) (ip : CString)
      (trace span parentSpan : Int64) (event : CString)
  deriving DecidableEq

/-! ## Creating spans -/

/-- `_blkin_init_new_trace` -/
def initNewTrace (m : Mem) (newTrace : Ptr) (service : Option CString) (endpoint : Ptr) :
    Int32 × Mem :=
  match newTrace with
  | none => (-einval, m)
  | some t =>
    let m := m.modTrace t fun tr => { tr with name := service }
    let (id, m) := m.randomBig
    let m := m.modTrace t fun tr => { tr with info.traceId := id }
    let (id, m) := m.randomBig
    let m := m.modTrace t fun tr => { tr with info.spanId := id }
    let m := m.modTrace t fun tr => { tr with info.parentSpanId := 0 }
    let m := m.modTrace t fun tr => { tr with traceEndpoint := endpoint }
    (0, m)

/-- `_blkin_init_child_info` -/
def initChildInfo (m : Mem) (child : Ptr) (parentInfo : Option InfoLoc) (endpoint : Ptr)
    (childName : Option CString) : Int32 × Mem :=
  match child, parentInfo, endpoint with
  | some c, some p, some e =>
    let m := m.modTrace c fun tr => { tr with info.traceId := (m.readInfo p).traceId }
    let (id, m) := m.randomBig
    let m := m.modTrace c fun tr => { tr with info.spanId := id }
    let m := m.modTrace c fun tr => { tr with info.parentSpanId := (m.readInfo p).spanId }
    let m := m.modTrace c fun tr => { tr with name := childName }
    let m := m.modTrace c fun tr => { tr with traceEndpoint := some e }
    (0, m)
  | _, _, _ => (-einval, m)

/-- `_blkin_init_child` -/
def initChild (m : Mem) (child parent endpoint : Ptr) (childName : Option CString) :
    Int32 × Mem :=
  match parent with
  | none => (-einval, m)
  | some p =>
    let endpoint := if endpoint = none then (m.traces p).traceEndpoint else endpoint
    let (res, m) := initChildInfo m child (some (.trace p)) endpoint childName
    if res ≠ 0 then (-einval, m) else (0, m)

/-! ## Endpoints and annotations -/

/-- `_blkin_init_endpoint` -/
def initEndpoint (m : Mem) (endp : Ptr) (ip : Option CString) (port : Int32)
    (name : Option CString) : Int32 × Mem :=
  match endp with
  | none => (-einval, m)
  | some e =>
    let ip := if ip = none then some defaultIp else ip
    let m := m.modEndp e fun ep => { ep with ip := ip }
    let m := m.modEndp e fun ep => { ep with port := port }
    let m := m.modEndp e fun ep => { ep with name := name }
    (0, m)

/-- `_blkin_init_string_annotation` -/
def initStringAnnotation (m : Mem) (annot : Ptr) (key val : Option CString)
    (endpoint : Ptr) : Int32 × Mem :=
  match annot, key, val with
  | some a, some key, some val =>
    let m := m.modAnnot a fun an => { an with type := .string }
    let m := m.modAnnot a fun an => { an with key := some key }
    let m := m.modAnnot a fun an => { an with val := some val }
    let m := m.modAnnot a fun an => { an with annotationEndpoint := endpoint }
    (0, m)
  | _, _, _ => (-einval, m)

/-- `_blkin_init_timestamp_annotation` -/
def initTimestampAnnotation (m : Mem) (annot : Ptr) (event : Option CString)
    (endpoint : Ptr) : Int32 × Mem :=
  match annot, event with
  | some a, some event =>
    let m := m.modAnnot a fun an => { an with type := .timestamp }
    let m := m.modAnnot a fun an => { an with val := some event }
    let m := m.modAnnot a fun an => { an with annotationEndpoint := endpoint }
    (0, m)
  | _, _ => (-einval, m)

/-! ## Recording -/

/-- What a call returns, the memory after it, and the tracepoint it fired. -/
structure Outcome where
  ret : Int32
  mem : Mem
  fired : Option Tracepoint

/-- `tracepoint(zipkin, keyval, ...)`. The provider takes the length of every string. -/
def tracepointKeyval (traceName service : Option CString) (port : Int32) (ip : Option CString)
    (trace span parentSpan : Int64) (key val : Option CString) : Option Tracepoint := do
  some (.keyval (← traceName) (← service) port (← ip) trace span parentSpan (← key) (← val))

/-- `tracepoint(zipkin, timestamp, ...)` -/
def tracepointTimestamp (traceName service : Option CString) (port : Int32)
    (ip : Option CString) (trace span parentSpan : Int64) (event : Option CString) :
    Option Tracepoint := do
  some (.timestamp (← traceName) (← service) port (← ip) trace span parentSpan (← event))

/-- `_blkin_record` -/
def record (m : Mem) (trace annot : Ptr) : Option Outcome :=
  match annot, trace with
  | some a, some t =>
    let m := if (m.annots a).annotationEndpoint = none ∧ (m.traces t).traceEndpoint ≠ none then
        m.modAnnot a fun an => { an with annotationEndpoint := (m.traces t).traceEndpoint }
      else m
    let m := if (m.traces t).name = none then
        m.modTrace t fun tr => { tr with name := some defaultName }
      else m
    -- every later access goes through `annotation->annotation_endpoint`
    (m.annots a).annotationEndpoint.bind fun e =>
    let m := if (m.endps e).ip = none then
        m.modEndp e fun ep => { ep with ip := some defaultIp }
      else m
    let m := if (m.endps e).name = none then
        m.modEndp e fun ep => { ep with name := some defaultName }
      else m
    if (m.annots a).type = .string then
      if (m.annots a).key = none ∨ (m.annots a).val = none then some ⟨-einval, m, none⟩
      else
        (tracepointKeyval (m.traces t).name (m.endps e).name (m.endps e).port (m.endps e).ip
          (m.traces t).info.traceId (m.traces t).info.spanId (m.traces t).info.parentSpanId
          (m.annots a).key (m.annots a).val).map fun tp => ⟨0, m, some tp⟩
    else
      if (m.annots a).val = none then some ⟨-einval, m, none⟩
      else
        (tracepointTimestamp (m.traces t).name (m.endps e).name (m.endps e).port (m.endps e).ip
          (m.traces t).info.traceId (m.traces t).info.spanId (m.traces t).info.parentSpanId
          (m.annots a).val).map fun tp => ⟨0, m, some tp⟩
  | _, _ => some ⟨-einval, m, none⟩

/-! ## Contexts -/

/-- `_blkin_get_trace_info` -/
def getTraceInfo (res : Int32) (m : Mem) (trace : Ptr) (info : Option InfoLoc) : Int32 × Mem :=
  match trace, info with
  | some t, some i => (res, m.writeInfo i (m.traces t).info)
  | _, _ => (-einval, m)

/-- `_blkin_set_trace_info` -/
def setTraceInfo (res : Int32) (m : Mem) (trace : Ptr) (info : Option InfoLoc) : Int32 × Mem :=
  match trace, info with
  | some t, some i => (res, m.writeInfo (.trace t) (m.readInfo i))
  | _, _ => (-einval, m)

/-- `_blkin_pack_trace_info` -/
def packTraceInfo (m : Mem) (info : Option InfoLoc) (pinfo : Ptr) : Int32 × Mem :=
  match info, pinfo with
  | some i, some p =>
    let m := m.writeInfo i { m.readInfo i with
      traceId := (be64ToCpu m.host (load64 m.host (m.packed p).traceId)).toInt64 }
    let m := m.writeInfo i { m.readInfo i with
      spanId := (be64ToCpu m.host (load64 m.host (m.packed p).spanId)).toInt64 }
    let m := m.writeInfo i { m.readInfo i with
      parentSpanId := (be64ToCpu m.host (load64 m.host (m.packed p).parentSpanId)).toInt64 }
    (1, m)
  | _, _ => (-einval, m)

/-- `_blkin_unpack_trace_info` -/
def unpackTraceInfo (m : Mem) (pinfo : Ptr) (info : Option InfoLoc) : Int32 × Mem :=
  match info, pinfo with
  | some i, some p =>
    let m := m.modPacked p fun v => { v with
      traceId := store64 m.host (cpuToBe64 m.host (m.readInfo i).traceId.toUInt64) }
    let m := m.modPacked p fun v => { v with
      spanId := store64 m.host (cpuToBe64 m.host (m.readInfo i).spanId.toUInt64) }
    let m := m.modPacked p fun v => { v with
      parentSpanId := store64 m.host (cpuToBe64 m.host (m.readInfo i).parentSpanId.toUInt64) }
    (1, m)
  | _, _ => (-einval, m)

/-! ## What a call does -/

theorem initNewTrace_some (m : Mem) (t : Addr) (service : Option CString) (endpoint : Ptr) :
    initNewTrace m (some t) service endpoint =
      (0, (m.advance 2).modTrace t fun _ => ⟨service, ⟨m.big 0, m.big 1, 0⟩, endpoint⟩) := by
  simp [initNewTrace, Mem.randomBig, Mem.rand, Mem.big, Mem.advance, Mem.modTrace]

/-- The parent's span id is read after the child's was written, so a child that holds its
parent's info reads its own. -/
theorem initChildInfo_some (m : Mem) (c : Addr) (p : InfoLoc) (e : Addr)
    (childName : Option CString) :
    initChildInfo m (some c) (some p) (some e) childName =
      (0, (m.advance 1).modTrace c fun _ => ⟨childName, ⟨(m.readInfo p).traceId, m.big 0,
        if p = .trace c then m.big 0 else (m.readInfo p).spanId⟩, some e⟩) := by
  by_cases hp : p = .trace c
  · subst hp
    simp [initChildInfo, Mem.randomBig, Mem.rand, Mem.big, Mem.advance, Mem.modTrace]
  · have hread : ∀ (k : Mem) (f : Trace → Trace), (k.modTrace c f).readInfo p = k.readInfo p :=
      fun k f => k.readInfo_modTrace f hp
    simp only [initChildInfo, Mem.randomBig_eq, hread, Mem.readInfo_advance, if_neg hp]
    simp [Mem.big, Mem.advance, Mem.modTrace]

/-- The endpoint a child is given : the argument, or else its parent's. -/
def childEndpoint (m : Mem) (p : Addr) (endpoint : Ptr) : Ptr :=
  endpoint.or (m.traces p).traceEndpoint

theorem initChild_some (m : Mem) (child : Ptr) (p : Addr) (endpoint : Ptr)
    (childName : Option CString) :
    initChild m child (some p) endpoint childName =
      initChildInfo m child (some (.trace p)) (childEndpoint m p endpoint) childName := by
  have hep : (if endpoint = none then (m.traces p).traceEndpoint else endpoint) =
      childEndpoint m p endpoint := by
    cases endpoint <;> rfl
  simp only [initChild, hep]
  cases child with
  | none => rfl
  | some c =>
    cases childEndpoint m p endpoint with
    | none => rfl
    | some e => simp [initChildInfo_some]

theorem initEndpoint_some (m : Mem) (e : Addr) (ip : Option CString) (port : Int32)
    (name : Option CString) :
    initEndpoint m (some e) ip port name =
      (0, m.modEndp e fun _ => ⟨some (ip.getD defaultIp), port, name⟩) := by
  cases ip <;> simp [initEndpoint]

theorem initStringAnnotation_some (m : Mem) (a : Addr) (key val : CString) (endpoint : Ptr) :
    initStringAnnotation m (some a) (some key) (some val) endpoint =
      (0, m.modAnnot a fun _ => ⟨.string, some key, some val, endpoint⟩) := by
  unfold initStringAnnotation
  simp

theorem initTimestampAnnotation_some (m : Mem) (a : Addr) (event : CString) (endpoint : Ptr) :
    initTimestampAnnotation m (some a) (some event) endpoint =
      (0, m.modAnnot a fun an => ⟨.timestamp, an.key, some event, endpoint⟩) := by
  unfold initTimestampAnnotation
  simp

/-- The trace with the name `record` gives it. -/
def Trace.filled (tr : Trace) : Trace :=
  { tr with name := some (tr.name.getD defaultName) }

/-- The endpoint with the ip and name `record` gives it. -/
def Endpoint.filled (ep : Endpoint) : Endpoint :=
  { ep with ip := some (ep.ip.getD defaultIp), name := some (ep.name.getD defaultName) }

@[simp] theorem Trace.filled_filled (tr : Trace) : tr.filled.filled = tr.filled := rfl

@[simp] theorem Endpoint.filled_filled (ep : Endpoint) : ep.filled.filled = ep.filled := rfl

@[simp] theorem Trace.filled_info (tr : Trace) : tr.filled.info = tr.info := rfl

@[simp] theorem Trace.filled_traceEndpoint (tr : Trace) :
    tr.filled.traceEndpoint = tr.traceEndpoint := rfl

namespace Mem

/-- The endpoint `record` settles on : the annotation's, or else the trace's. -/
def endpointFor (m : Mem) (t a : Addr) : Ptr :=
  (m.annots a).annotationEndpoint.or (m.traces t).traceEndpoint

/-- What `record` writes once it has settled on the endpoint `e`. -/
def fillDefaults (m : Mem) (t a e : Addr) : Mem :=
  ((m.modAnnot a fun an => { an with annotationEndpoint := some e }).modTrace t
    Trace.filled).modEndp e Endpoint.filled

/-- The `keyval` event of the trace `t` at the endpoint `e`. -/
def keyvalEvent (m : Mem) (t e : Addr) (key val : CString) : Tracepoint :=
  let tr := m.traces t
  let ep := m.endps e
  .keyval (tr.name.getD defaultName) (ep.name.getD defaultName) ep.port
    (ep.ip.getD defaultIp) tr.info.traceId tr.info.spanId tr.info.parentSpanId key val

/-- The `timestamp` event of the trace `t` at the endpoint `e`. -/
def timestampEvent (m : Mem) (t e : Addr) (event : CString) : Tracepoint :=
  let tr := m.traces t
  let ep := m.endps e
  .timestamp (tr.name.getD defaultName) (ep.name.getD defaultName) ep.port
    (ep.ip.getD defaultIp) tr.info.traceId tr.info.spanId tr.info.parentSpanId event

/-- The tracepoint `record` fires; none if the annotation lacks what its type needs. -/
def eventFor (m : Mem) (t a e : Addr) : Option Tracepoint :=
  match (m.annots a).type with
  | .string => do some (m.keyvalEvent t e (← (m.annots a).key) (← (m.annots a).val))
  | .timestamp => do some (m.timestampEvent t e (← (m.annots a).val))

theorem filled_traces_fillDefaults (m : Mem) (t a e u : Addr) :
    ((m.fillDefaults t a e).traces u).filled = (m.traces u).filled := by
  rcases eq_or_ne u t with rfl | hu
  · simp [fillDefaults]
  · simp [fillDefaults, hu]

theorem filled_endps_fillDefaults (m : Mem) (t a e u : Addr) :
    ((m.fillDefaults t a e).endps u).filled = (m.endps u).filled := by
  rcases eq_or_ne u e with rfl | hu
  · simp [fillDefaults]
  · simp [fillDefaults, hu]

theorem eventFor_cases {m : Mem} {t a e : Addr} {tp : Tracepoint}
    (h : m.eventFor t a e = some tp) :
    (∃ key val, (m.annots a).type = .string ∧ (m.annots a).key = some key ∧
        (m.annots a).val = some val ∧ tp = m.keyvalEvent t e key val) ∨
      ∃ event, (m.annots a).type = .timestamp ∧ (m.annots a).val = some event ∧
        tp = m.timestampEvent t e event := by
  unfold eventFor at h
  cases hty : (m.annots a).type with
  | string =>
    simp only [hty, Option.bind_eq_bind, Option.bind_eq_some_iff, Option.some.injEq] at h
    obtain ⟨key, hk, val, hv, rfl⟩ := h
    exact .inl ⟨key, val, rfl, hk, hv, rfl⟩
  | timestamp =>
    simp only [hty, Option.bind_eq_bind, Option.bind_eq_some_iff, Option.some.injEq] at h
    obtain ⟨event, hv, rfl⟩ := h
    exact .inr ⟨event, rfl, hv, rfl⟩

end Mem

/-! The four repairs of `record`, each as an unconditional write. -/

namespace Mem

variable (m : Mem)

theorem default_annotationEndpoint (t a : Addr) :
    (if (m.annots a).annotationEndpoint = none ∧ (m.traces t).traceEndpoint ≠ none then
        m.modAnnot a fun an => { an with annotationEndpoint := (m.traces t).traceEndpoint }
      else m) = m.modAnnot a fun an => { an with annotationEndpoint := m.endpointFor t a } := by
  unfold endpointFor
  cases ha : (m.annots a).annotationEndpoint with
  | some e =>
    rw [if_neg (by simp), modAnnot_self]
    rw [Option.some_or, ← ha]
  | none =>
    cases ht : (m.traces t).traceEndpoint with
    | some e => simp
    | none =>
      rw [if_neg (by simp), modAnnot_self]
      rw [Option.or_none, ← ha]

theorem default_traceName (t : Addr) :
    (if (m.traces t).name = none then
        m.modTrace t fun tr => { tr with name := some defaultName }
      else m) = m.modTrace t fun tr => { tr with name := some (tr.name.getD defaultName) } := by
  cases h : (m.traces t).name with
  | none => simp [modTrace, h]
  | some n =>
    rw [if_neg (by simp), modTrace_self]
    rw [h, Option.getD_some, ← h]

theorem default_ip (e : Addr) :
    (if (m.endps e).ip = none then m.modEndp e fun ep => { ep with ip := some defaultIp }
      else m) = m.modEndp e fun ep => { ep with ip := some (ep.ip.getD defaultIp) } := by
  cases h : (m.endps e).ip with
  | none => simp [modEndp, h]
  | some i =>
    rw [if_neg (by simp), modEndp_self]
    rw [h, Option.getD_some, ← h]

theorem default_name (e : Addr) :
    (if (m.endps e).name = none then m.modEndp e fun ep => { ep with name := some defaultName }
      else m) = m.modEndp e fun ep => { ep with name := some (ep.name.getD defaultName) } := by
  cases h : (m.endps e).name with
  | none => simp [modEndp, h]
  | some n =>
    rw [if_neg (by simp), modEndp_self]
    rw [h, Option.getD_some, ← h]

end Mem

theorem record_some (m : Mem) (t a : Addr) :
    record m (some t) (some a) = (m.endpointFor t a).map fun e =>
      match m.eventFor t a e with
      | some tp => ⟨0, m.fillDefaults t a e, some tp⟩
      | none => ⟨-einval, m.fillDefaults t a e, none⟩ := by
  simp only [record, Mem.default_annotationEndpoint, Mem.default_traceName, Mem.default_ip,
    Mem.default_name, Mem.modTrace_annots, Mem.modAnnot_annots, Function.update_self]
  cases he : m.endpointFor t a with
  | none => rfl
  | some e =>
    have hfill : (((m.modAnnot a fun an => { an with annotationEndpoint := some e }).modTrace t
        fun tr => { tr with name := some (tr.name.getD defaultName) }).modEndp e fun ep =>
          { ep with ip := some (ep.ip.getD defaultIp) }).modEndp e (fun ep =>
            { ep with name := some (ep.name.getD defaultName) }) = m.fillDefaults t a e := by
      rw [Mem.modEndp_modEndp]
      rfl
    simp only [Option.bind_some, Option.map_some, hfill]
    cases hty : (m.annots a).type <;> cases hk : (m.annots a).key <;>
      cases hv : (m.annots a).val <;>
      simp [Mem.fillDefaults, Mem.eventFor, Mem.keyvalEvent, Mem.timestampEvent, Trace.filled,
        Endpoint.filled, tracepointKeyval, tracepointTimestamp, hty, hk, hv]

theorem record_cases {m : Mem} {t a : Addr} {o : Outcome}
    (h : record m (some t) (some a) = some o) :
    ∃ e, m.endpointFor t a = some e ∧ o.mem = m.fillDefaults t a e ∧
      o.fired = m.eventFor t a e := by
  rw [record_some, Option.map_eq_some_iff] at h
  obtain ⟨e, he, rfl⟩ := h
  cases hev : m.eventFor t a e with
  | none => exact ⟨e, he, rfl, hev.symm⟩
  | some tp => exact ⟨e, he, rfl, hev.symm⟩

end Blkin
