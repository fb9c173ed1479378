import Blkin.BinaryProtocol
import Blkin.Client
import Blkin.Effects
import Blkin.Endpoints

/-!
# From a recording to a message

What `record` fires is delivered as an event of the zipkin format (`deliver_shows`), so
whether the plugin converts it is a matter of ranges (`convertible_iff`) : the ip has to
be an address, the port a signed 16-bit number, each string shorter than 2³¹ bytes, and
the time of a timestamp annotation at least a microsecond. `end_to_end` follows such a
recording to the decoded message. `converts_iff` says when an endpoint set up by
`init_endpoint` gives events that are converted : it needs an ip, since the text `NaN`
stands in place of a missing one, and a port below 2¹⁵.
-/

open Codec Machine

namespace Blkin

/-! ## The event of a tracepoint -/

namespace Tracepoint

/-- What the event of the tracepoint shows. -/
def report (abi : Abi) (timestamp : UInt64) : Tracepoint → Report
  | .keyval traceName service port ip trace span parentSpan key val =>
    ⟨traceName.bytes, abi.long trace, abi.long span, abi.long parentSpan, service.bytes,
      port.toInt, ip.bytes, .keyval key.bytes val.bytes⟩
  | .timestamp traceName service port ip trace span parentSpan event =>
    ⟨traceName.bytes, abi.long trace, abi.long span, abi.long parentSpan, service.bytes,
      port.toInt, ip.bytes, .timestamp event.bytes timestamp.toNat⟩

/-- The second part of the event's name. -/
def kind : Tracepoint → Bytes
  | .keyval .. => ascii "keyval"
  | .timestamp .. => ascii "timestamp"

end Tracepoint

theorem deliver_shows (abi : Abi) (timestamp : UInt64) (tp : Tracepoint) :
    (deliver abi timestamp tp).Shows (tp.report abi timestamp) := by
  cases tp <;> exact ⟨rfl, rfl, rfl, rfl, rfl, rfl, rfl, rfl, rfl⟩

theorem kind_report (abi : Abi) (timestamp : UInt64) (tp : Tracepoint) :
    (tp.report abi timestamp).content.kind = tp.kind := by
  cases tp <;> rfl

theorem report_service (abi : Abi) (timestamp : UInt64) (tp : Tracepoint) :
    (tp.report abi timestamp).service = tp.shown.1.bytes := by
  cases tp <;> rfl

theorem report_port (abi : Abi) (timestamp : UInt64) (tp : Tracepoint) :
    (tp.report abi timestamp).port = tp.shown.2.1.toInt := by
  cases tp <;> rfl

theorem report_ip (abi : Abi) (timestamp : UInt64) (tp : Tracepoint) :
    (tp.report abi timestamp).ip = tp.shown.2.2.bytes := by
  cases tp <;> rfl

theorem fits_port {port : Int32} (h : 0 ≤ port) : Fits 16 port.toInt ↔ port ≤ 32767 := by
  have h0 : (0 : Int32).toInt = 0 := rfl
  have h1 : (32767 : Int32).toInt = 32767 := rfl
  rw [Int32.le_iff_toInt_le] at h ⊢
  simp only [Fits]
  omega

theorem Abi.fits_long (abi : Abi) (x : Int64) : Fits 64 (abi.long x) := by
  cases abi with
  | lp64 => exact ⟨x.le_toInt, x.toInt_lt⟩
  | ilp32 =>
    have hlo := x.toInt32.le_toInt
    have hhi := x.toInt32.toInt_lt
    simp only [Fits, Abi.long]
    omega

theorem report_fits (abi : Abi) (timestamp : UInt64) (tp : Tracepoint) :
    Fits 64 (tp.report abi timestamp).traceId ∧ Fits 64 (tp.report abi timestamp).spanId ∧
      Fits 64 (tp.report abi timestamp).parentSpanId := by
  cases tp <;> exact ⟨abi.fits_long _, abi.fits_long _, abi.fits_long _⟩

theorem report_timestamp_lt (abi : Abi) (timestamp : UInt64) (tp : Tracepoint) :
    ∀ event ns, (tp.report abi timestamp).content = .timestamp event ns → ns < 2 ^ 64 := by
  cases tp <;> rintro _ _ ⟨⟩
  exact timestamp.toNat_lt

/-! ## The event of a recording -/

/-- `record` fires exactly the event of the endpoint it settles on. -/
theorem fired_iff {m : Mem} {t a : Addr} {tp : Tracepoint} :
    (record m (some t) (some a)).bind Outcome.fired = some tp ↔
      ∃ e, m.endpointFor t a = some e ∧ m.eventFor t a e = some tp := by
  rw [record_some]
  cases he : m.endpointFor t a with
  | none => simp
  | some e => cases hev : m.eventFor t a e <;> simp [hev]

namespace Mem

variable {m : Mem} {t a e : Addr} {tp : Tracepoint}

/-- The strings of a recording at `e` that are sent on as strings. -/
def strings (m : Mem) (t a e : Addr) : List (Option CString) :=
  (m.traces t).name :: (m.endps e).name :: match (m.annots a).type with
    | .string => [(m.annots a).key, (m.annots a).val]
    | .timestamp => [(m.annots a).val]

/-- No string is too long for its 32-bit length. -/
def Short (m : Mem) (t a e : Addr) : Prop :=
  ∀ s ∈ m.strings t a e, ∀ text, s = some text → text.bytes.length < 2 ^ 31

/-- The event of a timestamp annotation comes at least a microsecond after the epoch. -/
def Timely (m : Mem) (a : Addr) (timestamp : UInt64) : Prop :=
  (m.annots a).type = .timestamp → 1000 ≤ timestamp

theorem forall_short_getD (s : Option CString) :
    (∀ text, s = some text → text.bytes.length < 2 ^ 31) ↔
      (s.getD defaultName).bytes.length < 2 ^ 31 := by
  cases s with
  | none => simpa using (by decide : defaultName.bytes.length < 2 ^ 31)
  | some text => simp

theorem short_iff : m.Short t a e ↔
    ∀ s ∈ m.strings t a e, (s.getD defaultName).bytes.length < 2 ^ 31 := by
  simp only [Short, forall_short_getD]

theorem short_report (h : m.eventFor t a e = some tp) (abi : Abi) (timestamp : UInt64) :
    (tp.report abi timestamp).Short ↔ m.Short t a e := by
  obtain ⟨key, val, hty, hk, hv, rfl⟩ | ⟨event, hty, hv, rfl⟩ := eventFor_cases h
  · simp [short_iff, strings, hty, hk, hv, Report.Short, Tracepoint.report, keyvalEvent]
  · simp [short_iff, strings, hty, hv, Report.Short, Tracepoint.report, timestampEvent]

theorem timely_report (h : m.eventFor t a e = some tp) (abi : Abi) (timestamp : UInt64) :
    (tp.report abi timestamp).content.Timely ↔ m.Timely a timestamp := by
  rw [Timely, UInt64.le_iff_toNat_le]
  obtain ⟨key, val, hty, -, -, rfl⟩ | ⟨event, hty, -, rfl⟩ := eventFor_cases h
  · simp [hty, Tracepoint.report, keyvalEvent, Content.Timely]
  · simp [hty, Tracepoint.report, timestampEvent, Content.Timely, timestamp.toNat_lt]

theorem convertible_iff (h : m.eventFor t a e = some tp) (abi : Abi) (timestamp : UInt64) :
    (tp.report abi timestamp).Convertible ↔
      (∃ address, Inet.aton ((m.endps e).ip.getD defaultIp).bytes = some address) ∧
        Fits 16 (m.endps e).port.toInt ∧ m.Short t a e ∧ m.Timely a timestamp := by
  obtain ⟨htrace, hspan, hparent⟩ := report_fits abi timestamp tp
  rw [Report.convertible_iff htrace hspan hparent (report_timestamp_lt abi timestamp tp),
    report_ip, report_port, eventFor_shown h, short_report h, timely_report h, Endpoint.shown]

theorem eventFor_converts (P : TProtocol) (h : m.eventFor t a e = some tp) (abi : Abi)
    (timestamp : UInt64) :
    Converts P (deliver abi timestamp tp) tp.kind ↔
      (∃ address, Inet.aton ((m.endps e).ip.getD defaultIp).bytes = some address) ∧
        Fits 16 (m.endps e).port.toInt ∧ m.Short t a e ∧ m.Timely a timestamp := by
  rw [← kind_report abi timestamp, converts_iff_convertible P (deliver_shows abi timestamp tp),
    convertible_iff h]

end Mem

/-! ## The span of a recording -/

/-- The host shows the endpoint, its ip as the number whose big-endian bytes are the
address. -/
structure TEndpoint.IsOf (host : TEndpoint) (ep : Endpoint) (address : Bytes) : Prop where
  ipv4 : ∃ n, host.ipv4 = .int n ∧ Endian.toBigInt 4 n = address
  port : host.port = .int ep.port.toInt
  serviceName : host.serviceName = .str (ep.name.getD defaultName).bytes

/-- The span shows the trace `t` and, as its only annotation, `a` at the endpoint `e`. -/
structure TSpan.IsOf (span : TSpan) (m : Mem) (t a e : Addr) (address : Bytes)
    (timestamp : UInt64) : Prop where
  traceId : span.traceId = .int (m.traces t).info.traceId.toInt
  id : span.id = .int (m.traces t).info.spanId.toInt
  name : span.name = .str ((m.traces t).name.getD defaultName).bytes
  parentId : span.parentId = if (m.traces t).info.parentSpanId = 0 then .none
    else .int (m.traces t).info.parentSpanId.toInt
  content : ∃ host : TEndpoint, host.IsOf (m.endps e) address ∧
    match (m.annots a).type with
    | .string => ∃ key val, (m.annots a).key = some key ∧ (m.annots a).val = some val ∧
      span.annotations = some [] ∧ span.binaryAnnotations =
        some [⟨.str key.bytes, .str val.bytes, .int STRING, some host⟩]
    | .timestamp => ∃ event, (m.annots a).val = some event ∧
      span.annotations =
        some [⟨.int (timestamp.toNat / 1000 : ℕ), .str event.bytes, some host⟩] ∧
      span.binaryAnnotations = some []

theorem toInt_eq_zero_iff (x : Int64) : x.toInt = 0 ↔ x = 0 := by
  rw [← Int64.toInt_inj]
  rfl

theorem Mem.eventFor_host {m : Mem} {t a e : Addr} {tp : Tracepoint}
    (h : m.eventFor t a e = some tp) {address : Bytes} (hlen : address.length = 4) (abi : Abi)
    (timestamp : UInt64) :
    ((tp.report abi timestamp).host (Endian.ofBigInt address)).IsOf (m.endps e) address := by
  have hbytes : Endian.toBigInt 4 (Endian.ofBigInt address) = address := by
    rw [← hlen, Endian.toBigInt_ofBigInt]
  have hshown := Mem.eventFor_shown h
  refine ⟨⟨_, rfl, hbytes⟩, ?_, ?_⟩
  · rw [Report.host, report_port, hshown, Endpoint.shown]
  · rw [Report.host, report_service, hshown, Endpoint.shown]

theorem Mem.eventFor_span {m : Mem} {t a e : Addr} {tp : Tracepoint}
    (h : m.eventFor t a e = some tp) {address : Bytes} (hlen : address.length = 4)
    (timestamp : UInt64) :
    ((tp.report .lp64 timestamp).span (Endian.ofBigInt address)).IsOf m t a e address
      timestamp := by
  have hhost := Mem.eventFor_host h hlen .lp64 timestamp
  have hparent : ∀ x : Int64, (if x.toInt = 0 then Value.none else .int x.toInt) =
      if x = 0 then .none else .int x.toInt := by
    simp only [toInt_eq_zero_iff, implies_true]
  obtain ⟨key, val, hty, hk, hv, rfl⟩ | ⟨event, hty, hv, rfl⟩ := eventFor_cases h
  · refine ⟨rfl, rfl, rfl, hparent _, _, hhost, ?_⟩
    rw [hty]
    exact ⟨key, val, hk, hv, rfl, rfl⟩
  · refine ⟨rfl, rfl, rfl, hparent _, _, hhost, ?_⟩
    rw [hty]
    exact ⟨event, hv, rfl, rfl⟩

/-! ## End to end -/

/-- A recording at an endpoint with a dotted quad and a port below 2¹⁵, with strings
shorter than 2³¹ bytes, becomes a message that decodes to its span. -/
theorem end_to_end (P : TProtocol) {m : Mem} {t a e : Addr} {tp : Tracepoint}
    {ip : CString} {b₁ b₂ b₃ b₄ : UInt8} {timestamp : UInt64}
    (hfired : (record m (some t) (some a)).bind Outcome.fired = some tp)
    (he : m.endpointFor t a = some e) (hip : (m.endps e).ip = some ip)
    (hquad : ip.bytes = Inet.quad b₁ b₂ b₃ b₄) (hport : 0 ≤ (m.endps e).port)
    (hport' : (m.endps e).port ≤ 32767) (hshort : m.Short t a e) (hts : 1000 ≤ timestamp) :
    ∃ message bytes span, convert P (deliver .lp64 timestamp tp) tp.kind = .ok message ∧
      Base64.decode message = some bytes ∧
      (∀ fuel > 6, (TSpan.read P fuel).run bytes = some (span, [])) ∧
      span.IsOf m t a e [b₁, b₂, b₃, b₄] timestamp := by
  obtain ⟨_, he', hev⟩ := fired_iff.1 hfired
  obtain rfl := Option.some.inj (he.symm.trans he')
  have haton : Inet.aton ((m.endps e).ip.getD defaultIp).bytes = some [b₁, b₂, b₃, b₄] := by
    rw [hip, Option.getD_some, hquad, Inet.aton_quad]
  have hconv : (tp.report .lp64 timestamp).Convertible :=
    (Mem.convertible_iff hev _ _).2
      ⟨⟨_, haton⟩, (fits_port hport).2 hport', hshort, fun _ => hts⟩
  obtain ⟨message, bytes, hmessage, hdecode, hread⟩ :=
    convert_decodes P (deliver_shows .lp64 timestamp tp) hconv
      (by rw [report_ip, Mem.eventFor_shown hev]; exact haton)
  rw [kind_report] at hmessage
  exact ⟨message, bytes, _, hmessage, hdecode, hread, Mem.eventFor_span hev rfl timestamp⟩

/-- A trace at the endpoint, and the annotation to record. -/
def oneTrace (ep : Endpoint) (an : Annotation) : Mem :=
  (((Mem.static .little fun n => .ofNat n).modEndp 0 fun _ => ep).modTrace 0 fun _ =>
    ⟨some (.lit "request"), ⟨7, 8, 0⟩, some 0⟩).modAnnot 0 fun _ => an

/-- The annotation that the request starts. -/
def startAnnot : Annotation :=
  ⟨.timestamp, none, some (.lit "start"), none⟩

/-- The endpoint `front` at 10.0.0.1, port 80. -/
def front : Endpoint :=
  ⟨some (.lit "10.0.0.1"), 80, some (.lit "front")⟩

theorem end_to_end_start : ∃ tp message bytes span,
    let m := oneTrace front startAnnot
    (record m (some 0) (some 0)).bind Outcome.fired = some tp ∧
      convert binaryProtocol (deliver .lp64 1000000 tp) tp.kind = .ok message ∧
      Base64.decode message = some bytes ∧
      (∀ fuel > 6, (TSpan.read binaryProtocol fuel).run bytes = some (span, [])) ∧
      span.IsOf m 0 0 0 [10, 0, 0, 1] 1000000 := by
  have hfired : (record (oneTrace front startAnnot) (some 0) (some 0)).bind Outcome.fired =
      some (.timestamp (.lit "request") (.lit "front") 80 (.lit "10.0.0.1") 7 8 0
        (.lit "start")) := by decide
  have hquad : (CString.lit "10.0.0.1").bytes = Inet.quad 10 0 0 1 := by decide
  have hts : (1000 : UInt64) ≤ 1000000 := by decide
  obtain ⟨message, bytes, span, h⟩ := end_to_end binaryProtocol hfired (e := 0) rfl rfl hquad
    (by decide) (by decide) (Mem.short_iff.2 (by decide)) hts
  exact ⟨_, message, bytes, span, hfired, h⟩

/-- A text of `n` letters. -/
def CString.letters (n : ℕ) : CString where
  bytes := List.replicate n 97
  noNul h := absurd (List.eq_of_mem_replicate h) (by decide)

/-- A key of 2³¹ bytes has no 32-bit length. -/
theorem long_key_unconverted : ∃ tp,
    let m := oneTrace front ⟨.string, some (.letters (2 ^ 31)), some (.lit "val"), none⟩
    (record m (some 0) (some 0)).bind Outcome.fired = some tp ∧
      m.endpointFor 0 0 = some 0 ∧ (m.endps 0).ip = some (.lit "10.0.0.1") ∧
      (CString.lit "10.0.0.1").bytes = Inet.quad 10 0 0 1 ∧ (m.endps 0).port = 80 ∧
      ∀ P, ¬Converts P (deliver .lp64 1000000 tp) tp.kind := by
  obtain ⟨tp, hev⟩ : ∃ tp, (oneTrace front ⟨.string, some (.letters (2 ^ 31)),
      some (.lit "val"), none⟩).eventFor 0 0 0 = some tp := ⟨_, rfl⟩
  refine ⟨tp, fired_iff.2 ⟨0, rfl, hev⟩, rfl, rfl, by decide, rfl, fun P h => ?_⟩
  obtain ⟨-, -, hshort, -⟩ := (Mem.eventFor_converts P hev _ _).1 h
  have hlt := hshort _ (.tail _ (.tail _ (.head _))) _ rfl
  rw [CString.letters, List.length_replicate] at hlt
  exact absurd hlt (lt_irrefl _)

/-! ## An endpoint after it is set up -/

/-- The call sets up the endpoint at `e`. -/
def Call.SetsUp (e : Addr) : Call → Prop
  | .endpoint endp _ _ _ => endp = some e
  | _ => False

theorem Mem.endps_writeInfo (m : Mem) (l : InfoLoc) (v : TraceInfo) :
    (m.writeInfo l v).endps = m.endps := by
  cases l <;> rfl

/-- A call that does not set the endpoint up changes nothing in it that `record` does not
fill in. -/
theorem filled_endps_step {m m' : Mem} {c : Call} {out : List Tracepoint} {e : Addr}
    (h : step m c = some (out, m')) (hc : ¬c.SetsUp e) :
    (m'.endps e).filled = (m.endps e).filled := by
  obtain ⟨o, ho, h⟩ := Option.map_eq_some_iff.1 h
  obtain ⟨-, rfl⟩ := Prod.mk.inj h
  obtain ⟨_, tp, he, rfl⟩ | ⟨-, rfl⟩ := exec_cases ho
  · cases Call.accepts_of_effect he with
    | endpoint f ip port name =>
      have hf : e ≠ f := fun hf => hc (congrArg some hf.symm)
      simp [hf]
    | record t a f tp _ _ => exact m.filled_endps_fillDefaults t a f e
    | getInfo | setInfo | pack => simp only [Mem.endps_writeInfo]
    | _ => rfl
  · unfold Call.rejected
    split
    · cases m.endpointFor _ _ with
      | none => rfl
      | some f => exact m.filled_endps_fillDefaults _ _ f e
    · rfl

theorem filled_endps_run {e : Addr} : ∀ {cs : List Call} {m m' : Mem} {outs : List Tracepoint},
    run step m cs = some (outs, m') → (∀ c ∈ cs, ¬c.SetsUp e) →
      (m'.endps e).filled = (m.endps e).filled
  | [], m, m', outs, h, _ => by
    obtain ⟨-, rfl⟩ : [] = outs ∧ m = m' := by simpa using h
    rfl
  | c :: cs, m, m', outs, h, hcs => by
    obtain ⟨out₁, m₁, out₂, h₁, h₂, rfl⟩ := run_cons_eq_some.1 h
    rw [filled_endps_run h₂ fun d hd => hcs d (List.mem_cons_of_mem _ hd),
      filled_endps_step h₁ (hcs c List.mem_cons_self)]

theorem endps_of_setUp {m m' : Mem} {e : Addr} {ip name : Option CString} {port : Int32}
    {out : List Tracepoint} (h : step m (.endpoint (some e) ip port name) = some (out, m')) :
    m'.endps e = ⟨some (ip.getD defaultIp), port, name⟩ := by
  obtain ⟨o, ho, h⟩ := Option.map_eq_some_iff.1 h
  obtain ⟨-, rfl⟩ := Prod.mk.inj h
  obtain rfl := Option.some.inj ho
  simp [initEndpoint_some]

/-- The default ip is not an address. -/
theorem aton_defaultIp : Inet.aton defaultIp.bytes = none := by
  decide

/-- Set an endpoint up with an ip or none, a port, and a name or none. An event that is
later recorded at it is converted exactly if there is an ip, the port is below 2¹⁵, no
string is too long and a timestamp is not too early. -/
theorem converts_iff (P : TProtocol) (abi : Abi) {m m' : Mem} {e t a : Addr}
    {ip name : Option CString} {port : Int32} {cs : List Call} {outs : List Tracepoint}
    {tp : Tracepoint} {timestamp : UInt64} (hip : ∀ text, ip = some text → Inet.IsQuad text.bytes)
    (hport : 0 ≤ port)
    (hrun : run step m (.endpoint (some e) ip port name :: cs) = some (outs, m'))
    (hcs : ∀ c ∈ cs, ¬c.SetsUp e) (he : m'.endpointFor t a = some e)
    (hfired : (record m' (some t) (some a)).bind Outcome.fired = some tp) :
    Converts P (deliver abi timestamp tp) tp.kind ↔
      ip ≠ none ∧ port ≤ 32767 ∧ m'.Short t a e ∧ m'.Timely a timestamp := by
  obtain ⟨_, he', hev⟩ := fired_iff.1 hfired
  obtain rfl := Option.some.inj (he.symm.trans he')
  obtain ⟨_, m₁, _, h₁, h₂, -⟩ := run_cons_eq_some.1 hrun
  obtain ⟨hip', hport'⟩ : (m'.endps e).ip.getD defaultIp = ip.getD defaultIp ∧
      (m'.endps e).port = port := by
    have hfilled := filled_endps_run h₂ hcs
    rw [show m₁.endps e = ⟨some (ip.getD defaultIp), port, name⟩ from endps_of_setUp h₁] at hfilled
    simp only [Endpoint.filled, Endpoint.mk.injEq, Option.some.injEq, Option.getD_some] at hfilled
    exact ⟨hfilled.1, hfilled.2.1⟩
  have haton : (∃ address, Inet.aton (ip.getD defaultIp).bytes = some address) ↔ ip ≠ none := by
    cases ip with
    | none => simp [aton_defaultIp]
    | some text => simpa using (hip text rfl).aton
  rw [Mem.eventFor_converts P hev, hip', hport', haton, fits_port hport]

/-- Set the endpoint up and record `start` at it. -/
theorem exists_start (ip : Option CString) (port : Int32) : ∃ m tp,
    run step (oneTrace front startAnnot) [.endpoint (some 0) ip port none] = some ([], m) ∧
      m.endpointFor 0 0 = some 0 ∧ m.eventFor 0 0 0 = some tp ∧
      m.endps 0 = ⟨some (ip.getD defaultIp), port, none⟩ ∧ m.annots 0 = startAnnot ∧
      (m.traces 0).name = some (.lit "request") := by
  refine ⟨(oneTrace front startAnnot).modEndp 0 fun _ => ⟨some (ip.getD defaultIp), port, none⟩, _,
    ?_, rfl, rfl, rfl, rfl, rfl⟩
  rw [run_singleton, step, exec, initEndpoint_some]
  rfl

theorem converts_iff_front : ∃ outs m tp,
    run step (oneTrace front startAnnot) [.endpoint (some 0) front.ip 80 none] = some (outs, m) ∧
      (record m (some 0) (some 0)).bind Outcome.fired = some tp ∧
      Converts binaryProtocol (deliver .ilp32 1000000 tp) tp.kind := by
  have hquad : ∀ text, front.ip = some text → Inet.IsQuad text.bytes := by
    rintro _ ⟨⟩
    rw [show (CString.lit "10.0.0.1").bytes = Inet.quad 10 0 0 1 by decide]
    exact Inet.isQuad_quad 10 0 0 1
  obtain ⟨m, tp, hrun, he, hev, hep, han, hname⟩ := exists_start front.ip 80
  have hfired := fired_iff.2 ⟨0, he, hev⟩
  have hshort : m.Short 0 0 0 := by
    rw [Mem.short_iff, Mem.strings, hep, han, hname]
    decide
  refine ⟨[], m, tp, hrun, hfired, ?_⟩
  exact (converts_iff binaryProtocol .ilp32 hquad (by decide) hrun (by simp) he hfired).2
    ⟨by decide, by decide, hshort, fun _ => by decide⟩

/-- The event of an endpoint set up with the ip and port is not converted. -/
def Unconverted (ip : Option CString) (port : Int32) : Prop :=
  ∃ outs m tp,
    run step (oneTrace front startAnnot) [.endpoint (some 0) ip port none] = some (outs, m) ∧
      m.endpointFor 0 0 = some 0 ∧
      (record m (some 0) (some 0)).bind Outcome.fired = some tp ∧
      ∀ P, ¬Converts P (deliver .lp64 1000000 tp) tp.kind

/-- An endpoint without an ip, and one with a port above 2¹⁵. -/
theorem no_ip_and_high_port_unconverted : Unconverted none 80 ∧ Unconverted front.ip 40000 := by
  constructor
  · obtain ⟨m, tp, hrun, he, hev, hep, -⟩ := exists_start none 80
    refine ⟨[], m, tp, hrun, he, fired_iff.2 ⟨0, he, hev⟩, fun P h => ?_⟩
    obtain ⟨⟨_, hip⟩, -⟩ := (Mem.eventFor_converts P hev _ _).1 h
    rw [hep, Option.getD_some, Option.getD_none, aton_defaultIp] at hip
    cases hip
  · obtain ⟨m, tp, hrun, he, hev, hep, -⟩ := exists_start front.ip 40000
    refine ⟨[], m, tp, hrun, he, fired_iff.2 ⟨0, he, hev⟩, fun P h => ?_⟩
    obtain ⟨-, hport, -⟩ := (Mem.eventFor_converts P hev _ _).1 h
    rw [hep] at hport
    exact absurd hport (by decide)

end Blkin
