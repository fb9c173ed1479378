import Blkin.Formatter
import Blkin.Provider

/-!
# Events as messages, `zipkin_client.py`

`createTrace` and `createAnnotation` look the fields of an event up and raise where one is
missing; `convert` is what becomes of an event on its way to a message.

A `Report` is what an event of the zipkin format shows. If its ip is an address, and its
port, its ids, its timestamp in microseconds and the lengths of its strings are in range
(`Report.Convertible`), the event is converted, and the message decodes to the report's
span (`convert_decodes`). In every other case `convert` raises (`converts_iff_convertible`).

The microseconds are cut out of the timestamp's decimal text, which is a division wherever
a digit is left (`inMicroseconds_iff`).
-/

open Codec

namespace Blkin

/-- `ZipkinClient.create_trace` -/
def createTrace (event : Event) : Except PyError PyTrace := do
  let service ← event.get "trace_name"
  let traceId ← event.get "trace_id"
  let spanId ← event.get "span_id"
  let parentSpan ← event.get "parent_span_id"
  let parentSpan := if parentSpan.isZero then .none else parentSpan
  .ok ⟨service, traceId, spanId, parentSpan⟩

/-- The microseconds of a timestamp : its decimal text without the last three digits. -/
def microseconds (timestamp : ℕ) : Except PyError ℤ :=
  intOfStr (dropEnd 3 (Decimal.text timestamp))

/-- `ZipkinClient.create_annotation`. For another kind the variable `annotation` is never
assigned, which shows only where it is used. -/
def createAnnotation (event : Event) (kind : Bytes) : Except PyError PyAnnotation := do
  let annot : Option PyAnnotation ←
    if kind = ascii "keyval" then do
      let key ← event.get "key"
      let val ← event.get "val"
      .ok <| some <| PyAnnotation.string key val
    else if kind = ascii "timestamp" then do
      let eventName ← event.get "event"
      let timestamp ← microseconds event.timestamp
      .ok <| some <| PyAnnotation.timestamp eventName (.int timestamp)
    else .ok none
  let port ← event.get "port_no"
  let service ← event.get "service_name"
  let ip ← event.get "ip"
  let port ← pyInt port
  match annot with
  | some a => .ok { a with endpoint := some ⟨ip, .int port, service⟩ }
  | none => .error (.unboundLocalError "annotation")

/-- The message of an event of the given kind. -/
def convert (P : TProtocol) (event : Event) (kind : Bytes) : Except PyError Bytes := do
  let trace ← createTrace event
  let annot ← createAnnotation event kind
  base64ThriftFormatter P trace [annot]

/-! ## What an event of the format shows -/

inductive Content
  | keyval (key val : Bytes)
  | timestamp (event : Bytes) (ns : ℕ)
  deriving DecidableEq, Repr

structure Report where
  name : Bytes
  traceId : ℤ
  spanId : ℤ
  parentSpanId : ℤ
  service : Bytes
  port : ℤ
  ip : Bytes
  content : Content
  deriving DecidableEq, Repr

/-- The second part of the event's name. -/
def Content.kind : Content → Bytes
  | keyval _ _ => ascii "keyval"
  | timestamp _ _ => ascii "timestamp"

/-- The event's own fields. -/
def Content.ShownBy (e : Event) : Content → Prop
  | keyval key val => e.get "key" = .ok (.str key) ∧ e.get "val" = .ok (.str val)
  | timestamp event ns => e.get "event" = .ok (.str event) ∧ e.timestamp = ns

/-- The fields of the event have their declared types and show the report. -/
structure Event.Shows (e : Event) (r : Report) : Prop where
  name : e.get "trace_name" = .ok (.str r.name)
  traceId : e.get "trace_id" = .ok (.int r.traceId)
  spanId : e.get "span_id" = .ok (.int r.spanId)
  parentSpanId : e.get "parent_span_id" = .ok (.int r.parentSpanId)
  service : e.get "service_name" = .ok (.str r.service)
  port : e.get "port_no" = .ok (.int r.port)
  ip : e.get "ip" = .ok (.str r.ip)
  content : r.content.ShownBy e

namespace Report

variable (r : Report)

/-- The endpoint of the report, its ip read as `ipv4`. -/
def host (ipv4 : ℤ) : TEndpoint :=
  ⟨.int ipv4, .int r.port, .str r.service⟩

/-- The span of the report, with its one annotation. -/
def span (ipv4 : ℤ) : TSpan where
  traceId := .int r.traceId
  name := .str r.name
  id := .int r.spanId
  parentId := if r.parentSpanId = 0 then .none else .int r.parentSpanId
  annotations := some <| match r.content with
    | .keyval _ _ => []
    | .timestamp event ns => [⟨.int (ns / 1000 : ℕ), .str event, some (r.host ipv4)⟩]
  binaryAnnotations := some <| match r.content with
    | .keyval key val => [⟨.str key, .str val, .int STRING, some (r.host ipv4)⟩]
    | .timestamp _ _ => []

end Report

/-- The strings are in range, and so is a timestamp, which is at least a microsecond. -/
def Content.InRange : Content → Prop
  | keyval key val => Fits 32 key.length ∧ Fits 32 val.length
  | timestamp event ns => Fits 32 event.length ∧ 1000 ≤ ns ∧ Fits 64 (ns / 1000 : ℕ)

/-- The ip is an address, and everything is in range. -/
structure Report.Convertible (r : Report) : Prop where
  ip : ∃ address, Inet.aton r.ip = some address
  port : Fits 16 r.port
  service : Fits 32 r.service.length
  name : Fits 32 r.name.length
  traceId : Fits 64 r.traceId
  spanId : Fits 64 r.spanId
  parentSpanId : Fits 64 r.parentSpanId
  content : r.content.InRange

/-- The strings that are sent on as strings are not too long for their 32-bit lengths. -/
def Report.Short (r : Report) : Prop :=
  r.name.length < 2 ^ 31 ∧ r.service.length < 2 ^ 31 ∧ match r.content with
    | .keyval key val => key.length < 2 ^ 31 ∧ val.length < 2 ^ 31
    | .timestamp event _ => event.length < 2 ^ 31

/-- The timestamp of a timestamp event is at least a microsecond, and below 2⁶⁴. -/
def Content.Timely : Content → Prop
  | keyval _ _ => True
  | timestamp _ ns => 1000 ≤ ns ∧ ns < 2 ^ 64

theorem fits_length {α : Type*} (s : List α) : Fits 32 s.length ↔ s.length < 2 ^ 31 := by
  simp only [Fits]
  omega

/-- A report with 64-bit ids and timestamp. -/
theorem Report.convertible_iff {r : Report} (htrace : Fits 64 r.traceId)
    (hspan : Fits 64 r.spanId) (hparent : Fits 64 r.parentSpanId)
    (hns : ∀ event ns, r.content = .timestamp event ns → ns < 2 ^ 64) :
    r.Convertible ↔ (∃ address, Inet.aton r.ip = some address) ∧ Fits 16 r.port ∧ r.Short ∧
      r.content.Timely := by
  have hcontent : r.content.InRange ↔ (match r.content with
      | .keyval key val => key.length < 2 ^ 31 ∧ val.length < 2 ^ 31
      | .timestamp event _ => event.length < 2 ^ 31) ∧ r.content.Timely := by
    cases hc : r.content with
    | keyval key val => simp [Content.InRange, Content.Timely, fits_length]
    | timestamp event ns =>
      have hlt := hns event ns hc
      have hfits : Fits 64 (ns / 1000 : ℕ) := by
        simp only [Fits]
        omega
      constructor
      · rintro ⟨hlength, hns, -⟩
        exact ⟨(fits_length _).1 hlength, hns, hlt⟩
      · rintro ⟨hlength, hns, -⟩
        exact ⟨(fits_length _).2 hlength, hns, hfits⟩
  constructor
  · intro h
    obtain ⟨hshort, htimely⟩ := hcontent.1 h.content
    exact ⟨h.ip, h.port, ⟨(fits_length _).1 h.name, (fits_length _).1 h.service, hshort⟩, htimely⟩
  · rintro ⟨hip, hport, ⟨hname, hservice, hshort⟩, htimely⟩
    exact ⟨hip, hport, (fits_length _).2 hservice, (fits_length _).2 hname, htrace, hspan,
      hparent, hcontent.2 ⟨hshort, htimely⟩⟩

/-! ## The conversion -/

theorem microseconds_eq (ns : ℕ) :
    microseconds ns = if ns < 1000 then .error .valueError else .ok (ns / 1000 : ℕ) := by
  rw [microseconds, dropEnd, Decimal.take_text]
  split_ifs with h
  · rfl
  · rw [intOfStr_digits fun b => Decimal.isDigit_of_mem_text _, Decimal.value_text]
    rfl

theorem ipv4ToInt_str (s : Bytes) :
    ipv4ToInt (.str s) = match Inet.aton s with
      | some address => .ok (Endian.ofBigInt address)
      | none => .error .socketError := by
  cases h : Inet.aton s with
  | none => simp [ipv4ToInt, inetAton, h]
  | some address => simp [ipv4ToInt, inetAton, h, unpackI, Inet.length_of_aton h]

variable {e : Event} {r : Report}

theorem createTrace_eq (h : e.Shows r) : createTrace e =
    .ok ⟨.str r.name, .int r.traceId, .int r.spanId,
      if r.parentSpanId = 0 then .none else .int r.parentSpanId⟩ := by
  simp [createTrace, h.name, h.traceId, h.spanId, h.parentSpanId, Value.isZero]

/-- Up to the encoding, what is converted is the report's span. -/
theorem convert_eq (P : TProtocol) (h : e.Shows r) : convert P e r.content.kind =
    match r.content with
    | .keyval _ _ => ipv4ToInt (.str r.ip) >>= fun ipv4 => base64Thrift P (r.span ipv4)
    | .timestamp _ ns => if ns < 1000 then .error .valueError
      else ipv4ToInt (.str r.ip) >>= fun ipv4 => base64Thrift P (r.span ipv4) := by
  have hkind : ascii "timestamp" ≠ ascii "keyval" := by decide
  rw [convert, createTrace_eq h, ok_bind]
  cases hc : r.content with
  | keyval key val =>
    obtain ⟨hkey, hval⟩ : Content.ShownBy e (.keyval key val) := hc ▸ h.content
    simp [Content.kind, createAnnotation, hkey, hval, h.port, h.service, h.ip, pyInt,
      base64ThriftFormatter, formatAnnot, hostOf, PyAnnotation.string, binaryAnnotationFormatter,
      annotationTypes, Report.span, Report.host, hc]
  | timestamp event ns =>
    obtain ⟨hevent, hns⟩ : Content.ShownBy e (.timestamp event ns) := hc ▸ h.content
    by_cases hlt : ns < 1000 <;>
      simp [Content.kind, createAnnotation, hkind, hevent, hns, microseconds_eq, hlt, h.port,
        h.service, h.ip, pyInt, base64ThriftFormatter, formatAnnot, hostOf,
        PyAnnotation.timestamp, Report.span, Report.host, hc]

theorem convert_eq_of_le (P : TProtocol) (h : e.Shows r) (hr : r.content.InRange) :
    convert P e r.content.kind =
      ipv4ToInt (.str r.ip) >>= fun ipv4 => base64Thrift P (r.span ipv4) := by
  rw [convert_eq P h]
  cases hc : r.content with
  | keyval key val => rfl
  | timestamp event ns =>
    obtain ⟨-, hns, -⟩ : (Content.timestamp event ns).InRange := hc ▸ hr
    simp only [if_neg (by omega : ¬ns < 1000)]

/-- The span of a report in range is typed. -/
theorem Report.Convertible.typed (h : r.Convertible) {ipv4 : ℤ} (hip : Fits 32 ipv4) :
    (r.span ipv4).Typed := by
  have hhost : (r.host ipv4).Typed := ⟨hip, h.port, h.service⟩
  have hcontent := h.content
  have hparent : (if r.parentSpanId = 0 then Value.none else .int r.parentSpanId).IsInt 64 := by
    split_ifs
    · trivial
    · exact h.parentSpanId
  have hzero : Fits 32 (0 : ℕ) := by decide
  have hone : Fits 32 (1 : ℕ) := by decide
  have hstring : Fits 32 STRING := by decide
  refine ⟨h.traceId, h.name, h.spanId, hparent, ?_, ?_⟩
  · rintro as ⟨⟩
    cases hc : r.content with
    | keyval key val => exact ⟨hzero, by simp⟩
    | timestamp event ns =>
      rw [hc] at hcontent
      refine ⟨hone, fun a ha => ?_⟩
      obtain rfl := List.mem_singleton.1 ha
      exact ⟨hcontent.2.2, hcontent.1, by rintro _ ⟨⟩; exact hhost⟩
  · rintro as ⟨⟩
    cases hc : r.content with
    | keyval key val =>
      rw [hc] at hcontent
      refine ⟨hone, fun a ha => ?_⟩
      obtain rfl := List.mem_singleton.1 ha
      exact ⟨hcontent.1, hcontent.2, hstring, by rintro _ ⟨⟩; exact hhost⟩
    | timestamp event ns => exact ⟨hzero, by simp⟩

theorem fits_ofBigInt {address : Bytes} (h : address.length = 4) :
    Fits 32 (Endian.ofBigInt address) := by
  have hbounds := Endian.ofBigInt_bounds address
  rw [h] at hbounds
  norm_num [Fits] at hbounds ⊢
  omega

/-- A convertible report's event becomes a message that decodes to its span, the ip
being the address bytes read as a signed number. -/
theorem convert_decodes (P : TProtocol) (h : e.Shows r) (hr : r.Convertible) {address : Bytes}
    (hip : Inet.aton r.ip = some address) :
    ∃ message bytes, convert P e r.content.kind = .ok message ∧
      Base64.decode message = some bytes ∧ ∀ fuel > 6,
        (TSpan.read P fuel).run bytes = some (r.span (Endian.ofBigInt address), []) := by
  have htyped := hr.typed (fits_ofBigInt (Inet.length_of_aton hip))
  obtain ⟨bytes, hbytes, -⟩ := htyped.transfers (P := P) (by decide : 6 < 7)
  refine ⟨Base64.encode bytes, bytes, ?_, Base64.decode_encode bytes, fun fuel hfuel => ?_⟩
  · rw [convert_eq_of_le P h hr.content, ipv4ToInt_str, hip]
    simp [base64Thrift_eq, hbytes]
  · obtain ⟨bytes', hbytes', hread⟩ := htyped.transfers (P := P) hfuel
    obtain rfl := Except.ok.inj (hbytes.symm.trans hbytes')
    exact hread.run

/-! ## What is converted is in range -/

theorem base64Thrift_succeeds {P : TProtocol} {span : TSpan}
    (h : Succeeds (base64Thrift P span)) : Succeeds (span.write P) := by
  obtain ⟨message, h⟩ := h
  rw [base64Thrift_eq] at h
  cases hw : span.write P with
  | error err => simp [hw] at h
  | ok bytes => exact ⟨bytes, rfl⟩

theorem Report.host_fits {P : TProtocol} {ipv4 : ℤ} (h : Succeeds ((r.host ipv4).write P)) :
    Fits 16 r.port ∧ Fits 32 r.service.length := by
  obtain ⟨hport, hservice⟩ := TEndpoint.fits_of_write h
  exact ⟨hport _ rfl, hservice _ rfl⟩

/-- The annotation of a span that is written : its strings and timestamp are in range, and
its host is written. -/
theorem Report.content_fits {P : TProtocol} {ipv4 : ℤ} (h : Succeeds ((r.span ipv4).write P)) :
    Succeeds ((r.host ipv4).write P) ∧ match r.content with
      | .keyval key val => Fits 32 key.length ∧ Fits 32 val.length
      | .timestamp event ns => Fits 32 event.length ∧ Fits 64 (ns / 1000 : ℕ) := by
  obtain ⟨hannots, hbinaries⟩ := TSpan.lists_succeed h
  have hannot := TProtocol.succeeds_of_writeList (hannots _ rfl)
  have hbinary := TProtocol.succeeds_of_writeList (hbinaries _ rfl)
  cases hc : r.content with
  | keyval key val =>
    rw [hc] at hbinary
    obtain ⟨hkey, hval, hhost⟩ :=
      TBinaryAnnotation.fits_of_write (hbinary _ (List.mem_singleton_self _))
    exact ⟨hhost _ rfl, hkey _ rfl, hval _ rfl⟩
  | timestamp event ns =>
    rw [hc] at hannot
    obtain ⟨htime, hevent, hhost⟩ :=
      TAnnotation.fits_of_write (hannot _ (List.mem_singleton_self _))
    exact ⟨hhost _ rfl, hevent _ rfl, htime _ rfl⟩

theorem Report.ids_fit {P : TProtocol} {ipv4 : ℤ} (h : Succeeds ((r.span ipv4).write P)) :
    Fits 32 r.name.length ∧ Fits 64 r.traceId ∧ Fits 64 r.spanId ∧ Fits 64 r.parentSpanId := by
  obtain ⟨htrace, hname, hid, hparent⟩ := TSpan.fits_of_write h
  refine ⟨hname _ rfl, htrace _ rfl, hid _ rfl, ?_⟩
  by_cases hzero : r.parentSpanId = 0
  · rw [hzero]
    decide
  · exact hparent _ (if_neg hzero)

/-- A report is convertible if its event is converted. -/
theorem convertible_of_convert (P : TProtocol) (h : e.Shows r) {message : Bytes}
    (hmessage : convert P e r.content.kind = .ok message) : r.Convertible := by
  have hns : ∀ event ns, r.content = .timestamp event ns → 1000 ≤ ns := by
    intro event ns hc
    by_contra hlt
    rw [convert_eq P h, hc] at hmessage
    simp [show ns < 1000 by omega] at hmessage
  have hspan : ∃ address, Inet.aton r.ip = some address ∧
      Succeeds ((r.span (Endian.ofBigInt address)).write P) := by
    have hmessage' : ipv4ToInt (.str r.ip) >>= (fun ipv4 => base64Thrift P (r.span ipv4)) =
        .ok message := by
      rw [← hmessage, convert_eq P h]
      cases hc : r.content with
      | keyval key val => rfl
      | timestamp event ns => simp [show ¬ns < 1000 from (hns event ns hc).not_gt]
    rw [ipv4ToInt_str] at hmessage'
    cases hip : Inet.aton r.ip with
    | none => simp [hip] at hmessage'
    | some address =>
      refine ⟨address, rfl, base64Thrift_succeeds ⟨message, ?_⟩⟩
      simpa [hip] using hmessage'
  obtain ⟨address, hip, hwrite⟩ := hspan
  obtain ⟨hhost, hcontent⟩ := Report.content_fits hwrite
  obtain ⟨hport, hservice⟩ := Report.host_fits hhost
  obtain ⟨hname, htrace, hid, hparent⟩ := Report.ids_fit hwrite
  refine ⟨⟨address, hip⟩, hport, hservice, hname, htrace, hid, hparent, ?_⟩
  cases hc : r.content with
  | keyval key val => rwa [hc] at hcontent
  | timestamp event ns =>
    rw [hc] at hcontent
    exact ⟨hcontent.1, hns event ns hc, hcontent.2⟩

/-- The event is converted, to a message that decodes to a span. -/
def Converts (P : TProtocol) (event : Event) (kind : Bytes) : Prop :=
  ∃ message bytes span, convert P event kind = .ok message ∧
    Base64.decode message = some bytes ∧
    ∀ fuel > 6, (TSpan.read P fuel).run bytes = some (span, [])

/-- An event of the format is converted exactly if its report is convertible. -/
theorem converts_iff_convertible (P : TProtocol) (h : e.Shows r) :
    Converts P e r.content.kind ↔ r.Convertible := by
  constructor
  · rintro ⟨message, -, -, hmessage, -⟩
    exact convertible_of_convert P h hmessage
  · intro hr
    obtain ⟨address, hip⟩ := hr.ip
    obtain ⟨message, bytes, hmessage, hdecode, hread⟩ := convert_decodes P h hr hip
    exact ⟨message, bytes, _, hmessage, hdecode, hread⟩

/-! ## The order of timestamps -/

/-- The event has the fields of a timestamp event, with a port that is a number. -/
structure Event.IsTimestamp (e : Event) : Prop where
  event : ∃ name, e.get "event" = .ok name
  port : ∃ port n, e.get "port_no" = .ok port ∧ pyInt port = .ok n
  service : ∃ service, e.get "service_name" = .ok service
  ip : ∃ ip, e.get "ip" = .ok ip

/-- What `create_annotation` makes of a timestamp event. -/
theorem createAnnotation_timestamp (h : e.IsTimestamp) :
    ∃ name endpoint, createAnnotation e (ascii "timestamp") =
      if e.timestamp < 1000 then .error .valueError
      else .ok { PyAnnotation.timestamp name (.int (e.timestamp / 1000 : ℕ)) with
        endpoint := some endpoint } := by
  obtain ⟨name, hname⟩ := h.event
  obtain ⟨port, n, hport, hn⟩ := h.port
  obtain ⟨service, hservice⟩ := h.service
  obtain ⟨ip, hip⟩ := h.ip
  have hkind : ascii "timestamp" ≠ ascii "keyval" := by decide
  refine ⟨name, ⟨ip, .int n, service⟩, ?_⟩
  split_ifs with hlt <;>
    simp [hkind, createAnnotation, hname, microseconds_eq, hlt, hport, hn, hservice, hip]

/-- `create_annotation` completes, with the timestamp in whole microseconds. -/
def Event.InMicroseconds (e : Event) : Prop :=
  ∃ annot, createAnnotation e (ascii "timestamp") = .ok annot ∧
    annot.value = .int (e.timestamp / 1000 : ℕ)

/-- Exactly the timestamp events of at least a microsecond are given their timestamp in
microseconds; and of two that are annotated, the later is not given the smaller one. -/
theorem inMicroseconds_iff {e e' : Event} (h : e.IsTimestamp) (h' : e'.IsTimestamp) :
    (e.InMicroseconds ↔ 1000 ≤ e.timestamp) ∧
    ∀ annot annot', createAnnotation e (ascii "timestamp") = .ok annot →
      createAnnotation e' (ascii "timestamp") = .ok annot' → e.timestamp ≤ e'.timestamp →
      ∃ n n' : ℤ, annot.value = .int n ∧ annot'.value = .int n' ∧ n ≤ n' := by
  obtain ⟨name, endpoint, heq⟩ := createAnnotation_timestamp h
  obtain ⟨name', endpoint', heq'⟩ := createAnnotation_timestamp h'
  constructor
  · rw [Event.InMicroseconds, heq]
    split_ifs with hlt
    · exact iff_of_false (by simp) (by omega)
    · exact iff_of_true ⟨_, rfl, rfl⟩ (by omega)
  · intro annot annot' hannot hannot' hle
    rw [heq] at hannot
    rw [heq'] at hannot'
    split_ifs at hannot hannot'
    obtain rfl := Except.ok.inj hannot
    obtain rfl := Except.ok.inj hannot'
    exact ⟨_, _, rfl, rfl, Int.ofNat_le.2 (Nat.div_le_div_right hle)⟩

/-- A timestamp event `ns` nanoseconds after the epoch. -/
def startedAt (ns : UInt64) : Event :=
  deliver .lp64 ns
    (.timestamp (.lit "main") (.lit "front") 80 (.lit "10.0.0.1") 1 2 0 (.lit "start"))

theorem startedAt_isTimestamp (ns : UInt64) : (startedAt ns).IsTimestamp :=
  ⟨⟨_, rfl⟩, ⟨_, _, rfl, rfl⟩, ⟨_, rfl⟩, ⟨_, rfl⟩⟩

/-- Events in the first and the third microsecond. -/
theorem inMicroseconds_iff_started : (startedAt 1999).InMicroseconds ∧
    ∃ annot annot' n n', createAnnotation (startedAt 1999) (ascii "timestamp") = .ok annot ∧
      createAnnotation (startedAt 3000) (ascii "timestamp") = .ok annot' ∧
      annot.value = .int n ∧ annot'.value = .int n' ∧ n ≤ n' := by
  have h := startedAt_isTimestamp
  obtain ⟨annot, hannot, hmicro⟩ := (inMicroseconds_iff (h 1999) (h 3000)).1.2 (by decide)
  obtain ⟨annot', hannot', -⟩ := (inMicroseconds_iff (h 3000) (h 3000)).1.2 (by decide)
  obtain ⟨n, n', hn, hn', hle⟩ :=
    (inMicroseconds_iff (h 1999) (h 3000)).2 annot annot' hannot hannot' (by decide)
  exact ⟨⟨annot, hannot, hmicro⟩, annot, annot', n, n', hannot, hannot', hn, hn', hle⟩

/-- Nothing is left of the text of a timestamp below a microsecond. -/
theorem early_event_raises : (startedAt 999).IsTimestamp ∧ (startedAt 999).timestamp = 999 ∧
    createAnnotation (startedAt 999) (ascii "timestamp") = .error .valueError ∧
    ¬(startedAt 999).InMicroseconds := by
  obtain ⟨name, endpoint, heq⟩ := createAnnotation_timestamp (startedAt_isTimestamp 999)
  have hraise : createAnnotation (startedAt 999) (ascii "timestamp") = .error .valueError :=
    heq.trans (if_pos (by decide))
  refine ⟨startedAt_isTimestamp 999, rfl, hraise, ?_⟩
  rintro ⟨annot, hannot, -⟩
  rw [hraise] at hannot
  cases hannot

end Blkin
