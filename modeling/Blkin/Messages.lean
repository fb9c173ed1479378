import Blkin.BinaryProtocol
import Blkin.Client
import Blkin.Loop

/-!
# Messages of any number of annotations

`base64_thrift_formatter` takes a trace and a list of annotations. Here these are what
their callers mean by them (`Traced`, `Note`), and every annotation has its own endpoint or
none. One pass over the list appends each annotation to one of the two lists of a span,
with the host it was given (`formatAnnot_annotation`).

`sends_span` says that the message is one line which decodes to the trace's span : the
timestamps in their order, the other annotations in theirs. Thrift writes a string or a list
after a 32-bit length, and that is the one thing it needs (`Traced.Fits32`).
-/

open Codec

namespace Blkin

/-- A byte string or a unicode string. -/
inductive Text
  | str (s : Bytes)
  | unicode (s : List Char)
  deriving DecidableEq, Repr

/-- An IPv4 address, byte by byte. -/
structure Quad where
  a : UInt8
  b : UInt8
  c : UInt8
  d : UInt8
  deriving DecidableEq, Repr

structure Site where
  ip : Quad
  port : Int16
  service : Bytes
  deriving DecidableEq

/-- The type of an annotation and its value. -/
inductive Detail
  | timestamp (t : Int64)
  | string (v : Text)
  | bytes (v : Text)
  deriving DecidableEq

structure Note where
  name : Bytes
  detail : Detail
  site : Option Site
  deriving DecidableEq

structure Traced where
  name : Bytes
  traceId : Int64
  spanId : Int64
  parent : Option Int64
  deriving DecidableEq

/-! ## As Python objects -/

def Text.value : Text → Value
  | str s => .str s
  | unicode s => .unicode s

/-- The address as a dotted quad. -/
def Quad.text (q : Quad) : Bytes :=
  Inet.quad q.a q.b q.c q.d

def Site.endpoint (s : Site) : PyEndpoint :=
  ⟨.str s.ip.text, .int s.port.toInt, .str s.service⟩

def Detail.annotation (name : Bytes) : Detail → PyAnnotation
  | timestamp t => PyAnnotation.timestamp (.str name) (.int t.toInt)
  | string v => PyAnnotation.string (.str name) v.value
  | bytes v => PyAnnotation.bytes (.str name) v.value

def Note.annotation (n : Note) : PyAnnotation :=
  { Detail.annotation n.name n.detail with endpoint := n.site.map Site.endpoint }

def Traced.trace (t : Traced) : PyTrace :=
  ⟨.str t.name, .int t.traceId.toInt, .int t.spanId.toInt,
    t.parent.elim .none fun p => .int p.toInt⟩

/-! ## As a span -/

/-- The bytes of the text, in UTF-8 if it is unicode. -/
def Text.utf8 : Text → Bytes
  | str s => s
  | unicode s => encodeUtf8 s

def Quad.bytes (q : Quad) : Bytes :=
  [q.a, q.b, q.c, q.d]

/-- The address as a signed number, big-endian. -/
def Quad.i32 (q : Quad) : ℤ :=
  Endian.ofBigInt q.bytes

def Site.host (s : Site) : TEndpoint :=
  ⟨.int s.ip.i32, .int s.port.toInt, .str s.service⟩

/-- The annotation of a timestamp. -/
def Note.stamp (n : Note) : Option TAnnotation :=
  match n.detail with
  | .timestamp t => some ⟨.int t.toInt, .str n.name, n.site.map Site.host⟩
  | _ => none

/-- The binary annotation of anything else. -/
def Note.binary (n : Note) : Option TBinaryAnnotation :=
  match n.detail with
  | .timestamp _ => none
  | .string v => some ⟨.str n.name, .str v.utf8, .int STRING, n.site.map Site.host⟩
  | .bytes v => some ⟨.str n.name, .str v.utf8, .int BYTES, n.site.map Site.host⟩

def Traced.span (t : Traced) (ns : List Note) : TSpan where
  traceId := .int t.traceId.toInt
  name := .str t.name
  id := .int t.spanId.toInt
  parentId := t.parent.elim .none fun p => .int p.toInt
  annotations := some (ns.filterMap Note.stamp)
  binaryAnnotations := some (ns.filterMap Note.binary)

/-- The lengths of an annotation's strings have 32 bits. -/
structure Note.Fits32 (n : Note) : Prop where
  name : n.name.length < 2 ^ 31
  value : match n.detail with
    | .timestamp _ => True
    | .string v => v.utf8.length < 2 ^ 31
    | .bytes v => v.utf8.length < 2 ^ 31
  service : ∀ s ∈ n.site, s.service.length < 2 ^ 31

/-- The lengths of all strings and of both lists of annotations have 32 bits. -/
structure Traced.Fits32 (t : Traced) (ns : List Note) : Prop where
  name : t.name.length < 2 ^ 31
  notes : ∀ n ∈ ns, n.Fits32
  stamps : (ns.filterMap Note.stamp).length < 2 ^ 31
  binaries : (ns.filterMap Note.binary).length < 2 ^ 31

/-! ## One pass of the loop -/

/-- The address's number, big-endian, is its four bytes. -/
theorem Quad.toBigInt_i32 (q : Quad) : Endian.toBigInt 4 q.i32 = q.bytes :=
  Endian.toBigInt_ofBigInt q.bytes

theorem hostOf_site (s : Option Site) : hostOf (s.map Site.endpoint) = .ok (s.map Site.host) := by
  cases s with
  | none => rfl
  | some s =>
    have hip : ipv4ToInt (.str s.ip.text) = .ok s.ip.i32 := by
      rw [ipv4ToInt_str, Quad.text, Inet.aton_quad]
      rfl
    simp [hostOf, Site.endpoint, hip, Site.host]

theorem binaryAnnotationFormatter_text (name : Value) (v : Text) {type : String} {n : ℤ}
    (hn : annotationTypes type = .ok n) (endpoint : Option PyEndpoint) (host : Option TEndpoint) :
    binaryAnnotationFormatter ⟨name, v.value, type, endpoint⟩ host =
      .ok ⟨name, .str v.utf8, .int n, host⟩ := by
  cases v <;> simp [binaryAnnotationFormatter, hn, Text.value, Text.utf8]

/-- The annotation is appended to its own list, with its own host. -/
theorem formatAnnot_annotation (acc : List TAnnotation × List TBinaryAnnotation) (n : Note) :
    formatAnnot acc n.annotation =
      .ok (acc.1 ++ n.stamp.toList, acc.2 ++ n.binary.toList) := by
  obtain ⟨name, detail, site⟩ := n
  have hstring : annotationTypes "string" = .ok STRING := by decide
  have hbytes : annotationTypes "bytes" = .ok BYTES := by decide
  rw [formatAnnot, Note.annotation, hostOf_site, ok_bind]
  cases detail with
  | timestamp t => simp [Detail.annotation, PyAnnotation.timestamp, Note.stamp, Note.binary]
  | string v =>
    simp [Detail.annotation, PyAnnotation.string, Note.stamp, Note.binary,
      binaryAnnotationFormatter_text _ v hstring]
  | bytes v =>
    simp [Detail.annotation, PyAnnotation.bytes, Note.stamp, Note.binary,
      binaryAnnotationFormatter_text _ v hbytes]

/-- Up to the encoding, what is sent is the trace's span. -/
theorem base64ThriftFormatter_eq (P : TProtocol) (t : Traced) (ns : List Note) :
    base64ThriftFormatter P t.trace (ns.map Note.annotation) = base64Thrift P (t.span ns) := by
  have hloop := Loop.foldlM_filterMap formatAnnot_annotation ns ([], [])
  rw [base64ThriftFormatter, List.foldlM_map, hloop]
  rfl

/-! ## The span is typed -/

theorem fits_int64 (n : Int64) : Fits 64 n.toInt :=
  ⟨n.le_toInt, n.toInt_lt⟩

theorem Site.host_typed {s : Site} (h : s.service.length < 2 ^ 31) : s.host.Typed where
  ipv4 := fits_ofBigInt rfl
  port := ⟨s.port.le_toInt, s.port.toInt_lt⟩
  serviceName := (fits_length _).2 h

theorem Note.Fits32.host_typed {n : Note} (h : n.Fits32) :
    ∀ e ∈ n.site.map Site.host, e.Typed := by
  intro e he
  obtain ⟨s, hs, rfl⟩ := Option.map_eq_some_iff.1 he
  exact Site.host_typed (h.service s hs)

theorem Note.Fits32.stamp_typed {n : Note} (h : n.Fits32) : ∀ a ∈ n.stamp, a.Typed := by
  intro a ha
  unfold stamp at ha
  split at ha
  · obtain rfl := Option.some.inj ha
    exact ⟨fits_int64 _, (fits_length _).2 h.name, h.host_typed⟩
  · cases ha

theorem Note.Fits32.binary_typed {n : Note} (h : n.Fits32) : ∀ a ∈ n.binary, a.Typed := by
  have hvalue := h.value
  intro a ha
  unfold binary at ha
  split at ha
  · cases ha
  all_goals
    rename_i v hv
    obtain rfl := Option.some.inj ha
    rw [hv] at hvalue
    refine ⟨(fits_length _).2 h.name, (fits_length _).2 hvalue, ?_, h.host_typed⟩
    show Fits 32 _
    decide

theorem Traced.Fits32.typed {t : Traced} {ns : List Note} (h : t.Fits32 ns) :
    (t.span ns).Typed := by
  refine ⟨fits_int64 _, (fits_length _).2 h.name, fits_int64 _, ?_, ?_, ?_⟩
  · cases hp : t.parent with
    | none => simp [span, hp, Value.IsInt]
    | some p =>
      simp only [span, hp, Option.elim_some]
      exact fits_int64 p
  · rintro as ⟨⟩
    refine ⟨(fits_length _).2 h.stamps, fun a ha => ?_⟩
    obtain ⟨n, hn, hstamp⟩ := List.mem_filterMap.1 ha
    exact (h.notes n hn).stamp_typed a hstamp
  · rintro as ⟨⟩
    refine ⟨(fits_length _).2 h.binaries, fun a ha => ?_⟩
    obtain ⟨n, hn, hbinary⟩ := List.mem_filterMap.1 ha
    exact (h.notes n hn).binary_typed a hbinary

/-! ## What is sent fits -/

theorem Site.service_fits {P : TProtocol} {site : Option Site}
    (h : ∀ e ∈ site.map Site.host, Succeeds (e.write P)) :
    ∀ s ∈ site, s.service.length < 2 ^ 31 := by
  rintro s rfl
  obtain ⟨-, hservice⟩ := TEndpoint.fits_of_write (h _ rfl)
  exact (fits_length _).1 (hservice _ rfl)

/-- An annotation is written in one of the two lists. -/
theorem Note.fits32_of_written {P : TProtocol} {n : Note}
    (hstamp : ∀ a ∈ n.stamp, Succeeds (a.write P))
    (hbinary : ∀ a ∈ n.binary, Succeeds (a.write P)) : n.Fits32 := by
  obtain ⟨name, detail, site⟩ := n
  cases detail with
  | timestamp t =>
    obtain ⟨-, hname, hhost⟩ := TAnnotation.fits_of_write (hstamp _ rfl)
    exact ⟨(fits_length _).1 (hname _ rfl), trivial, Site.service_fits hhost⟩
  | string v | bytes v =>
    obtain ⟨hname, hvalue, hhost⟩ := TBinaryAnnotation.fits_of_write (hbinary _ rfl)
    exact ⟨(fits_length _).1 (hname _ rfl), (fits_length _).1 (hvalue _ rfl),
      Site.service_fits hhost⟩

theorem Binary.length_of_writeList {α : Type} {w : α → Except PyError Bytes} {as : List α}
    (h : Succeeds (binaryProtocol.writeList w as)) : as.length < 2 ^ 31 := by
  obtain ⟨bs, hbs⟩ := h
  refine (fits_length as).1 (fits_of_pack (w := 4) ?_)
  cases hlen : pack 4 (.int as.length) with
  | error err => simp [TProtocol.writeList, binaryProtocol, writeListBegin, hlen] at hbs
  | ok len => exact ⟨len, rfl⟩

/-- In the binary protocol a message is sent exactly if every length has 32 bits. -/
theorem sends_iff_fits32 (t : Traced) (ns : List Note) :
    Succeeds (base64ThriftFormatter binaryProtocol t.trace (ns.map Note.annotation)) ↔
      t.Fits32 ns := by
  rw [base64ThriftFormatter_eq]
  constructor
  · intro h
    have hwrite := base64Thrift_succeeds h
    obtain ⟨-, hname, -⟩ := TSpan.fits_of_write hwrite
    obtain ⟨hstamps, hbinaries⟩ := TSpan.lists_succeed hwrite
    have hstamp := TProtocol.succeeds_of_writeList (hstamps _ rfl)
    have hbinary := TProtocol.succeeds_of_writeList (hbinaries _ rfl)
    refine ⟨(fits_length _).1 (hname _ rfl), fun n hn => ?_,
      Binary.length_of_writeList (hstamps _ rfl), Binary.length_of_writeList (hbinaries _ rfl)⟩
    exact Note.fits32_of_written
      (fun a ha => hstamp a (List.mem_filterMap.2 ⟨n, hn, ha⟩))
      (fun a ha => hbinary a (List.mem_filterMap.2 ⟨n, hn, ha⟩))
  · intro h
    obtain ⟨bytes, hbytes, -⟩ := h.typed.transfers (P := binaryProtocol) (by decide : 6 < 7)
    exact ⟨Base64.encode bytes, by rw [base64Thrift_eq, hbytes, ok_bind]⟩

/-! ## The message -/

/-- A trace and its annotations become one line that decodes to the trace's span, where
every address, as four big-endian bytes, is the dotted quad. -/
theorem sends_span (P : TProtocol) {t : Traced} {ns : List Note} (h : t.Fits32 ns) :
    (∃ message bytes,
      base64ThriftFormatter P t.trace (ns.map Note.annotation) = .ok message ∧
      Base64.newline ∉ message ∧ Base64.decode message = some bytes ∧
      ∀ fuel > 6, (TSpan.read P fuel).run bytes = some (t.span ns, [])) ∧
    ∀ q : Quad, Endian.toBigInt 4 q.i32 = q.bytes := by
  obtain ⟨bytes, hbytes, -⟩ := h.typed.transfers (P := P) (by decide : 6 < 7)
  refine ⟨⟨Base64.encode bytes, bytes, ?_, ?_, Base64.decode_encode bytes, ?_⟩,
    Quad.toBigInt_i32⟩
  · rw [base64ThriftFormatter_eq, base64Thrift_eq, hbytes, ok_bind]
  · exact fun hmem => Base64.ne_newline_of_mem_encode bytes _ hmem rfl
  · intro fuel hfuel
    obtain ⟨bytes', hbytes', hread⟩ := h.typed.transfers (P := P) hfuel
    obtain rfl := Except.ok.inj (hbytes.symm.trans hbytes')
    exact hread.run

/-- A span below another one. -/
def served : Traced :=
  ⟨ascii "serve", 7, 8, some 7⟩

/-- A timestamp, a unicode value without an endpoint, a byte string, and a timestamp. -/
def servedNotes : List Note :=
  [⟨ascii "sr", .timestamp 1000, some ⟨⟨10, 0, 0, 1⟩, 80, ascii "front"⟩⟩,
    ⟨ascii "user", .string (.unicode ['é']), none⟩,
    ⟨ascii "body", .bytes (.str [0, 255]), some ⟨⟨255, 0, 0, 2⟩, -1, ascii "back"⟩⟩,
    ⟨ascii "ss", .timestamp (-5), none⟩]

theorem served_fits32 : served.Fits32 servedNotes := by
  refine ⟨by decide, fun n hn => ?_, by decide, by decide⟩
  simp only [servedNotes, List.mem_cons, List.not_mem_nil, or_false] at hn
  obtain rfl | rfl | rfl | rfl := hn
  all_goals exact ⟨by decide, by decide, by simp [ascii]⟩

/-- Four annotations, two of each kind. -/
theorem sends_span_served : ∃ message bytes,
    base64ThriftFormatter binaryProtocol served.trace (servedNotes.map Note.annotation) =
      .ok message ∧
    Base64.newline ∉ message ∧ Base64.decode message = some bytes ∧
    ∀ fuel > 6, (TSpan.read binaryProtocol fuel).run bytes =
      some (served.span servedNotes, []) :=
  (sends_span binaryProtocol served_fits32).1

/-- A name of 2³¹ bytes has no 32-bit length. -/
theorem long_name_raises : ∃ t : Traced, ∃ ns : List Note, t.name.length = 2 ^ 31 ∧ ns = [] ∧
    ¬Succeeds (base64ThriftFormatter binaryProtocol t.trace (ns.map Note.annotation)) := by
  refine ⟨⟨List.replicate (2 ^ 31) 97, 1, 2, none⟩, [], List.length_replicate, rfl, fun h => ?_⟩
  have hname := ((sends_iff_fits32 _ []).1 h).name
  rw [List.length_replicate] at hname
  exact absurd hname (lt_irrefl _)

end Blkin
