import Blkin.TTypes

/-!
# Traces as messages, `trace.py` and `formatters.py`

`PyTrace`, `PyEndpoint` and `PyAnnotation` are the classes of `trace.py`.
`base64ThriftFormatter` makes a trace and its annotations a `TSpan` and encodes it in
base64 on one line.
-/

open Inet (isSpace)

namespace Blkin

/-- `Trace` -/
structure PyTrace where
  name : Value
  traceId : Value
  spanId : Value
  parentSpanId : Value
  deriving DecidableEq, Repr

/-- `Endpoint` -/
structure PyEndpoint where
  ipv4 : Value
  port : Value
  serviceName : Value
  deriving DecidableEq, Repr

/-- `Annotation` -/
structure PyAnnotation where
  name : Value
  value : Value
  annotationType : String
  endpoint : Option PyEndpoint := none
  deriving DecidableEq, Repr

namespace PyAnnotation

/-- `Annotation.timestamp(name, timestamp)`, given a timestamp -/
def timestamp (name timestamp : Value) : PyAnnotation :=
  ⟨name, timestamp, "timestamp", none⟩

/-- `Annotation.string(name, value)` -/
def string (name value : Value) : PyAnnotation :=
  ⟨name, value, "string", none⟩

/-- `Annotation.bytes(name, value)` -/
def bytes (name value : Value) : PyAnnotation :=
  ⟨name, value, "bytes", none⟩

end PyAnnotation

/-- `ipv4_to_int` -/
def ipv4ToInt (ipv4 : Value) : Except PyError ℤ := do
  let packed ← inetAton ipv4
  unpackI packed

/-- `base64_thrift` -/
def base64Thrift (P : TProtocol) (span : TSpan) : Except PyError Bytes := do
  let value ← span.write P
  .ok (dropNewlines (strip (encodeBase64 value)))

/-- `annotation_types[annotation_type]` -/
def annotationTypes (annotationType : String) : Except PyError ℤ :=
  if annotationType = "string" then .ok STRING
  else if annotationType = "bytes" then .ok BYTES
  else .error (.keyError annotationType)

/-- `binary_annotation_formatter` -/
def binaryAnnotationFormatter (annot : PyAnnotation) (host : Option TEndpoint) :
    Except PyError TBinaryAnnotation := do
  let annotationType ← annotationTypes annot.annotationType
  let value := match annot.value with
    | .unicode s => .str (encodeUtf8 s)
    | v => v
  .ok ⟨annot.name, value, .int annotationType, host⟩

/-- The host of an annotation with the given endpoint. -/
def hostOf : Option PyEndpoint → Except PyError (Option TEndpoint)
  | none => .ok none
  | some e => do
    let ipv4 ← ipv4ToInt e.ipv4
    .ok (some ⟨.int ipv4, e.port, e.serviceName⟩)

/-- One pass of the loop of `base64_thrift_formatter`. -/
def formatAnnot (acc : List TAnnotation × List TBinaryAnnotation) (annot : PyAnnotation) :
    Except PyError (List TAnnotation × List TBinaryAnnotation) := do
  let host ← hostOf annot.endpoint
  if annot.annotationType = "timestamp" then
    .ok (acc.1 ++ [⟨annot.value, annot.name, host⟩], acc.2)
  else do
    let b ← binaryAnnotationFormatter annot host
    .ok (acc.1, acc.2 ++ [b])

/-- `base64_thrift_formatter` -/
def base64ThriftFormatter (P : TProtocol) (trace : PyTrace) (annots : List PyAnnotation) :
    Except PyError Bytes := do
  let (thriftAnnotations, binaryAnnotations) ← annots.foldlM formatAnnot ([], [])
  base64Thrift P {
    traceId := trace.traceId
    name := trace.name
    id := trace.spanId
    parentId := trace.parentSpanId
    annotations := some thriftAnnotations
    binaryAnnotations := some binaryAnnotations }

/-! ## The message -/

/-- The only whitespace in base64 is its newlines. -/
theorem isSpace_encodeBase64 (s : Bytes) : ∀ b ∈ encodeBase64 s, isSpace b = true →
    decide (b ≠ Base64.newline) = false := by
  intro b hb hspace
  by_contra hne
  have hb' : b ∈ (Base64.encodeLines s).filter (· ≠ Base64.newline) :=
    List.mem_filter.2 ⟨hb, by simpa using hne⟩
  rw [Base64.filter_encodeLines] at hb'
  have hchar : ∀ n, isSpace (Base64.char n) = false :=
    Base64.forall_char (p := fun c => isSpace c = false) fun n hn => by
      interval_cases n <;> decide
  have hnot : isSpace b = false :=
    Base64.forall_mem_encode (p := fun c => isSpace c = false) (by decide) hchar s b hb'
  simp [hnot] at hspace

/-- The message is the span's bytes in base64 without line breaks. -/
theorem base64Thrift_eq (P : TProtocol) (span : TSpan) :
    base64Thrift P span = span.write P >>= fun value => .ok (Base64.encode value) := by
  have hline : ∀ value, dropNewlines (strip (encodeBase64 value)) = Base64.encode value := by
    intro value
    rw [dropNewlines, filter_strip (isSpace_encodeBase64 value), encodeBase64,
      Base64.filter_encodeLines]
  simp only [base64Thrift, hline]

end Blkin
