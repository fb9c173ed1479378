import Blkin.Python
import Blkin.ZipkinC

/-!
# The tracepoint provider, `zipkin_trace.h`

A tracepoint takes its ids as `long`, whose width is the ABI's. LTTng stores its
arguments as the named fields the provider lists, with a timestamp in nanoseconds, and
babeltrace hands the plugins an `Event` that is looked up by field name.
-/

namespace Blkin

/-- The data models the packages are built for. -/
inductive Abi
  | lp64
  | ilp32
  deriving DecidableEq, Repr

/-- The `long` a 64-bit argument is converted to. -/
def Abi.long : Abi → Int64 → ℤ
  | lp64, x => x.toInt
  | ilp32, x => x.toInt32.toInt

/-- An event as babeltrace hands it over. -/
structure Event where
  name : Bytes
  timestamp : ℕ
  fields : List (String × Value)

/-- `event[key]` -/
def Event.get (e : Event) (key : String) : Except PyError Value :=
  (e.fields.lookup key).elim (.error (.keyError key)) .ok

/-- The event of a tracepoint fired at `timestamp`, by `TP_ARGS` and `TP_FIELDS`. -/
def deliver (abi : Abi) (timestamp : UInt64) : Tracepoint → Event
  | .keyval traceName service port ip trace span parentSpan key val =>
    { name := ascii "zipkin:keyval"
      timestamp := timestamp.toNat
      fields :=
        [("trace_name", .str traceName.bytes), ("service_name", .str service.bytes),
          ("port_no", .int port.toInt), ("ip", .str ip.bytes),
          ("trace_id", .int (abi.long trace)), ("span_id", .int (abi.long span)),
          ("parent_span_id", .int (abi.long parentSpan)),
          ("key", .str key.bytes), ("val", .str val.bytes)] }
  | .timestamp traceName service port ip trace span parentSpan event =>
    { name := ascii "zipkin:timestamp"
      timestamp := timestamp.toNat
      fields :=
        [("trace_name", .str traceName.bytes), ("service_name", .str service.bytes),
          ("port_no", .int port.toInt), ("ip", .str ip.bytes),
          ("trace_id", .int (abi.long trace)), ("span_id", .int (abi.long span)),
          ("parent_span_id", .int (abi.long parentSpan)), ("event", .str event.bytes)] }

end Blkin
