import Blkin.Machine
import Blkin.ZipkinC

/-!
# Programs of library calls

A `Call` is a call of a library function with its arguments, `exec` makes it, and
`step` is the machine whose runs are programs of calls and whose outputs are the
tracepoints they fire.

The two macros that record an annotation in one go are programs of two calls on a
`blkin_annotation` on the stack, at the address `annot`.
-/

namespace Blkin

/-- A call of a function of `zipkin_c.c`. -/
inductive Call
  | newTrace (newTrace : Ptr) (service : Option CString) (endpoint : Ptr)
  | child (child parent endpoint : Ptr) (childName : Option CString)
  | childInfo (child : Ptr) (parentInfo : Option InfoLoc) (endpoint : Ptr)
      (childName : Option CString)
  | endpoint (endp : Ptr) (ip : Option CString) (port : Int32) (name : Option CString)
  | string (annot : Ptr) (key val : Option CString) (endpoint : Ptr)
  | timestamp (annot : Ptr) (event : Option CString) (endpoint : Ptr)
  | record (trace annot : Ptr)
  | getInfo (res : Int32) (trace : Ptr) (info : Option InfoLoc)
  | setInfo (res : Int32) (trace : Ptr) (info : Option InfoLoc)
  | pack (info : Option InfoLoc) (pinfo : Ptr)
  | unpack (pinfo : Ptr) (info : Option InfoLoc)
  deriving DecidableEq

/-- The outcome of a function that fires nothing. -/
def silent (r : Int32 × Mem) : Option Outcome :=
  some ⟨r.1, r.2, none⟩

/-- Make the call. -/
def exec (m : Mem) : Call → Option Outcome
  | .newTrace t service e => silent (initNewTrace m t service e)
  | .child c p e name => silent (initChild m c p e name)
  | .childInfo c p e name => silent (initChildInfo m c p e name)
  | .endpoint e ip port name => silent (initEndpoint m e ip port name)
  | .string a key val e => silent <| initStringAnnotation m a key val e
  | .timestamp a event e => silent <| initTimestampAnnotation m a event e
  | .record t a => Blkin.record m t a
  | .getInfo res t i => silent (getTraceInfo res m t i)
  | .setInfo res t i => silent (setTraceInfo res m t i)
  | .pack i p => silent (packTraceInfo m i p)
  | .unpack p i => silent (unpackTraceInfo m p i)

/-- The machine of programs of calls. -/
def step (m : Mem) (c : Call) : Option (List Tracepoint × Mem) :=
  (exec m c).map fun o => (o.fired.toList, o.mem)

/-- `BLKIN_TIMESTAMP` -/
def blkinTimestamp (annot : Addr) (trace endp : Ptr) (event : Option CString) : List Call :=
  [.timestamp (some annot) event endp, .record trace (some annot)]

/-- `BLKIN_KEYVAL` -/
def blkinKeyval (annot : Addr) (trace endp : Ptr) (key val : Option CString) : List Call :=
  [.string (some annot) key val endp, .record trace (some annot)]

end Blkin
