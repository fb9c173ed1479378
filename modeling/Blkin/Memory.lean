import Blkin.Endian
import Mathlib.Logic.Function.Basic
import Mathlib.Data.List.TakeWhile
import Mathlib.Tactic.Simps.Basic

/-!
# The structures of `zipkin_c.h` and the memory they live in

A process's memory has one object of each structure at every address, so a call is
defined whatever its arguments hold before it : an object that was never initialised
holds arbitrary contents. A pointer is an address or `NULL` (`none`). A
`blkin_trace_info` lives on its own or inside a `blkin_trace` (`InfoLoc`), so two
pointers of a call can reach the same fields.

The library never writes through a `char *`; a string argument is `NULL` or the text it
points to (`CString`).

`random_big` takes its two values from `rand()`. The results of `rand()` are part of the
memory as the sequence `rands`, of which `drawn` were taken so far. `host` is the byte
order of the machine the process runs on.
-/

open Endian

namespace Blkin

/-- The text of a C string : bytes other than `NUL`. -/
structure CString where
  bytes : List UInt8
  noNul : 0 ∉ bytes
  deriving DecidableEq

namespace CString

/-- What `strcpy` reads : the bytes up to the first `NUL`. -/
def cut (bs : List UInt8) : CString where
  bytes := bs.takeWhile (· != 0)
  noNul h := by simpa using List.mem_takeWhile_imp h

/-- The C string of an ASCII literal. -/
def lit (s : String) : CString :=
  cut (s.toList.map fun c => UInt8.ofNat c.toNat)

end CString

/-! ## Structures -/

abbrev Addr := ℕ

abbrev Ptr := Option Addr

/-- `struct blkin_endpoint` -/
structure Endpoint where
  ip : Option CString
  port : Int32
  name : Option CString
  deriving DecidableEq

/-- `struct blkin_trace_info` -/
structure TraceInfo where
  traceId : Int64
  spanId : Int64
  parentSpanId : Int64
  deriving DecidableEq, Repr

/-- `struct blkin_trace_info_packed` : three `__be64`, as bytes in memory. -/
structure PackedInfo where
  traceId : Vector UInt8 8
  spanId : Vector UInt8 8
  parentSpanId : Vector UInt8 8
  deriving DecidableEq

/-- `struct blkin_trace` -/
structure Trace where
  name : Option CString
  info : TraceInfo
  traceEndpoint : Ptr
  deriving DecidableEq

/-- `blkin_annotation_type`. The code only asks whether the type is `ANNOT_STRING`. -/
inductive AnnotationType
  | string
  | timestamp
  deriving DecidableEq, Repr

/-- `struct blkin_annotation` -/
@[ext]
structure Annotation where
  type : AnnotationType
  key : Option CString
  val : Option CString
  annotationEndpoint : Ptr
  deriving DecidableEq

/-- Where a `blkin_trace_info` lives : on its own, or as the `info` of a trace. -/
inductive InfoLoc
  | info (i : Addr)
  | trace (t : Addr)
  deriving DecidableEq, Repr

/-! ## Memory -/

/-- A result of `rand()` : an `int` from `0` to `RAND_MAX`. -/
structure RandResult where
  val : Int32
  nonneg : 0 ≤ val
  deriving DecidableEq

/-- The result `n`, reduced to 31 bits. -/
def RandResult.ofNat (n : ℕ) : RandResult where
  val := Int32.ofNat (n % 2 ^ 31)
  nonneg := by
    have hlt : n % 2 ^ 31 < 2 ^ 31 := Nat.mod_lt _ (by decide)
    rw [Int32.le_iff_toInt_le, Int32.toInt_ofNat_of_lt hlt]
    exact Int.natCast_nonneg _

/-- The memory of a process. -/
structure Mem where
  traces : Addr → Trace
  annots : Addr → Annotation
  endps : Addr → Endpoint
  infos : Addr → TraceInfo
  packed : Addr → PackedInfo
  rands : ℕ → RandResult
  drawn : ℕ
  host : ByteOrder

namespace Mem

/-- Static storage before any call : every byte is zero. -/
def static (host : ByteOrder) (rands : ℕ → RandResult) : Mem where
  traces _ := ⟨none, ⟨0, 0, 0⟩, none⟩
  annots _ := ⟨.string, none, none, none⟩
  endps _ := ⟨none, 0, none⟩
  infos _ := ⟨0, 0, 0⟩
  packed _ := ⟨.replicate 8 0, .replicate 8 0, .replicate 8 0⟩
  rands := rands
  drawn := 0
  host := host

variable (m : Mem)

/-- Apply `f` to the trace at `t`. -/
@[simps]
def modTrace (t : Addr) (f : Trace → Trace) : Mem :=
  { m with traces := Function.update m.traces t (f (m.traces t)) }

/-- Apply `f` to the annotation at `a`. -/
@[simps]
def modAnnot (a : Addr) (f : Annotation → Annotation) : Mem :=
  { m with annots := Function.update m.annots a (f (m.annots a)) }

/-- Apply `f` to the endpoint at `e`. -/
@[simps]
def modEndp (e : Addr) (f : Endpoint → Endpoint) : Mem :=
  { m with endps := Function.update m.endps e (f (m.endps e)) }

/-- The info at `l`. -/
def readInfo : InfoLoc → TraceInfo
  | .info i => m.infos i
  | .trace t => (m.traces t).info

/-- Write `v` at `l`. -/
def writeInfo (l : InfoLoc) (v : TraceInfo) : Mem :=
  match l with
  | .info i => { m with infos := Function.update m.infos i v }
  | .trace t => m.modTrace t fun tr => { tr with info := v }

/-- Apply `f` to the packed info at `p`. -/
@[simps]
def modPacked (p : Addr) (f : PackedInfo → PackedInfo) : Mem :=
  { m with packed := Function.update m.packed p (f (m.packed p)) }

/-- `rand()` -/
def rand : RandResult × Mem :=
  (m.rands m.drawn, { m with drawn := m.drawn + 1 })

end Mem

/-- `random_big` on the two results of `rand()` it draws. -/
def randomBig (x y : RandResult) : Int64 :=
  let a : Int64 := x.val.toInt64
  let a := a <<< 32
  let b := y.val
  let a := a + b.toInt64
  if a < 0 then if a = 0 then 1 else 0 else a

/-- The sum is never negative, so `a` is kept as it is. -/
theorem toInt_randomBig (x y : RandResult) :
    (randomBig x y).toInt = 2 ^ 32 * x.val.toInt + y.val.toInt := by
  have hx := Int32.le_iff_toInt_le.1 x.nonneg
  have hy := Int32.le_iff_toInt_le.1 y.nonneg
  have hx' := x.val.toInt_lt
  have hy' := y.val.toInt_lt
  have h0 : (0 : Int32).toInt = 0 := rfl
  rw [h0] at hx hy
  have hshift : (x.val.toInt64 <<< (32 : Int64)).toInt = 2 ^ 32 * x.val.toInt := by
    have hnat : (x.val.toInt64.toBitVec.toNat : ℤ) = x.val.toInt := by
      have hint : x.val.toInt64.toBitVec.toInt = x.val.toInt := Int32.toInt_toInt64 _
      rw [BitVec.toInt_eq_toNat_cond] at hint
      split_ifs at hint <;> omega
    have hmod : ((32 : Int64).toBitVec.smod 64).toNat = 32 := by decide
    rw [← Int64.toInt_toBitVec, Int64.toBitVec_shiftLeft, BitVec.shiftLeft_eq',
      BitVec.toInt_shiftLeft, hmod, Nat.shiftLeft_eq, Nat.cast_mul, hnat, mul_comm]
    apply Int.bmod_eq_of_le <;> norm_num <;> omega
  have hsum : (x.val.toInt64 <<< (32 : Int64) + y.val.toInt64).toInt =
      2 ^ 32 * x.val.toInt + y.val.toInt := by
    rw [Int64.toInt_add, hshift, Int32.toInt_toInt64]
    apply Int.bmod_eq_of_le <;> omega
  have hneg : ¬(x.val.toInt64 <<< (32 : Int64) + y.val.toInt64) < 0 := by
    rw [Int64.lt_iff_toInt_lt, hsum]
    have h0 : (0 : Int64).toInt = 0 := rfl
    omega
  simp only [randomBig, if_neg hneg, hsum]

/-- `random_big()` -/
def Mem.randomBig (m : Mem) : Int64 × Mem :=
  let (x, m) := m.rand
  let (y, m) := m.rand
  (Blkin.randomBig x y, m)

namespace Mem

variable (m : Mem)

/-- The value of the `k`-th `random_big()` from here. -/
def big (k : ℕ) : Int64 :=
  Blkin.randomBig (m.rands (m.drawn + 2 * k)) (m.rands (m.drawn + 2 * k + 1))

/-- The memory after `k` calls of `random_big()`. -/
@[simps]
def advance (k : ℕ) : Mem :=
  { m with drawn := m.drawn + 2 * k }

theorem randomBig_eq : m.randomBig = (m.big 0, m.advance 1) :=
  rfl

@[simp] theorem modTrace_modTrace (t : Addr) (f g : Trace → Trace) :
    (m.modTrace t f).modTrace t g = m.modTrace t fun tr => g (f tr) := by
  simp [modTrace]

@[simp] theorem modAnnot_modAnnot (a : Addr) (f g : Annotation → Annotation) :
    (m.modAnnot a f).modAnnot a g = m.modAnnot a fun an => g (f an) := by
  simp [modAnnot]

@[simp] theorem modEndp_modEndp (e : Addr) (f g : Endpoint → Endpoint) :
    (m.modEndp e f).modEndp e g = m.modEndp e fun ep => g (f ep) := by
  simp [modEndp]

@[simp] theorem modPacked_modPacked (p : Addr) (f g : PackedInfo → PackedInfo) :
    (m.modPacked p f).modPacked p g = m.modPacked p fun v => g (f v) := by
  simp [modPacked]

theorem modTrace_self {t : Addr} {f : Trace → Trace} (h : f (m.traces t) = m.traces t) :
    m.modTrace t f = m := by
  simp [modTrace, h]

theorem modAnnot_self {a : Addr} {f : Annotation → Annotation} (h : f (m.annots a) = m.annots a) :
    m.modAnnot a f = m := by
  simp [modAnnot, h]

theorem modEndp_self {e : Addr} {f : Endpoint → Endpoint} (h : f (m.endps e) = m.endps e) :
    m.modEndp e f = m := by
  simp [modEndp, h]

@[simp] theorem readInfo_trace (t : Addr) : m.readInfo (.trace t) = (m.traces t).info := rfl

@[simp] theorem readInfo_info (i : Addr) : m.readInfo (.info i) = m.infos i := rfl

@[simp] theorem readInfo_advance (k : ℕ) (l : InfoLoc) :
    (m.advance k).readInfo l = m.readInfo l := by
  cases l <;> rfl

/-- A location outside the trace that is modified keeps its info. -/
theorem readInfo_modTrace {l : InfoLoc} {t : Addr} (f : Trace → Trace) (h : l ≠ .trace t) :
    (m.modTrace t f).readInfo l = m.readInfo l := by
  cases l with
  | info i => rfl
  | trace u => simp [Function.update_of_ne fun hu : u = t => h (hu ▸ rfl)]

@[simp] theorem readInfo_writeInfo_self (l : InfoLoc) (v : TraceInfo) :
    (m.writeInfo l v).readInfo l = v := by
  cases l <;> simp [writeInfo]

theorem readInfo_writeInfo_ne {l l' : InfoLoc} (v : TraceInfo) (h : l' ≠ l) :
    (m.writeInfo l v).readInfo l' = m.readInfo l' := by
  cases l with
  | info i => cases l' <;> simp_all [writeInfo]
  | trace t => exact m.readInfo_modTrace (fun tr => { tr with info := v }) h

end Mem

end Blkin
