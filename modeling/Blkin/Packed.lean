import Blkin.ZipkinC

/-!
# Packed contexts

`zipkin_c.h` says that `_blkin_pack_trace_info` initialises the packed structure from
the unpacked one and `_blkin_unpack_trace_info` the other way round. The bodies copy in
the opposite directions : pack overwrites its source with the big-endian reading of the
destination (`packTraceInfo_some`), and unpack overwrites the packed structure
(`unpackTraceInfo_some`).

`Transmits` is what sender and receiver are promised together, and `Repacks` the
converse round trip. Each holds exactly where every destination already holds what
the call should put there (`pack_unpack_iff`).
-/

open Endian

namespace Blkin

/-- The three ids of `v`, each in eight bytes, most significant first. -/
def TraceInfo.bigEndian (v : TraceInfo) : PackedInfo where
  traceId := store64 .big v.traceId.toUInt64
  spanId := store64 .big v.spanId.toUInt64
  parentSpanId := store64 .big v.parentSpanId.toUInt64

/-- The ids that the bytes of `p` spell. -/
def PackedInfo.ids (p : PackedInfo) : TraceInfo where
  traceId := (load64 .big p.traceId).toInt64
  spanId := (load64 .big p.spanId).toInt64
  parentSpanId := (load64 .big p.parentSpanId).toInt64

@[simp] theorem TraceInfo.ids_bigEndian (v : TraceInfo) : v.bigEndian.ids = v := by
  simp [bigEndian, PackedInfo.ids, load64_store64_big]

@[simp] theorem PackedInfo.bigEndian_ids (p : PackedInfo) : p.ids.bigEndian = p := by
  simp [TraceInfo.bigEndian, ids, store64_load64_big]

/-! ## What the two functions do -/

/-- Pack writes the unpacked structure. -/
theorem packTraceInfo_some (m : Mem) (i : InfoLoc) (p : Addr) :
    packTraceInfo m (some i) (some p) = (1, m.writeInfo i (m.packed p).ids) := by
  have hp : ∀ v, (m.writeInfo i v).packed = m.packed := fun v => by cases i <;> rfl
  have hh : ∀ v, (m.writeInfo i v).host = m.host := fun v => by cases i <;> rfl
  have hw : ∀ v w, (m.writeInfo i v).writeInfo i w = m.writeInfo i w := fun v w => by
    cases i <;> simp [Mem.writeInfo]
  simp only [packTraceInfo, be64ToCpu_load64, Mem.readInfo_writeInfo_self, hp, hh, hw]
  rfl

/-- Unpack writes the packed structure. -/
theorem unpackTraceInfo_some (m : Mem) (p : Addr) (i : InfoLoc) :
    unpackTraceInfo m (some p) (some i) =
      (1, m.modPacked p fun _ => (m.readInfo i).bigEndian) := by
  have hr : ∀ f, (m.modPacked p f).readInfo i = m.readInfo i := fun f => by cases i <;> rfl
  simp only [unpackTraceInfo, store64_cpuToBe64, Mem.modPacked_modPacked, Mem.modPacked_host, hr]
  rfl

/-! ## What they promise -/

/-- The sender packs the info at `i` into `p` and the receiver, which got the 24 bytes at
`q`, unpacks them into `j`. -/
def Transmits (sender : Mem) (i : InfoLoc) (p : Addr) (receiver : Mem) (q : Addr)
    (j : InfoLoc) : Prop :=
  let sender' := (packTraceInfo sender (some i) (some p)).2
  let receiver' := receiver.modPacked q fun _ => sender'.packed p
  let receiver'' := (unpackTraceInfo receiver' (some q) (some j)).2
  sender'.readInfo i = sender.readInfo i ∧
    sender'.packed p = (sender.readInfo i).bigEndian ∧
    receiver''.packed q = receiver'.packed q ∧
    receiver''.readInfo j = sender.readInfo i

/-- The packed structure at `q` is unpacked into `j`, and the result packed into `p`. -/
def Repacks (m : Mem) (q : Addr) (j : InfoLoc) (p : Addr) : Prop :=
  let m' := (unpackTraceInfo m (some q) (some j)).2
  let m'' := (packTraceInfo m' (some j) (some p)).2
  m''.packed p = m.packed q

theorem transmits_iff (sender : Mem) (i : InfoLoc) (p : Addr) (receiver : Mem) (q : Addr)
    (j : InfoLoc) : Transmits sender i p receiver q j ↔
      sender.packed p = (sender.readInfo i).bigEndian ∧
        receiver.readInfo j = sender.readInfo i := by
  have hp : (sender.writeInfo i (sender.packed p).ids).packed = sender.packed := by
    cases i <;> rfl
  have hj : ∀ f, (receiver.modPacked q f).readInfo j = receiver.readInfo j := fun f => by
    cases j <;> rfl
  simp only [Transmits, packTraceInfo_some, unpackTraceInfo_some, Mem.readInfo_writeInfo_self,
    Mem.modPacked_modPacked, Mem.modPacked_packed, Function.update_self, hp, hj]
  constructor
  · rintro ⟨-, hs, -, hr⟩
    exact ⟨hs, hr⟩
  · rintro ⟨hs, hr⟩
    exact ⟨by rw [hs, TraceInfo.ids_bigEndian], hs, by rw [hr, hs], hr⟩

theorem repacks_iff (m : Mem) (q : Addr) (j : InfoLoc) (p : Addr) : Repacks m q j p ↔
    (if p = q then (m.readInfo j).bigEndian else m.packed p) = m.packed q := by
  have hp : ∀ (k : Mem) v, (k.writeInfo j v).packed = k.packed := fun k v => by
    cases j <;> rfl
  simp only [Repacks, unpackTraceInfo_some, packTraceInfo_some, hp, Mem.modPacked_packed]
  by_cases h : p = q
  · simp [h]
  · simp [h]

/-- A sender with info `(1, 2, 3)` packs it over zeroed bytes : its own info is lost. -/
theorem pack_clobbers_info : ¬Transmits
    ((Mem.static .little fun _ => ⟨0, by decide⟩).writeInfo (.info 0) ⟨1, 2, 3⟩) (.info 0) 0
    (Mem.static .big fun _ => ⟨0, by decide⟩) 0 (.info 1) := by
  rw [transmits_iff]
  decide

/-- Pack and unpack keep their promises exactly where they have nothing to do : the
sender's packed structure already spells its info and the receiver's info is already the
sender's; on the way back, the structure packed into already holds the bytes, or, if it
is the one that was unpacked, the info unpacked into already has the ids they spell. -/
theorem pack_unpack_iff (sender : Mem) (i : InfoLoc) (p : Addr) (receiver : Mem) (q : Addr)
    (j : InfoLoc) (m : Mem) (q' : Addr) (j' : InfoLoc) (p' : Addr) :
    (Transmits sender i p receiver q j ↔
      (sender.packed p).ids = sender.readInfo i ∧ receiver.readInfo j = sender.readInfo i) ∧
    (Repacks m q' j' p' ↔ if p' = q' then m.readInfo j' = (m.packed q').ids
      else m.packed p' = m.packed q') := by
  have swap : ∀ (k : PackedInfo) (v : TraceInfo), k = v.bigEndian ↔ k.ids = v := by
    intro k v
    constructor
    · rintro rfl
      exact v.ids_bigEndian
    · rintro rfl
      exact k.bigEndian_ids.symm
  constructor
  · rw [transmits_iff, swap]
  · rw [repacks_iff]
    split_ifs with h
    · rw [eq_comm, swap, eq_comm]
    · rfl

end Blkin
