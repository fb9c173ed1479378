import Blkin.Codec
import Blkin.Python

/-!
# Thrift structures

`TProtocol` stands for thrift's `TBinaryProtocol` : its writers, its readers, and what
they are documented to do. A value that is in the range of its type is written, and read
back whatever follows it; an integer out of range raises, and so does a string whose
length is out of range for the 32-bit prefix. Nothing is said about a value of a type
other than the writer's.

The `write` methods of generated structures write the fields that are not `None` in
order (`writeStruct`), the `read` methods take fields in any order until a stop
(`readStruct`). `ReadsFields` is a list of fields that a `read` method takes in, and
`ReadsFields.readStruct` says that it does.
-/

open Codec

namespace Blkin

inductive TType
  | stop | void | bool | byte | double | i16 | i32 | i64 | string | struct | map | set | list
  deriving DecidableEq, Repr

/-- `n` is a signed integer of so many bits. -/
def Fits (bits : ℕ) (n : ℤ) : Prop :=
  -2 ^ (bits - 1) ≤ n ∧ n < 2 ^ (bits - 1)

instance (bits : ℕ) (n : ℤ) : Decidable (Fits bits n) :=
  inferInstanceAs (Decidable (_ ∧ _))

/-- No exception. -/
def Succeeds {α : Type} (x : Except PyError α) : Prop :=
  ∃ a, x = .ok a

/-- `w` writes `v` so that `r` reads it back as `a`. -/
def Transfers {α β : Type} (w : β → Except PyError Bytes) (r : Reader α) (v : β) (a : α) : Prop :=
  ∃ bs, w v = .ok bs ∧ ReadsBack r bs a

structure TProtocol where
  writeStructBegin : String → Bytes
  writeStructEnd : Bytes
  writeFieldBegin : String → TType → ℤ → Bytes
  writeFieldEnd : Bytes
  writeFieldStop : Bytes
  writeListBegin : TType → ℕ → Except PyError Bytes
  writeListEnd : Bytes
  writeI16 : Value → Except PyError Bytes
  writeI32 : Value → Except PyError Bytes
  writeI64 : Value → Except PyError Bytes
  writeString : Value → Except PyError Bytes
  readStructBegin : Reader Unit
  readStructEnd : Reader Unit
  readFieldBegin : Reader (TType × ℤ)
  readFieldEnd : Reader Unit
  readListBegin : Reader (TType × ℤ)
  readListEnd : Reader Unit
  readI16 : Reader ℤ
  readI32 : Reader ℤ
  readI64 : Reader ℤ
  readString : Reader Bytes
  skip : TType → Reader Unit
  structBegin : ∀ name, ReadsBack readStructBegin (writeStructBegin name) ()
  structEnd : ReadsBack readStructEnd writeStructEnd ()
  fieldBegin : ∀ name ty id, ty ≠ .stop → Fits 16 id →
    ReadsBack readFieldBegin (writeFieldBegin name ty id) (ty, id)
  fieldEnd : ReadsBack readFieldEnd writeFieldEnd ()
  fieldStop : ReadsBack readFieldBegin writeFieldStop (.stop, 0)
  listBegin : ∀ ty (n : ℕ), Fits 32 n → Transfers (writeListBegin ty) readListBegin n (ty, (n : ℤ))
  listEnd : ReadsBack readListEnd writeListEnd ()
  i16 : ∀ n, Fits 16 n → Transfers writeI16 readI16 (.int n) n
  i32 : ∀ n, Fits 32 n → Transfers writeI32 readI32 (.int n) n
  i64 : ∀ n, Fits 64 n → Transfers writeI64 readI64 (.int n) n
  string : ∀ s, Fits 32 s.length → Transfers writeString readString (.str s) s
  i16_fits : ∀ n, Succeeds (writeI16 (.int n)) → Fits 16 n
  i32_fits : ∀ n, Succeeds (writeI32 (.int n)) → Fits 32 n
  i64_fits : ∀ n, Succeeds (writeI64 (.int n)) → Fits 64 n
  string_fits : ∀ s, Succeeds (writeString (.str s)) → Fits 32 s.length

theorem succeeds_of_mapM {α β : Type} {f : α → Except PyError β} :
    ∀ {as : List α}, Succeeds (as.mapM f) → ∀ a ∈ as, Succeeds (f a)
  | [], _ => by simp
  | a :: as, ⟨bs, hbs⟩ => by
    rw [List.mapM_cons] at hbs
    cases ha : f a with
    | error err => simp [ha] at hbs
    | ok b =>
      cases has : as.mapM f with
      | error err => simp [ha, has] at hbs
      | ok bs =>
        rintro a' (_ | ⟨_, ha'⟩)
        · exact ⟨b, ha⟩
        · exact succeeds_of_mapM ⟨bs, has⟩ a' ha'

/-! ## Structures in general -/

/-- A field, with the write of its content unless that is `None`. -/
structure Field where
  name : String
  ty : TType
  id : ℤ
  content : Option (Except PyError Bytes)

/-- The write of an attribute that is not `None`. -/
def Value.written (w : Value → Except PyError Bytes) : Value → Option (Except PyError Bytes)
  | .none => Option.none
  | v => some (w v)

@[simp] theorem Value.written_int (w : Value → Except PyError Bytes) (n : ℤ) :
    (Value.int n).written w = some (w (.int n)) := rfl

@[simp] theorem Value.written_str (w : Value → Except PyError Bytes) (s : Bytes) :
    (Value.str s).written w = some (w (.str s)) := rfl

namespace TProtocol

variable (P : TProtocol) {σ : Type}

def writeField (f : Field) : Except PyError Bytes :=
  match f.content with
  | none => .ok []
  | some c => do
    let bs ← c
    .ok (P.writeFieldBegin f.name f.ty f.id ++ bs ++ P.writeFieldEnd)

/-- The body of a `write` method. -/
def writeStruct (name : String) (fs : List Field) : Except PyError Bytes := do
  let ws ← fs.mapM P.writeField
  .ok (P.writeStructBegin name ++ (ws.flatten ++ P.writeFieldStop) ++ P.writeStructEnd)

/-- Read a field of the type `ty` into the structure, and skip one of another type. -/
def readOr (ty ftype : TType) (s : σ) (r : Reader σ) : Reader σ :=
  if ftype = ty then r else do
    P.skip ftype
    pure s

/-- The loop of a `read` method, at most `fuel` times. -/
def readFields (set : σ → TType → ℤ → Reader σ) : ℕ → σ → Reader σ
  | 0, _ => failure
  | fuel + 1, s => do
    let (ftype, fid) ← P.readFieldBegin
    if ftype = .stop then pure s
    else do
      let s ← set s ftype fid
      P.readFieldEnd
      readFields set fuel s

/-- The body of a `read` method. -/
def readStruct (set : σ → TType → ℤ → Reader σ) (fuel : ℕ) (s : σ) : Reader σ := do
  P.readStructBegin
  let s ← P.readFields set fuel s
  P.readStructEnd
  pure s

/-- One field of the loop, once its header is read. -/
def readBody (set : σ → TType → ℤ → Reader σ) (fuel : ℕ) (s : σ) (h : TType × ℤ) : Reader σ :=
  if h.1 = .stop then pure s else
    set s h.1 h.2 >>= fun s => P.readFieldEnd >>= fun _ => P.readFields set fuel s

/-- A `read` method takes the fields from `s` to `s'`. -/
inductive ReadsFields (set : σ → TType → ℤ → Reader σ) : σ → List Field → σ → Prop
  | nil (s) : ReadsFields set s [] s
  | absent {s fs s'} (name ty id) : ReadsFields set s fs s' →
      ReadsFields set s (⟨name, ty, id, none⟩ :: fs) s'
  | present {s s₁ fs s' bs} (name ty id) : ty ≠ .stop → Fits 16 id →
      ReadsBack (set s ty id) bs s₁ → ReadsFields set s₁ fs s' →
      ReadsFields set s (⟨name, ty, id, some (.ok bs)⟩ :: fs) s'

variable {P} {set : σ → TType → ℤ → Reader σ} {s s' : σ} {fs : List Field}

theorem readFields_succ (fuel : ℕ) (s : σ) :
    P.readFields set (fuel + 1) s = P.readFieldBegin >>= P.readBody set fuel s := rfl

theorem ReadsFields.readFields (h : ReadsFields set s fs s') :
    ∃ ws, fs.mapM P.writeField = .ok ws ∧ ∀ fuel > fs.length,
      ReadsBack (P.readFields set fuel s) (ws.flatten ++ P.writeFieldStop) s' := by
  induction h with
  | nil s =>
    refine ⟨[], rfl, fun fuel hfuel => ?_⟩
    obtain ⟨fuel, rfl⟩ := Nat.exists_eq_succ_of_ne_zero (by omega : fuel ≠ 0)
    rw [List.flatten_nil, List.nil_append, ← List.append_nil P.writeFieldStop]
    exact P.fieldStop.bind (.pure s)
  | absent name ty id _ ih =>
    obtain ⟨ws, hws, hread⟩ := ih
    refine ⟨[] :: ws, by simp [writeField, hws], fun fuel hfuel => ?_⟩
    rw [List.length_cons] at hfuel
    simpa using hread fuel (by omega)
  | @present s s₁ fs s' bs name ty id hty hid hset _ ih =>
    obtain ⟨ws, hws, hread⟩ := ih
    refine ⟨(P.writeFieldBegin name ty id ++ bs ++ P.writeFieldEnd) :: ws,
      by simp [writeField, hws], fun fuel hfuel => ?_⟩
    rw [List.length_cons] at hfuel
    obtain ⟨fuel, rfl⟩ := Nat.exists_eq_succ_of_ne_zero (by omega : fuel ≠ 0)
    have hbody : ReadsBack (P.readBody set fuel s (ty, id))
        (bs ++ (P.writeFieldEnd ++ (ws.flatten ++ P.writeFieldStop))) s' := by
      rw [readBody, if_neg hty]
      exact hset.bind (P.fieldEnd.bind (hread fuel (by omega)))
    have hall := (P.fieldBegin name ty id hty hid).bind hbody
    simpa [readFields_succ] using hall

/-- What `writeStruct` writes, `readStruct` reads, given enough fuel for the fields. -/
theorem ReadsFields.readStruct (h : ReadsFields set s fs s') (name : String) :
    ∃ w, P.writeStruct name fs = .ok w ∧ ∀ fuel > fs.length,
      ReadsBack (P.readStruct set fuel s) w s' := by
  obtain ⟨ws, hws, hread⟩ := h.readFields
  refine ⟨_, by rw [writeStruct, hws]; rfl, fun fuel hfuel => ?_⟩
  have hend : ReadsBack (P.readStructEnd >>= fun _ => pure s') P.writeStructEnd s' := by
    have := P.structEnd.bind (k := fun _ => pure s') (.pure s')
    rwa [List.append_nil] at this
  have hbody := (P.structBegin name).bind (k := fun _ => P.readFields set fuel s >>= fun s =>
    P.readStructEnd >>= fun _ => pure s) ((hread fuel hfuel).bind hend)
  rw [List.append_assoc]
  exact hbody

/-- A structure whose write of some field raises is not written. -/
theorem succeeds_of_writeStruct {name : String} (h : Succeeds (P.writeStruct name fs)) :
    ∀ f ∈ fs, ∀ c, f.content = some c → Succeeds c := by
  intro f hf c hc
  obtain ⟨w, hw⟩ := h
  have hws : Succeeds (fs.mapM P.writeField) := by
    cases hfs : fs.mapM P.writeField with
    | error err => simp [writeStruct, hfs] at hw
    | ok ws => exact ⟨ws, rfl⟩
  obtain ⟨bs, hbs⟩ := succeeds_of_mapM hws f hf
  cases c with
  | error err => simp [writeField, hc] at hbs
  | ok c => exact ⟨c, rfl⟩

end TProtocol

end Blkin
