import Blkin.Thrift

/-!
# The binary protocol

Thrift's binary protocol as it is documented, an instance of `TProtocol` : integers are
big-endian, a string follows its 32-bit length, a field header is the type and a 16-bit
id, a list header the element type and a 32-bit size, and nothing marks the start or the
end of a structure.

Two readers give up where thrift reads on. `readTType` fails on a code that is none of
the types, and `skip` on a structure, a map, a set and a list, whose fields or elements
it would have to go through. Nothing that the structures here write needs either.
-/

open Codec

namespace Blkin

namespace TType

def code : TType → UInt8
  | stop => 0
  | void => 1
  | bool => 2
  | byte => 3
  | double => 4
  | i16 => 6
  | i32 => 8
  | i64 => 10
  | string => 11
  | struct => 12
  | map => 13
  | set => 14
  | list => 15

def ofCode (b : UInt8) : Option TType :=
  [stop, void, bool, byte, double, i16, i32, i64, string, struct, map, set, list].find?
    (·.code = b)

theorem ofCode_code (ty : TType) : ofCode ty.code = some ty := by
  cases ty <;> rfl

end TType

namespace Binary

/-- `struct.pack` of a big-endian integer in `w` bytes. -/
def pack (w : ℕ) : Value → Except PyError Bytes
  | .int n => if Fits (8 * w) n then .ok (Endian.toBigInt w n) else .error .structError
  | .other _ (some n) => if Fits (8 * w) n then .ok (Endian.toBigInt w n) else .error .structError
  | _ => .error .structError

def readInt (w : ℕ) : Reader ℤ := do
  return Endian.ofBigInt (← Codec.take w)

/-- A string after its length. A `unicode` is written if it is ASCII. -/
def writeString : Value → Except PyError Bytes
  | .str s => do
    let len ← pack 4 (.int s.length)
    .ok (len ++ s)
  | .unicode s => do
    let len ← pack 4 (.int s.length)
    if s.all fun c => c.toNat < 128 then .ok (len ++ s.map fun c => UInt8.ofNat c.toNat)
    else .error .valueError
  | _ => .error .typeError

def readString : Reader Bytes := do
  let len ← readInt 4
  Codec.take len.toNat

def readTType : Reader TType := do
  let bs ← Codec.take 1
  match TType.ofCode (bs.headD 0) with
  | some ty => pure ty
  | none => failure

/-- The type, and the id unless it is a stop. -/
def readFieldBegin : Reader (TType × ℤ) := do
  let ty ← readTType
  if ty = .stop then pure (.stop, 0) else do return (ty, ← readInt 2)

def readListBegin : Reader (TType × ℤ) := do
  let ty ← readTType
  return (ty, ← readInt 4)

def skip : TType → Reader Unit
  | .bool | .byte => do let _ ← Codec.take 1
  | .i16 => do let _ ← readInt 2
  | .i32 => do let _ ← readInt 4
  | .i64 | .double => do let _ ← readInt 8
  | .string => do let _ ← readString
  | _ => failure

theorem readsBack_int {w : ℕ} (hw : 0 < w) {n : ℤ} (hn : Fits (8 * w) n) :
    ReadsBack (readInt w) (Endian.toBigInt w n) n := by
  have hpow : (256 ^ w : ℕ) = 2 * 2 ^ (8 * w - 1) := by
    rw [← pow_succ', show 8 * w - 1 + 1 = 8 * w by omega, pow_mul]
    norm_num
  have hval : Endian.ofBigInt (Endian.toBigInt w n) = n := by
    obtain ⟨hlo, hhi⟩ := hn
    refine Endian.ofBigInt_toBigInt ?_ ?_ <;> rw [hpow] <;> push_cast <;> omega
  have htake := (readsBack_take (Endian.toBigInt w n)).map Endian.ofBigInt
  rwa [Endian.length_toBigInt, hval] at htake

theorem pack_int {w : ℕ} {n : ℤ} (hn : Fits (8 * w) n) :
    pack w (.int n) = .ok (Endian.toBigInt w n) :=
  if_pos hn

theorem transfers_int {w : ℕ} (hw : 0 < w) {n : ℤ} (hn : Fits (8 * w) n) :
    Transfers (pack w) (readInt w) (.int n) n :=
  ⟨_, pack_int hn, readsBack_int hw hn⟩

theorem fits_of_pack {w : ℕ} {n : ℤ} (h : Succeeds (pack w (.int n))) : Fits (8 * w) n := by
  obtain ⟨bs, hbs⟩ := h
  by_contra hn
  simp [pack, hn] at hbs

theorem transfers_string {s : Bytes} (hs : Fits 32 s.length) :
    Transfers writeString readString (.str s) s := by
  refine ⟨Endian.toBigInt 4 s.length ++ s, ?_, ?_⟩
  · rw [writeString, pack_int (w := 4) hs, ok_bind]
  · refine (readsBack_int (w := 4) (by decide) hs).bind ?_
    rw [Int.toNat_natCast]
    exact readsBack_take s

theorem readsBack_ttype (ty : TType) : ReadsBack readTType [ty.code] ty := by
  have h : ReadsBack readTType ([ty.code] ++ []) ty := by
    refine (readsBack_take [ty.code]).bind ?_
    rw [List.headD_cons, TType.ofCode_code]
    exact .pure ty
  exact h

theorem readsBack_fieldBegin {ty : TType} {id : ℤ} (hty : ty ≠ .stop) (hid : Fits 16 id) :
    ReadsBack readFieldBegin (ty.code :: Endian.toBigInt 2 id) (ty, id) := by
  refine (readsBack_ttype ty).bind (k := fun ty => if ty = .stop then pure (.stop, 0) else
    (fun n => (ty, n)) <$> readInt 2) ?_
  rw [if_neg hty]
  exact (readsBack_int (w := 2) (by decide) hid).map fun n => (ty, n)

theorem readsBack_fieldStop : ReadsBack readFieldBegin [TType.stop.code] (.stop, 0) := by
  refine (readsBack_ttype .stop).bind (k := fun ty => if ty = .stop then pure (.stop, 0) else
    (fun n => (ty, n)) <$> readInt 2) ?_
  rw [if_pos rfl]
  exact .pure (TType.stop, (0 : ℤ))

/-- A list header. -/
def writeListBegin (ty : TType) (n : ℕ) : Except PyError Bytes := do
  let size ← pack 4 (.int n)
  .ok (ty.code :: size)

theorem transfers_listBegin (ty : TType) {n : ℕ} (hn : Fits 32 n) :
    Transfers (writeListBegin ty) readListBegin n (ty, (n : ℤ)) := by
  refine ⟨ty.code :: Endian.toBigInt 4 n, ?_, ?_⟩
  · rw [writeListBegin, pack_int (w := 4) hn, ok_bind]
  · exact (readsBack_ttype ty).bind ((readsBack_int (w := 4) (by decide) hn).map fun m => (ty, m))

end Binary

open Binary in
/-- `TBinaryProtocol` -/
def binaryProtocol : TProtocol where
  writeStructBegin _ := []
  writeStructEnd := []
  writeFieldBegin _ ty id := ty.code :: Endian.toBigInt 2 id
  writeFieldEnd := []
  writeFieldStop := [TType.stop.code]
  writeListBegin := writeListBegin
  writeListEnd := []
  writeI16 := pack 2
  writeI32 := pack 4
  writeI64 := pack 8
  writeString := writeString
  readStructBegin := pure ()
  readStructEnd := pure ()
  readFieldBegin := readFieldBegin
  readFieldEnd := pure ()
  readListBegin := readListBegin
  readListEnd := pure ()
  readI16 := readInt 2
  readI32 := readInt 4
  readI64 := readInt 8
  readString := readString
  skip := skip
  structBegin _ := .pure ()
  structEnd := .pure ()
  fieldBegin _ _ _ hty hid := readsBack_fieldBegin hty hid
  fieldEnd := .pure ()
  fieldStop := readsBack_fieldStop
  listBegin ty _ hn := transfers_listBegin ty hn
  listEnd := .pure ()
  i16 _ hn := transfers_int (w := 2) (by decide) hn
  i32 _ hn := transfers_int (w := 4) (by decide) hn
  i64 _ hn := transfers_int (w := 8) (by decide) hn
  string _ hs := transfers_string hs
  i16_fits _ h := fits_of_pack (w := 2) h
  i32_fits _ h := fits_of_pack (w := 4) h
  i64_fits _ h := fits_of_pack (w := 8) h
  string_fits s h := by
    obtain ⟨bs, hbs⟩ := h
    refine fits_of_pack (w := 4) ?_
    cases hlen : pack 4 (.int s.length) with
    | error err => simp [writeString, hlen] at hbs
    | ok len => exact ⟨len, rfl⟩

end Blkin
