import Blkin.Thrift

/-!
# The generated structures of `ttypes.py`

`TEndpoint`, `TAnnotation`, `TBinaryAnnotation` and `TSpan` are the classes of the same
names. An attribute that was not given is `None`. A structure that is `Typed` has an
integer in range, a string of at most 31 bits' length or `None` where its fields say so;
it is written, and read back as it was (`TSpan.Typed.transfers`). Whatever is written is in
range (`TSpan.fits_of_write`). `fuel` bounds the fields a `read` method takes.
-/

open Codec

namespace Blkin

/-- `AnnotationType.BYTES` -/
def BYTES : ℤ := 1

/-- `AnnotationType.STRING` -/
def STRING : ℤ := 6

structure TEndpoint where
  ipv4 : Value := .none
  port : Value := .none
  serviceName : Value := .none
  deriving DecidableEq, Repr

structure TAnnotation where
  timestamp : Value := .none
  value : Value := .none
  host : Option TEndpoint := none
  deriving DecidableEq, Repr

structure TBinaryAnnotation where
  key : Value := .none
  value : Value := .none
  annotationType : Value := .none
  host : Option TEndpoint := none
  deriving DecidableEq, Repr

structure TSpan where
  traceId : Value := .none
  name : Value := .none
  id : Value := .none
  parentId : Value := .none
  annotations : Option (List TAnnotation) := none
  binaryAnnotations : Option (List TBinaryAnnotation) := none
  deriving DecidableEq, Repr

/-! ## Writing and reading -/

namespace TProtocol

variable (P : TProtocol)

/-- A list of structures. -/
def writeList {α : Type} (w : α → Except PyError Bytes) (as : List α) : Except PyError Bytes := do
  let start ← P.writeListBegin .struct as.length
  let ws ← as.mapM w
  .ok (start ++ (ws.flatten ++ P.writeListEnd))

def readList {α : Type} (r : Reader α) : Reader (List α) := do
  let (_, size) ← P.readListBegin
  let as ← Codec.replicate r size.toNat
  P.readListEnd
  pure as

end TProtocol

namespace TEndpoint

variable (P : TProtocol)

def fields (e : TEndpoint) : List Field :=
  [⟨"ipv4", .i32, 1, e.ipv4.written P.writeI32⟩,
    ⟨"port", .i16, 2, e.port.written P.writeI16⟩,
    ⟨"service_name", .string, 3, e.serviceName.written P.writeString⟩]

/-- `Endpoint.write` -/
def write (e : TEndpoint) : Except PyError Bytes :=
  P.writeStruct "Endpoint" (e.fields P)

def setField (e : TEndpoint) (ftype : TType) (fid : ℤ) : Reader TEndpoint :=
  if fid = 1 then P.readOr .i32 ftype e do return { e with ipv4 := .int (← P.readI32) }
  else if fid = 2 then P.readOr .i16 ftype e do return { e with port := .int (← P.readI16) }
  else if fid = 3 then
    P.readOr .string ftype e do return { e with serviceName := .str (← P.readString) }
  else do
    P.skip ftype
    return e

/-- `Endpoint.read`, on a new object -/
def read (fuel : ℕ) : Reader TEndpoint :=
  P.readStruct (setField P) fuel {}

end TEndpoint

namespace TAnnotation

variable (P : TProtocol)

def fields (a : TAnnotation) : List Field :=
  [⟨"timestamp", .i64, 1, a.timestamp.written P.writeI64⟩,
    ⟨"value", .string, 2, a.value.written P.writeString⟩,
    ⟨"host", .struct, 3, a.host.map (TEndpoint.write P)⟩]

/-- `Annotation.write` -/
def write (a : TAnnotation) : Except PyError Bytes :=
  P.writeStruct "Annotation" (a.fields P)

def setField (fuel : ℕ) (a : TAnnotation) (ftype : TType) (fid : ℤ) : Reader TAnnotation :=
  if fid = 1 then P.readOr .i64 ftype a do return { a with timestamp := .int (← P.readI64) }
  else if fid = 2 then P.readOr .string ftype a do return { a with value := .str (← P.readString) }
  else if fid = 3 then
    P.readOr .struct ftype a do return { a with host := some (← TEndpoint.read P fuel) }
  else do
    P.skip ftype
    return a

/-- `Annotation.read`, on a new object -/
def read (fuel : ℕ) : Reader TAnnotation :=
  P.readStruct (setField P fuel) fuel {}

end TAnnotation

namespace TBinaryAnnotation

variable (P : TProtocol)

def fields (a : TBinaryAnnotation) : List Field :=
  [⟨"key", .string, 1, a.key.written P.writeString⟩,
    ⟨"value", .string, 2, a.value.written P.writeString⟩,
    ⟨"annotation_type", .i32, 3, a.annotationType.written P.writeI32⟩,
    ⟨"host", .struct, 4, a.host.map (TEndpoint.write P)⟩]

/-- `BinaryAnnotation.write` -/
def write (a : TBinaryAnnotation) : Except PyError Bytes :=
  P.writeStruct "BinaryAnnotation" (a.fields P)

def setField (fuel : ℕ) (a : TBinaryAnnotation) (ftype : TType) (fid : ℤ) :
    Reader TBinaryAnnotation :=
  if fid = 1 then P.readOr .string ftype a do return { a with key := .str (← P.readString) }
  else if fid = 2 then P.readOr .string ftype a do return { a with value := .str (← P.readString) }
  else if fid = 3 then
    P.readOr .i32 ftype a do return { a with annotationType := .int (← P.readI32) }
  else if fid = 4 then
    P.readOr .struct ftype a do return { a with host := some (← TEndpoint.read P fuel) }
  else do
    P.skip ftype
    return a

/-- `BinaryAnnotation.read`, on a new object -/
def read (fuel : ℕ) : Reader TBinaryAnnotation :=
  P.readStruct (setField P fuel) fuel {}

end TBinaryAnnotation

namespace TSpan

variable (P : TProtocol)

def fields (s : TSpan) : List Field :=
  [⟨"trace_id", .i64, 1, s.traceId.written P.writeI64⟩,
    ⟨"name", .string, 3, s.name.written P.writeString⟩,
    ⟨"id", .i64, 4, s.id.written P.writeI64⟩,
    ⟨"parent_id", .i64, 5, s.parentId.written P.writeI64⟩,
    ⟨"annotations", .list, 6, s.annotations.map (P.writeList <| TAnnotation.write P)⟩,
    ⟨"binary_annotations", .list, 8,
      s.binaryAnnotations.map (P.writeList <| TBinaryAnnotation.write P)⟩]

/-- `Span.write` -/
def write (s : TSpan) : Except PyError Bytes :=
  P.writeStruct "Span" (s.fields P)

def setField (fuel : ℕ) (s : TSpan) (ftype : TType) (fid : ℤ) : Reader TSpan :=
  if fid = 1 then P.readOr .i64 ftype s do return { s with traceId := .int (← P.readI64) }
  else if fid = 3 then P.readOr .string ftype s do return { s with name := .str (← P.readString) }
  else if fid = 4 then P.readOr .i64 ftype s do return { s with id := .int (← P.readI64) }
  else if fid = 5 then P.readOr .i64 ftype s do return { s with parentId := .int (← P.readI64) }
  else if fid = 6 then P.readOr .list ftype s do
    return { s with annotations := some (← P.readList <| TAnnotation.read P fuel) }
  else if fid = 8 then P.readOr .list ftype s do
    return { s with binaryAnnotations := some (← P.readList <| TBinaryAnnotation.read P fuel) }
  else do
    P.skip ftype
    return s

/-- `Span.read`, on a new object -/
def read (fuel : ℕ) : Reader TSpan :=
  P.readStruct (setField P fuel) fuel {}

end TSpan

/-! ## Typed structures are written and read back -/

/-- An integer of so many bits, or `None`. -/
def Value.IsInt (bits : ℕ) : Value → Prop
  | .none => True
  | .int n => Fits bits n
  | _ => False

/-- A string whose length is in range, or `None`. -/
def Value.IsStr : Value → Prop
  | .none => True
  | .str s => Fits 32 s.length
  | _ => False

namespace TProtocol

variable {P : TProtocol} {σ α : Type} {set : σ → TType → ℤ → Reader σ} {s s' : σ}
  {fs : List Field} {name : String} {ty : TType} {id : ℤ}

/-- An attribute `v` of the state, written if it is given. -/
theorem ReadsFields.int {bits : ℕ} {w : Value → Except PyError Bytes} {r : Reader ℤ}
    (hw : ∀ n, Fits bits n → Transfers w r (.int n) n) {v : Value} (hv : v.IsInt bits)
    (u : Value → σ) (hu : u .none = s) (hty : ty ≠ .stop) (hid : Fits 16 id)
    (hset : set s ty id = r >>= fun n => pure (u (.int n)))
    (h : ReadsFields set (u v) fs s') :
    ReadsFields set s (⟨name, ty, id, v.written w⟩ :: fs) s' := by
  cases v with
  | none =>
    rw [hu] at h
    exact .absent name ty id h
  | int n =>
    obtain ⟨bs, hbs, hread⟩ := hw n hv
    rw [Value.written_int, hbs]
    refine .present name ty id hty hid ?_ h
    rw [hset, ← List.append_nil bs]
    exact hread.bind (.pure _)
  | str | unicode | other => exact hv.elim

theorem ReadsFields.str {v : Value} (hv : v.IsStr) (u : Value → σ) (hu : u .none = s)
    (hid : Fits 16 id) (hset : set s .string id = P.readString >>= fun t => pure (u (.str t)))
    (h : ReadsFields set (u v) fs s') :
    ReadsFields set s (⟨name, .string, id, v.written P.writeString⟩ :: fs) s' := by
  cases v with
  | none =>
    rw [hu] at h
    exact .absent name .string id h
  | str t =>
    obtain ⟨bs, hbs, hread⟩ := P.string t hv
    rw [Value.written_str, hbs]
    refine .present name .string id (by decide) hid ?_ h
    rw [hset, ← List.append_nil bs]
    exact hread.bind (.pure _)
  | int | unicode | other => exact hv.elim

theorem ReadsFields.option {w : α → Except PyError Bytes} {r : Reader α} {v : Option α}
    (hw : ∀ a ∈ v, Transfers w r a a) (u : Option α → σ) (hu : u none = s) (hty : ty ≠ .stop)
    (hid : Fits 16 id) (hset : set s ty id = r >>= fun a => pure (u (some a)))
    (h : ReadsFields set (u v) fs s') :
    ReadsFields set s (⟨name, ty, id, v.map w⟩ :: fs) s' := by
  cases v with
  | none =>
    rw [hu] at h
    exact .absent name ty id h
  | some a =>
    obtain ⟨bs, hbs, hread⟩ := hw a rfl
    rw [Option.map_some, hbs]
    refine .present name ty id hty hid ?_ h
    rw [hset, ← List.append_nil bs]
    exact hread.bind (.pure _)

theorem transfers_list {w : α → Except PyError Bytes} {r : Reader α} {as : List α}
    (hlen : Fits 32 as.length) (hw : ∀ a ∈ as, Transfers w r a a) :
    Transfers (P.writeList w) (P.readList r) as as := by
  have hall : ∀ {as : List α}, (∀ a ∈ as, Transfers w r a a) →
      ∃ ws, as.mapM w = .ok ws ∧ List.Forall₂ (ReadsBack r) ws as := by
    intro as
    induction as with
    | nil => exact fun _ => ⟨[], rfl, .nil⟩
    | cons a as ih =>
      intro hw
      obtain ⟨bs, hbs, hread⟩ := hw a (by simp)
      obtain ⟨ws, hws, hreads⟩ := ih fun b hb => hw b (by simp [hb])
      exact ⟨bs :: ws, by simp [List.mapM_cons, hbs, hws], .cons hread hreads⟩
  obtain ⟨start, hstart, hbegin⟩ := P.listBegin .struct as.length hlen
  obtain ⟨ws, hws, hreads⟩ := hall hw
  refine ⟨start ++ (ws.flatten ++ P.writeListEnd), by simp [writeList, hstart, hws], ?_⟩
  have hend : ReadsBack (P.readListEnd >>= fun _ => pure as) P.writeListEnd as := by
    have h := P.listEnd.bind (k := fun _ => pure as) (.pure as)
    rwa [List.append_nil] at h
  exact hbegin.bind ((ReadsBack.replicate hreads).bind hend)

theorem succeeds_of_writeList {w : α → Except PyError Bytes} {as : List α}
    (h : Succeeds (P.writeList w as)) : ∀ a ∈ as, Succeeds (w a) := by
  obtain ⟨bs, hbs⟩ := h
  refine succeeds_of_mapM ?_
  cases hstart : P.writeListBegin .struct as.length with
  | error err => simp [writeList, hstart] at hbs
  | ok start =>
    cases hws : as.mapM w with
    | error err => simp [writeList, hstart, hws] at hbs
    | ok ws => exact ⟨ws, rfl⟩

end TProtocol

open TProtocol

variable {P : TProtocol}

structure TEndpoint.Typed (e : TEndpoint) : Prop where
  ipv4 : e.ipv4.IsInt 32
  port : e.port.IsInt 16
  serviceName : e.serviceName.IsStr

structure TAnnotation.Typed (a : TAnnotation) : Prop where
  timestamp : a.timestamp.IsInt 64
  value : a.value.IsStr
  host : ∀ e ∈ a.host, e.Typed

structure TBinaryAnnotation.Typed (a : TBinaryAnnotation) : Prop where
  key : a.key.IsStr
  value : a.value.IsStr
  annotationType : a.annotationType.IsInt 32
  host : ∀ e ∈ a.host, e.Typed

structure TSpan.Typed (s : TSpan) : Prop where
  traceId : s.traceId.IsInt 64
  name : s.name.IsStr
  id : s.id.IsInt 64
  parentId : s.parentId.IsInt 64
  annotations : ∀ as ∈ s.annotations, Fits 32 as.length ∧ ∀ a ∈ as, a.Typed
  binaryAnnotations : ∀ as ∈ s.binaryAnnotations, Fits 32 as.length ∧ ∀ a ∈ as, a.Typed

theorem TEndpoint.Typed.transfers {e : TEndpoint} (h : e.Typed) {fuel : ℕ} (hfuel : 3 < fuel) :
    Transfers (write P) (read P fuel) e e := by
  have hfields : ReadsFields (setField P) {} (e.fields P) e :=
    .int P.i32 h.ipv4 (fun v => ⟨v, .none, .none⟩) rfl (by decide) (by decide) rfl <|
    .int P.i16 h.port (fun v => ⟨e.ipv4, v, .none⟩) rfl (by decide) (by decide) rfl <|
    .str h.serviceName (fun v => ⟨e.ipv4, e.port, v⟩) rfl (by decide) rfl (.nil e)
  obtain ⟨bs, hbs, hread⟩ := hfields.readStruct "Endpoint"
  exact ⟨bs, hbs, hread fuel hfuel⟩

theorem TAnnotation.Typed.transfers {a : TAnnotation} (h : a.Typed) {fuel : ℕ} (hfuel : 3 < fuel) :
    Transfers (write P) (read P fuel) a a := by
  have hfields : ReadsFields (setField P fuel) {} (a.fields P) a :=
    .int P.i64 h.timestamp (fun v => ⟨v, .none, none⟩) rfl (by decide) (by decide) rfl <|
    .str h.value (fun v => ⟨a.timestamp, v, none⟩) rfl (by decide) rfl <|
    .option (fun e he => (h.host e he).transfers hfuel) (fun v => ⟨a.timestamp, a.value, v⟩) rfl
      (by decide) (by decide) rfl (.nil a)
  obtain ⟨bs, hbs, hread⟩ := hfields.readStruct "Annotation"
  exact ⟨bs, hbs, hread fuel hfuel⟩

theorem TBinaryAnnotation.Typed.transfers {a : TBinaryAnnotation} (h : a.Typed) {fuel : ℕ}
    (hfuel : 4 < fuel) : Transfers (write P) (read P fuel) a a := by
  have hfields : ReadsFields (setField P fuel) {} (a.fields P) a :=
    .str h.key (fun v => ⟨v, .none, .none, none⟩) rfl (by decide) rfl <|
    .str h.value (fun v => ⟨a.key, v, .none, none⟩) rfl (by decide) rfl <|
    .int P.i32 h.annotationType (fun v => ⟨a.key, a.value, v, none⟩) rfl (by decide) (by decide)
      rfl <|
    .option (fun e he => (h.host e he).transfers (by omega))
      (fun v => ⟨a.key, a.value, a.annotationType, v⟩) rfl (by decide) (by decide) rfl (.nil a)
  obtain ⟨bs, hbs, hread⟩ := hfields.readStruct "BinaryAnnotation"
  exact ⟨bs, hbs, hread fuel hfuel⟩

/-- A typed span is written, and read back as it was. -/
theorem TSpan.Typed.transfers {s : TSpan} (h : s.Typed) {fuel : ℕ} (hfuel : 6 < fuel) :
    Transfers (write P) (read P fuel) s s := by
  have hannots : ∀ as ∈ s.annotations, Transfers (P.writeList <| TAnnotation.write P)
      (P.readList <| TAnnotation.read P fuel) as as := fun as has =>
    transfers_list (h.annotations as has).1 fun a ha =>
      ((h.annotations as has).2 a ha).transfers (by omega)
  have hbinary : ∀ as ∈ s.binaryAnnotations, Transfers (P.writeList <| TBinaryAnnotation.write P)
      (P.readList <| TBinaryAnnotation.read P fuel) as as := fun as has =>
    transfers_list (h.binaryAnnotations as has).1 fun a ha =>
      ((h.binaryAnnotations as has).2 a ha).transfers (by omega)
  have hfields : ReadsFields (setField P fuel) {} (s.fields P) s :=
    .int P.i64 h.traceId (fun v => { traceId := v }) rfl (by decide) (by decide) rfl <|
    .str h.name (fun v => { traceId := s.traceId, name := v }) rfl (by decide) rfl <|
    .int P.i64 h.id (fun v => { traceId := s.traceId, name := s.name, id := v }) rfl
      (by decide) (by decide) rfl <|
    .int P.i64 h.parentId (fun v => { s with
      parentId := v, annotations := none, binaryAnnotations := none }) rfl (by decide) (by decide)
      rfl <|
    .option hannots (fun v => { s with annotations := v, binaryAnnotations := none }) rfl
      (by decide) (by decide) rfl <|
    .option hbinary (fun v => { s with binaryAnnotations := v }) rfl (by decide) (by decide) rfl
      (.nil s)
  obtain ⟨bs, hbs, hread⟩ := hfields.readStruct "Span"
  exact ⟨bs, hbs, hread fuel hfuel⟩

/-! ## What is written is in range -/

theorem TEndpoint.fits_of_write {e : TEndpoint} (h : Succeeds (e.write P)) :
    (∀ n, e.port = .int n → Fits 16 n) ∧ ∀ t, e.serviceName = .str t → Fits 32 t.length := by
  have hfields := succeeds_of_writeStruct h
  simp only [fields, List.forall_mem_cons] at hfields
  obtain ⟨-, hport, hservice, -⟩ := hfields
  exact ⟨fun n hn => P.i16_fits n (hport _ (by rw [hn]; rfl)),
    fun t ht => P.string_fits t (hservice _ (by rw [ht]; rfl))⟩

theorem TAnnotation.fits_of_write {a : TAnnotation} (h : Succeeds (a.write P)) :
    (∀ n, a.timestamp = .int n → Fits 64 n) ∧ (∀ t, a.value = .str t → Fits 32 t.length) ∧
      ∀ e ∈ a.host, Succeeds (e.write P) := by
  have hfields := succeeds_of_writeStruct h
  simp only [fields, List.forall_mem_cons] at hfields
  obtain ⟨htime, hvalue, hhost, -⟩ := hfields
  exact ⟨fun n hn => P.i64_fits n (htime _ (by rw [hn]; rfl)),
    fun t ht => P.string_fits t (hvalue _ (by rw [ht]; rfl)),
    fun e he => hhost _ (congrArg (Option.map _) he)⟩

theorem TBinaryAnnotation.fits_of_write {a : TBinaryAnnotation} (h : Succeeds (a.write P)) :
    (∀ t, a.key = .str t → Fits 32 t.length) ∧ (∀ t, a.value = .str t → Fits 32 t.length) ∧
      ∀ e ∈ a.host, Succeeds (e.write P) := by
  have hfields := succeeds_of_writeStruct h
  simp only [fields, List.forall_mem_cons] at hfields
  obtain ⟨hkey, hvalue, -, hhost, -⟩ := hfields
  exact ⟨fun t ht => P.string_fits t (hkey _ (by rw [ht]; rfl)),
    fun t ht => P.string_fits t (hvalue _ (by rw [ht]; rfl)),
    fun e he => hhost _ (congrArg (Option.map _) he)⟩

theorem TSpan.fits_of_write {s : TSpan} (h : Succeeds (s.write P)) :
    (∀ n, s.traceId = .int n → Fits 64 n) ∧ (∀ t, s.name = .str t → Fits 32 t.length) ∧
      (∀ n, s.id = .int n → Fits 64 n) ∧ ∀ n, s.parentId = .int n → Fits 64 n := by
  have hfields := succeeds_of_writeStruct h
  simp only [fields, List.forall_mem_cons] at hfields
  obtain ⟨htrace, hname, hid, hparent, -⟩ := hfields
  exact ⟨fun n hn => P.i64_fits n (htrace _ (by rw [hn]; rfl)),
    fun t ht => P.string_fits t (hname _ (by rw [ht]; rfl)),
    fun n hn => P.i64_fits n (hid _ (by rw [hn]; rfl)),
    fun n hn => P.i64_fits n (hparent _ (by rw [hn]; rfl))⟩

theorem TSpan.lists_succeed {s : TSpan} (h : Succeeds (s.write P)) :
    (∀ as ∈ s.annotations, Succeeds ((P.writeList <| TAnnotation.write P) as)) ∧
      ∀ as ∈ s.binaryAnnotations, Succeeds ((P.writeList <| TBinaryAnnotation.write P) as) := by
  have hfields := succeeds_of_writeStruct h
  simp only [fields, List.forall_mem_cons] at hfields
  obtain ⟨-, -, -, -, hannots, hbinaries, -⟩ := hfields
  exact ⟨fun as has => hannots _ (congrArg (Option.map _) has),
    fun as has => hbinaries _ (congrArg (Option.map _) has)⟩

end Blkin
