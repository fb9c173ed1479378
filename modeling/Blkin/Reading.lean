import Blkin.BinaryProtocol
import Blkin.TTypes

/-!
# What the read methods accept

A `read` method of `ttypes.py` takes whatever fields come, in any order and number, skips
what it does not know and has no bound on its loop. Here the input is any list of bytes.

Readers are taken apart by what they give (`Gives` : a property of every value they read,
and no more bytes left than there were) and by when they do not depend on the bound of
their loops (`Settles` : once it exceeds the number of bytes). For a protocol that is
`TProtocol.Strict`, as the binary one is, `Span.read` ends on every input, what it accepts
is typed, so it can be written and is read back as it is (`TSpan.read_accepts`), and on an
object that has attributes it replaces those that it finds and keeps the others.
-/

open Codec

/-! ## Readers of arbitrary bytes -/

namespace Codec

variable {α β : Type}

/-- Every value that `r` reads has `Q`, and no more bytes are left than there were. -/
def Gives (r : Reader α) (Q : α → Prop) : Prop :=
  ∀ bs a rest, r.run bs = some (a, rest) → Q a ∧ rest.length ≤ bs.length

/-- A bound above the number of bytes does not matter. -/
def Settles (r : ℕ → Reader α) : Prop :=
  ∀ bs fuel fuel', bs.length < fuel → bs.length < fuel' → (r fuel).run bs = (r fuel').run bs

theorem run_bind_eq_some {r : Reader α} {k : α → Reader β} {bs rest : List UInt8} {b : β} :
    (r >>= k).run bs = some (b, rest) ↔
      ∃ a mid, r.run bs = some (a, mid) ∧ (k a).run mid = some (b, rest) := by
  simp only [StateT.run_bind, Option.bind_eq_bind, Option.bind_eq_some_iff, Prod.exists]

namespace Gives

variable {r : Reader α} {k : α → Reader β} {Q : α → Prop} {R : β → Prop}

theorem pure {a : α} (ha : Q a) : Gives (Pure.pure a) Q := by
  intro bs a' rest h
  obtain ⟨rfl, rfl⟩ := Prod.mk.inj (Option.some.inj h)
  exact ⟨ha, le_rfl⟩

theorem failure : Gives (failure : Reader α) Q := by
  intro bs a rest h
  cases h

theorem bind (h : Gives r Q) (hk : ∀ a, Q a → Gives (k a) R) : Gives (r >>= k) R := by
  intro bs b rest hb
  obtain ⟨a, mid, ha, hb⟩ := run_bind_eq_some.1 hb
  obtain ⟨hQ, hmid⟩ := h bs a mid ha
  obtain ⟨hR, hrest⟩ := hk a hQ mid b rest hb
  exact ⟨hR, hrest.trans hmid⟩

theorem mono {Q' : α → Prop} (h : Gives r Q) (hQ : ∀ a, Q a → Q' a) : Gives r Q' :=
  fun bs a rest ha => ⟨hQ a (h bs a rest ha).1, (h bs a rest ha).2⟩

theorem map {f : α → β} (h : Gives r Q) (hf : ∀ a, Q a → R (f a)) : Gives (f <$> r) R := by
  rw [← bind_pure_comp]
  exact h.bind fun a ha => .pure (hf a ha)

theorem replicate (h : Gives r Q) : ∀ n, Gives (Codec.replicate r n)
    fun as => as.length = n ∧ ∀ a ∈ as, Q a
  | 0 => .pure ⟨rfl, by simp⟩
  | n + 1 => h.bind fun a ha => (h.replicate n).map fun as has =>
      ⟨by simp [has.1], List.forall_mem_cons.2 ⟨ha, has.2⟩⟩

end Gives

namespace Settles

variable {r : ℕ → Reader α} {k : ℕ → α → Reader β}

theorem const (r : Reader α) : Settles fun _ => r :=
  fun _ _ _ _ _ => rfl

theorem bind {Q : α → Prop} (h : Settles r) (hr : ∀ fuel, Gives (r fuel) Q)
    (hk : ∀ a, Settles fun fuel => k fuel a) : Settles fun fuel => r fuel >>= k fuel := by
  intro bs fuel fuel' hfuel hfuel'
  rw [StateT.run_bind, StateT.run_bind, h bs fuel fuel' hfuel hfuel']
  cases hread : (r fuel').run bs with
  | none => rfl
  | some x =>
    obtain ⟨a, mid⟩ := x
    have hmid := (hr fuel' bs a mid hread).2
    exact hk a mid fuel fuel' (by omega) (by omega)

theorem map {f : α → β} (h : Settles r) : Settles fun fuel => f <$> r fuel := by
  intro bs fuel fuel' hfuel hfuel'
  rw [StateT.run_map, StateT.run_map, h bs fuel fuel' hfuel hfuel']

theorem replicate {Q : α → Prop} (h : Settles r) (hr : ∀ fuel, Gives (r fuel) Q) :
    ∀ n, Settles fun fuel => Codec.replicate (r fuel) n
  | 0 => .const _
  | n + 1 => h.bind hr fun _ => (h.replicate hr n).map

end Settles

end Codec

namespace Blkin

namespace TProtocol

/-- What is read is in the range of its type, and the header of a field takes at least one
byte. -/
structure Strict (P : TProtocol) : Prop where
  structBegin : Gives P.readStructBegin fun _ => True
  structEnd : Gives P.readStructEnd fun _ => True
  fieldBegin : ∀ bs h rest, P.readFieldBegin.run bs = some (h, rest) → rest.length < bs.length
  fieldEnd : Gives P.readFieldEnd fun _ => True
  listBegin : Gives P.readListBegin fun h => Fits 32 h.2
  listEnd : Gives P.readListEnd fun _ => True
  i16 : Gives P.readI16 (Fits 16)
  i32 : Gives P.readI32 (Fits 32)
  i64 : Gives P.readI64 (Fits 64)
  string : Gives P.readString fun s => Fits 32 s.length
  skip : ∀ ty, Gives (P.skip ty) fun _ => True

variable {P : TProtocol} {σ : Type} {s : σ} {Q : σ → Prop}

theorem Strict.fieldBegin_gives (hP : P.Strict) : Gives P.readFieldBegin fun _ => True :=
  fun bs h rest hread => ⟨trivial, (hP.fieldBegin bs h rest hread).le⟩

theorem Strict.skip_gives (hP : P.Strict) {ty : TType} (hs : Q s) :
    Gives (P.skip ty >>= fun _ => pure s) Q :=
  (hP.skip ty).bind fun _ _ => .pure hs

theorem Strict.readOr_gives (hP : P.Strict) {ty ftype : TType} {r : Reader σ} (hs : Q s)
    (hr : Gives r Q) : Gives (P.readOr ty ftype s r) Q := by
  unfold readOr
  split_ifs
  · exact hr
  · exact hP.skip_gives hs

/-- A list of at most 2³¹ - 1 elements. -/
theorem Strict.readList_gives (hP : P.Strict) {α : Type} {r : Reader α} {R : α → Prop}
    (hr : Gives r R) : Gives (P.readList r) fun as => Fits 32 as.length ∧ ∀ a ∈ as, R a := by
  refine hP.listBegin.bind fun h hfits => (hr.replicate h.2.toNat).bind fun as has => ?_
  refine hP.listEnd.bind fun _ _ => .pure ⟨?_, has.2⟩
  rw [has.1]
  unfold Fits at hfits ⊢
  omega

/-- One turn of the loop : the structure after a field, or `none` at the stop. -/
def turn (P : TProtocol) (set : σ → TType → ℤ → Reader σ) (s : σ) : Reader (Option σ) := do
  let (ftype, fid) ← P.readFieldBegin
  if ftype = .stop then pure none
  else do
    let s ← set s ftype fid
    P.readFieldEnd
    pure (some s)

/-- The loop ends in its `n`-th turn, with a structure or an exception. -/
inductive Loops (P : TProtocol) (set : σ → TType → ℤ → Reader σ) :
    σ → Bytes → ℕ → Option (σ × Bytes) → Prop
  | raise {s bs} : (P.turn set s).run bs = none → Loops P set s bs 1 none
  | stop {s bs rest} : (P.turn set s).run bs = some (none, rest) →
      Loops P set s bs 1 (some (s, rest))
  | field {s s' bs mid n res} : (P.turn set s).run bs = some (some s', mid) →
      Loops P set s' mid n res → Loops P set s bs (n + 1) res

/-- The loop ends after one field for each byte at the latest, and `fuel` turns are enough
for it. -/
def Ends (P : TProtocol) (f : σ → TType → ℤ → Reader σ) (fuel : ℕ) (s : σ) (bs : Bytes) : Prop :=
  ∃ n ≤ bs.length + 1, P.Loops f s bs n ((P.readFields f fuel s).run bs)

theorem readFields_turn (set : σ → TType → ℤ → Reader σ) (fuel : ℕ) (s : σ) :
    P.readFields set (fuel + 1) s = P.turn set s >>= fun o =>
      match o with
      | none => pure s
      | some s => P.readFields set fuel s := by
  rw [readFields_succ]
  unfold turn
  rw [bind_assoc]
  refine congrArg _ (funext fun h => ?_)
  unfold readBody
  obtain hstop | hstop := em (h.1 = .stop) <;> simp [hstop]

/-- What every field keeps, a turn keeps, and it takes a byte at least. -/
theorem Strict.turn_gives (hP : P.Strict) {set : σ → TType → ℤ → Reader σ}
    (hset : ∀ s ty id, Q s → Gives (set s ty id) Q) {bs rest : Bytes} {o : Option σ} (hs : Q s)
    (h : (P.turn set s).run bs = some (o, rest)) :
    (∀ s' ∈ o, Q s') ∧ rest.length < bs.length := by
  obtain ⟨x, mid, hx, h⟩ := run_bind_eq_some.1 h
  have hmid := hP.fieldBegin bs x mid hx
  have hfield : Gives (if x.1 = .stop then pure none else do
      let s ← set s x.1 x.2
      P.readFieldEnd
      pure (some s)) fun o : Option σ => ∀ s' ∈ o, Q s' := by
    split_ifs
    · exact .pure (by simp)
    · exact (hset s x.1 x.2 hs).bind fun s' hs' => hP.fieldEnd.bind fun _ _ => .pure (by simpa)
  obtain ⟨ho, hrest⟩ := hfield mid o rest h
  exact ⟨ho, hrest.trans_lt hmid⟩

theorem Strict.turn_settles (hP : P.Strict) {set : ℕ → σ → TType → ℤ → Reader σ}
    (hgives : ∀ fuel s ty id, Q s → Gives (set fuel s ty id) Q)
    (hset : ∀ s ty id, Settles fun fuel => set fuel s ty id) (hs : Q s) :
    Settles fun fuel => P.turn (set fuel) s := by
  refine (Settles.const _).bind (fun _ => hP.fieldBegin_gives) fun h => ?_
  obtain hstop | hstop := em (h.1 = .stop)
  · simp only [if_pos hstop]
    exact .const _
  · simp only [if_neg hstop]
    exact (hset s h.1 h.2).bind (fun fuel => hgives fuel s h.1 h.2 hs) fun _ => .const _

/-- What every field keeps, the loop keeps. -/
theorem Strict.readFields_gives (hP : P.Strict) {set : σ → TType → ℤ → Reader σ}
    (hset : ∀ s ty id, Q s → Gives (set s ty id) Q) :
    ∀ fuel s, Q s → Gives (P.readFields set fuel s) Q
  | 0, _, _ => .failure
  | fuel + 1, s, hs => by
    rw [readFields_turn]
    have hturn : Gives (P.turn set s) fun o => ∀ s' ∈ o, Q s' := fun bs o rest h =>
      (hP.turn_gives hset hs h).imp_right le_of_lt
    refine hturn.bind fun o ho => ?_
    cases o with
    | none => exact .pure hs
    | some s' => exact hP.readFields_gives hset fuel s' (ho s' rfl)

theorem Strict.readStruct_gives (hP : P.Strict) {set : σ → TType → ℤ → Reader σ}
    (hset : ∀ s ty id, Q s → Gives (set s ty id) Q) (fuel : ℕ) (hs : Q s) :
    Gives (P.readStruct set fuel s) Q :=
  hP.structBegin.bind fun _ _ => (hP.readFields_gives hset fuel s hs).bind fun _ hs' =>
    hP.structEnd.bind fun _ _ => .pure hs'

/-- Every turn but the last leaves fewer bytes. -/
theorem Strict.ends (hP : P.Strict) {set : σ → TType → ℤ → Reader σ}
    (hset : ∀ s ty id, Q s → Gives (set s ty id) Q) :
    ∀ fuel s bs, Q s → bs.length < fuel → P.Ends set fuel s bs
  | 0, _, _, _, hfuel => absurd hfuel (Nat.not_lt_zero _)
  | fuel + 1, s, bs, hs, hfuel => by
    unfold Ends
    rw [readFields_turn, StateT.run_bind]
    cases hturn : (P.turn set s).run bs with
    | none => exact ⟨1, by omega, .raise hturn⟩
    | some x =>
      obtain ⟨o, mid⟩ := x
      obtain ⟨ho, hmid⟩ := hP.turn_gives hset hs hturn
      cases o with
      | none => exact ⟨1, by omega, .stop hturn⟩
      | some s' =>
        obtain ⟨n, hn, hloop⟩ := hP.ends hset fuel s' mid (ho s' rfl) (by omega)
        exact ⟨n + 1, by omega, .field hturn hloop⟩

/-- Fuel for more turns than there are bytes makes no difference. By recursion on the fuel
of one of the two runs. -/
theorem Strict.readFields_settles (hP : P.Strict) {set : ℕ → σ → TType → ℤ → Reader σ}
    (hgives : ∀ fuel s ty id, Q s → Gives (set fuel s ty id) Q)
    (hset : ∀ s ty id, Settles fun fuel => set fuel s ty id) :
    ∀ n n' fuel fuel' bs s, Q s → bs.length < n → bs.length < n' → bs.length < fuel →
      bs.length < fuel' → (P.readFields (set fuel) n s).run bs =
        (P.readFields (set fuel') n' s).run bs
  | 0, _, _, _, _, _, _, hn, _, _, _ => absurd hn (Nat.not_lt_zero _)
  | _, 0, _, _, _, _, _, _, hn', _, _ => absurd hn' (Nat.not_lt_zero _)
  | n + 1, n' + 1, fuel, fuel', bs, s, hs, hn, hn', hf, hf' => by
    rw [readFields_turn, readFields_turn, StateT.run_bind, StateT.run_bind,
      hP.turn_settles hgives hset hs bs fuel fuel' hf hf']
    cases hturn : (P.turn (set fuel') s).run bs with
    | none => rfl
    | some x =>
      obtain ⟨o, rest⟩ := x
      obtain ⟨ho, hrest⟩ := hP.turn_gives (hgives fuel') hs hturn
      cases o with
      | none => rfl
      | some s' =>
        show (P.readFields (set fuel) n s').run rest = (P.readFields (set fuel') n' s').run rest
        exact hP.readFields_settles hgives hset n n' fuel fuel' rest s' (ho s' rfl) (by omega)
          (by omega) (by omega) (by omega)

theorem Strict.readStruct_settles (hP : P.Strict) {set : ℕ → σ → TType → ℤ → Reader σ}
    (hgives : ∀ fuel s ty id, Q s → Gives (set fuel s ty id) Q)
    (hset : ∀ s ty id, Settles fun fuel => set fuel s ty id) (hs : Q s) :
    Settles fun fuel => P.readStruct (set fuel) fuel s := by
  have hloop : Settles fun fuel => P.readFields (set fuel) fuel s :=
    fun bs fuel fuel' hf hf' =>
      hP.readFields_settles hgives hset fuel fuel' fuel fuel' bs s hs hf hf' hf hf'
  exact (Settles.const _).bind (fun _ => hP.structBegin) fun _ => hloop.bind
    (fun fuel => hP.readFields_gives (hgives fuel) fuel s hs) fun _ => .const _

theorem settles_readOr {ty ftype : TType} {r : ℕ → Reader σ} (hr : Settles r) :
    Settles fun fuel => P.readOr ty ftype s (r fuel) := by
  intro bs fuel fuel' hf hf'
  unfold readOr
  split_ifs
  · exact hr bs fuel fuel' hf hf'
  · rfl

theorem Strict.readList_settles (hP : P.Strict) {α : Type} {r : ℕ → Reader α} {R : α → Prop}
    (h : Settles r) (hr : ∀ fuel, Gives (r fuel) R) : Settles fun fuel => P.readList (r fuel) :=
  (Settles.const _).bind (fun _ => hP.listBegin) fun x =>
    (h.replicate hr x.2.toNat).bind (fun fuel => (hr fuel).replicate x.2.toNat) fun _ => .const _

/-- If `f` goes before every field, it goes before the loop. -/
theorem readFields_map {set : σ → TType → ℤ → Reader σ} {f : σ → σ}
    (hset : ∀ s ty id, set (f s) ty id = f <$> set s ty id) :
    ∀ fuel s, P.readFields set fuel (f s) = f <$> P.readFields set fuel s
  | 0, _ => rfl
  | fuel + 1, s => by
    rw [readFields_succ, readFields_succ, map_bind]
    refine congrArg _ (funext fun h => ?_)
    unfold readBody
    split_ifs
    · rfl
    · rw [hset, map_bind, bind_map_left]
      refine congrArg _ (funext fun s' => ?_)
      rw [map_bind]
      exact congrArg _ (funext fun _ => readFields_map hset fuel s')

theorem readStruct_map {set : σ → TType → ℤ → Reader σ} {f : σ → σ}
    (hset : ∀ s ty id, set (f s) ty id = f <$> set s ty id) (fuel : ℕ) (s : σ) :
    P.readStruct set fuel (f s) = f <$> P.readStruct set fuel s := by
  unfold readStruct
  rw [readFields_map hset]
  simp only [map_bind, bind_map_left, map_pure]

end TProtocol

open TProtocol

variable {P : TProtocol}

/-! ## The four structures -/

namespace TEndpoint

theorem setField_gives (hP : P.Strict) (e : TEndpoint) (ftype : TType) (fid : ℤ) (h : e.Typed) :
    Gives (setField P e ftype fid) TEndpoint.Typed := by
  unfold setField
  split_ifs
  · exact hP.readOr_gives h (hP.i32.bind fun n hn => .pure { h with ipv4 := hn })
  · exact hP.readOr_gives h (hP.i16.bind fun n hn => .pure { h with port := hn })
  · exact hP.readOr_gives h (hP.string.bind fun t ht => .pure { h with serviceName := ht })
  · exact hP.skip_gives h

theorem typed_empty : Typed {} :=
  ⟨trivial, trivial, trivial⟩

theorem read_gives (hP : P.Strict) (fuel : ℕ) : Gives (read P fuel) TEndpoint.Typed :=
  hP.readStruct_gives (setField_gives hP) fuel typed_empty

theorem read_settles (hP : P.Strict) : Settles (read P) :=
  hP.readStruct_settles (fun _ => setField_gives hP) (fun _ _ _ => .const _) typed_empty

end TEndpoint

namespace TAnnotation

theorem setField_gives (hP : P.Strict) (fuel : ℕ) (a : TAnnotation) (ftype : TType) (fid : ℤ)
    (h : a.Typed) : Gives (setField P fuel a ftype fid) TAnnotation.Typed := by
  unfold setField
  split_ifs
  · exact hP.readOr_gives h (hP.i64.bind fun n hn => .pure { h with timestamp := hn })
  · exact hP.readOr_gives h (hP.string.bind fun t ht => .pure { h with value := ht })
  · refine hP.readOr_gives h ((TEndpoint.read_gives hP fuel).bind fun e he => .pure ?_)
    exact { h with host := fun e' he' => Option.some.inj he' ▸ he }
  · exact hP.skip_gives h

theorem setField_settles (hP : P.Strict) (a : TAnnotation) (ftype : TType) (fid : ℤ) :
    Settles fun fuel => setField P fuel a ftype fid := by
  unfold setField
  split_ifs
  · exact .const _
  · exact .const _
  · exact settles_readOr ((TEndpoint.read_settles hP).bind (TEndpoint.read_gives hP)
      fun _ => .const _)
  · exact .const _

theorem typed_empty : Typed {} :=
  ⟨trivial, trivial, by simp⟩

theorem read_gives (hP : P.Strict) (fuel : ℕ) : Gives (read P fuel) TAnnotation.Typed :=
  hP.readStruct_gives (setField_gives hP fuel) fuel typed_empty

theorem read_settles (hP : P.Strict) : Settles (read P) :=
  hP.readStruct_settles (setField_gives hP) (setField_settles hP) typed_empty

end TAnnotation

namespace TBinaryAnnotation

theorem setField_gives (hP : P.Strict) (fuel : ℕ) (a : TBinaryAnnotation) (ftype : TType)
    (fid : ℤ) (h : a.Typed) : Gives (setField P fuel a ftype fid) TBinaryAnnotation.Typed := by
  unfold setField
  split_ifs
  · exact hP.readOr_gives h (hP.string.bind fun t ht => .pure { h with key := ht })
  · exact hP.readOr_gives h (hP.string.bind fun t ht => .pure { h with value := ht })
  · exact hP.readOr_gives h (hP.i32.bind fun n hn => .pure { h with annotationType := hn })
  · refine hP.readOr_gives h ((TEndpoint.read_gives hP fuel).bind fun e he => .pure ?_)
    exact { h with host := fun e' he' => Option.some.inj he' ▸ he }
  · exact hP.skip_gives h

theorem setField_settles (hP : P.Strict) (a : TBinaryAnnotation) (ftype : TType) (fid : ℤ) :
    Settles fun fuel => setField P fuel a ftype fid := by
  unfold setField
  split_ifs
  · exact .const _
  · exact .const _
  · exact .const _
  · exact settles_readOr ((TEndpoint.read_settles hP).bind (TEndpoint.read_gives hP)
      fun _ => .const _)
  · exact .const _

theorem typed_empty : Typed {} :=
  ⟨trivial, trivial, trivial, by simp⟩

theorem read_gives (hP : P.Strict) (fuel : ℕ) : Gives (read P fuel) TBinaryAnnotation.Typed :=
  hP.readStruct_gives (setField_gives hP fuel) fuel typed_empty

theorem read_settles (hP : P.Strict) : Settles (read P) :=
  hP.readStruct_settles (setField_gives hP) (setField_settles hP) typed_empty

end TBinaryAnnotation

/-- The attribute `v`, or `u` if it is `None`. -/
def Value.or (u : Value) : Value → Value
  | .none => u
  | v => v

namespace TSpan

/-- The attributes of `t`, and those of `s` that `t` does not have. -/
def overlay (s t : TSpan) : TSpan where
  traceId := s.traceId.or t.traceId
  name := s.name.or t.name
  id := s.id.or t.id
  parentId := s.parentId.or t.parentId
  annotations := t.annotations.or s.annotations
  binaryAnnotations := t.binaryAnnotations.or s.binaryAnnotations

/-- `Span.read`, on the object `s` -/
def readOnto (P : TProtocol) (fuel : ℕ) (s : TSpan) : Reader TSpan :=
  P.readStruct (setField P fuel) fuel s

theorem setField_gives (hP : P.Strict) (fuel : ℕ) (s : TSpan) (ftype : TType) (fid : ℤ)
    (h : s.Typed) : Gives (setField P fuel s ftype fid) TSpan.Typed := by
  unfold setField
  split_ifs
  · exact hP.readOr_gives h (hP.i64.bind fun n hn => .pure { h with traceId := hn })
  · exact hP.readOr_gives h (hP.string.bind fun t ht => .pure { h with name := ht })
  · exact hP.readOr_gives h (hP.i64.bind fun n hn => .pure { h with id := hn })
  · exact hP.readOr_gives h (hP.i64.bind fun n hn => .pure { h with parentId := hn })
  · have hread := TAnnotation.read_gives hP fuel
    refine hP.readOr_gives h ((hP.readList_gives hread).bind fun as has => .pure ?_)
    exact { h with annotations := fun as' has' => Option.some.inj has' ▸ has }
  · have hread := TBinaryAnnotation.read_gives hP fuel
    refine hP.readOr_gives h ((hP.readList_gives hread).bind fun as has => .pure ?_)
    exact { h with binaryAnnotations := fun as' has' => Option.some.inj has' ▸ has }
  · exact hP.skip_gives h

theorem setField_settles (hP : P.Strict) (s : TSpan) (ftype : TType) (fid : ℤ) :
    Settles fun fuel => setField P fuel s ftype fid := by
  unfold setField
  split_ifs
  · exact .const _
  · exact .const _
  · exact .const _
  · exact .const _
  · have hsettles := TAnnotation.read_settles hP
    have hgives := TAnnotation.read_gives hP
    exact settles_readOr ((hP.readList_settles hsettles hgives).bind
      (fun fuel => hP.readList_gives (hgives fuel)) fun _ => .const _)
  · have hsettles := TBinaryAnnotation.read_settles hP
    have hgives := TBinaryAnnotation.read_gives hP
    exact settles_readOr ((hP.readList_settles hsettles hgives).bind
      (fun fuel => hP.readList_gives (hgives fuel)) fun _ => .const _)
  · exact .const _

theorem typed_empty : Typed {} :=
  ⟨trivial, trivial, trivial, trivial, by simp, by simp⟩

theorem read_gives (hP : P.Strict) (fuel : ℕ) : Gives (read P fuel) TSpan.Typed :=
  hP.readStruct_gives (setField_gives hP fuel) fuel typed_empty

theorem read_settles (hP : P.Strict) : Settles (read P) :=
  hP.readStruct_settles (setField_gives hP) (setField_settles hP) typed_empty

/-- A field is read the same over the attributes of `s`. -/
theorem setField_overlay (fuel : ℕ) (s t : TSpan) (ftype : TType) (fid : ℤ) :
    setField P fuel (s.overlay t) ftype fid = s.overlay <$> setField P fuel t ftype fid := by
  unfold setField readOr
  split_ifs
  all_goals
    rw [map_bind]
    rfl

theorem readOnto_eq (fuel : ℕ) (s : TSpan) :
    readOnto P fuel s = s.overlay <$> read P fuel :=
  readStruct_map (setField_overlay fuel s) fuel {}

/-- On any bytes, every loop of `Span.read` ends after one field for each byte at the latest.
What it accepts is typed, and is written so that it is read back as it is, whatever came in.
On an object with attributes it replaces those it finds. -/
theorem read_accepts (hP : P.Strict) :
    (∀ bs fuel, bs.length < fuel →
      P.Ends (f := TEndpoint.setField P) fuel {} bs ∧
      P.Ends (f := TAnnotation.setField P fuel) fuel {} bs ∧
      P.Ends (f := TBinaryAnnotation.setField P fuel) fuel {} bs ∧
      P.Ends (f := setField P fuel) fuel {} bs ∧
      (read P fuel).run bs = (read P (bs.length + 1)).run bs) ∧
    (∀ bs fuel s rest, (read P fuel).run bs = some (s, rest) → s.Typed ∧
      ∃ w, s.write P = .ok w ∧ ∀ fuel' > 6, (read P fuel').run w = some (s, [])) ∧
    ∀ bs fuel s, (readOnto P fuel s).run bs =
      ((read P fuel).run bs).map fun x => (s.overlay x.1, x.2) := by
  refine ⟨fun bs fuel hfuel => ⟨?_, ?_, ?_, ?_, ?_⟩, fun bs fuel s rest h => ?_,
    fun bs fuel s => ?_⟩
  · exact hP.ends (TEndpoint.setField_gives hP) fuel {} bs TEndpoint.typed_empty hfuel
  · have hset := TAnnotation.setField_gives hP fuel
    exact hP.ends hset fuel {} bs TAnnotation.typed_empty hfuel
  · have hset := TBinaryAnnotation.setField_gives hP fuel
    exact hP.ends hset fuel {} bs TBinaryAnnotation.typed_empty hfuel
  · exact hP.ends (setField_gives hP fuel) fuel {} bs typed_empty hfuel
  · exact read_settles hP bs fuel (bs.length + 1) hfuel (Nat.lt_succ_self _)
  · have htyped : s.Typed := (read_gives hP fuel bs s rest h).1
    obtain ⟨w, hw, -⟩ := htyped.transfers (P := P) (by decide : 6 < 7)
    refine ⟨htyped, w, hw, fun fuel' hfuel' => ?_⟩
    obtain ⟨w', hw', hread⟩ := htyped.transfers (P := P) hfuel'
    obtain rfl := Except.ok.inj (hw.symm.trans hw')
    exact hread.run
  · rw [readOnto_eq, StateT.run_map]
    rfl

end TSpan

/-! ## The binary protocol -/

namespace Binary

theorem take_gives (n : ℕ) : Gives (Codec.take n) fun s => s.length = n := by
  intro bs s rest h
  have h : (if n ≤ bs.length then some (bs.take n, bs.drop n) else none) = some (s, rest) := h
  split_ifs at h with hn
  obtain ⟨rfl, rfl⟩ := Prod.mk.inj (Option.some.inj h)
  exact ⟨List.length_take_of_le hn, by simp⟩

theorem readInt_gives {w : ℕ} (hw : 0 < w) : Gives (readInt w) (Fits (8 * w)) := by
  refine (take_gives w).bind fun s hs => .pure ?_
  have hbounds := Endian.ofBigInt_bounds s
  have hpow : (256 ^ w : ℕ) = 2 * 2 ^ (8 * w - 1) := by
    rw [← pow_succ', show 8 * w - 1 + 1 = 8 * w by omega, pow_mul]
    norm_num
  rw [hs, hpow] at hbounds
  push_cast at hbounds
  unfold Fits
  omega

theorem readString_gives : Gives readString fun s => Fits 32 s.length := by
  refine (readInt_gives (w := 4) (by decide)).bind fun n hn => (take_gives n.toNat).mono ?_
  intro s hs
  rw [hs]
  unfold Fits at hn ⊢
  omega

/-- A type takes one byte. -/
theorem readTType_lt {bs rest : Bytes} {ty : TType} (h : readTType.run bs = some (ty, rest)) :
    rest.length < bs.length := by
  cases bs with
  | nil => cases h
  | cons b bs =>
    have hrest : rest.length ≤ bs.length := by
      obtain ⟨s, mid, hs, h⟩ := run_bind_eq_some.1 h
      obtain ⟨-, rfl⟩ := Prod.mk.inj (Option.some.inj hs)
      cases hty : TType.ofCode (s.headD 0) with
      | none =>
        rw [hty] at h
        cases h
      | some ty' =>
        rw [hty] at h
        obtain ⟨-, rfl⟩ := Prod.mk.inj (Option.some.inj h)
        exact le_rfl
    exact Nat.lt_succ_of_le hrest

theorem readFieldBegin_lt {bs rest : Bytes} {x : TType × ℤ}
    (h : readFieldBegin.run bs = some (x, rest)) : rest.length < bs.length := by
  obtain ⟨ty, mid, hty, h⟩ := run_bind_eq_some.1 h
  have hmid := readTType_lt hty
  split_ifs at h
  · obtain ⟨-, rfl⟩ := Prod.mk.inj (Option.some.inj h)
    exact hmid
  · have hid : Gives ((fun n => (ty, n)) <$> readInt 2) fun _ => True :=
      (readInt_gives (by decide)).map fun _ _ => trivial
    exact (hid mid x rest h).2.trans_lt hmid

theorem readListBegin_gives : Gives readListBegin fun h => Fits 32 h.2 := by
  refine Gives.bind (Q := fun _ => True) (fun bs ty rest h => ⟨trivial, (readTType_lt h).le⟩) ?_
  exact fun ty _ => (readInt_gives (w := 4) (by decide)).map fun n hn => hn

theorem skip_gives (ty : TType) : Gives (skip ty) fun _ => True := by
  cases ty with
  | bool | byte => exact (take_gives 1).bind fun _ _ => .pure trivial
  | i16 => exact (readInt_gives (w := 2) (by decide)).bind fun _ _ => .pure trivial
  | i32 => exact (readInt_gives (w := 4) (by decide)).bind fun _ _ => .pure trivial
  | i64 | double => exact (readInt_gives (w := 8) (by decide)).bind fun _ _ => .pure trivial
  | string => exact readString_gives.bind fun _ _ => .pure trivial
  | _ => exact .failure

end Binary

open Binary in
theorem binaryProtocol_strict : binaryProtocol.Strict where
  structBegin := .pure trivial
  structEnd := .pure trivial
  fieldBegin _ _ _ h := readFieldBegin_lt h
  fieldEnd := .pure trivial
  listBegin := readListBegin_gives
  listEnd := .pure trivial
  i16 := readInt_gives (w := 2) (by decide)
  i32 := readInt_gives (w := 4) (by decide)
  i64 := readInt_gives (w := 8) (by decide)
  string := readString_gives
  skip := skip_gives

/-- The id twice, a field that spans do not have, and a parent of another type. -/
def wireSpan : Bytes :=
  [10, 0, 4, 0, 0, 0, 0, 0, 0, 0, 7] ++ [8, 0, 2, 0, 0, 0, 1] ++
    [10, 0, 4, 0, 0, 0, 0, 0, 0, 0, 8] ++ [6, 0, 5, 0, 1] ++ [0]

/-- The last id is read, and the rest is written no more. -/
theorem TSpan.read_accepts_wireSpan :
    ∃ s rest, (read binaryProtocol 36).run wireSpan = some (s, rest) ∧
      ((s.id, s.parentId, rest) = (.int 8, .none, []) ∧ s.Typed ∧
        ∃ w, s.write binaryProtocol = .ok w ∧ ∀ fuel > 6,
          (read binaryProtocol fuel).run w = some (s, [])) := by
  refine ⟨{ id := .int 8 }, [], by decide +kernel, rfl, ?_⟩
  exact (read_accepts binaryProtocol_strict).2.1 wireSpan 36 _ [] (by decide +kernel)

end Blkin
