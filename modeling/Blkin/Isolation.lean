import Blkin.Effects

/-!
# Threads of one process

Threads of a process call the library on traces, annotations, infos and packed infos of
their own, and share endpoints that were set up before. Their calls come in any order,
each as a whole. `record` fills in what an endpoint lacks, where other threads see it,
and all threads draw from one sequence of results of `rand()`.

`isolated` says that neither shows : on the results of `rand()` that it drew, each thread
alone makes its calls with the same statuses and events, and leaves its objects as they
are after the calls of all. Two memories are the `Same` for a thread if its own objects
are the same, and every endpoint but for what `record` fills in.
-/

open Machine

namespace Blkin

/-- An object that belongs to one thread. -/
inductive Obj
  | trace (t : Addr)
  | annot (a : Addr)
  | info (i : Addr)
  | packed (p : Addr)
  deriving DecidableEq

/-- The object an info is part of. -/
def InfoLoc.obj : InfoLoc → Obj
  | .info i => .info i
  | .trace t => .trace t

/-- The objects the call is given, endpoints aside. -/
def Call.objects : Call → List Obj
  | .newTrace t _ _ => t.toList.map .trace
  | .child c p _ _ => c.toList.map .trace ++ p.toList.map .trace
  | .childInfo c p _ _ => c.toList.map .trace ++ p.toList.map InfoLoc.obj
  | .endpoint _ _ _ _ => []
  | .string a _ _ _ => a.toList.map .annot
  | .timestamp a _ _ => a.toList.map .annot
  | .record t a => t.toList.map .trace ++ a.toList.map .annot
  | .getInfo _ t i => t.toList.map .trace ++ i.toList.map InfoLoc.obj
  | .setInfo _ t i => t.toList.map .trace ++ i.toList.map InfoLoc.obj
  | .pack i p => i.toList.map InfoLoc.obj ++ p.toList.map .packed
  | .unpack p i => i.toList.map InfoLoc.obj ++ p.toList.map .packed

/-- The call sets up an endpoint. -/
def Call.isEndpoint : Call → Bool
  | .endpoint _ _ _ _ => true
  | _ => false

/-- The results of `rand()` that were drawn between `m` and `m'`. -/
def Mem.taken (m m' : Mem) : List RandResult :=
  (List.range (m'.drawn - m.drawn)).map fun j => m.rands (m.drawn + j)

/-- A call that a thread made, and what came of it. -/
structure Made (ι : Type*) where
  thread : ι
  ret : Int32
  fired : Option Tracepoint
  taken : List RandResult

/-- The machine of calls by threads. -/
def threadStep {ι : Type*} (m : Mem) (act : ι × Call) : Option (List (Made ι) × Mem) :=
  (exec m act.2).map fun o => ([⟨act.1, o.ret, o.fired, m.taken o.mem⟩], o.mem)

variable {ι : Type*} {own : Obj → ι} {i : ι} {m k : Mem}

/-- The memories are the same for the thread `i`. -/
structure Same (own : Obj → ι) (i : ι) (m k : Mem) : Prop where
  traces : ∀ t, own (.trace t) = i → k.traces t = m.traces t
  annots : ∀ a, own (.annot a) = i → k.annots a = m.annots a
  infos : ∀ j, own (.info j) = i → k.infos j = m.infos j
  packed : ∀ p, own (.packed p) = i → k.packed p = m.packed p
  endps : ∀ e, (k.endps e).filled = (m.endps e).filled
  host : k.host = m.host

namespace Same

theorem refl (own : Obj → ι) (i : ι) (m : Mem) : Same own i m m :=
  ⟨fun _ _ => rfl, fun _ _ => rfl, fun _ _ => rfl, fun _ _ => rfl, fun _ => rfl, rfl⟩

theorem readInfo (h : Same own i m k) {l : InfoLoc} (hl : own l.obj = i) :
    k.readInfo l = m.readInfo l := by
  cases l with
  | info j => exact h.infos j hl
  | trace t => exact congrArg Trace.info (h.traces t hl)

theorem advance (h : Same own i m k) (j : ℕ) : Same own i (m.advance j) (k.advance j) :=
  { h with }

/-- Both memories go on in one object of the thread. -/
theorem modTrace (h : Same own i m k) (t : Addr) {f g : Trace → Trace}
    (hfg : g (k.traces t) = f (m.traces t)) : Same own i (m.modTrace t f) (k.modTrace t g) := by
  refine { h with traces := fun u hu => ?_ }
  rcases eq_or_ne u t with rfl | hne
  · simpa using hfg
  · simpa [hne] using h.traces u hu

theorem modAnnot (h : Same own i m k) (a : Addr) {f g : Annotation → Annotation}
    (hfg : g (k.annots a) = f (m.annots a)) : Same own i (m.modAnnot a f) (k.modAnnot a g) := by
  refine { h with annots := fun u hu => ?_ }
  rcases eq_or_ne u a with rfl | hne
  · simpa using hfg
  · simpa [hne] using h.annots u hu

theorem modEndp (h : Same own i m k) (e : Addr) {f g : Endpoint → Endpoint}
    (hfg : (g (k.endps e)).filled = (f (m.endps e)).filled) :
    Same own i (m.modEndp e f) (k.modEndp e g) := by
  refine { h with endps := fun u => ?_ }
  rcases eq_or_ne u e with rfl | hne
  · simpa using hfg
  · simpa [hne] using h.endps u

theorem modPacked (h : Same own i m k) (p : Addr) (v : PackedInfo) :
    Same own i (m.modPacked p fun _ => v) (k.modPacked p fun _ => v) := by
  refine { h with packed := fun u hu => ?_ }
  rcases eq_or_ne u p with rfl | hne
  · simp
  · simpa [hne] using h.packed u hu

theorem writeInfo (h : Same own i m k) {l : InfoLoc} (hl : own l.obj = i) (v : TraceInfo) :
    Same own i (m.writeInfo l v) (k.writeInfo l v) := by
  cases l with
  | trace t =>
    exact h.modTrace t (f := fun tr => { tr with info := v }) (g := fun tr => { tr with info := v })
      (by rw [h.traces t hl])
  | info j =>
    refine { h with infos := fun u hu => ?_ }
    rcases eq_or_ne u j with rfl | hne
    · simp [Mem.writeInfo]
    · simpa [Mem.writeInfo, hne] using h.infos u hu

theorem fillDefaults (h : Same own i m k) {t a : Addr} (ht : own (.trace t) = i)
    (ha : own (.annot a) = i) (e : Addr) :
    Same own i (m.fillDefaults t a e) (k.fillDefaults t a e) := by
  have hannot := h.modAnnot a (f := fun an => { an with annotationEndpoint := some e })
    (g := fun an => { an with annotationEndpoint := some e }) (by rw [h.annots a ha])
  have htrace := hannot.modTrace t (f := Trace.filled) (g := Trace.filled)
    (by simp [h.traces t ht])
  exact htrace.modEndp e (f := Endpoint.filled) (g := Endpoint.filled) (by simp [h.endps e])

theorem endpointFor (h : Same own i m k) {t a : Addr} (ht : own (.trace t) = i)
    (ha : own (.annot a) = i) : k.endpointFor t a = m.endpointFor t a := by
  rw [Mem.endpointFor, Mem.endpointFor, h.traces t ht, h.annots a ha]

theorem eventFor (h : Same own i m k) {t a : Addr} (ht : own (.trace t) = i)
    (ha : own (.annot a) = i) (e : Addr) : k.eventFor t a e = m.eventFor t a e := by
  have hendp := h.endps e
  simp only [Endpoint.filled, Endpoint.mk.injEq, Option.some.injEq] at hendp
  simp only [Mem.eventFor, Mem.keyvalEvent, Mem.timestampEvent, h.annots a ha, h.traces t ht,
    hendp]

end Same

/-! ## Calls of the thread -/

/-- `k` has the results of `rand()` that are drawn from `m` to `m'`. -/
def Mem.Matches (k m m' : Mem) : Prop :=
  ∀ j, m.drawn + j < m'.drawn → k.rands (k.drawn + j) = m.rands (m.drawn + j)

/-- A function with the result `r` on `m` and `r'` on `k` returns the same status, leaves
the same for the thread, and draws as much. -/
structure Agrees (own : Obj → ι) (i : ι) (m k : Mem) (r s : Int32 × Mem) : Prop where
  ret : s.1 = r.1
  same : Same own i r.2 s.2
  rands : s.2.rands = k.rands
  drawn : s.2.drawn + m.drawn = k.drawn + r.2.drawn

namespace Same

theorem agrees (h : Same own i m k) (ret : Int32) : Agrees own i m k (ret, m) (ret, k) :=
  ⟨rfl, h, rfl, rfl⟩

theorem big {n : ℕ} (hm : k.Matches m (m.advance n)) {j : ℕ} (hj : j < n) :
    k.big j = m.big j := by
  have hfirst := hm (2 * j) (by simp; omega)
  have hsecond := hm (2 * j + 1) (by simp; omega)
  rw [Mem.big, Mem.big, hfirst]
  exact congrArg _ hsecond

theorem newTrace (h : Same own i m k) (t : Ptr) (service : Option CString) (e : Ptr)
    (hm : k.Matches m (initNewTrace m t service e).2) :
    Agrees own i m k (initNewTrace m t service e) (initNewTrace k t service e) := by
  cases t with
  | none => exact h.agrees _
  | some t =>
    rw [initNewTrace_some] at hm
    rw [initNewTrace_some, initNewTrace_some, big hm (by decide : 0 < 2),
      big hm (by decide : 1 < 2)]
    exact ⟨rfl, (h.advance 2).modTrace t (f := fun _ => _) (g := fun _ => _) rfl, rfl,
      by simp; omega⟩

theorem childInfo (h : Same own i m k) (t : Ptr) {l : Option InfoLoc}
    (hl : ∀ l' ∈ l, own l'.obj = i) (e : Ptr) (name : Option CString)
    (hm : k.Matches m (initChildInfo m t l e name).2) :
    Agrees own i m k (initChildInfo m t l e name) (initChildInfo k t l e name) := by
  cases t <;> cases l <;> cases e
  case some.some.some t l e =>
    rw [initChildInfo_some] at hm
    rw [initChildInfo_some, initChildInfo_some, big hm (by decide : 0 < 1),
      h.readInfo (hl l rfl)]
    exact ⟨rfl, (h.advance 1).modTrace t (f := fun _ => _) (g := fun _ => _) rfl, rfl,
      by simp; omega⟩
  all_goals exact h.agrees _

theorem child (h : Same own i m k) (t : Ptr) {p : Ptr} (hp : ∀ p' ∈ p, own (.trace p') = i)
    (e : Ptr) (name : Option CString) (hm : k.Matches m (initChild m t p e name).2) :
    Agrees own i m k (initChild m t p e name) (initChild k t p e name) := by
  cases p with
  | none => exact h.agrees _
  | some p =>
    rw [initChild_some] at hm
    have hend : childEndpoint k p e = childEndpoint m p e := by
      rw [childEndpoint, childEndpoint, h.traces p (hp p rfl)]
    rw [initChild_some, initChild_some, hend]
    refine h.childInfo t (fun l' hl' => ?_) _ name hm
    obtain rfl := Option.mem_some_iff.1 hl'
    exact hp p rfl

theorem string (h : Same own i m k) (a : Ptr) (key val : Option CString) (e : Ptr) :
    Agrees own i m k (r := initStringAnnotation m a key val e)
      (s := initStringAnnotation k a key val e) := by
  cases a <;> cases key <;> cases val
  case some.some.some a key val =>
    rw [initStringAnnotation_some, initStringAnnotation_some]
    exact ⟨rfl, h.modAnnot a (f := fun _ => _) (g := fun _ => _) rfl, rfl, rfl⟩
  all_goals exact h.agrees _

theorem timestamp (h : Same own i m k) {a : Ptr} (ha : ∀ a' ∈ a, own (.annot a') = i)
    (event : Option CString) (e : Ptr) :
    Agrees own i m k (r := initTimestampAnnotation m a event e)
      (s := initTimestampAnnotation k a event e) := by
  cases a <;> cases event
  case some.some a event =>
    rw [initTimestampAnnotation_some, initTimestampAnnotation_some]
    refine ⟨rfl, h.modAnnot a (f := fun an => ⟨.timestamp, an.key, some event, e⟩)
      (g := fun an => ⟨.timestamp, an.key, some event, e⟩) ?_, rfl, rfl⟩
    rw [h.annots a (ha a rfl)]
  all_goals exact h.agrees _

/-- An info of the thread gets a value that is the same on both sides. -/
theorem agrees_writeInfo (h : Same own i m k) {l : InfoLoc} (hl : own l.obj = i) {v v' : TraceInfo}
    (hv : v' = v) (ret : Int32) :
    Agrees own i m k (ret, m.writeInfo l v) (ret, k.writeInfo l v') := by
  subst hv
  refine ⟨rfl, h.writeInfo hl v', ?_, ?_⟩
  · cases l <;> rfl
  · cases l <;> rfl

theorem getInfo (h : Same own i m k) (res : Int32) {t : Ptr} (ht : ∀ t' ∈ t, own (.trace t') = i)
    {l : Option InfoLoc} (hl : ∀ l' ∈ l, own l'.obj = i) :
    Agrees own i m k (getTraceInfo res m t l) (getTraceInfo res k t l) := by
  cases t <;> cases l
  case some.some t l => exact h.agrees_writeInfo (hl l rfl) (by rw [h.traces t (ht t rfl)]) res
  all_goals exact h.agrees _

theorem setInfo (h : Same own i m k) (res : Int32) {t : Ptr} (ht : ∀ t' ∈ t, own (.trace t') = i)
    {l : Option InfoLoc} (hl : ∀ l' ∈ l, own l'.obj = i) :
    Agrees own i m k (setTraceInfo res m t l) (setTraceInfo res k t l) := by
  cases t <;> cases l
  case some.some t l =>
    exact h.agrees_writeInfo (l := .trace t) (ht t rfl) (h.readInfo (hl l rfl)) res
  all_goals exact h.agrees _

theorem pack (h : Same own i m k) {l : Option InfoLoc} (hl : ∀ l' ∈ l, own l'.obj = i) {p : Ptr}
    (hp : ∀ p' ∈ p, own (.packed p') = i) :
    Agrees own i m k (packTraceInfo m l p) (packTraceInfo k l p) := by
  cases l <;> cases p
  case some.some l p =>
    rw [packTraceInfo_some, packTraceInfo_some]
    exact h.agrees_writeInfo (hl l rfl) (by rw [h.packed p (hp p rfl)]) 1
  all_goals exact h.agrees _

theorem unpack (h : Same own i m k) {l : Option InfoLoc} (hl : ∀ l' ∈ l, own l'.obj = i) (p : Ptr) :
    Agrees own i m k (unpackTraceInfo m p l) (unpackTraceInfo k p l) := by
  cases l <;> cases p
  case some.some l p =>
    rw [unpackTraceInfo_some, unpackTraceInfo_some, h.readInfo (hl l rfl)]
    exact ⟨rfl, h.modPacked p _, rfl, rfl⟩
  all_goals exact h.agrees _

/-- A record by the thread, of its own annotation on its own trace. -/
theorem record (h : Same own i m k) {t a : Addr} (ht : own (.trace t) = i)
    (ha : own (.annot a) = i) {o : Outcome} (ho : Blkin.record m (some t) (some a) = some o) :
    ∃ o', Blkin.record k (some t) (some a) = some o' ∧ o'.fired = o.fired ∧
      Agrees own i m k (o.ret, o.mem) (o'.ret, o'.mem) := by
  rw [record_some, Option.map_eq_some_iff] at ho
  obtain ⟨e, he, rfl⟩ := ho
  have hfill := h.fillDefaults ht ha e
  rw [record_some, h.endpointFor ht ha, he, Option.map_some, h.eventFor ht ha e]
  cases m.eventFor t a e with
  | none => exact ⟨_, rfl, rfl, rfl, hfill, rfl, rfl⟩
  | some tp => exact ⟨_, rfl, rfl, rfl, hfill, rfl, rfl⟩

/-- Every call of the thread. -/
theorem exec (h : Same own i m k) {c : Call} (hown : ∀ x ∈ c.objects, own x = i)
    (hc : c.isEndpoint = false) {o : Outcome} (ho : Blkin.exec m c = some o)
    (hm : k.Matches m o.mem) : ∃ o', Blkin.exec k c = some o' ∧ o'.fired = o.fired ∧
      Agrees own i m k (o.ret, o.mem) (o'.ret, o'.mem) := by
  cases c with
  | newTrace t service e =>
    obtain rfl := Option.some.inj ho
    exact ⟨_, rfl, rfl, h.newTrace t service e hm⟩
  | child c p e name =>
    obtain rfl := Option.some.inj ho
    exact ⟨_, rfl, rfl, h.child c (fun p' hp => hown _ (by simp_all [Call.objects])) e name hm⟩
  | childInfo c p e name =>
    obtain rfl := Option.some.inj ho
    exact ⟨_, rfl, rfl, h.childInfo c (fun p' hp => hown _ (by simp_all [Call.objects])) e name hm⟩
  | endpoint e ip port name => cases hc
  | string a key val e =>
    obtain rfl := Option.some.inj ho
    exact ⟨_, rfl, rfl, h.string a key val e⟩
  | timestamp a event e =>
    obtain rfl := Option.some.inj ho
    exact ⟨_, rfl, rfl, h.timestamp (fun a' ha => hown _ (by simp_all [Call.objects])) event e⟩
  | record t a =>
    cases t <;> cases a
    case some.some t a =>
      exact h.record (hown _ (by simp [Call.objects])) (hown _ (by simp [Call.objects])) ho
    all_goals
      obtain rfl := Option.some.inj ho
      exact ⟨_, rfl, rfl, h.agrees _⟩
  | getInfo res t l =>
    obtain rfl := Option.some.inj ho
    exact ⟨_, rfl, rfl, h.getInfo res (fun t' ht => hown _ (by simp_all [Call.objects]))
      fun l' hl => hown _ (by simp_all [Call.objects])⟩
  | setInfo res t l =>
    obtain rfl := Option.some.inj ho
    exact ⟨_, rfl, rfl, h.setInfo res (fun t' ht => hown _ (by simp_all [Call.objects]))
      fun l' hl => hown _ (by simp_all [Call.objects])⟩
  | pack l p =>
    obtain rfl := Option.some.inj ho
    exact ⟨_, rfl, rfl, h.pack (fun l' hl => hown _ (by simp_all [Call.objects]))
      fun p' hp => hown _ (by simp_all [Call.objects])⟩
  | unpack p l =>
    obtain rfl := Option.some.inj ho
    exact ⟨_, rfl, rfl, h.unpack (fun l' hl => hown _ (by simp_all [Call.objects])) p⟩

/-! ## Calls of other threads -/

theorem otherAdvance (h : Same own i m k) (j : ℕ) : Same own i (m.advance j) k :=
  { h with }

/-- One memory goes on in an object of another thread. -/
theorem otherTrace (h : Same own i m k) {t : Addr} (ht : own (.trace t) ≠ i)
    (f : Trace → Trace) : Same own i (m.modTrace t f) k := by
  refine { h with traces := fun u hu => ?_ }
  have hne : u ≠ t := by
    rintro rfl
    exact ht hu
  simpa [hne] using h.traces u hu

theorem otherAnnot (h : Same own i m k) {a : Addr} (ha : own (.annot a) ≠ i)
    (f : Annotation → Annotation) : Same own i (m.modAnnot a f) k := by
  refine { h with annots := fun u hu => ?_ }
  have hne : u ≠ a := by
    rintro rfl
    exact ha hu
  simpa [hne] using h.annots u hu

theorem otherPacked (h : Same own i m k) {p : Addr} (hp : own (.packed p) ≠ i)
    (f : PackedInfo → PackedInfo) : Same own i (m.modPacked p f) k := by
  refine { h with packed := fun u hu => ?_ }
  have hne : u ≠ p := by
    rintro rfl
    exact hp hu
  simpa [hne] using h.packed u hu

theorem otherInfo (h : Same own i m k) {l : InfoLoc} (hl : own l.obj ≠ i) (v : TraceInfo) :
    Same own i (m.writeInfo l v) k := by
  cases l with
  | trace t => exact h.otherTrace hl fun tr => { tr with info := v }
  | info j =>
    refine { h with infos := fun u hu => ?_ }
    have hne : u ≠ j := by
      rintro rfl
      exact hl hu
    simpa [Mem.writeInfo, hne] using h.infos u hu

/-- What another thread's `record` fills in of an endpoint does not show. -/
theorem otherFill (h : Same own i m k) {t a : Addr} (ht : own (.trace t) ≠ i)
    (ha : own (.annot a) ≠ i) (e : Addr) : Same own i (m.fillDefaults t a e) k := by
  have hobjects := (h.otherAnnot ha fun an => { an with annotationEndpoint := some e }).otherTrace
    ht Trace.filled
  refine { hobjects with endps := fun u => ?_ }
  rw [h.endps u]
  exact (m.filled_endps_fillDefaults t a e u).symm

theorem execOther (h : Same own i m k) {c : Call} (hown : ∀ x ∈ c.objects, own x ≠ i)
    (hc : c.isEndpoint = false) {o : Outcome} (ho : Blkin.exec m c = some o) :
    Same own i o.mem k := by
  obtain ⟨m', tp, he, rfl⟩ | ⟨-, rfl⟩ := exec_cases ho
  · show Same own i m' k
    cases Call.accepts_of_effect he with
    | newTrace t service e =>
      exact (h.otherAdvance 2).otherTrace (hown (.trace t) (by simp [Call.objects])) _
    | child t p e name e' he' =>
      exact (h.otherAdvance 1).otherTrace (hown (.trace t) (by simp [Call.objects])) _
    | childInfo t l e name =>
      exact (h.otherAdvance 1).otherTrace (hown (.trace t) (by simp [Call.objects])) _
    | endpoint e ip port name => cases hc
    | string a key val e => exact h.otherAnnot (hown (.annot a) (by simp [Call.objects])) _
    | timestamp a event e => exact h.otherAnnot (hown (.annot a) (by simp [Call.objects])) _
    | record t a e tp he' hev =>
      exact h.otherFill (hown (.trace t) (by simp [Call.objects]))
        (hown (.annot a) (by simp [Call.objects])) e
    | getInfo res t l => exact h.otherInfo (hown l.obj (by simp [Call.objects])) _
    | setInfo res t l =>
      exact h.otherInfo (l := .trace t) (hown (.trace t) (by simp [Call.objects])) _
    | pack l p => exact h.otherInfo (hown l.obj (by simp [Call.objects])) _
    | unpack p l => exact h.otherPacked (hown (.packed p) (by simp [Call.objects])) _
  · cases c with
    | record t a =>
      cases t <;> cases a
      case some.some t a =>
        cases he : m.endpointFor t a with
        | none => simpa [Call.rejected, he] using h
        | some e =>
          have hfill := h.otherFill (hown (.trace t) (by simp [Call.objects]))
            (hown (.annot a) (by simp [Call.objects])) e
          simpa [Call.rejected, he] using hfill
      all_goals exact h
    | _ => exact h

end Same

/-! ## Runs -/

/-- The next results of `rand()` are `xs`. -/
def Mem.Supplies (k : Mem) (xs : List RandResult) : Prop :=
  ∀ j (hj : j < xs.length), k.rands (k.drawn + j) = xs[j]

/-- The results of `rand()` that the thread drew in its calls. -/
def Made.drawn [DecidableEq ι] (i : ι) (made : List (Made ι)) : List RandResult :=
  (made.filter (·.thread = i)).flatMap Made.taken

theorem Mem.Supplies.left {k : Mem} {xs ys : List RandResult} (h : k.Supplies (xs ++ ys)) :
    k.Supplies xs := by
  intro j hj
  rw [h j (by simp; omega), List.getElem_append_left hj]

theorem Mem.Supplies.right {k k' : Mem} {xs ys : List RandResult} (h : k.Supplies (xs ++ ys))
    (hr : k'.rands = k.rands) (hd : k'.drawn = k.drawn + xs.length) : k'.Supplies ys := by
  intro j hj
  rw [hr, hd, Nat.add_assoc, h (xs.length + j) (by simp; omega),
    List.getElem_append_right (by omega)]
  simp

@[simp] theorem Mem.length_taken (m m' : Mem) :
    (m.taken m').length = m'.drawn - m.drawn := by
  simp [taken]

theorem Mem.Supplies.matches {m m' k : Mem} (h : k.Supplies (m.taken m')) : k.Matches m m' := by
  intro j hj
  rw [h j (by rw [length_taken]; omega)]
  simp [taken]

theorem Mem.taken_eq {m m' k k' : Mem} (hm : k.Matches m m') (hd : k'.drawn + m.drawn =
    k.drawn + m'.drawn) : k.taken k' = m.taken m' := by
  have hlen : k'.drawn - k.drawn = m'.drawn - m.drawn := by omega
  rw [taken, taken, hlen]
  refine List.map_congr_left fun j hj => hm j ?_
  have hj := List.mem_range.1 hj
  omega

/-- No call gives results of `rand()` back. -/
theorem drawn_le {m : Mem} {c : Call} {o : Outcome} (h : exec m c = some o) :
    m.drawn ≤ o.mem.drawn := by
  obtain ⟨m', tp, he, rfl⟩ | ⟨-, rfl⟩ := exec_cases h
  · cases Call.accepts_of_effect he with
    | newTrace t service e => exact Nat.le_add_right _ _
    | child t p e name e' he' => exact Nat.le_add_right _ _
    | childInfo t l e name => exact Nat.le_add_right _ _
    | getInfo res t l | pack l p => cases l <;> exact le_rfl
    | _ => exact le_rfl
  · cases c with
    | record t a =>
      cases t <;> cases a
      case some.some t a =>
        rw [Call.rejected]
        cases m.endpointFor t a <;> exact le_rfl
      all_goals exact le_rfl
    | _ => exact le_rfl

/-- Each thread alone makes its calls with the same statuses and events, and leaves its
objects as they are after the calls of all. -/
theorem isolated [DecidableEq ι] : ∀ {acts : List (ι × Call)} {m k m' : Mem}
    {made : List (Made ι)}, (∀ act ∈ acts, ∀ x ∈ act.2.objects, own x = act.1) →
    (∀ act ∈ acts, act.2.isEndpoint = false) → Same own i m k →
    k.Supplies (Made.drawn i made) → run threadStep m acts = some (made, m') →
    ∃ k', run threadStep k (acts.filter (·.1 = i)) = some (made.filter (·.thread = i), k') ∧
      Same own i m' k'
  | [], m, k, m', made, _, _, h, _, hr => by
    obtain ⟨rfl, rfl⟩ : [] = made ∧ m = m' := by simpa using hr
    exact ⟨k, rfl, h⟩
  | (j, c) :: acts, m, k, m', made, hown, hendp, h, hs, hr => by
    obtain ⟨made₁, m₁, made₂, hstep, hrest, rfl⟩ := run_cons_eq_some.1 hr
    obtain ⟨o, ho, heq⟩ := Option.map_eq_some_iff.1 hstep
    obtain ⟨rfl, rfl⟩ := Prod.mk.inj heq
    have hc := hendp _ List.mem_cons_self
    have hx := hown _ List.mem_cons_self
    have hown' := fun act hact => hown act (List.mem_cons_of_mem _ hact)
    have hendp' := fun act hact => hendp act (List.mem_cons_of_mem _ hact)
    by_cases hji : j = i
    · have hs : k.Supplies (m.taken o.mem ++ Made.drawn i made₂) := by
        simpa [Made.drawn, hji] using hs
      have hm := hs.left.matches
      obtain ⟨o', ho', hfired, hagrees⟩ := h.exec (fun x hx' => (hx x hx').trans hji) hc ho hm
      have hdrawn : o'.mem.drawn + m.drawn = k.drawn + o.mem.drawn := hagrees.drawn
      have hlen : o'.mem.drawn = k.drawn + (m.taken o.mem).length := by
        have hle := drawn_le ho
        rw [Mem.length_taken]
        omega
      obtain ⟨k', hk', hsame⟩ := isolated hown' hendp' hagrees.same
        (hs.right hagrees.rands hlen) hrest
      refine ⟨k', ?_, hsame⟩
      rw [List.filter_cons_of_pos (by simpa using hji), List.filter_append]
      refine run_cons_eq_some.2 ⟨_, _, _, ?_, hk', rfl⟩
      have hret : o'.ret = o.ret := hagrees.ret
      simp [threadStep, ho', hfired, hret, Mem.taken_eq hm hdrawn, hji]
    · have hsame := h.execOther (fun x hx' => (hx x hx').trans_ne hji) hc ho
      have hs' : k.Supplies (Made.drawn i made₂) := by simpa [Made.drawn, hji] using hs
      obtain ⟨k', hk', hsame⟩ := isolated hown' hendp' hsame hs' hrest
      refine ⟨k', ?_, hsame⟩
      simpa [hji] using hk'

/-- Objects at even addresses are the first thread's, those at odd addresses the second's. -/
def Obj.parity : Obj → ℕ
  | .trace t => t % 2
  | .annot a => a % 2
  | .info i => i % 2
  | .packed p => p % 2

/-- Two threads that share an endpoint without ip and name. The second one records first,
and so names the endpoint before the first does. -/
def evenAndOdd : List (ℕ × Call) :=
  [(0, .newTrace (some 0) none (some 0)), (1, .newTrace (some 1) none (some 0)),
    (1, .timestamp (some 1) (some (.lit "odd")) none), (1, .record (some 1) (some 1)),
    (0, .timestamp (some 0) (some (.lit "even")) none), (0, .record (some 0) (some 0)),
    (0, .child (some 2) (some 0) none none)]

/-- The first thread draws the results 0, 1, 2, 3, 8 and 9, and alone does the same on
these. -/
theorem isolated_two_threads : ∃ made m',
    run threadStep (.static .little .ofNat) evenAndOdd = some (made, m') ∧
    ∃ k', run threadStep (.static .little fun n => .ofNat (if n < 4 then n else n + 4))
        (evenAndOdd.filter (·.1 = 0)) = some (made.filter (·.thread = 0), k') ∧
      Same Obj.parity 0 m' k' := by
  refine exists_of_map_eq (f := fun r => Made.drawn 0 r.1)
    (c := [.ofNat 0, .ofNat 1, .ofNat 2, .ofNat 3, .ofNat 8, .ofNat 9]) (by decide +kernel) ?_
  intro made m' hr hdrawn
  refine isolated (by decide) (by decide) ?_ ?_ hr
  · exact { Same.refl Obj.parity 0 (.static .little .ofNat) with }
  · have hdrawn : Made.drawn 0 made = _ := hdrawn
    rw [hdrawn, Mem.Supplies]
    decide

end Blkin
