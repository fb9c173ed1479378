import Blkin.Packed
import Blkin.Calls

/-!
# Recording is transparent

`record` writes : into the trace, into the annotation, and into an endpoint that other
traces may share. A `Careful` program initialises each annotation again before every
record of it. For such programs the writes do not show : without one of its record calls
a program emits the same events, less that call's, and leaves the same ids everywhere
(`record_transparent`).

Two memories are `Alike` if they differ only in what `record` fills in : names and ips
that are missing in one and the default in the other, and the endpoints of annotations
that were recorded since they were last initialised.
-/

open Machine

namespace Blkin

structure Careful where
  mem : Mem
  /-- Initialised since they were last recorded. -/
  fresh : Addr → Bool

namespace Careful

/-- No annotation is initialised. -/
def start (m : Mem) : Careful :=
  ⟨m, fun _ => false⟩

/-- One call. A recorded annotation was successfully initialised since it was last
recorded. -/
def step (s : Careful) (c : Call) : Option (List Tracepoint × Careful) := do
  let (out, m) ← Blkin.step s.mem c
  match c with
  | .string (some a) (some _) (some _) _ => some (out, ⟨m, Function.update s.fresh a true⟩)
  | .timestamp (some a) (some _) _ => some (out, ⟨m, Function.update s.fresh a true⟩)
  | .record (some _) (some a) =>
    if s.fresh a then some (out, ⟨m, Function.update s.fresh a false⟩) else none
  | _ => some (out, ⟨m, s.fresh⟩)

theorem step_mem {s s' : Careful} {c : Call} {out : List Tracepoint}
    (h : step s c = some (out, s')) : Blkin.step s.mem c = some (out, s'.mem) := by
  simp only [step, Option.bind_eq_bind, Option.bind_eq_some_iff] at h
  obtain ⟨⟨o, m⟩, hm, h⟩ := h
  rw [hm]
  split at h
  case h_3 => split_ifs at h; obtain ⟨rfl, rfl⟩ := Prod.mk.inj (Option.some.inj h); rfl
  all_goals
    obtain ⟨rfl, rfl⟩ := Prod.mk.inj (Option.some.inj h)
    rfl

/-- A careful program is a program. -/
theorem simulates_step : Simulates step Blkin.step fun s m => s.mem = m := by
  rintro s _ c out s' rfl h
  exact ⟨s'.mem, step_mem h, rfl⟩

end Careful

/-! ## Memories that differ in what `record` fills in -/

/-- The annotation has what `record` needs for its type. -/
def Annotation.Complete (an : Annotation) : Prop :=
  an.val ≠ none ∧ (an.type = .string → an.key ≠ none)

theorem Annotation.Complete.string (key val : CString) (e : Ptr) :
    Complete ⟨.string, some key, some val, e⟩ :=
  ⟨by simp, by simp⟩

theorem Annotation.Complete.timestamp (key : Option CString) (event : CString) (e : Ptr) :
    Complete ⟨.timestamp, key, some event, e⟩ :=
  ⟨by simp, by simp⟩

theorem Mem.eventFor_eq_none_iff {m : Mem} {t a e : Addr} :
    m.eventFor t a e = none ↔ ¬(m.annots a).Complete := by
  unfold eventFor Annotation.Complete
  cases hty : (m.annots a).type <;> cases hk : (m.annots a).key <;>
    cases hv : (m.annots a).val <;> simp

/-- The annotation but for its endpoint. -/
def Annotation.unlinked (an : Annotation) : Annotation :=
  { an with annotationEndpoint := none }

namespace Mem

variable (m : Mem) (t a e : Addr)

theorem unlinked_annots_fillDefaults (b : Addr) :
    ((m.fillDefaults t a e).annots b).unlinked = (m.annots b).unlinked := by
  rcases eq_or_ne b a with rfl | hb
  · simp [fillDefaults, Annotation.unlinked]
  · simp [fillDefaults, hb]

theorem annots_fillDefaults_of_ne {b : Addr} (hb : b ≠ a) :
    (m.fillDefaults t a e).annots b = m.annots b := by
  simp [fillDefaults, hb]

end Mem

/-- The memories are the same but for what `record` fills in, and so are the
annotations that are `fresh` on the left. -/
structure Alike (s s' : Careful) : Prop where
  traces : ∀ t, (s.mem.traces t).filled = (s'.mem.traces t).filled
  endps : ∀ e, (s.mem.endps e).filled = (s'.mem.endps e).filled
  annots : ∀ a, (s.mem.annots a).unlinked = (s'.mem.annots a).unlinked
  fresh : ∀ a, s.fresh a = true → s'.fresh a = true ∧ (s.mem.annots a).Complete ∧
    (s.mem.annots a).annotationEndpoint = (s'.mem.annots a).annotationEndpoint
  infos : s.mem.infos = s'.mem.infos
  packed : s.mem.packed = s'.mem.packed
  rands : s.mem.rands = s'.mem.rands
  drawn : s.mem.drawn = s'.mem.drawn

namespace Alike

variable {s s' : Careful}

theorem info (h : Alike s s') (t : Addr) : (s.mem.traces t).info = (s'.mem.traces t).info := by
  rw [← Trace.filled_info, h.traces, Trace.filled_info]

theorem traceEndpoint (h : Alike s s') (t : Addr) :
    (s.mem.traces t).traceEndpoint = (s'.mem.traces t).traceEndpoint := by
  rw [← Trace.filled_traceEndpoint, h.traces, Trace.filled_traceEndpoint]

theorem readInfo (h : Alike s s') (l : InfoLoc) : s.mem.readInfo l = s'.mem.readInfo l := by
  cases l with
  | info i => exact congrFun h.infos i
  | trace t => exact h.info t

theorem big (h : Alike s s') (k : ℕ) : s.mem.big k = s'.mem.big k := by
  simp [Mem.big, h.rands, h.drawn]

/-- A record of an annotation that is fresh on the left makes the same choice and the
same event. -/
theorem endpointFor (h : Alike s s') (t : Addr) {a : Addr} (ha : s.fresh a = true) :
    s.mem.endpointFor t a = s'.mem.endpointFor t a := by
  rw [Mem.endpointFor, Mem.endpointFor, (h.fresh a ha).2.2, h.traceEndpoint]

theorem annot (h : Alike s s') {a : Addr} (ha : s.fresh a = true) :
    s.mem.annots a = s'.mem.annots a := by
  have hun := Annotation.mk.inj (h.annots a)
  exact Annotation.ext hun.1 hun.2.1 hun.2.2.1 (h.fresh a ha).2.2

theorem eventFor (h : Alike s s') (t : Addr) {a : Addr} (e : Addr) (ha : s.fresh a = true) :
    s.mem.eventFor t a e = s'.mem.eventFor t a e := by
  have htrace := h.traces t
  have hendp := h.endps e
  simp only [Trace.filled, Trace.mk.injEq, Option.some.injEq] at htrace
  simp only [Endpoint.filled, Endpoint.mk.injEq, Option.some.injEq] at hendp
  simp only [Mem.eventFor, Mem.keyvalEvent, Mem.timestampEvent, h.annot ha, htrace, hendp]

theorem eventFor_ne_none (h : Alike s s') (t : Addr) {a : Addr} (e : Addr)
    (ha : s.fresh a = true) : s.mem.eventFor t a e ≠ none := by
  obtain ⟨hval, hkey⟩ := (h.fresh a ha).2.1
  obtain ⟨v, hv⟩ := Option.ne_none_iff_exists'.1 hval
  cases hty : (s.mem.annots a).type with
  | string =>
    obtain ⟨k, hk⟩ := Option.ne_none_iff_exists'.1 (hkey hty)
    simp [Mem.eventFor, hty, hk, hv]
  | timestamp => simp [Mem.eventFor, hty, hv]

theorem advance (h : Alike s s') (k : ℕ) :
    Alike ⟨s.mem.advance k, s.fresh⟩ ⟨s'.mem.advance k, s'.fresh⟩ :=
  { h with drawn := congrArg (· + 2 * k) h.drawn }

theorem modTrace (h : Alike s s') (t : Addr) {f g : Trace → Trace}
    (hfg : (f (s.mem.traces t)).filled = (g (s'.mem.traces t)).filled) :
    Alike ⟨s.mem.modTrace t f, s.fresh⟩ ⟨s'.mem.modTrace t g, s'.fresh⟩ := by
  refine { h with traces := fun u => ?_ }
  rcases eq_or_ne u t with rfl | hu
  · simpa using hfg
  · simpa [hu] using h.traces u

theorem modEndp (h : Alike s s') (e : Addr) {f g : Endpoint → Endpoint}
    (hfg : (f (s.mem.endps e)).filled = (g (s'.mem.endps e)).filled) :
    Alike ⟨s.mem.modEndp e f, s.fresh⟩ ⟨s'.mem.modEndp e g, s'.fresh⟩ := by
  refine { h with endps := fun u => ?_ }
  rcases eq_or_ne u e with rfl | hu
  · simpa using hfg
  · simpa [hu] using h.endps u

theorem modPacked (h : Alike s s') (p : Addr) (f : PackedInfo → PackedInfo) :
    Alike ⟨s.mem.modPacked p f, s.fresh⟩ ⟨s'.mem.modPacked p f, s'.fresh⟩ :=
  { h with packed := by simp [Mem.modPacked, h.packed] }

theorem writeInfo (h : Alike s s') (l : InfoLoc) (v : TraceInfo) :
    Alike ⟨s.mem.writeInfo l v, s.fresh⟩ ⟨s'.mem.writeInfo l v, s'.fresh⟩ := by
  cases l with
  | info i => exact { h with infos := by simp [Mem.writeInfo, h.infos] }
  | trace t =>
    refine h.modTrace t (f := fun tr => { tr with info := v })
      (g := fun tr => { tr with info := v }) ?_
    have hfilled := h.traces t
    simp only [Trace.filled, Trace.mk.injEq] at hfilled ⊢
    exact ⟨hfilled.1, trivial, hfilled.2.2⟩

/-- An annotation that is initialised is complete and the same on both sides. -/
theorem initAnnot (h : Alike s s') (a : Addr) {f g : Annotation → Annotation}
    (hfg : f (s.mem.annots a) = g (s'.mem.annots a)) (hc : (f (s.mem.annots a)).Complete) :
    Alike ⟨s.mem.modAnnot a f, Function.update s.fresh a true⟩
      ⟨s'.mem.modAnnot a g, Function.update s'.fresh a true⟩ := by
  refine { h with annots := fun b => ?_, fresh := fun b hb => ?_ }
  · rcases eq_or_ne b a with rfl | hne
    · simp [hfg]
    · simpa [hne] using h.annots b
  · rcases eq_or_ne b a with rfl | hne
    · simpa [hfg] using hc
    · simpa [hne] using h.fresh b (by simpa [hne] using hb)

/-- What `record` writes does not show on the left, where the annotation is recorded. -/
theorem fill_left (h : Alike s s') (t a e : Addr) :
    Alike ⟨s.mem.fillDefaults t a e, Function.update s.fresh a false⟩ s' := by
  refine { h with traces := fun u => ?_, endps := fun u => ?_, annots := fun b => ?_,
                  fresh := fun b hb => ?_ }
  · rw [Mem.filled_traces_fillDefaults, h.traces]
  · rw [Mem.filled_endps_fillDefaults, h.endps]
  · rw [Mem.unlinked_annots_fillDefaults, h.annots]
  · rcases eq_or_ne b a with rfl | hne
    · simp at hb
    · rw [Mem.annots_fillDefaults_of_ne _ _ _ _ hne]
      exact h.fresh b (by simpa [hne] using hb)

/-- Nor on the right, if the annotation is not fresh on the left. -/
theorem fill_right (h : Alike s s') (t : Addr) {a : Addr} (e : Addr) (ha : s.fresh a = false) :
    Alike s ⟨s'.mem.fillDefaults t a e, Function.update s'.fresh a false⟩ := by
  refine { h with traces := fun u => ?_, endps := fun u => ?_, annots := fun b => ?_,
                  fresh := fun b hb => ?_ }
  · rw [Mem.filled_traces_fillDefaults, h.traces]
  · rw [Mem.filled_endps_fillDefaults, h.endps]
  · rw [Mem.unlinked_annots_fillDefaults, h.annots]
  · have hne : b ≠ a := fun hba => by simp [hba, ha] at hb
    have hfresh := h.fresh b hb
    rw [Mem.annots_fillDefaults_of_ne _ _ _ _ hne]
    exact ⟨by simpa [hne] using hfresh.1, hfresh.2⟩

/-! Every call keeps alike memories alike. -/

theorem newTrace (h : Alike s s') (t : Ptr) (service : Option CString) (e : Ptr) :
    Alike ⟨(initNewTrace s.mem t service e).2, s.fresh⟩
      ⟨(initNewTrace s'.mem t service e).2, s'.fresh⟩ := by
  cases t with
  | none => exact h
  | some t =>
    simp only [initNewTrace_some, h.big]
    exact (h.advance 2).modTrace t (f := fun _ => _) (g := fun _ => _) rfl

theorem childInfo (h : Alike s s') (t : Ptr) (l : Option InfoLoc) (e : Ptr)
    (name : Option CString) :
    Alike ⟨(initChildInfo s.mem t l e name).2, s.fresh⟩
      ⟨(initChildInfo s'.mem t l e name).2, s'.fresh⟩ := by
  cases t <;> cases l <;> cases e
  case some.some.some t l e =>
    simp only [initChildInfo_some, h.big, h.readInfo]
    exact (h.advance 1).modTrace t (f := fun _ => _) (g := fun _ => _) rfl
  all_goals exact h

theorem child (h : Alike s s') (t p e : Ptr) (name : Option CString) :
    Alike ⟨(initChild s.mem t p e name).2, s.fresh⟩
      ⟨(initChild s'.mem t p e name).2, s'.fresh⟩ := by
  cases p with
  | none => exact h
  | some p =>
    rw [initChild_some, initChild_some, childEndpoint, childEndpoint, h.traceEndpoint]
    exact h.childInfo t _ _ name

theorem endpoint (h : Alike s s') (e : Ptr) (ip : Option CString) (port : Int32)
    (name : Option CString) :
    Alike ⟨(initEndpoint s.mem e ip port name).2, s.fresh⟩
      ⟨(initEndpoint s'.mem e ip port name).2, s'.fresh⟩ := by
  cases e with
  | none => exact h
  | some e =>
    rw [initEndpoint_some, initEndpoint_some]
    exact h.modEndp e (f := fun _ => _) (g := fun _ => _) rfl

theorem getInfo (h : Alike s s') (res : Int32) (t : Ptr) (l : Option InfoLoc) :
    Alike ⟨(getTraceInfo res s.mem t l).2, s.fresh⟩
      ⟨(getTraceInfo res s'.mem t l).2, s'.fresh⟩ := by
  cases t <;> cases l
  case some.some t l =>
    simp only [getTraceInfo, h.info]
    exact h.writeInfo l _
  all_goals exact h

theorem setInfo (h : Alike s s') (res : Int32) (t : Ptr) (l : Option InfoLoc) :
    Alike ⟨(setTraceInfo res s.mem t l).2, s.fresh⟩
      ⟨(setTraceInfo res s'.mem t l).2, s'.fresh⟩ := by
  cases t <;> cases l
  case some.some t l =>
    simp only [setTraceInfo, h.readInfo]
    exact h.writeInfo (.trace t) _
  all_goals exact h

theorem pack (h : Alike s s') (l : Option InfoLoc) (p : Ptr) :
    Alike ⟨(packTraceInfo s.mem l p).2, s.fresh⟩ ⟨(packTraceInfo s'.mem l p).2, s'.fresh⟩ := by
  cases l <;> cases p
  case some.some l p =>
    rw [packTraceInfo_some, packTraceInfo_some, h.packed]
    exact h.writeInfo l _
  all_goals exact h

theorem unpack (h : Alike s s') (p : Ptr) (l : Option InfoLoc) :
    Alike ⟨(unpackTraceInfo s.mem p l).2, s.fresh⟩
      ⟨(unpackTraceInfo s'.mem p l).2, s'.fresh⟩ := by
  cases p <;> cases l
  case some.some p l =>
    rw [unpackTraceInfo_some, unpackTraceInfo_some, h.readInfo]
    exact h.modPacked p fun _ => _
  all_goals exact h

/-- A record of a fresh annotation on the left alone. -/
theorem record_left (h : Alike s s') {t a : Addr} {o : Outcome} (ha : s.fresh a = true)
    (ho : record s.mem (some t) (some a) = some o) :
    (∃ tp, o.fired = some tp) ∧ Alike ⟨o.mem, Function.update s.fresh a false⟩ s' := by
  obtain ⟨e, he, hmem, hfired⟩ := record_cases ho
  rw [hmem, hfired]
  exact ⟨Option.ne_none_iff_exists'.1 (h.eventFor_ne_none t e ha), h.fill_left t a e⟩

theorem record (h : Alike s s') {t a : Addr} {o : Outcome} (ha : s.fresh a = true)
    (ho : Blkin.record s.mem (some t) (some a) = some o) :
    ∃ o', Blkin.record s'.mem (some t) (some a) = some o' ∧ o'.fired = o.fired ∧
      Alike ⟨o.mem, Function.update s.fresh a false⟩
        ⟨o'.mem, Function.update s'.fresh a false⟩ := by
  obtain ⟨e, he, hmem, hfired⟩ := record_cases ho
  have hfill : Alike ⟨s.mem.fillDefaults t a e, Function.update s.fresh a false⟩
      ⟨s'.mem.fillDefaults t a e, Function.update s'.fresh a false⟩ :=
    (h.fill_left t a e).fill_right t e (by simp)
  rw [record_some, ← h.endpointFor t ha, he, Option.map_some, ← h.eventFor t e ha, hmem, hfired]
  refine ⟨_, rfl, ?_⟩
  cases s.mem.eventFor t a e <;> exact ⟨rfl, hfill⟩

end Alike

namespace Careful

/-- A call answered from an alike memory by the same events and an alike memory. -/
theorem simulates_alike : Simulates step step Alike := by
  intro s s' c out s₁ h hs
  simp only [step, Blkin.step, Option.bind_eq_bind, Option.bind_eq_some_iff,
    Option.map_eq_some_iff] at hs
  obtain ⟨_, ⟨o, ho, rfl⟩, hs⟩ := hs
  -- a call that initialises no annotation and fires nothing
  have quiet : ∀ {m m' : Mem}, some ([], (⟨m, s.fresh⟩ : Careful)) = some (out, s₁) →
      Alike ⟨m, s.fresh⟩ ⟨m', s'.fresh⟩ →
      ∃ t, some ([], (⟨m', s'.fresh⟩ : Careful)) = some (out, t) ∧ Alike s₁ t := by
    intro m m' hs hm
    obtain ⟨rfl, rfl⟩ := Prod.mk.inj (Option.some.inj hs)
    exact ⟨_, rfl, hm⟩
  cases c with
  | newTrace t service e =>
    obtain rfl := Option.some.inj ho
    exact quiet hs (h.newTrace t service e)
  | child t p e name =>
    obtain rfl := Option.some.inj ho
    exact quiet hs (h.child t p e name)
  | childInfo t l e name =>
    obtain rfl := Option.some.inj ho
    exact quiet hs (h.childInfo t l e name)
  | endpoint e ip port name =>
    obtain rfl := Option.some.inj ho
    exact quiet hs (h.endpoint e ip port name)
  | string a key val e =>
    obtain rfl := Option.some.inj ho
    cases a <;> cases key <;> cases val
    case some.some.some a key val =>
      obtain ⟨rfl, rfl⟩ := Prod.mk.inj (Option.some.inj hs)
      refine ⟨_, rfl, ?_⟩
      simp only [initStringAnnotation_some]
      exact h.initAnnot a (f := fun _ => _) (g := fun _ => _) rfl (.string key val e)
    all_goals exact quiet hs h
  | timestamp a event e =>
    obtain rfl := Option.some.inj ho
    cases a <;> cases event
    case some.some a event =>
      obtain ⟨rfl, rfl⟩ := Prod.mk.inj (Option.some.inj hs)
      refine ⟨_, rfl, ?_⟩
      simp only [initTimestampAnnotation_some]
      refine h.initAnnot a ?_ (.timestamp _ event e)
      obtain ⟨-, hkey, -⟩ := Annotation.mk.inj (h.annots a)
      rw [hkey]
    all_goals exact quiet hs h
  | record t a =>
    cases t <;> cases a
    case some.some t a =>
      dsimp only at hs
      split_ifs at hs with ha
      obtain ⟨rfl, rfl⟩ := Prod.mk.inj (Option.some.inj hs)
      obtain ⟨o', ho', hfired, hm⟩ := h.record ha ho
      refine ⟨_, ?_, hm⟩
      simp [step, Blkin.step, exec, ho', hfired, (h.fresh a ha).1]
    all_goals
      obtain rfl := Option.some.inj ho
      exact quiet hs h
  | getInfo res t l =>
    obtain rfl := Option.some.inj ho
    exact quiet hs (h.getInfo res t l)
  | setInfo res t l =>
    obtain rfl := Option.some.inj ho
    exact quiet hs (h.setInfo res t l)
  | pack l p =>
    obtain rfl := Option.some.inj ho
    exact quiet hs (h.pack l p)
  | unpack p l =>
    obtain rfl := Option.some.inj ho
    exact quiet hs (h.unpack p l)

theorem alike_start (m : Mem) : Alike (start m) (start m) where
  traces _ := rfl
  endps _ := rfl
  annots _ := rfl
  fresh a ha := by simp [start] at ha
  infos := rfl
  packed := rfl
  rands := rfl
  drawn := rfl

/-- A record leaves a memory alike to the one without it. -/
theorem alike_record {s s₁ : Careful} {t a : Ptr} {own : List Tracepoint} (h : Alike s s)
    (hs : step s (.record t a) = some (own, s₁)) :
    own.length = (if t = none ∨ a = none then 0 else 1) ∧ Alike s₁ s := by
  simp only [step, Blkin.step, Option.bind_eq_bind, Option.bind_eq_some_iff,
    Option.map_eq_some_iff] at hs
  obtain ⟨_, ⟨o, ho, rfl⟩, hs⟩ := hs
  cases t <;> cases a
  case some.some t a =>
    dsimp only at hs
    split_ifs at hs with ha
    obtain ⟨rfl, rfl⟩ := Prod.mk.inj (Option.some.inj hs)
    obtain ⟨⟨tp, htp⟩, hm⟩ := h.record_left ha ho
    exact ⟨by simp [htp], hm⟩
  all_goals
    obtain rfl := Option.some.inj ho
    obtain ⟨rfl, rfl⟩ := Prod.mk.inj (Option.some.inj hs)
    exact ⟨rfl, h⟩

/-- Take a record call out of a careful program. The events lose the one that call made,
none if an argument is `NULL`, and nothing else, and all ids stay as they are. -/
theorem record_transparent {m : Mem} {before after : List Call} {t a : Ptr}
    {outs : List Tracepoint} {s : Careful}
    (hrun : run step (start m) (before ++ .record t a :: after) = some (outs, s)) :
    ∃ (out₁ own out₂ : List Tracepoint) (m₁ m₂ m' : Mem),
      outs = out₁ ++ own ++ out₂ ∧
      run Blkin.step m before = some (out₁, m₁) ∧
      Blkin.step m₁ (.record t a) = some (own, m₂) ∧
      own.length = (if t = none ∨ a = none then 0 else 1) ∧
      run Blkin.step m (before ++ after) = some (out₁ ++ out₂, m') ∧
      ∀ l, m'.readInfo l = s.mem.readInfo l := by
  obtain ⟨out₁, s₁, _, h₁, hrest, rfl⟩ := run_append_eq_some.1 hrun
  obtain ⟨own, s₂, out₂, hown, h₂, rfl⟩ := run_cons_eq_some.1 hrest
  have halike : Alike s₁ s₁ := by
    obtain ⟨s₁', h₁', halike⟩ := simulates_alike.run (alike_start m) h₁
    obtain ⟨-, rfl⟩ := Prod.mk.inj (Option.some.inj (h₁.symm.trans h₁'))
    exact halike
  obtain ⟨hlen, halike⟩ := alike_record halike hown
  obtain ⟨s', h', halike⟩ := simulates_alike.run halike h₂
  have plain : ∀ {r r' : Careful} {cs : List Call} {out : List Tracepoint},
      run step r cs = some (out, r') → run Blkin.step r.mem cs = some (out, r'.mem) := by
    intro r r' cs out hr
    obtain ⟨_, hm, rfl⟩ := simulates_step.run rfl hr
    exact hm
  refine ⟨out₁, own, out₂, s₁.mem, s₂.mem, s'.mem, by simp, plain h₁, step_mem hown, hlen, ?_,
    fun l => (halike.readInfo l).symm⟩
  exact run_append_eq_some.2 ⟨out₁, s₁.mem, out₂, plain h₁, plain h', rfl⟩

/-- Two traces share an endpoint that has no name until the first record fills it in. That
record goes, the second stays. -/
theorem record_transparent_shared_endpoint :
    let before : List Call := [.endpoint (some 0) none 80 none,
      .newTrace (some 0) none (some 0), .child (some 1) (some 0) none none,
      .timestamp (some 5) (some (.lit "start")) none]
    let after : List Call :=
      blkinKeyval 5 (some 1) none (some (.lit "key")) (some (.lit "val"))
    let m := Mem.static .little fun n => .ofNat (n + 1)
    ∃ outs s, run step (start m) (before ++ .record (some 0) (some 5) :: after) = some (outs, s) ∧
      outs.length = 2 ∧
      ∃ (out₁ own out₂ : List Tracepoint) (m₁ m₂ m' : Mem),
        outs = out₁ ++ own ++ out₂ ∧
        run Blkin.step m before = some (out₁, m₁) ∧
        Blkin.step m₁ (.record (some 0) (some 5)) = some (own, m₂) ∧
        own.length = 1 ∧
        run Blkin.step m (before ++ after) = some (out₁ ++ out₂, m') ∧
        ∀ l, m'.readInfo l = s.mem.readInfo l := by
  refine exists_of_map_eq (f := fun r => r.1.length) (c := 2) (by decide) ?_
  intro outs s hr hf
  exact ⟨hf, record_transparent hr⟩

end Careful

end Blkin
