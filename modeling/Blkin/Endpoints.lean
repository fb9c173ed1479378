import Blkin.Lineage
import Blkin.Transparency

/-!
# The endpoint of an event

A `Tracked` memory remembers, next to the memory, which endpoint every trace and every
annotation was initialised with. A trace is a `Lineage` of the endpoints it and its
ancestors were given, so `Lineage.nearest` is the endpoint of the nearest ancestor that
was given one. A program initialises each annotation once and records it any number of
times, to initialised traces.

`record` saves the endpoint it settles on in the annotation. A later record of the same
annotation to another trace then finds it there. `recordings_iff` says when that
matters : an event carries the endpoint of its annotation, or else of the trace it was
recorded to, exactly if the annotation was given one, has none saved, or has one saved
that shows the same as the trace's. What an annotation that was given none has saved can
be read off the run : it is the endpoint of the first trace it was recorded to
(`saved_eq_firstEndpoint`).
-/

open Machine

namespace Blkin

/-- Name, port and ip of an endpoint, with the defaults `record` fills in. -/
def Endpoint.shown (ep : Endpoint) : CString × Int32 × CString :=
  (ep.name.getD defaultName, ep.port, ep.ip.getD defaultIp)

/-- Name, port and ip that an event carries. -/
def Tracepoint.shown : Tracepoint → CString × Int32 × CString
  | .keyval _ service port ip _ _ _ _ _ => (service, port, ip)
  | .timestamp _ service port ip _ _ _ _ => (service, port, ip)

structure Tracked where
  mem : Mem
  /-- The endpoints an initialised trace and its ancestors were given. -/
  span : Addr → Option (Lineage Ptr)
  /-- The endpoint an initialised annotation was given. -/
  given : Addr → Option Ptr

/-- An event : its tracepoint, the memory before the call, the trace and annotation
recorded, the annotation's endpoint argument, and the trace's lineage. -/
structure Recording where
  tp : Tracepoint
  mem : Mem
  trace : Addr
  annot : Addr
  given : Ptr
  span : Lineage Ptr

namespace Tracked

/-- Nothing is initialised. -/
def start (m : Mem) : Tracked :=
  ⟨m, fun _ => none, fun _ => none⟩

/-- One call. A parent and a recorded trace are initialised, and so is a recorded
annotation; an annotation is initialised successfully once. -/
def step (s : Tracked) (c : Call) : Option (List Recording × Tracked) := do
  let o ← exec s.mem c
  let s' := { s with mem := o.mem }
  let setSpan (t : Addr) (l : Lineage Ptr) : Tracked :=
    { s' with span := Function.update s.span t (some l) }
  let setGiven (a : Addr) (e : Ptr) : Tracked :=
    { s' with given := Function.update s.given a (some e) }
  match c with
  | .newTrace (some t) _ e => some ([], setSpan t (.root e))
  | .child (some t) (some p) e _ => do
    let parent ← s.span p
    some ([], if o.ret = 0 then setSpan t (.child e parent) else s')
  | .childInfo (some t) (some _) e _ =>
    some ([], if o.ret = 0 then setSpan t (.root e) else s')
  | .string (some a) (some _) (some _) e =>
    if (s.given a).isSome then none else some ([], setGiven a e)
  | .timestamp (some a) (some _) e =>
    if (s.given a).isSome then none else some ([], setGiven a e)
  | .record (some t) (some a) => do
    let l ← s.span t
    let e ← s.given a
    some (o.fired.toList.map fun tp => ⟨tp, s.mem, t, a, e, l⟩, s')
  | _ => some ([], s')

end Tracked

/-! ## What calls do to endpoints -/

/-- No annotation changed and no trace changed its endpoint. -/
def Mem.SameLinks (m m' : Mem) : Prop :=
  m'.annots = m.annots ∧ ∀ t, (m'.traces t).traceEndpoint = (m.traces t).traceEndpoint

theorem Mem.SameLinks.refl (m : Mem) : m.SameLinks m :=
  ⟨rfl, fun _ => rfl⟩

theorem Mem.writeInfo_sameLinks (m : Mem) (l : InfoLoc) (v : TraceInfo) :
    m.SameLinks (m.writeInfo l v) := by
  cases l with
  | info i => exact ⟨rfl, fun _ => rfl⟩
  | trace t =>
    refine ⟨rfl, fun u => ?_⟩
    by_cases hu : u = t
    · subst hu
      simp [writeInfo]
    · simp [writeInfo, hu]

theorem Mem.SameLinks.trans {m m' m'' : Mem} (h : m.SameLinks m') (h' : m'.SameLinks m'') :
    m.SameLinks m'' :=
  ⟨h'.1.trans h.1, fun t => (h'.2 t).trans (h.2 t)⟩

theorem getTraceInfo_sameLinks (res : Int32) (m : Mem) (t : Ptr) (i : Option InfoLoc) :
    m.SameLinks (getTraceInfo res m t i).2 := by
  cases t <;> cases i
  case some.some t i => exact m.writeInfo_sameLinks i _
  all_goals exact .refl m

theorem setTraceInfo_sameLinks (res : Int32) (m : Mem) (t : Ptr) (i : Option InfoLoc) :
    m.SameLinks (setTraceInfo res m t i).2 := by
  cases t <;> cases i
  case some.some t i => exact m.writeInfo_sameLinks (.trace t) _
  all_goals exact .refl m

theorem packTraceInfo_sameLinks (m : Mem) (i : Option InfoLoc) (p : Ptr) :
    m.SameLinks (packTraceInfo m i p).2 := by
  cases i <;> cases p
  case some.some i p =>
    exact ((m.writeInfo_sameLinks i _).trans (Mem.writeInfo_sameLinks _ i _)).trans
      (Mem.writeInfo_sameLinks _ i _)
  all_goals exact .refl m

theorem unpackTraceInfo_sameLinks (m : Mem) (p : Ptr) (i : Option InfoLoc) :
    m.SameLinks (unpackTraceInfo m p i).2 := by
  cases p <;> cases i <;> exact ⟨rfl, fun _ => rfl⟩

theorem initEndpoint_sameLinks (m : Mem) (e : Ptr) (ip : Option CString) (port : Int32)
    (name : Option CString) : m.SameLinks (initEndpoint m e ip port name).2 := by
  cases e with
  | none => exact .refl m
  | some e =>
    rw [initEndpoint_some]
    exact ⟨rfl, fun _ => rfl⟩

theorem Mem.traceEndpoint_fillDefaults (m : Mem) (t a e u : Addr) :
    ((m.fillDefaults t a e).traces u).traceEndpoint = (m.traces u).traceEndpoint := by
  rcases eq_or_ne u t with rfl | hu
  · simp [fillDefaults]
  · simp [fillDefaults, hu]

/-- The trace at `t` was given the endpoint `e`, and nothing else changed its endpoint. -/
structure Links (m : Mem) (t : Addr) (e : Ptr) (m' : Mem) : Prop where
  annots : m'.annots = m.annots
  own : (m'.traces t).traceEndpoint = e
  others : ∀ u, u ≠ t → (m'.traces u).traceEndpoint = (m.traces u).traceEndpoint

theorem initNewTrace_links (m : Mem) (t : Addr) (service : Option CString) (e : Ptr) :
    Links m t e (initNewTrace m (some t) service e).2 := by
  rw [initNewTrace_some]
  exact ⟨rfl, by simp, fun u hu => by simp [hu]⟩

theorem initChildInfo_links {m : Mem} {t : Addr} {l : InfoLoc} {e : Ptr} {name : Option CString}
    (hok : (initChildInfo m (some t) (some l) e name).1 = 0) :
    Links m t e (initChildInfo m (some t) (some l) e name).2 := by
  cases e with
  | none => simp [initChildInfo, einval] at hok
  | some e =>
    rw [initChildInfo_some]
    exact ⟨rfl, by simp, fun u hu => by simp [hu]⟩

theorem initChildInfo_unlinked {m : Mem} {t : Addr} {l : InfoLoc} {e : Ptr}
    {name : Option CString} (hno : (initChildInfo m (some t) (some l) e name).1 ≠ 0) :
    m.SameLinks (initChildInfo m (some t) (some l) e name).2 := by
  cases e with
  | none => exact .refl m
  | some e => simp [initChildInfo_some] at hno

/-! ## The events of a program -/

theorem Mem.eventFor_shown {m : Mem} {t a e : Addr} {tp : Tracepoint}
    (h : m.eventFor t a e = some tp) : tp.shown = (m.endps e).shown := by
  obtain ⟨key, val, -, -, -, rfl⟩ | ⟨event, -, -, rfl⟩ := eventFor_cases h
  · rfl
  · rfl

namespace Recording

variable (r : Recording)

/-- What the endpoint at `e` shows when the call is made. -/
def shownAt (e : Addr) : CString × Int32 × CString :=
  (r.mem.endps e).shown

/-- The endpoint of the trace recorded to. -/
def traceEndpoint : Ptr :=
  (r.mem.traces r.trace).traceEndpoint

/-- The endpoint in the annotation when the call is made. -/
def saved : Ptr :=
  (r.mem.annots r.annot).annotationEndpoint

/-- The event carries the endpoint its annotation was given, or else that of the trace
it was recorded to. -/
def CarriesOwn : Prop :=
  (r.given.or r.traceEndpoint).map r.shownAt = some r.tp.shown

/-- The annotation was given an endpoint, or no earlier record saved one in it, or the
one saved shows the same as the trace's. -/
def Matching : Prop :=
  r.given ≠ none ∨ r.saved = none ∨ r.saved.map r.shownAt = r.traceEndpoint.map r.shownAt

instance : Decidable r.CarriesOwn :=
  inferInstanceAs (Decidable (_ = _))

/-- What a record does : the trace has the endpoint of its nearest ancestor that was
given one, an endpoint given to the annotation is still in it, and the event carries the
annotation's endpoint, or else the trace's. -/
structure Sound : Prop where
  nearest : r.traceEndpoint = r.span.nearest
  given : ∀ e, r.given = some e → r.saved = some e
  carries : (r.saved.or r.traceEndpoint).map r.shownAt = some r.tp.shown

theorem Sound.carriesOwn_iff {r : Recording} (h : r.Sound) : r.CarriesOwn ↔ r.Matching := by
  have hcarries := h.carries
  unfold CarriesOwn Matching
  cases hg : r.given with
  | some e =>
    rw [h.given e hg, Option.some_or] at hcarries
    simp [hcarries]
  | none =>
    cases hs : r.saved with
    | none =>
      rw [hs] at hcarries
      simpa using hcarries
    | some e =>
      rw [hs, Option.some_or] at hcarries
      rw [Option.none_or, hcarries]
      simp [eq_comm]

end Recording

/-! ## What an annotation has saved -/

/-- The endpoint of the first trace that the annotation at `a` was recorded to. -/
def firstEndpoint (outs : List Recording) (a : Addr) : Ptr :=
  (outs.find? fun r => r.annot = a).bind Recording.traceEndpoint

theorem firstEndpoint_eq_none {outs : List Recording} {a : Addr} (h : ∀ r ∈ outs, r.annot ≠ a) :
    firstEndpoint outs a = none := by
  rw [firstEndpoint, List.find?_eq_none.2 fun r hr => by simpa using h r hr, Option.bind_none]

/-- One more recording matters to its own annotation, if that is the first. -/
theorem firstEndpoint_snoc (outs : List Recording) (r : Recording) (a : Addr) :
    firstEndpoint (outs ++ [r]) a =
      if r.annot = a ∧ ∀ q ∈ outs, q.annot ≠ a then r.traceEndpoint else firstEndpoint outs a := by
  unfold firstEndpoint
  rw [List.find?_append]
  cases hfind : outs.find? fun q => q.annot = a with
  | some q =>
    have hq : ¬∀ q ∈ outs, q.annot ≠ a := fun h =>
      h q (List.mem_of_find?_eq_some hfind) (by simpa using List.find?_some hfind)
    simp [hq]
  | none =>
    have hnone : ∀ q ∈ outs, q.annot ≠ a := by simpa using hfind
    by_cases ha : r.annot = a
    · rw [if_pos ⟨ha, hnone⟩]
      simp [ha]
    · simp [ha]

/-- An initialised annotation is complete, so that recording it fires. If it was given no
endpoint, it has that of the first trace it was recorded to. -/
structure SavesFirst (annots : Addr → Annotation) (given : Addr → Option Ptr)
    (outs : List Recording) : Prop where
  complete : ∀ a, given a ≠ none → (annots a).Complete
  unrecorded : ∀ a, given a = none → ∀ r ∈ outs, r.annot ≠ a
  saved : ∀ a, given a = some none → (annots a).annotationEndpoint = firstEndpoint outs a
  settled : ∀ r ∈ outs, (annots r.annot).annotationEndpoint ≠ none
  first : ∀ k r, outs[k]? = some r → r.given = none →
    r.saved = firstEndpoint (outs.take k) r.annot

namespace SavesFirst

variable {annots : Addr → Annotation} {given : Addr → Option Ptr} {outs : List Recording}

/-- An annotation is initialised. -/
theorem init (h : SavesFirst annots given outs) {a : Addr} {an : Annotation}
    (hnew : given a = none) (hc : an.Complete) : SavesFirst (Function.update annots a an)
      (Function.update given a (some an.annotationEndpoint)) outs where
  complete b hb := by
    rcases eq_or_ne b a with rfl | hne
    · simpa using hc
    · simpa [hne] using h.complete b (by simpa [hne] using hb)
  unrecorded b hb := by
    rcases eq_or_ne b a with rfl | hne
    · simp at hb
    · exact h.unrecorded b (by simpa [hne] using hb)
  saved b hb := by
    rcases eq_or_ne b a with rfl | hne
    · rw [firstEndpoint_eq_none (h.unrecorded b hnew)]
      simpa using hb
    · simpa [hne] using h.saved b (by simpa [hne] using hb)
  settled r hr := by
    rw [Function.update_of_ne (h.unrecorded a hnew r hr)]
    exact h.settled r hr
  first := h.first

/-- An initialised annotation is recorded, and `record` saves the endpoint it settles on. -/
theorem record (h : SavesFirst annots given outs) {r : Recording} {e : Addr}
    (hgiven : given r.annot = some r.given)
    (hsaved : r.saved = (annots r.annot).annotationEndpoint)
    (he : r.saved.or r.traceEndpoint = some e) :
    SavesFirst (Function.update annots r.annot
      { annots r.annot with annotationEndpoint := some e }) given (outs ++ [r]) where
  complete b hb := by
    rcases eq_or_ne b r.annot with rfl | hne
    · rw [Function.update_self]
      exact h.complete _ hb
    · simpa [hne] using h.complete b hb
  unrecorded b hb q hq := by
    rcases List.mem_append.1 hq with hq | hq
    · exact h.unrecorded b hb q hq
    · obtain rfl := List.mem_singleton.1 hq
      rintro rfl
      simp [hgiven] at hb
  saved b hb := by
    rw [firstEndpoint_snoc]
    rcases eq_or_ne b r.annot with rfl | hne
    · have hfirst := h.saved _ hb
      rw [Function.update_self]
      split_ifs with hnew
      · rw [hsaved, hfirst, firstEndpoint_eq_none hnew.2, Option.none_or] at he
        exact he.symm
      · obtain ⟨q, hq, hqa⟩ : ∃ q ∈ outs, q.annot = r.annot := by simpa using hnew
        obtain ⟨e', he'⟩ := Option.ne_none_iff_exists'.1 (hqa ▸ h.settled q hq)
        rw [hsaved, he', Option.some_or] at he
        rw [← hfirst, he', he]
    · rw [Function.update_of_ne hne, if_neg fun hb => hne hb.1.symm]
      exact h.saved b hb
  settled q hq := by
    rcases eq_or_ne q.annot r.annot with ha | hne
    · simp [ha]
    · rw [Function.update_of_ne hne]
      refine h.settled q ((List.mem_append.1 hq).resolve_right fun hq => ?_)
      exact hne (congrArg _ (List.mem_singleton.1 hq))
  first k q hk hnone := by
    rcases Lineage.getElem?_snoc hk with hk | ⟨rfl, rfl⟩
    · rw [List.take_append_of_le_length (List.getElem?_eq_some_iff.1 hk).1.le]
      exact h.first k q hk hnone
    · rw [List.take_left, hsaved]
      exact h.saved _ (hgiven.trans (congrArg some hnone))

end SavesFirst

namespace Tracked

structure Inv (s : Tracked) (outs : List Recording) : Prop where
  saves : SavesFirst s.mem.annots s.given outs
  span : ∀ t l, s.span t = some l → (s.mem.traces t).traceEndpoint = l.nearest
  given : ∀ a e, s.given a = some (some e) → (s.mem.annots a).annotationEndpoint = some e
  sound : ∀ r ∈ outs, r.Sound

variable {s : Tracked} {outs : List Recording}

theorem inv_start (m : Mem) : (start m).Inv [] where
  saves := ⟨fun _ h => absurd rfl h, by simp, fun _ h => by simp [start] at h, by simp, by simp⟩
  span _ _ h := by simp [start] at h
  given _ _ h := by simp [start] at h
  sound _ h := by simp at h

theorem Inv.quiet (h : s.Inv outs) {m : Mem} (hm : s.mem.SameLinks m) :
    ({ s with mem := m } : Tracked).Inv outs where
  saves := by
    show SavesFirst m.annots _ _
    rw [hm.1]
    exact h.saves
  span t l ht := (hm.2 t).trans (h.span t l ht)
  given a e ha := by
    show (m.annots a).annotationEndpoint = _
    rw [hm.1]
    exact h.given a e ha
  sound := h.sound

theorem Inv.setSpan (h : s.Inv outs) {m : Mem} {t : Addr} {e : Ptr} {l : Lineage Ptr}
    (hm : Links s.mem t e m) (hl : l.nearest = e) :
    ({ s with mem := m, span := Function.update s.span t (some l) } : Tracked).Inv outs where
  saves := by
    show SavesFirst m.annots _ _
    rw [hm.annots]
    exact h.saves
  span u k hu := by
    show (m.traces u).traceEndpoint = _
    rcases eq_or_ne u t with rfl | hne
    · obtain rfl : l = k := by simpa using hu
      rw [hm.own, hl]
    · rw [hm.others u hne]
      exact h.span u k (by simpa [hne] using hu)
  given a e ha := by
    show (m.annots a).annotationEndpoint = _
    rw [hm.annots]
    exact h.given a e ha
  sound := h.sound

theorem Inv.setGiven (h : s.Inv outs) {a : Addr} {f : Annotation → Annotation} {e : Ptr}
    (hf : ∀ an, (f an).annotationEndpoint = e) (hc : (f (s.mem.annots a)).Complete)
    (hnew : s.given a = none) :
    ({ s with mem := s.mem.modAnnot a f, given := Function.update s.given a (some e) } :
      Tracked).Inv outs where
  saves := hf (s.mem.annots a) ▸ h.saves.init hnew hc
  span := h.span
  given b d hb := by
    show ((s.mem.modAnnot a f).annots b).annotationEndpoint = _
    rcases eq_or_ne b a with rfl | hne
    · obtain rfl : e = some d := by simpa using hb
      simp [hf]
    · simpa [hne] using h.given b d (by simpa [hne] using hb)
  sound := h.sound

/-- A record writes its choice into the annotation, which has no effect on one that was
given an endpoint. -/
theorem Inv.record (h : s.Inv outs) {t a : Addr} {o : Outcome} {l : Lineage Ptr} {g : Ptr}
    (hl : s.span t = some l) (hg : s.given a = some g)
    (ho : Blkin.record s.mem (some t) (some a) = some o) :
    ({ s with mem := o.mem } : Tracked).Inv
      (outs ++ o.fired.toList.map fun tp => ⟨tp, s.mem, t, a, g, l⟩) := by
  obtain ⟨e, he, hmem, hfired⟩ := record_cases ho
  have hcomplete := h.saves.complete a (by simp [hg])
  obtain ⟨tp, hev⟩ := Option.ne_none_iff_exists'.1
    (Mem.eventFor_eq_none_iff (t := t) (e := e) |>.not.2 (not_not.2 hcomplete))
  rw [hmem, hfired, hev]
  refine ⟨?_, fun u k hu => ?_, fun b d hb => ?_, fun r hr => ?_⟩
  · exact h.saves.record (r := ⟨tp, s.mem, t, a, g, l⟩) hg rfl he
  · rw [← h.span u k hu]
    exact Mem.traceEndpoint_fillDefaults _ t a e u
  · have hd := h.given b d hb
    rcases eq_or_ne b a with rfl | hne
    · rw [Mem.endpointFor, hd, Option.some_or] at he
      simpa [Mem.fillDefaults] using he.symm
    · simpa [Mem.fillDefaults, hne] using hd
  · rcases List.mem_append.1 hr with hr | hr
    · exact h.sound r hr
    · obtain rfl : r = ⟨tp, s.mem, t, a, g, l⟩ := by simpa using hr
      refine ⟨h.span t l hl, fun d hd => h.given a d (hg.trans (congrArg some hd)), ?_⟩
      show ((s.mem.endpointFor t a).map _ : Option _) = _
      rw [he, Option.map_some, Mem.eventFor_shown hev]
      rfl

/-- An annotation nothing was saved in is initialised with the endpoint `e`. -/
theorem Inv.fresh (h : s.Inv outs) {m : Mem} {a : Addr} {e : Ptr} {f : Annotation → Annotation}
    {s' : Tracked} {out : List Recording} (hf : ∀ an, (f an).annotationEndpoint = e)
    (hc : (f (s.mem.annots a)).Complete) (hm : m = s.mem.modAnnot a f)
    (hs : (if (s.given a).isSome then none else some ([],
      ({ mem := m, span := s.span, given := Function.update s.given a (some e) } : Tracked))) =
        some (out, s')) : s'.Inv (outs ++ out) := by
  split_ifs at hs with hnew
  obtain ⟨rfl, rfl⟩ := Prod.mk.inj (Option.some.inj hs)
  rw [List.append_nil, hm]
  exact h.setGiven hf hc (by simpa using hnew)

theorem inv_step : Keeps step Inv := by
  intro s outs c out s' h hs
  simp only [step, Option.bind_eq_bind, Option.bind_eq_some_iff] at hs
  obtain ⟨o, ho, hs⟩ := hs
  -- a call that changes no endpoint and fires nothing
  have quiet : s.mem.SameLinks o.mem →
      some ([], ({ s with mem := o.mem } : Tracked)) = some (out, s') →
      s'.Inv (outs ++ out) := fun hm hs => by
    obtain ⟨rfl, rfl⟩ := Prod.mk.inj (Option.some.inj hs)
    rw [List.append_nil]
    exact h.quiet hm
  cases c with
  | newTrace t service e =>
    obtain rfl := Option.some.inj ho
    cases t with
    | none => exact quiet (.refl _) hs
    | some t =>
      obtain ⟨rfl, rfl⟩ := Prod.mk.inj (Option.some.inj hs)
      rw [List.append_nil]
      exact h.setSpan (initNewTrace_links _ t service e) (Lineage.nearest_root e)
  | child t p e name =>
    obtain rfl := Option.some.inj ho
    cases p with
    | none => cases t <;> exact quiet (.refl _) hs
    | some p =>
      cases t with
      | none => exact quiet (by rw [initChild_some]; exact .refl _) hs
      | some t =>
        simp only [Option.bind_eq_some_iff, initChild_some] at hs
        obtain ⟨parent, hp, hs⟩ := hs
        split_ifs at hs with hok
        · obtain ⟨rfl, rfl⟩ := Prod.mk.inj (Option.some.inj hs)
          rw [List.append_nil]
          refine h.setSpan (initChildInfo_links hok) ?_
          rw [Lineage.nearest_child, childEndpoint, h.span p parent hp]
        · rw [initChild_some] at quiet
          exact quiet (initChildInfo_unlinked hok) hs
  | childInfo t l e name =>
    obtain rfl := Option.some.inj ho
    cases t with
    | none => exact quiet (.refl _) hs
    | some t =>
      cases l with
      | none => exact quiet (.refl _) hs
      | some l =>
        dsimp only at hs
        split_ifs at hs with hok
        · obtain ⟨rfl, rfl⟩ := Prod.mk.inj (Option.some.inj hs)
          rw [List.append_nil]
          exact h.setSpan (initChildInfo_links hok) (Lineage.nearest_root e)
        · exact quiet (initChildInfo_unlinked hok) hs
  | endpoint e ip port name =>
    obtain rfl := Option.some.inj ho
    exact quiet (initEndpoint_sameLinks _ e ip port name) hs
  | string a key val e =>
    obtain rfl := Option.some.inj ho
    cases a <;> cases key <;> cases val
    case some.some.some a key val =>
      exact h.fresh (fun _ => rfl) (.string key val e)
        (congrArg Prod.snd (initStringAnnotation_some _ a key val e)) hs
    all_goals exact quiet (.refl _) hs
  | timestamp a event e =>
    obtain rfl := Option.some.inj ho
    cases a <;> cases event
    case some.some a event =>
      exact h.fresh (fun _ => rfl) (.timestamp _ event e)
        (congrArg Prod.snd (initTimestampAnnotation_some _ a event e)) hs
    all_goals exact quiet (.refl _) hs
  | record t a =>
    cases t <;> cases a
    case some.some t a =>
      simp only [Option.bind_eq_some_iff] at hs
      obtain ⟨l, hl, g, hg, hs⟩ := hs
      obtain ⟨rfl, rfl⟩ := Prod.mk.inj (Option.some.inj hs)
      exact h.record hl hg ho
    all_goals
      obtain rfl := Option.some.inj ho
      exact quiet (.refl _) hs
  | getInfo res t l =>
    obtain rfl := Option.some.inj ho
    exact quiet (getTraceInfo_sameLinks res _ t l) hs
  | setInfo res t l =>
    obtain rfl := Option.some.inj ho
    exact quiet (setTraceInfo_sameLinks res _ t l) hs
  | pack i p =>
    obtain rfl := Option.some.inj ho
    exact quiet (packTraceInfo_sameLinks _ i p) hs
  | unpack p i =>
    obtain rfl := Option.some.inj ho
    exact quiet (unpackTraceInfo_sameLinks _ p i) hs

/-- In every run, an annotation that was given no endpoint has saved that of the first trace
it was recorded to. -/
theorem saved_eq_firstEndpoint {m : Mem} {cs : List Call} {outs : List Recording} {s : Tracked}
    (hrun : run step (start m) cs = some (outs, s)) {k : ℕ} {r : Recording}
    (hk : outs[k]? = some r) (hnone : r.given = none) :
    r.saved = firstEndpoint (outs.take k) r.annot := by
  have h : s.Inv ([] ++ outs) := inv_step.run (inv_start m) hrun
  exact h.saves.first k r hk hnone

/-- In every run, a trace recorded to has the endpoint of its nearest ancestor that was
given one, and the event carries the endpoint of its annotation, or else of that trace,
exactly if nothing different was saved in the annotation before. -/
theorem recordings_iff {m : Mem} {cs : List Call} {outs : List Recording} {s : Tracked}
    (hrun : run step (start m) cs = some (outs, s)) :
    ∀ r ∈ outs, r.traceEndpoint = r.span.nearest ∧ (r.CarriesOwn ↔ r.Matching) := by
  have h : s.Inv ([] ++ outs) := inv_step.run (inv_start m) hrun
  intro r hr
  have hsound : r.Sound := h.sound r (by simpa using hr)
  exact ⟨hsound.nearest, hsound.carriesOwn_iff⟩

/-- Two endpoints, a trace on each, and an annotation without an endpoint. -/
def twoTraces : List Call :=
  [.endpoint (some 0) none 80 (some (.lit "front")), .newTrace (some 0) none (some 0),
    .endpoint (some 1) none 90 (some (.lit "back")), .newTrace (some 1) none (some 1),
    .timestamp (some 0) (some (.lit "start")) none]

/-- The annotation goes to the first trace, and another to a child of the second. -/
theorem recordings_iff_two_traces : ∃ outs s,
    run step (start (.static .little fun n => .ofNat n)) (twoTraces ++
      [.record (some 0) (some 0), .child (some 2) (some 1) none none,
        .timestamp (some 1) (some (.lit "end")) none, .record (some 2) (some 1)]) =
        some (outs, s) ∧
      outs.map (·.tp.shown.2.1) = [80, 90] ∧
      ∀ r ∈ outs, r.traceEndpoint = r.span.nearest ∧ (r.CarriesOwn ↔ r.Matching) := by
  refine exists_of_map_eq (f := fun r => r.1.map (·.tp.shown.2.1)) (c := [80, 90])
    (by decide) ?_
  intro outs s hr hf
  exact ⟨hf, recordings_iff hr⟩

/-- The annotation goes to both traces : the second event carries the endpoint of the
first trace. -/
theorem second_recording_carries_first : ∃ outs s,
    run step (start (.static .little fun n => .ofNat n)) (twoTraces ++
      [.record (some 0) (some 0), .record (some 1) (some 0)]) = some (outs, s) ∧
      outs.map (fun r => (r.tp.shown.2.1, (r.traceEndpoint.map r.shownAt).map (·.2.1))) =
        [(80, some 80), (80, some 90)] ∧
      ∃ r ∈ outs, ¬r.CarriesOwn := by
  refine exists_of_map_eq (f := fun r => (r.1.map fun r =>
      (r.tp.shown.2.1, (r.traceEndpoint.map r.shownAt).map (·.2.1)),
      r.1.any fun r => !decide r.CarriesOwn))
    (c := ([(80, some 80), (80, some 90)], true)) (by decide) ?_
  intro outs s hr hf
  obtain ⟨hshown, hany⟩ := Prod.mk.inj hf
  exact ⟨hshown, by simpa using hany⟩

end Tracked

end Blkin
