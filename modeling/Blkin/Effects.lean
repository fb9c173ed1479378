import Blkin.Children
import Blkin.Transparency

/-!
# Rejected calls and statuses

`Call.effect` is what a call does once its function accepts the arguments, and `none` if
it rejects them. `exec_cases` splits every call into the two : an accepted call has the
effect and returns its function's status, a rejected one returns `-EINVAL` and fires
nothing. `Call.accepts_of_effect` lists what is accepted and what it leaves.

Two things a caller would rely on fail. A rejected call should leave every object as it
was, but `_blkin_record` fills in defaults before it looks at the annotation's strings
(`atomic_iff`). And the status should tell which of the two happened, but
`_blkin_get_trace_info` and `_blkin_set_trace_info` return a local they assign only when
they reject (`tellsStatus_iff`).
-/

namespace Blkin

namespace Call

/-- The memory after an accepted call and the tracepoint it fires, or `none` if the
arguments are rejected. -/
def effect (m : Mem) : Call → Option (Mem × Option Tracepoint)
  | .newTrace (some t) service e =>
    some ((m.advance 2).modTrace t fun _ => ⟨service, ⟨m.big 0, m.big 1, 0⟩, e⟩, none)
  | .child (some c) (some p) e name =>
    (childEndpoint m p e).map fun e => (m.childAt c (.trace p) e name, none)
  | .childInfo (some c) (some p) (some e) name => some (m.childAt c p e name, none)
  | .endpoint (some e) ip port name =>
    some (m.modEndp e fun _ => ⟨some (ip.getD defaultIp), port, name⟩, none)
  | .string (some a) (some key) (some val) e =>
    some (m.modAnnot a fun _ => ⟨.string, some key, some val, e⟩, none)
  | .timestamp (some a) (some event) e =>
    some (m.modAnnot a fun an => ⟨.timestamp, an.key, some event, e⟩, none)
  | .record (some t) (some a) => do
    let e ← m.endpointFor t a
    let tp ← m.eventFor t a e
    some (m.fillDefaults t a e, some tp)
  | .getInfo _ (some t) (some i) => some (m.writeInfo i (m.traces t).info, none)
  | .setInfo _ (some t) (some i) => some (m.writeInfo (.trace t) (m.readInfo i), none)
  | .pack (some i) (some p) => some (m.writeInfo i (m.packed p).ids, none)
  | .unpack (some p) (some i) => some (m.modPacked p fun _ => (m.readInfo i).bigEndian, none)
  | _ => none

/-- What the function returns once it accepts. -/
def status : Call → Int32
  | .getInfo res _ _ => res
  | .setInfo res _ _ => res
  | .pack _ _ => 1
  | .unpack _ _ => 1
  | _ => 0

/-- The memory after a rejected call. A record of an incomplete annotation has filled its
defaults in. -/
def rejected (m : Mem) : Call → Mem
  | .record (some t) (some a) => (m.endpointFor t a).elim m fun e => m.fillDefaults t a e
  | _ => m

end Call

/-- A call is accepted and has its effect, or is rejected and fires nothing. -/
theorem exec_cases {m : Mem} {c : Call} {o : Outcome} (h : exec m c = some o) :
    (∃ m' tp, c.effect m = some (m', tp) ∧ o = ⟨c.status, m', tp⟩) ∨
      c.effect m = none ∧ o = ⟨-einval, c.rejected m, none⟩ := by
  cases c with
  | newTrace t service e =>
    obtain rfl := Option.some.inj h
    cases t with
    | none => exact .inr ⟨rfl, rfl⟩
    | some t => exact .inl ⟨_, _, rfl, by rw [initNewTrace_some]; rfl⟩
  | child c p e name =>
    obtain rfl := Option.some.inj h
    cases p with
    | none => cases c <;> exact .inr ⟨rfl, rfl⟩
    | some p =>
      cases c with
      | none => exact .inr ⟨rfl, by rw [initChild_some]; rfl⟩
      | some c =>
        cases he : childEndpoint m p e with
        | none =>
          refine .inr ⟨by simp [Call.effect, he], ?_⟩
          rw [initChild_some, he]
          rfl
        | some e' =>
          refine .inl ⟨m.childAt c (.trace p) e' name, none, by simp [Call.effect, he], ?_⟩
          rw [initChild_some, he, initChildInfo_some]
          rfl
  | childInfo c p e name =>
    obtain rfl := Option.some.inj h
    cases c <;> cases p <;> cases e
    case some.some.some c p e => exact .inl ⟨_, _, rfl, by rw [initChildInfo_some]; rfl⟩
    all_goals exact .inr ⟨rfl, rfl⟩
  | endpoint e ip port name =>
    obtain rfl := Option.some.inj h
    cases e with
    | none => exact .inr ⟨rfl, rfl⟩
    | some e => exact .inl ⟨_, _, rfl, by rw [initEndpoint_some]; rfl⟩
  | string a key val e =>
    obtain rfl := Option.some.inj h
    cases a <;> cases key <;> cases val
    case some.some.some a key val =>
      exact .inl ⟨_, _, rfl, by rw [initStringAnnotation_some]; rfl⟩
    all_goals exact .inr ⟨rfl, rfl⟩
  | timestamp a event e =>
    obtain rfl := Option.some.inj h
    cases a <;> cases event
    case some.some a event => exact .inl ⟨_, _, rfl, by rw [initTimestampAnnotation_some]; rfl⟩
    all_goals exact .inr ⟨rfl, rfl⟩
  | record t a =>
    cases t <;> cases a
    case some.some t a =>
      rw [exec, record_some, Option.map_eq_some_iff] at h
      obtain ⟨e, he, rfl⟩ := h
      cases hev : m.eventFor t a e with
      | none => exact .inr ⟨by simp [Call.effect, he, hev], by simp [Call.rejected, he]⟩
      | some tp =>
        exact .inl ⟨m.fillDefaults t a e, tp, by simp [Call.effect, he, hev], by simp [Call.status]⟩
    all_goals
      obtain rfl := Option.some.inj h
      exact .inr ⟨rfl, rfl⟩
  | getInfo res t i =>
    obtain rfl := Option.some.inj h
    cases t <;> cases i
    case some.some t i => exact .inl ⟨_, _, rfl, rfl⟩
    all_goals exact .inr ⟨rfl, rfl⟩
  | setInfo res t i =>
    obtain rfl := Option.some.inj h
    cases t <;> cases i
    case some.some t i => exact .inl ⟨_, _, rfl, rfl⟩
    all_goals exact .inr ⟨rfl, rfl⟩
  | pack i p =>
    obtain rfl := Option.some.inj h
    cases i <;> cases p
    case some.some i p => exact .inl ⟨_, _, rfl, by rw [packTraceInfo_some]; rfl⟩
    all_goals exact .inr ⟨rfl, rfl⟩
  | unpack p i =>
    obtain rfl := Option.some.inj h
    cases p <;> cases i
    case some.some p i => exact .inl ⟨_, _, rfl, by rw [unpackTraceInfo_some]; rfl⟩
    all_goals exact .inr ⟨rfl, rfl⟩

/-- The arguments that are accepted, the memory after the call, and the tracepoint it
fires. -/
inductive Call.Accepts (m : Mem) : Call → Mem → Option Tracepoint → Prop
  | newTrace (t service e) : Accepts m (.newTrace (some t) service e)
      ((m.advance 2).modTrace t fun _ => ⟨service, ⟨m.big 0, m.big 1, 0⟩, e⟩) none
  | child (t p e name e') : childEndpoint m p e = some e' →
      Accepts m (.child (some t) (some p) e name) (m.childAt t (.trace p) e' name) none
  | childInfo (t i e name) : Accepts m (.childInfo (some t) (some i) (some e) name)
      (m.childAt t i e name) none
  | endpoint (e ip port name) : Accepts m (.endpoint (some e) ip port name)
      (m.modEndp e fun _ => ⟨some (ip.getD defaultIp), port, name⟩) none
  | string (a key val e) : Accepts m (.string (some a) (some key) (some val) e)
      (m.modAnnot a fun _ => ⟨.string, some key, some val, e⟩) none
  | timestamp (a event e) : Accepts m (.timestamp (some a) (some event) e)
      (m.modAnnot a fun an => ⟨.timestamp, an.key, some event, e⟩) none
  | record (t a e tp) : m.endpointFor t a = some e → m.eventFor t a e = some tp →
      Accepts m (.record (some t) (some a)) (m.fillDefaults t a e) (some tp)
  | getInfo (res t i) : Accepts m (.getInfo res (some t) (some i))
      (m.writeInfo i (m.traces t).info) none
  | setInfo (res t i) : Accepts m (.setInfo res (some t) (some i))
      (m.writeInfo (.trace t) (m.readInfo i)) none
  | pack (i p) : Accepts m (.pack (some i) (some p)) (m.writeInfo i (m.packed p).ids) none
  | unpack (p i) : Accepts m (.unpack (some p) (some i))
      (m.modPacked p fun _ => (m.readInfo i).bigEndian) none

theorem Call.accepts_of_effect {m m' : Mem} {c : Call} {tp : Option Tracepoint}
    (h : c.effect m = some (m', tp)) : c.Accepts m m' tp := by
  unfold effect at h
  split at h
  case h_2 t p e name =>
    obtain ⟨e', he, h⟩ := Option.map_eq_some_iff.1 h
    obtain ⟨rfl, rfl⟩ := Prod.mk.inj h
    exact .child t p e name e' he
  case h_7 t a =>
    simp only [Option.bind_eq_bind, Option.bind_eq_some_iff] at h
    obtain ⟨e, he, tp', hev, h⟩ := h
    obtain ⟨rfl, rfl⟩ := Prod.mk.inj (Option.some.inj h)
    exact .record t a e tp' he hev
  case h_12 => cases h
  all_goals
    obtain ⟨rfl, rfl⟩ := Prod.mk.inj (Option.some.inj h)
    constructor

/-- For a record : the annotation or the trace has an endpoint. -/
def Call.HasEndpoint (m : Mem) : Call → Prop
  | .record (some t) (some a) => m.endpointFor t a ≠ none
  | _ => True

/-- Such a call is defined. -/
theorem Call.HasEndpoint.exec {m : Mem} {c : Call} (h : c.HasEndpoint m) :
    ∃ o, exec m c = some o := by
  cases c with
  | record t a =>
    cases t <;> cases a
    case some.some t a =>
      obtain ⟨e, he⟩ := Option.ne_none_iff_exists'.1 h
      exact ⟨_, by rw [Blkin.exec, record_some, he]; rfl⟩
    all_goals exact ⟨_, rfl⟩
  | _ => exact ⟨_, rfl⟩

/-! ## Rejected calls -/

/-- Every trace, annotation, endpoint, info and packed structure is as before. -/
structure Mem.SameObjects (m m' : Mem) : Prop where
  traces : m'.traces = m.traces
  annots : m'.annots = m.annots
  endps : m'.endps = m.endps
  infos : m'.infos = m.infos
  packed : m'.packed = m.packed

namespace Mem

variable {m : Mem}

theorem SameObjects.refl (m : Mem) : m.SameObjects m :=
  ⟨rfl, rfl, rfl, rfl, rfl⟩

/-- Defaults leave the memory as it is only where there is nothing to fill in. -/
theorem sameObjects_fillDefaults_iff {t a e : Addr} : m.SameObjects (m.fillDefaults t a e) ↔
    (m.annots a).annotationEndpoint = some e ∧ (m.traces t).name ≠ none ∧
      (m.endps e).ip ≠ none ∧ (m.endps e).name ≠ none := by
  constructor
  · intro h
    have hannot := congrFun h.annots a
    have htrace := congrFun h.traces t
    have hendp := congrFun h.endps e
    simp only [fillDefaults, modEndp_annots, modTrace_annots, modAnnot_annots,
      Function.update_self] at hannot
    simp only [fillDefaults, modEndp_traces, modTrace_traces, modAnnot_traces,
      Function.update_self] at htrace
    simp only [fillDefaults, modEndp_endps, modTrace_endps, modAnnot_endps,
      Function.update_self] at hendp
    exact ⟨by rw [← hannot], by rw [← htrace]; simp [Trace.filled],
      by rw [← hendp]; simp [Endpoint.filled], by rw [← hendp]; simp [Endpoint.filled]⟩
  · rintro ⟨hannot, hname, hip, hservice⟩
    obtain ⟨n, hn⟩ := Option.ne_none_iff_exists'.1 hname
    obtain ⟨i, hi⟩ := Option.ne_none_iff_exists'.1 hip
    obtain ⟨k, hk⟩ := Option.ne_none_iff_exists'.1 hservice
    have ha : (m.modAnnot a fun an => { an with annotationEndpoint := some e }) = m :=
      m.modAnnot_self (by rw [← hannot])
    have ht : m.modTrace t Trace.filled = m :=
      m.modTrace_self (by rw [Trace.filled, hn, Option.getD_some, ← hn])
    have he : m.modEndp e Endpoint.filled = m :=
      m.modEndp_self
        (by rw [Endpoint.filled, hi, hk, Option.getD_some, Option.getD_some, ← hi, ← hk])
    rw [fillDefaults, ha, ht, he]
    exact .refl m

theorem sameObjects_writeInfo_iff {i : InfoLoc} {v : TraceInfo} :
    m.SameObjects (m.writeInfo i v) ↔ m.readInfo i = v := by
  constructor
  · intro h
    have hread : (m.writeInfo i v).readInfo i = m.readInfo i := by
      cases i with
      | info i => exact congrFun h.infos i
      | trace t => exact congrArg Trace.info (congrFun h.traces t)
    rw [← hread, readInfo_writeInfo_self]
  · rintro rfl
    cases i with
    | info i => exact ⟨rfl, rfl, rfl, by simp [writeInfo], rfl⟩
    | trace t => exact ⟨by rw [writeInfo, m.modTrace_self rfl], rfl, rfl, rfl, rfl⟩

end Mem

/-- If the call returned `-EINVAL`, it fired nothing and left every object as it was. -/
def Outcome.Atomic (m : Mem) (o : Outcome) : Prop :=
  o.ret = -einval → o.fired = none ∧ m.SameObjects o.mem

/-- A recorded annotation is complete, or nothing is missing that `record` fills in. What a
copied info overwrites is the same already, or the unassigned status is not `-EINVAL`. -/
def Call.RejectsCleanly (m : Mem) : Call → Prop
  | .record (some t) (some a) => (m.annots a).Complete ∨
      ∃ e, (m.annots a).annotationEndpoint = some e ∧ (m.traces t).name ≠ none ∧
        (m.endps e).ip ≠ none ∧ (m.endps e).name ≠ none
  | .getInfo res (some t) (some i) => res ≠ -einval ∨ m.readInfo i = (m.traces t).info
  | .setInfo res (some t) (some i) => res ≠ -einval ∨ m.readInfo i = (m.traces t).info
  | _ => True

theorem atomic_of_ne {m m' : Mem} {ret : Int32} {tp : Option Tracepoint} (h : ret ≠ -einval) :
    Outcome.Atomic m ⟨ret, m', tp⟩ :=
  fun hret => absurd hret h

/-- A copied info, with the status `res`. -/
theorem atomic_writeInfo_iff {m : Mem} {res : Int32} {i : InfoLoc} {v : TraceInfo} :
    Outcome.Atomic m ⟨res, m.writeInfo i v, none⟩ ↔ res ≠ -einval ∨ m.readInfo i = v := by
  rw [← Mem.sameObjects_writeInfo_iff]
  constructor
  · intro h
    by_cases hres : res = -einval
    · exact .inr (h hres).2
    · exact .inl hres
  · rintro (hres | hsame)
    · exact atomic_of_ne hres
    · exact fun _ => ⟨rfl, hsame⟩

/-- An accepted call. -/
theorem atomic_of_effect {m m' : Mem} {c : Call} {tp : Option Tracepoint}
    (he : c.effect m = some (m', tp)) :
    Outcome.Atomic m ⟨c.status, m', tp⟩ ↔ c.RejectsCleanly m := by
  have hzero : (0 : Int32) ≠ -einval := by decide
  have hone : (1 : Int32) ≠ -einval := by decide
  cases Call.accepts_of_effect he with
  | record t a e tp _ hev =>
    have hne : m.eventFor t a e ≠ none := by simp [hev]
    exact iff_of_true (atomic_of_ne hzero)
      (.inl (not_not.1 (Mem.eventFor_eq_none_iff.not.1 hne)))
  | getInfo res t i => exact atomic_writeInfo_iff
  | setInfo res t i =>
    rw [Call.RejectsCleanly, eq_comm (a := m.readInfo i)]
    exact atomic_writeInfo_iff
  | pack | unpack => exact iff_of_true (atomic_of_ne hone) trivial
  | _ => exact iff_of_true (atomic_of_ne hzero) trivial

/-- A rejected call. -/
theorem atomic_of_rejected {m : Mem} {c : Call} (h : c.HasEndpoint m)
    (he : c.effect m = none) :
    Outcome.Atomic m ⟨-einval, c.rejected m, none⟩ ↔ c.RejectsCleanly m := by
  have hiff : Outcome.Atomic m ⟨-einval, c.rejected m, none⟩ ↔ m.SameObjects (c.rejected m) :=
    ⟨fun ho => (ho rfl).2, fun hm _ => ⟨rfl, hm⟩⟩
  rw [hiff]
  cases c with
  | record t a =>
    cases t <;> cases a
    case some.some t a =>
      obtain ⟨e, hep⟩ := Option.ne_none_iff_exists'.1 h
      have hev : m.eventFor t a e = none := by
        cases hev : m.eventFor t a e with
        | none => rfl
        | some tp => simp [Call.effect, hep, hev] at he
      have hincomplete := Mem.eventFor_eq_none_iff.1 hev
      rw [Call.rejected, hep, Option.elim_some, Mem.sameObjects_fillDefaults_iff]
      constructor
      · intro hsame
        exact .inr ⟨e, hsame⟩
      · rintro (hcomplete | ⟨e', he', hsame⟩)
        · exact absurd hcomplete hincomplete
        · rw [Mem.endpointFor, he', Option.some_or] at hep
          obtain rfl := Option.some.inj hep
          exact ⟨he', hsame⟩
    all_goals exact iff_of_true (.refl m) trivial
  | getInfo res t i =>
    cases t <;> cases i
    case some.some t i => simp [Call.effect] at he
    all_goals exact iff_of_true (.refl m) trivial
  | setInfo res t i =>
    cases t <;> cases i
    case some.some t i => simp [Call.effect] at he
    all_goals exact iff_of_true (.refl m) trivial
  | _ => exact iff_of_true (.refl m) trivial

/-- A rejected call is atomic exactly if it had nothing to fill in and nothing to copy. -/
theorem atomic_iff {m : Mem} {c : Call} (h : c.HasEndpoint m) :
    ∃ o, exec m c = some o ∧ (o.Atomic m ↔ c.RejectsCleanly m) := by
  obtain ⟨o, ho⟩ := h.exec
  refine ⟨o, ho, ?_⟩
  obtain ⟨m', tp, he, rfl⟩ | ⟨he, rfl⟩ := exec_cases ho
  · exact atomic_of_effect he
  · exact atomic_of_rejected h he

/-- A trace without a name, at an endpoint without ip and name. -/
def unnamed : Mem :=
  (Mem.static .little fun n => .ofNat n).modTrace 0 fun _ => ⟨none, ⟨1, 2, 0⟩, some 0⟩

/-- A rejected record whose annotation, trace and endpoint are filled in before. -/
theorem atomic_iff_filled : ∃ o, exec
    ((unnamed.modAnnot 0 fun an => { an with annotationEndpoint := some 0 }).fillDefaults 0 0 0)
      (.record (some 0) (some 0)) = some o ∧ o.ret = -einval ∧ o.fired = none := by
  have hep : Call.HasEndpoint
      ((unnamed.modAnnot 0 fun an => { an with annotationEndpoint := some 0 }).fillDefaults 0 0 0)
      (.record (some 0) (some 0)) := by
    show _ ≠ none
    decide
  obtain ⟨o, ho, hatomic⟩ := atomic_iff hep
  have hret : o.ret = -einval := by
    obtain rfl := Option.some.inj ho
    rfl
  have hfilled := hatomic.2 (.inr ⟨0, rfl, by decide, by decide, by decide⟩)
  exact ⟨o, ho, hret, (hfilled hret).1⟩

/-- An annotation that was never initialised is rejected, and has named its trace. -/
theorem rejected_record_names_trace : ∃ o, exec unnamed (.record (some 0) (some 0)) = some o ∧
    o.ret = -einval ∧ (unnamed.traces 0).name = none ∧
    (o.mem.traces 0).name = some defaultName ∧ ¬o.Atomic unnamed := by
  refine ⟨_, rfl, rfl, rfl, rfl, fun h => ?_⟩
  have hname := congrArg Trace.name (congrFun (h rfl).2.traces 0)
  exact absurd hname (by decide)

/-! ## Statuses -/

/-- The call with `res` in the local it may return unassigned. -/
def Call.withLocal (res : Int32) : Call → Call
  | .getInfo _ t i => .getInfo res t i
  | .setInfo _ t i => .setInfo res t i
  | c => c

/-- Whatever the unassigned local holds, the call returns the same status, negative exactly
if the arguments were rejected and non-negative exactly if the call had its effect. -/
def Call.TellsStatus (m : Mem) (c : Call) : Prop :=
  ∃ ret, ∀ res, ∃ o, exec m (c.withLocal res) = some o ∧ o.ret = ret ∧
    (ret < 0 ↔ c.effect m = none) ∧ (0 ≤ ret ↔ c.effect m = some (o.mem, o.fired))

/-- An info is copied from or to a trace. -/
def Call.Copies : Call → Prop
  | .getInfo _ (some _) (some _) => True
  | .setInfo _ (some _) (some _) => True
  | _ => False

theorem Call.effect_withLocal (m : Mem) (res : Int32) (c : Call) :
    (c.withLocal res).effect m = c.effect m := by
  cases c with
  | getInfo r t i => cases t <;> cases i <;> rfl
  | setInfo r t i => cases t <;> cases i <;> rfl
  | _ => rfl

theorem Call.HasEndpoint.withLocal {m : Mem} {c : Call} (h : c.HasEndpoint m) (res : Int32) :
    (c.withLocal res).HasEndpoint m := by
  cases c <;> exact h

/-- A call that copies no info has one status, which is not negative if it accepts. -/
theorem Call.status_withLocal {m : Mem} {c : Call} (h : ¬c.Copies) {m' : Mem}
    {tp : Option Tracepoint} (he : c.effect m = some (m', tp)) (res : Int32) :
    (c.withLocal res).status = c.status ∧ 0 ≤ c.status := by
  cases accepts_of_effect he with
  | getInfo | setInfo => exact absurd trivial h
  | pack | unpack => exact ⟨rfl, (by decide : (0 : Int32) ≤ 1)⟩
  | _ => exact ⟨rfl, (by decide : (0 : Int32) ≤ 0)⟩

/-- The status of a copy is the local. -/
theorem Call.Copies.exec {m : Mem} {c : Call} (h : c.Copies) (res : Int32) :
    ∃ m', exec m (c.withLocal res) = some ⟨res, m', none⟩ := by
  cases c with
  | getInfo r t i =>
    cases t <;> cases i
    case some.some t i => exact ⟨_, rfl⟩
    all_goals exact absurd h id
  | setInfo r t i =>
    cases t <;> cases i
    case some.some t i => exact ⟨_, rfl⟩
    all_goals exact absurd h id
  | _ => exact absurd h id

theorem Call.tellsStatus_iff {m : Mem} {c : Call} (h : c.HasEndpoint m) :
    c.TellsStatus m ↔ ¬c.Copies := by
  constructor
  · rintro ⟨ret, htells⟩ hcopies
    obtain ⟨o, ho, hret, -⟩ := htells 0
    obtain ⟨o', ho', hret', -⟩ := htells 1
    obtain ⟨_, hzero⟩ := hcopies.exec (m := m) 0
    obtain ⟨_, hone⟩ := hcopies.exec (m := m) 1
    obtain rfl := Option.some.inj (hzero.symm.trans ho)
    obtain rfl := Option.some.inj (hone.symm.trans ho')
    exact absurd (hret.trans hret'.symm) (by decide : (0 : Int32) ≠ 1)
  · intro hcopies
    cases he : c.effect m with
    | none =>
      refine ⟨-einval, fun res => ?_⟩
      obtain ⟨o, ho⟩ := (h.withLocal res).exec
      obtain ⟨m', tp, he', -⟩ | ⟨-, rfl⟩ := exec_cases ho
      · rw [effect_withLocal, he] at he'
        cases he'
      · exact ⟨_, ho, rfl, iff_of_true (by decide) he, iff_of_false (by decide) (by simp [he])⟩
    | some r =>
      obtain ⟨m', tp⟩ := r
      refine ⟨c.status, fun res => ?_⟩
      obtain ⟨hstatus, hnonneg⟩ := status_withLocal hcopies he res
      obtain ⟨o, ho⟩ := (h.withLocal res).exec
      obtain ⟨m'', tp', he', rfl⟩ | ⟨he', -⟩ := exec_cases ho
      · rw [effect_withLocal, he] at he'
        obtain ⟨rfl, rfl⟩ := Prod.mk.inj (Option.some.inj he')
        refine ⟨_, ho, hstatus, iff_of_false ?_ (by simp [he]), iff_of_true hnonneg he⟩
        exact Int32.not_lt.2 hnonneg
      · rw [effect_withLocal, he] at he'
        cases he'

/-- A call tells its status exactly if it copies no info. A context that is copied out of
one trace and installed in another arrives, whatever the two unassigned locals are, and
both steps report success exactly if these are not negative. -/
theorem status_iff (m : Mem) :
    (∀ c : Call, c.HasEndpoint m → (c.TellsStatus m ↔ ¬c.Copies)) ∧
    ∀ res res' t i t', ∃ m₁ m₂, exec m (.getInfo res (some t) (some i)) = some ⟨res, m₁, none⟩ ∧
      exec m₁ (.setInfo res' (some t') (some i)) = some ⟨res', m₂, none⟩ ∧
      (m₂.traces t').info = (m.traces t).info := by
  refine ⟨fun c h => Call.tellsStatus_iff h, fun res res' t i t' => ⟨_, _, rfl, rfl, ?_⟩⟩
  simp only [getTraceInfo, setTraceInfo, ← Mem.readInfo_trace, Mem.readInfo_writeInfo_self]

/-- The child of a trace with an endpoint; and an info that is copied out and installed. -/
theorem status_iff_unnamed :
    Call.TellsStatus unnamed (.child (some 1) (some 0) none none) ∧
    ∃ m₁ m₂, exec unnamed (.getInfo (-1) (some 0) (some (.info 0))) = some ⟨-1, m₁, none⟩ ∧
      exec m₁ (.setInfo 7 (some 1) (some (.info 0))) = some ⟨7, m₂, none⟩ ∧
      (m₂.traces 1).info = (unnamed.traces 0).info :=
  ⟨((status_iff unnamed).1 (.child (some 1) (some 0) none none) trivial).2 id,
    (status_iff unnamed).2 (-1) 7 0 (.info 0) 1⟩

/-- The copy of an info reports a failure if its local does, and is made nevertheless. -/
theorem copy_reports_failure : ∃ o, exec unnamed (.getInfo (-1) (some 0) (some (.info 0))) =
    some o ∧ o.ret < 0 ∧ o.mem.infos 0 = ⟨1, 2, 0⟩ ∧
    ¬Call.TellsStatus unnamed (.getInfo (-1) (some 0) (some (.info 0))) := by
  refine ⟨_, rfl, by decide, by decide, fun h => ?_⟩
  have hiff := Call.tellsStatus_iff (m := unnamed) (c := .getInfo (-1) (some 0) (some (.info 0)))
    trivial
  exact hiff.1 h trivial

end Blkin
