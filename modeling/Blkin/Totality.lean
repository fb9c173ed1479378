import Blkin.Effects
import Blkin.Endpoints

/-!
# Records of what the initialisers accept

Every initialiser accepts a `NULL` somewhere : a trace may lack a name and an endpoint, an
annotation an endpoint, an endpoint an ip and a name. `_blkin_record` fills all of these
in, but it looks for the ip and the name in whatever endpoint it found. `records_iff` says
which traces and annotations it can then take : those of which one has an endpoint. It
never rejects an annotation that was accepted.

An `Accepting` memory remembers which traces and annotations the initialisers accepted,
and each trace's endpoint.
-/

open Machine

namespace Blkin

structure Accepting where
  mem : Mem
  /-- The endpoint an accepted trace was last given. -/
  trace : Addr → Option Ptr
  /-- The annotations that were accepted. -/
  annot : Addr → Bool

namespace Accepting

/-- Nothing was accepted. -/
def start (m : Mem) : Accepting :=
  ⟨m, fun _ => none, fun _ => false⟩

/-- The initialiser `c` returned 0, which left the memory `m`. -/
def accept (s : Accepting) (m : Mem) : Call → Accepting
  | .newTrace (some t) _ e => { s with mem := m, trace := Function.update s.trace t (some e) }
  | .child (some t) (some p) e _ =>
    { s with mem := m, trace := Function.update s.trace t (some (childEndpoint s.mem p e)) }
  | .childInfo (some t) _ e _ =>
    { s with mem := m, trace := Function.update s.trace t (some e) }
  | .string (some a) _ _ _ => { s with mem := m, annot := Function.update s.annot a true }
  | .timestamp (some a) _ _ => { s with mem := m, annot := Function.update s.annot a true }
  | _ => { s with mem := m }

/-- One call. -/
def step (s : Accepting) (c : Call) : Option (List Tracepoint × Accepting) :=
  (exec s.mem c).map fun o =>
    (o.fired.toList, if o.ret = 0 then s.accept o.mem c else { s with mem := o.mem })

end Accepting

/-- The annotation type a tracepoint is for. -/
def Tracepoint.type : Tracepoint → AnnotationType
  | .keyval .. => .string
  | .timestamp .. => .timestamp

/-- `record` comes to an end : it returns `-EINVAL` and fires nothing, or it returns 0 and
fires one tracepoint of the annotation's type. A tracepoint has no `NULL` strings. -/
def Mem.Records (m : Mem) (t a : Addr) : Prop :=
  ∃ o, record m (some t) (some a) = some o ∧ (o.ret = -einval ∧ o.fired = none ∨
    o.ret = 0 ∧ ∃ tp, o.fired = some tp ∧ tp.type = (m.annots a).type)

theorem Mem.type_of_eventFor {m : Mem} {t a e : Addr} {tp : Tracepoint}
    (h : m.eventFor t a e = some tp) : tp.type = (m.annots a).type := by
  obtain ⟨key, val, hty, -, -, rfl⟩ | ⟨event, hty, -, rfl⟩ := eventFor_cases h
  · exact hty.symm
  · exact hty.symm

theorem Mem.records_iff_endpointFor {m : Mem} {t a : Addr} :
    m.Records t a ↔ m.endpointFor t a ≠ none := by
  constructor
  · rintro ⟨o, ho, -⟩ hnone
    rw [record_some, hnone] at ho
    cases ho
  · intro h
    obtain ⟨o, ho⟩ := Call.HasEndpoint.exec (c := .record (some t) (some a)) h
    refine ⟨o, ho, ?_⟩
    obtain ⟨m', tp, he, rfl⟩ | ⟨-, rfl⟩ := exec_cases ho
    · cases Call.accepts_of_effect he with
      | record _ _ e tp _ hev => exact .inr ⟨rfl, tp, rfl, type_of_eventFor hev⟩
    · exact .inl ⟨rfl, rfl⟩

/-! ## What was accepted stays so -/

theorem Mem.childAt_links (m : Mem) (c : Addr) (p : InfoLoc) (e : Addr)
    (name : Option CString) : Links m c (some e) (m.childAt c p e name) :=
  ⟨rfl, by simp [childAt], fun u hu => by simp [childAt, hu]⟩

namespace Accepting

/-- An accepted trace has the endpoint it was given, and an accepted annotation what its
type needs. -/
structure Inv (s : Accepting) : Prop where
  trace : ∀ t e, s.trace t = some e → (s.mem.traces t).traceEndpoint = e
  annot : ∀ a, s.annot a = true → (s.mem.annots a).Complete

variable {s : Accepting}

theorem inv_start (m : Mem) : (start m).Inv where
  trace _ _ h := by simp [start] at h
  annot _ h := by simp [start] at h

theorem Inv.quiet (h : s.Inv) {m : Mem} (hm : s.mem.SameLinks m) :
    ({ s with mem := m } : Accepting).Inv where
  trace t e ht := (hm.2 t).trans (h.trace t e ht)
  annot a ha := by
    show (m.annots a).Complete
    rw [hm.1]
    exact h.annot a ha

theorem Inv.fill (h : s.Inv) (t a e : Addr) :
    ({ s with mem := s.mem.fillDefaults t a e } : Accepting).Inv where
  trace u f hu := (s.mem.traceEndpoint_fillDefaults t a e u).trans (h.trace u f hu)
  annot b hb := by
    have hcomplete := h.annot b hb
    rcases eq_or_ne b a with rfl | hne
    · simpa [Mem.fillDefaults, Annotation.Complete] using hcomplete
    · simpa [Mem.annots_fillDefaults_of_ne _ _ _ _ hne] using hcomplete

theorem Inv.setTrace (h : s.Inv) {m : Mem} {t : Addr} {e : Ptr} (hm : Links s.mem t e m) :
    ({ s with mem := m, trace := Function.update s.trace t (some e) } : Accepting).Inv where
  trace u f hu := by
    rcases eq_or_ne u t with rfl | hne
    · obtain rfl : e = f := by simpa using hu
      exact hm.own
    · exact (hm.others u hne).trans (h.trace u f (by simpa [hne] using hu))
  annot a ha := by
    show (m.annots a).Complete
    rw [hm.annots]
    exact h.annot a ha

theorem Inv.setAnnot (h : s.Inv) {a : Addr} {f : Annotation → Annotation}
    (hf : (f (s.mem.annots a)).Complete) : ({ s with
      mem := s.mem.modAnnot a f, annot := Function.update s.annot a true } : Accepting).Inv where
  trace := h.trace
  annot b hb := by
    rcases eq_or_ne b a with rfl | hne
    · simpa using hf
    · simpa [hne] using h.annot b (by simpa [hne] using hb)

/-- A call that is accepted. -/
theorem Inv.effect (h : s.Inv) {c : Call} {m : Mem} {tp : Option Tracepoint}
    (he : c.effect s.mem = some (m, tp)) :
    (if c.status = 0 then s.accept m c else { s with mem := m }).Inv := by
  have copied : ∀ (l : InfoLoc) (v : TraceInfo) (res : Int32), (if res = 0
      then ({ s with mem := s.mem.writeInfo l v } : Accepting)
      else { s with mem := s.mem.writeInfo l v }).Inv := fun l v res => by
    rw [ite_self]
    exact h.quiet (s.mem.writeInfo_sameLinks l v)
  cases Call.accepts_of_effect he with
  | newTrace t service e => exact h.setTrace ⟨rfl, by simp, fun u hu => by simp [hu]⟩
  | child t p e name e' hep => exact h.setTrace (hep ▸ s.mem.childAt_links t _ e' name)
  | childInfo t i e name => exact h.setTrace (s.mem.childAt_links t i e name)
  | endpoint e ip port name => exact h.quiet ⟨rfl, fun _ => rfl⟩
  | string a key val e => exact h.setAnnot (.string key val e)
  | timestamp a event e => exact h.setAnnot (.timestamp (s.mem.annots a).key event e)
  | record t a e tp _ _ => exact h.fill t a e
  | getInfo res t i => exact copied i _ res
  | setInfo res t i => exact copied (.trace t) _ res
  | pack i p => exact copied i _ 1
  | unpack p i => exact h.quiet ⟨rfl, fun _ => rfl⟩

/-- A call that is rejected. -/
theorem Inv.rejected (h : s.Inv) (c : Call) :
    ({ s with mem := c.rejected s.mem } : Accepting).Inv := by
  cases c with
  | record t a =>
    cases t <;> cases a
    case some.some t a =>
      cases he : s.mem.endpointFor t a with
      | none => simpa [Call.rejected, he] using h
      | some e => simpa [Call.rejected, he] using h.fill t a e
    all_goals exact h
  | _ => exact h

theorem inv_step : Keeps step fun s _ => s.Inv := by
  intro s outs c out s' h hs
  obtain ⟨o, ho, hs⟩ := Option.map_eq_some_iff.1 hs
  obtain ⟨-, rfl⟩ := Prod.mk.inj hs
  obtain ⟨m', tp, he, rfl⟩ | ⟨-, rfl⟩ := exec_cases ho
  · exact h.effect he
  · rw [if_neg (by decide : ¬(-einval = 0))]
    exact h.rejected c

/-- Whatever was called since the initialisers accepted the trace and the annotation,
recording comes to an end exactly if the annotation has an endpoint or the trace was given
one, and then it fires. -/
theorem records_iff {m : Mem} {cs : List Call} {outs : List Tracepoint} {s : Accepting}
    (hrun : run step (start m) cs = some (outs, s)) {t a : Addr} {e : Ptr}
    (ht : s.trace t = some e) (ha : s.annot a = true) :
    (s.mem.Records t a ↔ (s.mem.annots a).annotationEndpoint ≠ none ∨ e ≠ none) ∧
      ∀ o, record s.mem (some t) (some a) = some o → o.ret = 0 ∧ o.fired ≠ none := by
  have h : s.Inv := inv_step.run_state (inv_start m) hrun
  constructor
  · rw [Mem.records_iff_endpointFor, Mem.endpointFor, h.trace t e ht]
    cases (s.mem.annots a).annotationEndpoint <;> simp
  · intro o ho
    obtain ⟨e', -, -, hfired⟩ := record_cases ho
    have hfires : o.fired ≠ none := by
      rw [hfired]
      exact Mem.eventFor_eq_none_iff.not.2 (not_not.2 (h.annot a ha))
    obtain ⟨_, _, -, rfl⟩ | ⟨-, rfl⟩ := exec_cases (c := .record (some t) (some a)) ho
    · exact ⟨rfl, hfires⟩
    · exact absurd rfl hfires

/-- The endpoint of the trace suffices, and a child has its parent's. -/
theorem records_iff_child : ∃ outs s,
    run step (start (.static .little fun n => .ofNat (n + 1)))
      [.newTrace (some 0) none (some 0), .child (some 1) (some 0) none none,
        .timestamp (some 0) (some (.lit "start")) none] = some (outs, s) ∧
      s.mem.Records 1 0 := by
  refine exists_of_map_eq (f := fun r => (r.2.trace 1, r.2.annot 0))
    (c := (some (some 0), true)) (by decide) ?_
  intro outs s hr hf
  obtain ⟨ht, ha⟩ := Prod.mk.inj hf
  exact (records_iff hr ht ha).1.2 (.inr (by simp))

/-- Both initialisers return 0, and the record that follows reads through `NULL`. -/
theorem record_of_accepted_undefined : ∃ outs s,
    run step (start (.static .little fun n => .ofNat (n + 1)))
      [.newTrace (some 0) none none, .timestamp (some 0) (some (.lit "start")) none] =
        some (outs, s) ∧
      s.trace 0 = some none ∧ s.annot 0 = true ∧
      record s.mem (some 0) (some 0) = none ∧ ¬s.mem.Records 0 0 := by
  refine exists_of_map_eq (f := fun r => (r.2.trace 0, r.2.annot 0,
    (record r.2.mem (some 0) (some 0)).isSome)) (c := (some none, true, false)) (by decide) ?_
  intro outs s hr hf
  obtain ⟨ht, hf⟩ := Prod.mk.inj hf
  obtain ⟨ha, hnone⟩ := Prod.mk.inj hf
  have hnone : record s.mem (some 0) (some 0) = none := by simpa using hnone
  refine ⟨ht, ha, hnone, ?_⟩
  rintro ⟨o, ho, -⟩
  rw [hnone] at ho
  cases ho

end Accepting

end Blkin
