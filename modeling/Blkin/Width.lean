import Blkin.InPlace
import Blkin.Parents

/-!
# Ids through a `long`

The library's ids are `int64_t`, the tracepoints take them as `long` and store them in
`long` fields. An id arrives exactly if `long` has 64 bits or the id fits in 32
(`Abi.long_eq_iff`), and `random_big` puts the first of its two values of `rand()` in the
upper half of an id.

`ids_kept_iff` is what this means for the events of any run, also one that makes children
in their parent's object : their ids are those of their spans, events with one span id are
of one span, and a parent id is the span id that its parent is shown with, exactly if
`long` has 64 bits or every recorded id fits in 32, and no draw of a recorded child made
in its parent's object differs, as a `long`, from 0 and from its parent's.
-/

open Machine

namespace Blkin

theorem Abi.long_eq_iff (abi : Abi) (x : Int64) :
    abi.long x = x.toInt ↔ abi = .lp64 ∨ Fits 32 x.toInt := by
  cases abi with
  | lp64 => simp [long]
  | ilp32 =>
    have hlo := x.toInt32.le_toInt
    have hhi := x.toInt32.toInt_lt
    simp only [long, reduceCtorEq, false_or, Fits]
    constructor
    · intro h
      omega
    · intro h
      rw [Int64.toInt_toInt32]
      apply Int.bmod_eq_of_le <;> norm_num <;> omega

/-- Every id fits in 32 bits. -/
def TraceInfo.Fits32 (v : TraceInfo) : Prop :=
  Fits 32 v.traceId.toInt ∧ Fits 32 v.spanId.toInt ∧ Fits 32 v.parentSpanId.toInt

/-- The id fields of the event are the ids `v`. -/
def Event.Carries (e : Event) (v : TraceInfo) : Prop :=
  e.get "trace_id" = .ok (.int v.traceId.toInt) ∧
    e.get "span_id" = .ok (.int v.spanId.toInt) ∧
    e.get "parent_span_id" = .ok (.int v.parentSpanId.toInt)

theorem deliver_ids (abi : Abi) (timestamp : UInt64) (tp : Tracepoint) :
    (deliver abi timestamp tp).get "trace_id" = .ok (.int (abi.long tp.info.traceId)) ∧
      (deliver abi timestamp tp).get "span_id" = .ok (.int (abi.long tp.info.spanId)) ∧
      (deliver abi timestamp tp).get "parent_span_id" =
        .ok (.int (abi.long tp.info.parentSpanId)) := by
  cases tp <;> exact ⟨rfl, rfl, rfl⟩

theorem deliver_carries_iff (abi : Abi) (timestamp : UInt64) (tp : Tracepoint) :
    (deliver abi timestamp tp).Carries tp.info ↔ abi = .lp64 ∨ tp.info.Fits32 := by
  obtain ⟨htrace, hspan, hparent⟩ := deliver_ids abi timestamp tp
  rw [Event.Carries, htrace, hspan, hparent]
  simp only [Except.ok.injEq, Value.int.injEq, Abi.long_eq_iff, TraceInfo.Fits32]
  tauto

theorem Mem.info_of_fired {m : Mem} {t a : Addr} {tp : Tracepoint}
    (h : (record m (some t) (some a)).bind Outcome.fired = some tp) :
    tp.info = (m.traces t).info := by
  obtain ⟨e, -, hev⟩ := fired_iff.1 h
  obtain ⟨key, val, -, -, -, rfl⟩ | ⟨event, -, -, rfl⟩ := eventFor_cases hev
  · rfl
  · rfl

/-- What the events of a run tell by their ids. -/
structure IdsKept (abi : Abi) (outs : List (Tracepoint × Lineage Span)) : Prop where
  /-- The ids are those of the span. -/
  carried : ∀ e ∈ outs, ∀ timestamp, (deliver abi timestamp e.1).Carries e.2.label.info
  /-- Events with the same span id are of spans with the same id. -/
  distinct : ∀ e ∈ outs, ∀ e' ∈ outs, ∀ timestamp timestamp',
    (deliver abi timestamp e.1).get "span_id" = (deliver abi timestamp' e'.1).get "span_id" →
      e.2.label.info.spanId = e'.2.label.info.spanId
  /-- A parent id other than 0 is the span id in every event of the parent. -/
  parent : ∀ e ∈ outs, ∀ timestamp,
    (deliver abi timestamp e.1).get "parent_span_id" ≠ .ok (.int 0) →
      ∃ p, e.2.parent = some p ∧ ∀ tp timestamp', tp.info = p.label.info →
        (deliver abi timestamp' tp).get "span_id" =
          (deliver abi timestamp e.1).get "parent_span_id"

/-- The value of `random_big` that is the span's id. -/
def Span.drawn (s : Span) : Int64 :=
  randomBig s.x s.y

/-- What was drawn for the span is, as a `long`, 0 or what was drawn for its parent. -/
def DrawnAlike (abi : Abi) : Lineage Span → Prop
  | .root _ => True
  | .child s p => abi.long s.drawn = 0 ∨ abi.long s.drawn = abi.long p.label.drawn

instance (abi : Abi) : DecidablePred (DrawnAlike abi)
  | .root _ => inferInstanceAs (Decidable True)
  | .child s p => inferInstanceAs
      (Decidable (abi.long s.drawn = 0 ∨ abi.long s.drawn = abi.long p.label.drawn))

/-- The parent id that events of the span show is 0, or the span id that those of its parent
show. -/
def ParentKept (abi : Abi) (s : Lineage Span) : Prop :=
  abi.long s.label.info.parentSpanId ≠ 0 → ∃ p, s.parent = some p ∧
    abi.long p.label.info.spanId = abi.long s.label.info.parentSpanId

theorem shows_parent_iff (abi : Abi) {tp : Tracepoint} {s : Lineage Span}
    (h : tp.info = s.label.info) (timestamp : UInt64) :
    ((deliver abi timestamp tp).get "parent_span_id" ≠ .ok (.int 0) →
      ∃ p, s.parent = some p ∧ ∀ tp' timestamp', tp'.info = p.label.info →
        (deliver abi timestamp' tp').get "span_id" =
          (deliver abi timestamp tp).get "parent_span_id") ↔ ParentKept abi s := by
  rw [(deliver_ids abi timestamp tp).2.2, h]
  refine imp_congr (by simp) (exists_congr fun p => and_congr_right fun _ => ?_)
  constructor
  · intro hall
    have hspan := hall (.timestamp defaultName defaultName 0 defaultIp p.label.info.traceId
      p.label.info.spanId p.label.info.parentSpanId defaultName) 0 rfl
    rw [(deliver_ids abi 0 _).2.1] at hspan
    exact Value.int.inj (Except.ok.inj hspan)
  · intro hspan tp' timestamp' htp'
    rw [(deliver_ids abi timestamp' tp').2.1, htp', hspan]

/-- A parent id is kept whatever the width. -/
theorem Linked.parentKept {s : Lineage Span} (h : Linked s) (abi : Abi) : ParentKept abi s := by
  intro hne
  cases s with
  | root a =>
    have hzero : abi.long 0 = 0 := by cases abi <;> rfl
    rw [Lineage.label_root, h.1, hzero] at hne
    exact absurd rfl hne
  | child a p => exact ⟨p, rfl, by rw [Lineage.label_child, h.2.1]⟩

theorem Reused.spanId_eq {s : Lineage Span} (h : Reused s) :
    s.label.info.spanId = s.label.drawn := by
  cases s with
  | root a => exact h.elim
  | child a p => exact h.2.2

/-- A child made in its parent's object shows its own id as its parent's. -/
theorem Reused.parentKept_iff {s : Lineage Span} (h : Reused s) (abi : Abi)
    (hparent : ∀ p, s.parent = some p → p.label.info.spanId = p.label.drawn) :
    ParentKept abi s ↔ DrawnAlike abi s := by
  have hdrawn := h.spanId_eq
  cases s with
  | root a => exact h.elim
  | child a p =>
    have hself : a.info.parentSpanId = a.drawn := h.2.1.trans hdrawn
    simp only [ParentKept, DrawnAlike, Lineage.label_child, Lineage.parent_child, hself,
      Option.some.injEq, exists_eq_left', hparent p rfl]
    rw [← or_iff_not_imp_left, eq_comm (a := abi.long p.label.drawn)]

/-- The parent id of any span is kept, unless it was created in its parent's object. -/
theorem Reusing.Inv.parentKept_iff {r : Reusing} {outs : List (Tracepoint × Lineage Span)}
    (h : r.Inv outs) (abi : Abi) {s : Lineage Span} (hs : s ∈ r.world.created) :
    ParentKept abi s ↔ (s ∈ r.inPlace → DrawnAlike abi s) := by
  have hdrawn : ∀ p ∈ r.world.created, p.label.info.spanId = p.label.drawn := fun p hp =>
    (h.tracks.linked p hp).elim Linked.spanId_eq fun hp => (h.reused p hp).spanId_eq
  by_cases hin : s ∈ r.inPlace
  · rw [(h.reused s hin).parentKept_iff abi fun p hp =>
      hdrawn p (h.tracks.grown.parent_mem hs hp)]
    exact (imp_iff_right hin).symm
  · have hlinked := (h.tracks.linked s hs).resolve_right hin
    exact iff_of_true (hlinked.parentKept abi) fun hs => absurd hs hin

/-- An event carries the ids of the recorded trace exactly if `long` has 64 bits or they
fit in 32. Over any run, the events carry their ids and tell their spans and parents
exactly if that holds of each, and what was drawn for each recorded child made in its
parent's object is, as a `long`, 0 or what was drawn for the parent. -/
theorem ids_kept_iff (abi : Abi) :
    (∀ {m : Mem} {t a : Addr} {tp : Tracepoint},
      (record m (some t) (some a)).bind Outcome.fired = some tp → ∀ timestamp,
        ((deliver abi timestamp tp).Carries (m.traces t).info ↔
          abi = .lp64 ∨ (m.traces t).info.Fits32)) ∧
    ∀ {proc : ℕ → Mem} {acts : List Act} {r : Reusing}
      {outs : List (Tracepoint × Lineage Span)},
      run Reusing.step (.start proc) acts = some (outs, r) →
        (IdsKept abi outs ↔ (abi = .lp64 ∨ ∀ e ∈ outs, e.2.label.info.Fits32) ∧
          ∀ e ∈ outs, e.2 ∈ r.inPlace → DrawnAlike abi e.2) := by
  constructor
  · intro m t a tp h timestamp
    rw [← Mem.info_of_fired h]
    exact deliver_carries_iff abi timestamp tp
  intro proc acts r outs hrun
  have h : r.Inv outs := Reusing.inv_step.run (Reusing.inv_start proc) hrun
  have carries : ∀ e ∈ outs, ∀ timestamp, (deliver abi timestamp e.1).Carries e.2.label.info ↔
      abi = .lp64 ∨ e.2.label.info.Fits32 := fun e he timestamp => by
    rw [← (h.tracks.events e he).2]
    exact deliver_carries_iff abi timestamp e.1
  have parents : ∀ e ∈ outs, ParentKept abi e.2 ↔ (e.2 ∈ r.inPlace → DrawnAlike abi e.2) :=
    fun e he => h.parentKept_iff abi (h.tracks.events e he).1
  constructor
  · intro hkept
    refine ⟨or_iff_not_imp_left.2 fun habi e he => ?_, fun e he => (parents e he).1 ?_⟩
    · exact ((carries e he 0).1 (hkept.carried e he 0)).resolve_left habi
    · exact (shows_parent_iff abi (h.tracks.events e he).2 0).1 (hkept.parent e he 0)
  · rintro ⟨hfits, hdrawn⟩
    have hcarried : ∀ e ∈ outs, ∀ timestamp,
        (deliver abi timestamp e.1).Carries e.2.label.info := fun e he timestamp =>
      (carries e he timestamp).2 (hfits.imp_right fun hall => hall e he)
    refine ⟨hcarried, fun e he e' he' timestamp timestamp' hsame => ?_, fun e he timestamp => ?_⟩
    · rw [(hcarried e he timestamp).2.1, (hcarried e' he' timestamp').2.1] at hsame
      simpa [Int64.toInt_inj] using hsame
    · exact (shows_parent_iff abi (h.tracks.events e he).2 timestamp).2
        ((parents e he).2 (hdrawn e he))

/-- A new trace, and two children of it, the second made in the first. -/
def recordInPlace : List Act :=
  [.call 0 (.newTrace (some 0) none (some 0)), .call 0 (.child (some 1) (some 0) none none),
    .call 0 (.timestamp (some 0) (some (.lit "start")) none), .call 0 (.record (some 1) (some 0)),
    .call 0 (.child (some 1) (some 1) none none), .call 0 (.record (some 1) (some 0))]

/-- On LP64 the events of a child tell its parent, though the next child is made in its
object, as nothing was drawn for that but what was drawn before. -/
theorem ids_kept_iff_child : ∃ outs r,
    run Reusing.step (.start fun _ => .static .little fun n => .ofNat (n % 2 + 1))
      recordInPlace = some (outs, r) ∧ outs.length = 2 ∧ r.inPlace.length = 1 ∧
      IdsKept .lp64 outs := by
  refine exists_of_map_eq (f := fun r => (r.1.length, r.2.inPlace.length,
    decide (∀ e ∈ r.1, e.2 ∈ r.2.inPlace → DrawnAlike .lp64 e.2))) (c := (2, 1, true))
    (by decide) ?_
  intro outs r hr hf
  obtain ⟨hlen, hone, hdrawn⟩ : outs.length = 2 ∧ r.inPlace.length = 1 ∧
    decide (∀ e ∈ outs, e.2 ∈ r.inPlace → DrawnAlike .lp64 e.2) = true := by simpa using hf
  exact ⟨hlen, hone, ((ids_kept_iff .lp64).2 hr).2 ⟨.inl rfl, of_decide_eq_true hdrawn⟩⟩

/-- On ILP32 the ids lose their upper halves. On LP64 the child made in its parent's object
shows its own id as its parent's. -/
theorem long_truncates_ids :
    (∃ outs r, run Reusing.step (.start fun _ => .static .little fun n => .ofNat (n + 1))
      World.recordOnChild = some (outs, r) ∧
      (∃ e ∈ outs, e.2.label.info = ⟨4294967298, 21474836486, 12884901892⟩ ∧
        ∀ timestamp, (deliver .ilp32 timestamp e.1).get "span_id" = .ok (.int 6)) ∧
      ¬IdsKept .ilp32 outs) ∧
    ∃ outs r, run Reusing.step (.start fun _ => .static .little fun n => .ofNat (n + 1))
      recordInPlace = some (outs, r) ∧
      (∃ e ∈ outs, e.1.info = ⟨4294967298, 30064771080, 30064771080⟩ ∧
        e.2.parent.map (fun p => p.label.info.spanId) = some 21474836486) ∧
      ¬IdsKept .lp64 outs := by
  constructor
  · refine exists_of_map_eq (f := fun r => r.1.map fun e => (e.1.info, e.2.label.info))
      (c := [(⟨4294967298, 21474836486, 12884901892⟩, ⟨4294967298, 21474836486, 12884901892⟩)])
      (by decide) ?_
    intro outs r hr hf
    obtain ⟨e, rfl, he⟩ := List.map_eq_singleton_iff.1 hf
    obtain ⟨hids, hspan⟩ := Prod.mk.inj he
    have hshown : ∀ timestamp,
        (deliver .ilp32 timestamp e.1).get "span_id" = .ok (.int 6) := fun timestamp => by
      rw [(deliver_ids .ilp32 timestamp e.1).2.1, hids]
      rfl
    refine ⟨⟨e, List.mem_singleton_self e, hspan, hshown⟩, fun h => ?_⟩
    have hcarried := (h.carried e (List.mem_singleton_self e) 0).2.1
    rw [hshown, hspan] at hcarried
    exact absurd (Value.int.inj (Except.ok.inj hcarried)) (by decide)
  · refine exists_of_map_eq (f := fun r => decide (∃ e ∈ r.1,
      e.1.info = ⟨4294967298, 30064771080, 30064771080⟩ ∧ e.2.label.info = e.1.info ∧
        e.2.parent.map (fun p => p.label.info.spanId) = some 21474836486)) (c := true)
      (by decide) ?_
    intro outs r hr hf
    obtain ⟨e, he, hids, hspan, hparent⟩ := of_decide_eq_true hf
    refine ⟨⟨e, he, hids, hparent⟩, fun h => ?_⟩
    obtain ⟨p, hp, hsame⟩ := (shows_parent_iff .lp64 hspan.symm 0).1 (h.parent e he 0) (by
      rw [hspan, hids]
      decide)
    rw [hp, Option.map_some, Option.some.injEq] at hparent
    rw [hspan, hids, hparent] at hsame
    exact absurd hsame (by decide)

end Blkin
