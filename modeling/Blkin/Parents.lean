import Blkin.EndToEnd
import Blkin.Spans

/-!
# The parents that are shown

0 is an id like any other to `random_big`, and marks a missing parent in
`_blkin_init_new_trace` and in `create_trace`. In every run the span that is built for an
event tells whether its span was created as a child, and of which span, exactly if the
parent's span id is not 0 as a `long` (`parent_shown_iff`) : on LP64 if not both values
of `rand()` were 0, on ILP32 if the second was not.
-/

open Machine

namespace Blkin

/-! ## Ids that are 0 -/

/-- The values the span id was drawn from make it 0 as a `long`. -/
def Span.DrawnZero (abi : Abi) (s : Span) : Prop :=
  s.y.val = 0 ∧ (abi = .lp64 → s.x.val = 0)

theorem long_randomBig (abi : Abi) (x y : RandResult) :
    abi.long (randomBig x y) = match abi with
      | .lp64 => 2 ^ 32 * x.val.toInt + y.val.toInt
      | .ilp32 => y.val.toInt := by
  cases abi with
  | lp64 => exact toInt_randomBig x y
  | ilp32 =>
    have hlo := y.val.le_toInt
    have hhi := y.val.toInt_lt
    rw [Abi.long, Int64.toInt_toInt32, toInt_randomBig]
    have hword : (2 : ℤ) ^ 32 = (2 ^ 32 : ℕ) := rfl
    rw [hword, Int.mul_add_bmod_self_left]
    apply Int.bmod_eq_of_le <;> norm_num <;> omega

theorem long_eq_zero_iff {abi : Abi} {s : Span} (h : s.info.spanId = randomBig s.x s.y) :
    abi.long s.info.spanId = 0 ↔ s.DrawnZero abi := by
  have hx := Int32.le_iff_toInt_le.1 s.x.nonneg
  have hy := Int32.le_iff_toInt_le.1 s.y.nonneg
  have h0 : (0 : Int32).toInt = 0 := rfl
  rw [h, long_randomBig, Span.DrawnZero, ← Int32.toInt_inj, ← Int32.toInt_inj, h0]
  rw [h0] at hx hy
  cases abi with
  | lp64 =>
    simp only [forall_const]
    omega
  | ilp32 => simp

/-! ## The parent of an event -/

theorem report_parentSpanId (abi : Abi) (timestamp : UInt64) (tp : Tracepoint) :
    (tp.report abi timestamp).parentSpanId = abi.long tp.info.parentSpanId := by
  cases tp <;> rfl

/-- The span that is built for the event has no parent exactly if `s` was created without
one, and otherwise the parent that `s` was created with. -/
def Tracepoint.ShowsParent (abi : Abi) (timestamp : UInt64) (tp : Tracepoint)
    (s : Lineage Span) : Prop :=
  ∃ trace, createTrace (deliver abi timestamp tp) = .ok trace ∧
    (trace.parentSpanId = .none ↔ s.parent = none) ∧
    ∀ p, s.parent = some p → trace.parentSpanId = .int (abi.long p.label.info.spanId)

theorem Linked.spanId_eq {s : Lineage Span} (h : Linked s) :
    s.label.info.spanId = randomBig s.label.x s.label.y := by
  cases s with
  | root a => exact h.2
  | child a p => exact h.2.2

theorem createTrace_deliver (abi : Abi) (timestamp : UInt64) (tp : Tracepoint) :
    ∃ trace, createTrace (deliver abi timestamp tp) = .ok trace ∧
      trace.parentSpanId = if abi.long tp.info.parentSpanId = 0 then .none
        else .int (abi.long tp.info.parentSpanId) := by
  refine ⟨_, createTrace_eq (deliver_shows abi timestamp tp), ?_⟩
  rw [report_parentSpanId]

namespace World

/-- Whatever the processes do and whatever `rand()` gives, the span built for an event
shows the parent of its span exactly if there is none or its id was not drawn 0. -/
theorem parent_shown_iff (abi : Abi) {proc : ℕ → Mem} {acts : List Act} {w : World}
    {outs : List (Tracepoint × Lineage Span)}
    (hrun : run step (start proc) acts = some (outs, w)) :
    ∀ e ∈ outs, ∀ timestamp, e.1.ShowsParent abi timestamp e.2 ↔
      ∀ p, e.2.parent = some p → ¬p.label.DrawnZero abi := by
  have h : w.Inv outs := inv_step.run (inv_start proc) hrun
  rintro ⟨tp, s⟩ he timestamp
  obtain ⟨hs, hids⟩ := h.events _ he
  obtain ⟨trace, htrace, hparent⟩ := createTrace_deliver abi timestamp tp
  have hlinked := h.linked s hs
  rw [hids] at hparent
  cases s with
  | root a =>
    rw [Lineage.label_root, hlinked.1, if_pos (by cases abi <;> rfl)] at hparent
    simp [Tracepoint.ShowsParent, htrace, hparent]
  | child a p =>
    have hp : p ∈ w.created := h.grown.parent_mem hs rfl
    rw [Lineage.label_child, hlinked.2.1] at hparent
    have hzero : abi.long p.label.info.spanId = 0 ↔ p.label.DrawnZero abi :=
      long_eq_zero_iff (h.linked p hp).spanId_eq
    by_cases hdrawn : p.label.DrawnZero abi
    · rw [if_pos (hzero.2 hdrawn)] at hparent
      simp [Tracepoint.ShowsParent, htrace, hparent, hdrawn]
    · rw [if_neg (hzero.not.2 hdrawn)] at hparent
      simp [Tracepoint.ShowsParent, htrace, hparent, hdrawn]

/-- A new trace, a child of it, and a record on the child. -/
def recordOnChild : List Act :=
  [.call 0 (.newTrace (some 0) none (some 0)), .call 0 (.child (some 1) (some 0) none none),
    .call 0 (.timestamp (some 0) (some (.lit "start")) none), .call 0 (.record (some 1) (some 0))]

/-- The span of the child tells its parent. -/
theorem parent_shown_iff_child : ∃ outs w,
    run step (start fun _ => .static .little fun n => .ofNat n) recordOnChild = some (outs, w) ∧
      outs.length = 1 ∧ ∀ e ∈ outs, ∀ timestamp, e.1.ShowsParent .lp64 timestamp e.2 ↔
        ∀ p, e.2.parent = some p → ¬p.label.DrawnZero .lp64 := by
  refine exists_of_map_eq (f := fun r => r.1.length) (c := 1) (by decide) ?_
  intro outs w hr hf
  exact ⟨hf, parent_shown_iff .lp64 hr⟩

/-- The third and the fourth `rand()` give 0, so the new trace gets the span id 0, and its
child is shown without a parent. -/
theorem child_shown_without_parent : ∃ outs w,
    run step (start fun _ => .static .little fun n => .ofNat (if n = 2 ∨ n = 3 then 0 else n))
      recordOnChild = some (outs, w) ∧
      ∃ e ∈ outs, ∃ trace, createTrace (deliver .lp64 1000000 e.1) = .ok trace ∧
        trace.parentSpanId = .none ∧ e.2.parent ≠ none := by
  refine exists_of_map_eq (f := fun r =>
      r.1.map fun e => (e.1.info.parentSpanId, e.2.parent.isSome))
    (c := [(0, true)]) (by decide) ?_
  intro outs w hr hf
  obtain ⟨e, rfl, he⟩ := List.map_eq_singleton_iff.1 hf
  obtain ⟨hzero, hparent⟩ := Prod.mk.inj he
  obtain ⟨trace, htrace, hshown⟩ := createTrace_deliver .lp64 1000000 e.1
  refine ⟨e, List.mem_singleton_self e, trace, htrace, ?_, Option.isSome_iff_ne_none.1 hparent⟩
  rw [hshown, hzero]
  rfl

end World

end Blkin
