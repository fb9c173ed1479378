import Blkin.Effects
import Blkin.ZTracer

/-!
# What an annotation held before

`BLKIN_TIMESTAMP` and `BLKIN_KEYVAL` initialise an annotation on the stack and record it,
whatever the initialiser returned. An initialiser that accepts writes every field that
`_blkin_record` goes on to read. One that rejects writes nothing, so what is recorded is
what the annotation held before.

`macros_iff` : the macros do the same whatever the annotation held, and emit nothing for
a `NULL` argument, exactly if no argument is `NULL`.
-/

open Machine

namespace Blkin

/-- The memory with `an` as the annotation at `a`. -/
def Mem.withAnnot (m : Mem) (a : Addr) (an : Annotation) : Mem :=
  m.modAnnot a fun _ => an

/-- Whatever the annotation at `a` held, the program emits the same events and has the same
effect on traces and endpoints; and if one of `args` is `NULL` it emits none. -/
structure IgnoresAnnot (m : Mem) (a : Addr) (args : List (Option CString))
    (program : List Call) : Prop where
  same : ∀ an an', ∃ out m₁ m₂, run step (m.withAnnot a an) program = some (out, m₁) ∧
    run step (m.withAnnot a an') program = some (out, m₂) ∧
    m₁.traces = m₂.traces ∧ m₁.endps = m₂.endps
  silent : none ∈ args → ∀ an out m', run step (m.withAnnot a an) program = some (out, m') →
    out = []

/-- A program whose run is known whatever the annotation held. -/
theorem ignoresAnnot_of_run {m : Mem} {a t e : Addr} {args : List (Option CString)}
    {program : List Call} {tp : Tracepoint} {f : Annotation → Annotation} (hargs : none ∉ args)
    (hrun : ∀ an, run step (m.withAnnot a an) program =
      some ([tp], ((m.withAnnot a an).modAnnot a f).fillDefaults t a e)) :
    IgnoresAnnot m a args program where
  same an an' := ⟨_, _, _, hrun an, hrun an', rfl, rfl⟩
  silent hnone := absurd hnone hargs

/-- An annotation left over from an earlier event. -/
def leftover (e : Addr) : Annotation :=
  ⟨.timestamp, none, some (.lit "earlier"), some e⟩

/-- An initialiser that rejects, and the record of what is left over. -/
theorem not_ignoresAnnot {m : Mem} {a t : Addr} (e : Addr) {args : List (Option CString)}
    {c : Call} (hargs : none ∈ args) (hc : ∀ m, exec m c = some ⟨-einval, m, none⟩) :
    ¬IgnoresAnnot m a args [c, .record (some t) (some a)] := by
  intro h
  have hev : (m.withAnnot a (leftover e)).eventFor t a e =
      some ((m.withAnnot a (leftover e)).timestampEvent t e (.lit "earlier")) := by
    simp [Mem.eventFor, Mem.withAnnot, leftover]
  have hep : (m.withAnnot a (leftover e)).endpointFor t a = some e := by
    simp [Mem.endpointFor, Mem.withAnnot, leftover]
  have hrecord : step (m.withAnnot a (leftover e)) (.record (some t) (some a)) =
      some ([(m.withAnnot a (leftover e)).timestampEvent t e (.lit "earlier")],
        (m.withAnnot a (leftover e)).fillDefaults t a e) := by
    rw [step, exec, record_some, hep, Option.map_some, hev]
    rfl
  have hrun := run_cons_eq_some.2 ⟨[], m.withAnnot a (leftover e), _, by rw [step, hc]; rfl,
    (run_singleton step _ _).trans hrecord, rfl⟩
  exact absurd (h.silent hargs _ _ _ hrun) (by simp)

/-- With an endpoint at hand, a macro ignores what its annotation held before exactly if
none of its strings is `NULL`. -/
theorem macros_iff {m : Mem} {t : Addr} {ep : Ptr} (hep : ep.or (m.traces t).traceEndpoint ≠ none)
    (a : Addr) (event key val : Option CString) :
    (IgnoresAnnot m a [event] (blkinTimestamp a (some t) ep event) ↔ event ≠ none) ∧
      (IgnoresAnnot m a [key, val] (blkinKeyval a (some t) ep key val) ↔
        key ≠ none ∧ val ≠ none) := by
  obtain ⟨e, he⟩ := Option.ne_none_iff_exists'.1 hep
  constructor
  · cases event with
    | none =>
      exact iff_of_false (not_ignoresAnnot e List.mem_cons_self fun _ => rfl) (not_not.2 rfl)
    | some event =>
      have hrun : ∀ an, run step (m.withAnnot a an) (blkinTimestamp a (some t) ep (some event)) =
          some ([m.timestampEvent t e event], ((m.withAnnot a an).modAnnot a fun an =>
            ⟨.timestamp, an.key, some event, some e⟩).fillDefaults t a e) := fun an =>
        run_blkinTimestamp he
      exact iff_of_true (ignoresAnnot_of_run (by simp) hrun) (by simp)
  · cases key with
    | none =>
      exact iff_of_false (not_ignoresAnnot e List.mem_cons_self fun _ => rfl) fun h => h.1 rfl
    | some key =>
      cases val with
      | none =>
        exact iff_of_false (not_ignoresAnnot e (by simp) fun _ => rfl) fun h => h.2 rfl
      | some val =>
        have hrun : ∀ an,
            run step (m.withAnnot a an) (blkinKeyval a (some t) ep (some key) (some val)) =
              some ([m.keyvalEvent t e key val], ((m.withAnnot a an).modAnnot a fun _ =>
                ⟨.string, some key, some val, some e⟩).fillDefaults t a e) := fun an =>
          run_blkinKeyval he
        exact iff_of_true (ignoresAnnot_of_run (by simp) hrun) (by simp)

theorem macros_iff_start :
    IgnoresAnnot unnamed 0 [some (.lit "start")]
      (blkinTimestamp 0 (some 0) none (some (.lit "start"))) ∧
    IgnoresAnnot unnamed 0 [some (.lit "key"), some (.lit "val")]
      (blkinKeyval 0 (some 0) none (some (.lit "key")) (some (.lit "val"))) := by
  have hep : (none : Ptr).or (unnamed.traces 0).traceEndpoint ≠ none := by decide
  have hiff := macros_iff hep 0 (some (.lit "start")) (some (.lit "key")) (some (.lit "val"))
  exact ⟨hiff.1.2 (by simp), hiff.2.2 (by simp)⟩

/-- The event a `timestamp` tracepoint carries. -/
def Tracepoint.eventText : Tracepoint → Option CString
  | .keyval .. => none
  | .timestamp _ _ _ _ _ _ _ event => some event

/-- `BLKIN_TIMESTAMP` with a `NULL` event emits nothing from a zeroed annotation, and the
event of before from one that is used again. -/
theorem null_event_repeats_earlier :
    (run step unnamed (blkinTimestamp 0 (some 0) none none)).map (fun r => r.1.length) = some 0 ∧
    (run step (unnamed.withAnnot 0 (leftover 0)) (blkinTimestamp 0 (some 0) none none)).map
      (fun r => r.1.map Tracepoint.eventText) = some [some (.lit "earlier")] ∧
    ¬IgnoresAnnot unnamed 0 [none] (blkinTimestamp 0 (some 0) none none) :=
  ⟨by decide, by decide, not_ignoresAnnot 0 List.mem_cons_self fun _ => rfl⟩

end Blkin
