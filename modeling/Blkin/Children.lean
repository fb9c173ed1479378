import Blkin.Calls

/-!
# A child in the place of its parent

`_blkin_init_child_info` writes the child's span id before it reads the parent's, and
`_blkin_init_child` passes it the address of the `info` inside the parent trace. Neither
asks that child and parent are distinct objects, and a call chain that descends with one
trace variable makes them the same.

`child_iff` says when a child is what the comments of `zipkin_c.h` promise : exactly if
its parent's ids are not in the child itself, or the value drawn is the span id that was
there. Everything outside the child is left alone in every case.
-/

namespace Blkin

/-- Every object other than the trace at `c` is as before, and one value was drawn. -/
structure Mem.OnlyTrace (m : Mem) (c : Addr) (m' : Mem) : Prop where
  traces : ∀ t, t ≠ c → m'.traces t = m.traces t
  annots : m'.annots = m.annots
  endps : m'.endps = m.endps
  infos : m'.infos = m.infos
  packed : m'.packed = m.packed
  drawn : m'.drawn = m.drawn + 2

/-- The trace at `c` was made a child of the span whose ids were at `p`, its span id
newly drawn. -/
structure ChildOf (m : Mem) (c : Addr) (p : InfoLoc) (m' : Mem) : Prop where
  traceId : (m'.traces c).info.traceId = (m.readInfo p).traceId
  parentSpanId : (m'.traces c).info.parentSpanId = (m.readInfo p).spanId
  spanId : (m'.traces c).info.spanId = m.big 0
  others : m.OnlyTrace c m'

/-- The memory once the trace at `c` is made a child of the span whose ids are at `p`. -/
def Mem.childAt (m : Mem) (c : Addr) (p : InfoLoc) (e : Addr) (name : Option CString) : Mem :=
  (m.advance 1).modTrace c fun _ => ⟨name, ⟨(m.readInfo p).traceId, m.big 0,
    if p = .trace c then m.big 0 else (m.readInfo p).spanId⟩, some e⟩

theorem Mem.onlyTrace_childAt (m : Mem) (c : Addr) (p : InfoLoc) (e : Addr)
    (name : Option CString) : m.OnlyTrace c (m.childAt c p e name) where
  traces t ht := by simp [childAt, ht]
  annots := rfl
  endps := rfl
  infos := rfl
  packed := rfl
  drawn := rfl

/-- A child info that is accepted. -/
theorem initChildInfo_accepts {m m' : Mem} {child endpoint : Ptr} {parent : Option InfoLoc}
    {name : Option CString} (h : initChildInfo m child parent endpoint name = (0, m')) :
    ∃ c p e, child = some c ∧ parent = some p ∧ endpoint = some e ∧
      m' = m.childAt c p e name := by
  cases child <;> cases parent <;> cases endpoint
  case some.some.some c p e =>
    rw [initChildInfo_some] at h
    exact ⟨c, p, e, rfl, rfl, rfl, (Prod.mk.inj h).2.symm⟩
  all_goals exact absurd (Prod.mk.inj h).1 (by decide)

theorem initChild_accepts {m m' : Mem} {child parent endpoint : Ptr} {name : Option CString}
    (h : initChild m child parent endpoint name = (0, m')) : ∃ p, parent = some p ∧
      initChildInfo m child (some (.trace p)) (childEndpoint m p endpoint) name = (0, m') := by
  cases parent with
  | none => exact absurd (Prod.mk.inj h).1 (by decide)
  | some p => exact ⟨p, rfl, initChild_some m child p endpoint name ▸ h⟩

/-- What an accepted child info leaves, whatever the parent's ids are read from. -/
theorem initChildInfo_child {m m' : Mem} {child endpoint : Ptr} {parent : Option InfoLoc}
    {name : Option CString} (h : initChildInfo m child parent endpoint name = (0, m')) :
    ∃ c p, child = some c ∧ parent = some p ∧ m.OnlyTrace c m' ∧
      (ChildOf m c p m' ↔ p ≠ .trace c ∨ m.big 0 = (m.readInfo p).spanId) := by
  obtain ⟨c, p, e, rfl, rfl, rfl, rfl⟩ := initChildInfo_accepts h
  have hothers := m.onlyTrace_childAt c p e name
  refine ⟨c, p, rfl, rfl, hothers, fun hchild => ?_, fun hp => ?_⟩
  · have hparent := hchild.parentSpanId
    by_cases hp : p = .trace c
    · exact .inr (by simpa [Mem.childAt, hp] using hparent)
    · exact .inl hp
  · refine ⟨by simp [Mem.childAt], ?_, by simp [Mem.childAt], hothers⟩
    by_cases hpc : p = .trace c
    · have hdrawn := hp.resolve_left (not_not.2 hpc)
      simp [Mem.childAt, hpc, hdrawn]
    · simp [Mem.childAt, hpc]

/-- An accepted call of either function leaves every object other than the child alone,
and makes it a child of the parent as the parent was before the call exactly if the
parent's ids are not inside the child, or the value drawn is the parent's span id. -/
theorem child_iff (m m' : Mem) (child endpoint : Ptr) (name : Option CString) :
    (∀ parentInfo, initChildInfo m child parentInfo endpoint name = (0, m') →
      ∃ c p, child = some c ∧ parentInfo = some p ∧ m.OnlyTrace c m' ∧
        (ChildOf m c p m' ↔ p ≠ .trace c ∨ m.big 0 = (m.readInfo p).spanId)) ∧
    ∀ parent, initChild m child parent endpoint name = (0, m') →
      ∃ c p, child = some c ∧ parent = some p ∧ m.OnlyTrace c m' ∧
        (ChildOf m c (.trace p) m' ↔ p ≠ c ∨ m.big 0 = (m.traces p).info.spanId) := by
  refine ⟨fun parentInfo h => initChildInfo_child h, fun parent h => ?_⟩
  obtain ⟨p, rfl, hinfo⟩ := initChild_accepts h
  obtain ⟨c, _, rfl, hp, hothers, hchild⟩ := initChildInfo_child hinfo
  obtain rfl := Option.some.inj hp
  exact ⟨c, p, rfl, rfl, hothers, by simpa using hchild⟩

/-- A trace with the ids `(5, 6, 0)`, at an endpoint. -/
def rootTrace : Mem :=
  (Mem.static .little fun n => .ofNat (n + 1)).modTrace 0 fun _ => ⟨none, ⟨5, 6, 0⟩, some 0⟩

/-- The child of another object, and of the `info` inside itself. -/
theorem child_iff_root : ∃ m' m'',
    initChild rootTrace (some 1) (some 0) none none = (0, m') ∧
      ChildOf rootTrace 1 (.trace 0) m' ∧
    initChildInfo rootTrace (some 0) (some (.trace 0)) (some 0) none = (0, m'') ∧
      rootTrace.OnlyTrace 0 m'' := by
  refine ⟨_, _, rfl, ?_, rfl, ?_⟩
  · obtain ⟨c, p, hc, hp, -, hchild⟩ := (child_iff rootTrace _ (some 1) none none).2 (some 0) rfl
    obtain rfl := Option.some.inj hc
    obtain rfl := Option.some.inj hp
    exact hchild.2 (.inl (by decide))
  · obtain ⟨c, p, hc, -, hothers, -⟩ :=
      (child_iff rootTrace _ (some 0) (some 0) none).1 (some (.trace 0)) rfl
    obtain rfl := Option.some.inj hc
    exact hothers

/-- A trace that is made its own child gets its new span id as its parent's. -/
theorem reused_trace_loses_parent : ∃ m',
    initChild rootTrace (some 0) (some 0) none none = (0, m') ∧
      (rootTrace.traces 0).info = ⟨5, 6, 0⟩ ∧
      (m'.traces 0).info = ⟨5, 4294967298, 4294967298⟩ ∧ ¬ChildOf rootTrace 0 (.trace 0) m' := by
  refine ⟨_, rfl, rfl, by decide, fun h => ?_⟩
  exact absurd h.parentSpanId (by decide)

end Blkin
