import Blkin.Calls
import Blkin.Lineage

/-!
# Spans across processes

A `World` is any number of processes, each with its own memory, and the contexts they
sent each other. A message stays in the network, so it may arrive late, out of order,
more than once or never. An action of a process is a call of the library, sending the
context at some location, or receiving any message sent so far into a
`blkin_trace_info` of its own.

The world also records what happened : every span as it was created (`created`), which
span the ids at a location belong to (`holds`), and the values `random_big` gave
(`draws`). A span is a `Lineage` : `_blkin_init_new_trace` makes a root,
`_blkin_init_child` and `_blkin_init_child_info` a child of the span whose ids they are
given.

`World.Tracks` ties the ids in memory, in flight and in past events to the spans they
belong to, and says that the spans obey some law ; with the law `Linked` it is
`World.Inv`. Every action keeps it (`inv_step`), whatever `random_big` gives. With values
that are non-zero and pairwise distinct the ids alone then determine the span, and the
spans form a forest (`spans_form_forest`).
-/

open Machine

namespace Blkin

/-- A span as it was created : its ids, and the results of `rand()` that its span id was
drawn from. -/
structure Span where
  info : TraceInfo
  x : RandResult
  y : RandResult
  deriving DecidableEq

structure World where
  proc : ℕ → Mem
  net : List (TraceInfo × Lineage Span)
  created : List (Lineage Span)
  holds : ℕ → InfoLoc → Option (Lineage Span)
  draws : List Int64

inductive Act
  | call (p : ℕ) (c : Call)
  | send (p : ℕ) (l : InfoLoc)
  | receive (p : ℕ) (i : Addr) (n : ℕ)
  deriving DecidableEq

/-- The ids of a tracepoint. -/
def Tracepoint.info : Tracepoint → TraceInfo
  | .keyval _ _ _ _ trace span parentSpan _ _ => ⟨trace, span, parentSpan⟩
  | .timestamp _ _ _ _ trace span parentSpan _ => ⟨trace, span, parentSpan⟩

/-- The values `random_big` gave between `m` and `m'`. -/
def Mem.drawsTo (m m' : Mem) : List Int64 :=
  (List.range ((m'.drawn - m.drawn) / 2)).map m.big

/-- The span at `t`, whose span id was the last value drawn. -/
def Mem.spanAt (m : Mem) (t : Addr) : Span :=
  ⟨(m.traces t).info, m.rands (m.drawn - 2), m.rands (m.drawn - 1)⟩

namespace World

/-- No span was created and nothing was sent. -/
def start (proc : ℕ → Mem) : World :=
  ⟨proc, [], [], fun _ _ => none, []⟩

/-- Process `p` went on to the memory `m`. -/
def goOn (w : World) (p : ℕ) (m : Mem) : World :=
  { w with proc := Function.update w.proc p m, draws := w.draws ++ (w.proc p).drawsTo m }

/-- The ids at `l` of process `p` now belong to the span `s`. -/
def learn (w : World) (p : ℕ) (l : InfoLoc) (s : Lineage Span) : World :=
  { w with holds := Function.update w.holds p (Function.update (w.holds p) l (some s)) }

/-- The trace at `t` of process `p` is the new span `s`. -/
def spawn (w : World) (p : ℕ) (t : Addr) (s : Lineage Span) : World :=
  { w.learn p (.trace t) s with created := w.created ++ [s] }

/-- One action. A parent, a context to copy or send, and the trace of a record must hold
the ids of a span; a child is an object other than the one that holds its parent's
ids, and no context is packed. -/
def step (w : World) : Act → Option (List (Tracepoint × Lineage Span) × World)
  | .call p c => do
    let o ← exec (w.proc p) c
    let w' := w.goOn p o.mem
    match c with
    | .newTrace (some t) _ _ => some ([], w'.spawn p t (.root (o.mem.spanAt t)))
    | .child (some t) (some q) _ _ => do
      let parent ← w.holds p (.trace q)
      if t = q then none
      else if o.ret = 0 then some ([], w'.spawn p t (.child (o.mem.spanAt t) parent))
      else some ([], w')
    | .childInfo (some t) (some l) _ _ => do
      let parent ← w.holds p l
      if l = .trace t then none
      else if o.ret = 0 then some ([], w'.spawn p t (.child (o.mem.spanAt t) parent))
      else some ([], w')
    | .getInfo _ (some t) (some l) => do
      some ([], w'.learn p l (← w.holds p (.trace t)))
    | .setInfo _ (some t) (some l) => do
      some ([], w'.learn p (.trace t) (← w.holds p l))
    | .record (some t) (some _) => do
      let s ← w.holds p (.trace t)
      some (o.fired.toList.map fun tp => (tp, s), w')
    | .pack _ _ => none
    | .unpack _ _ => none
    | _ => some ([], w')
  | .send p l => do
    let s ← w.holds p l
    some ([], { w with net := w.net ++ [((w.proc p).readInfo l, s)] })
  | .receive p i n => do
    let msg ← w.net[n]?
    some ([], (w.goOn p ((w.proc p).writeInfo (.info i) msg.1)).learn p (.info i) msg.2)

end World

/-! ## What calls do to the ids in memory -/

/-- Every info is as before, and nothing was drawn. -/
def Mem.SameIds (m m' : Mem) : Prop :=
  (∀ l, m'.readInfo l = m.readInfo l) ∧ m.drawsTo m' = []

theorem Mem.SameIds.refl (m : Mem) : m.SameIds m :=
  ⟨fun _ => rfl, by simp [drawsTo]⟩

theorem initEndpoint_sameIds (m : Mem) (e : Ptr) (ip : Option CString) (port : Int32)
    (name : Option CString) : m.SameIds (initEndpoint m e ip port name).2 := by
  cases e with
  | none => exact .refl m
  | some e =>
    rw [initEndpoint_some]
    exact ⟨fun l => by cases l <;> rfl, by simp [Mem.drawsTo]⟩

theorem initStringAnnotation_sameIds (m : Mem) (a : Ptr) (key val : Option CString) (e : Ptr) :
    m.SameIds <| Prod.snd <| initStringAnnotation m a key val e := by
  cases a <;> cases key <;> cases val
  case some.some.some =>
    rw [initStringAnnotation_some]
    exact ⟨fun l => by cases l <;> rfl, by simp [Mem.drawsTo]⟩
  all_goals exact .refl m

theorem initTimestampAnnotation_sameIds (m : Mem) (a : Ptr) (event : Option CString) (e : Ptr) :
    m.SameIds <| Prod.snd <| initTimestampAnnotation m a event e := by
  cases a <;> cases event
  case some.some =>
    rw [initTimestampAnnotation_some]
    exact ⟨fun l => by cases l <;> rfl, by simp [Mem.drawsTo]⟩
  all_goals exact .refl m

theorem Mem.fillDefaults_sameIds (m : Mem) (t a e : Addr) : m.SameIds (m.fillDefaults t a e) := by
  refine ⟨fun l => ?_, by simp [drawsTo, fillDefaults]⟩
  cases l with
  | info i => rfl
  | trace u =>
    by_cases hu : u = t
    · subst hu
      simp [fillDefaults]
    · simp [fillDefaults, hu]

/-- Recording keeps every id, and its event has the ids of the trace. -/
theorem record_sameIds {m : Mem} {t a : Addr} {o : Outcome}
    (h : record m (some t) (some a) = some o) :
    m.SameIds o.mem ∧ ∀ tp ∈ o.fired, tp.info = (m.traces t).info := by
  obtain ⟨e, -, hmem, hfired⟩ := record_cases h
  rw [hmem, hfired]
  refine ⟨m.fillDefaults_sameIds t a e, fun tp hev => ?_⟩
  obtain ⟨key, val, -, -, -, rfl⟩ | ⟨event, -, -, rfl⟩ := Mem.eventFor_cases hev
  · rfl
  · rfl

/-! ## Spans and their ids -/

/-- The values `random_big` gave for the span. -/
def drawnFor : Lineage Span → List Int64
  | .root s => [s.info.traceId, s.info.spanId]
  | .child s _ => [s.info.spanId]

/-- How the ids of a span come from its parent's and from `rand()`. -/
def Linked : Lineage Span → Prop
  | .root s => s.info.parentSpanId = 0 ∧ s.info.spanId = randomBig s.x s.y
  | .child s p => s.info.traceId = p.label.info.traceId ∧
      s.info.parentSpanId = p.label.info.spanId ∧ s.info.spanId = randomBig s.x s.y

/-- What a successful creation did : `t` holds the ids of the new span `s`, every other
location is as before, and the values drawn are those of `s`. -/
structure Creates (m : Mem) (t : Addr) (m' : Mem) (s : Lineage Span) : Prop where
  ids : (m'.traces t).info = s.label.info
  others : ∀ l, l ≠ .trace t → m'.readInfo l = m.readInfo l
  draws : m.drawsTo m' = drawnFor s

theorem initNewTrace_creates (m : Mem) (t : Addr) (service : Option CString) (e : Ptr) :
    Creates m t (initNewTrace m (some t) service e).2
      (.root ((initNewTrace m (some t) service e).2.spanAt t)) := by
  rw [initNewTrace_some]
  refine ⟨rfl, fun l hl => ?_, ?_⟩
  · rw [Mem.readInfo_modTrace _ _ hl, Mem.readInfo_advance]
  · simp [Mem.drawsTo, Mem.spanAt, drawnFor, List.range_succ]

theorem initNewTrace_linked (m : Mem) (t : Addr) (service : Option CString) (e : Ptr) :
    Linked (.root ((initNewTrace m (some t) service e).2.spanAt t)) := by
  rw [initNewTrace_some]
  exact ⟨by simp [Mem.spanAt], by simp [Mem.spanAt, Mem.big]⟩

theorem initChildInfo_creates {m : Mem} {t : Addr} {l : InfoLoc} {e : Ptr}
    {name : Option CString} (parent : Lineage Span)
    (hok : (initChildInfo m (some t) (some l) e name).1 = 0) :
    Creates m t (initChildInfo m (some t) (some l) e name).2
      (.child ((initChildInfo m (some t) (some l) e name).2.spanAt t) parent) := by
  cases e with
  | none => simp [initChildInfo, einval] at hok
  | some e =>
    rw [initChildInfo_some]
    refine ⟨rfl, fun l' hl' => ?_, ?_⟩
    · rw [Mem.readInfo_modTrace _ _ hl', Mem.readInfo_advance]
    · simp [Mem.drawsTo, Mem.spanAt, drawnFor]

/-- A child, at an object other than the one that holds its parent's ids. -/
theorem initChildInfo_linked {m : Mem} {t : Addr} {l : InfoLoc} {e : Ptr}
    {name : Option CString} (hl : l ≠ .trace t) {parent : Lineage Span}
    (hp : m.readInfo l = parent.label.info)
    (hok : (initChildInfo m (some t) (some l) e name).1 = 0) :
    Linked (.child ((initChildInfo m (some t) (some l) e name).2.spanAt t) parent) := by
  cases e with
  | none => simp [initChildInfo, einval] at hok
  | some e =>
    rw [initChildInfo_some, if_neg hl, hp]
    exact ⟨by simp [Mem.spanAt], by simp [Mem.spanAt], by simp [Mem.spanAt, Mem.big]⟩

/-- A child that is rejected leaves the memory as it was. -/
theorem initChildInfo_rejects {m : Mem} {t : Addr} {l : InfoLoc} {e : Ptr}
    {name : Option CString} (hno : (initChildInfo m (some t) (some l) e name).1 ≠ 0) :
    (initChildInfo m (some t) (some l) e name).2 = m := by
  cases e with
  | none => rfl
  | some e => simp [initChildInfo_some] at hno

/-! ## The invariant -/

namespace World

/-- Ids in memory, in flight and in past events are those of the spans they belong to, and
the spans were grown one at a time from the values drawn, each with ids as `L` has them. -/
structure Tracks (L : Lineage Span → Prop) (w : World)
    (outs : List (Tracepoint × Lineage Span)) : Prop where
  holds : ∀ p l s, w.holds p l = some s → s ∈ w.created ∧ (w.proc p).readInfo l = s.label.info
  net : ∀ e ∈ w.net, e.2 ∈ w.created ∧ e.1 = e.2.label.info
  events : ∀ e ∈ outs, e.2 ∈ w.created ∧ e.1.info = e.2.label.info
  grown : Lineage.Grown w.created
  linked : ∀ s ∈ w.created, L s
  draws : w.draws = w.created.flatMap drawnFor

/-- A span has its trace id and its parent id from its parent, and its own id drawn. -/
abbrev Inv (w : World) (outs : List (Tracepoint × Lineage Span)) : Prop :=
  Tracks Linked w outs

variable {L : Lineage Span → Prop} {w : World} {outs : List (Tracepoint × Lineage Span)}

theorem tracks_start (proc : ℕ → Mem) : Tracks L (start proc) [] where
  holds _ _ _ h := by simp [start] at h
  net _ h := by simp [start] at h
  events _ h := by simp at h
  grown := .nil
  linked _ h := by simp [start] at h
  draws := rfl

theorem inv_start (proc : ℕ → Mem) : (start proc).Inv [] :=
  tracks_start proc

theorem holds_learn (p : ℕ) (l : InfoLoc) (s : Lineage Span) (q : ℕ) (l' : InfoLoc) :
    (w.learn p l s).holds q l' = if q = p ∧ l' = l then some s else w.holds q l' := by
  by_cases hq : q = p
  · subst hq
    by_cases hl : l' = l <;> simp [learn, hl]
  · simp [learn, hq]

theorem proc_goOn (p : ℕ) (m : Mem) (q : ℕ) :
    (w.goOn p m).proc q = if q = p then m else w.proc q := by
  by_cases hq : q = p
  · subst hq
    simp [goOn]
  · simp [goOn, hq]

/-- A process goes on without touching an id. -/
theorem Tracks.goOn (h : Tracks L w outs) {p : ℕ} {m : Mem} (hm : (w.proc p).SameIds m) :
    Tracks L (w.goOn p m) outs where
  holds q l s hs := by
    obtain ⟨hmem, hids⟩ := h.holds q l s hs
    refine ⟨hmem, ?_⟩
    rw [proc_goOn]
    split_ifs with hq
    · rw [hm.1, ← hq, hids]
    · exact hids
  net := h.net
  events := h.events
  grown := h.grown
  linked := h.linked
  draws := by simp [World.goOn, hm.2, h.draws]

/-- A process copies the ids of a span to `l`. -/
theorem Tracks.learn (h : Tracks L w outs) {p : ℕ} {m : Mem} {l : InfoLoc} {s : Lineage Span}
    (hs : s ∈ w.created) (hl : m.readInfo l = s.label.info)
    (hothers : ∀ l', l' ≠ l → m.readInfo l' = (w.proc p).readInfo l')
    (hdraws : (w.proc p).drawsTo m = []) : Tracks L ((w.goOn p m).learn p l s) outs where
  holds q l' s' hs' := by
    rw [holds_learn] at hs'
    show s' ∈ w.created ∧ ((w.goOn p m).proc q).readInfo l' = _
    rw [proc_goOn]
    split_ifs at hs' with hq
    · obtain ⟨rfl, rfl⟩ := hq
      obtain rfl := Option.some.inj hs'
      rw [if_pos rfl]
      exact ⟨hs, hl⟩
    · obtain ⟨hmem, hids⟩ := h.holds q l' s' hs'
      refine ⟨hmem, ?_⟩
      split_ifs with hqp
      · subst hqp
        rw [hothers l' fun hll => hq ⟨rfl, hll⟩, hids]
      · exact hids
  net := h.net
  events := h.events
  grown := h.grown
  linked := h.linked
  draws := by simp [World.learn, World.goOn, hdraws, h.draws]

/-- A process writes the ids of a span at `l`. -/
theorem Tracks.copy (h : Tracks L w outs) {p : ℕ} {l : InfoLoc} {v : TraceInfo} {s : Lineage Span}
    (hs : s ∈ w.created) (hv : v = s.label.info) :
    Tracks L ((w.goOn p ((w.proc p).writeInfo l v)).learn p l s) outs :=
  h.learn hs (by rw [Mem.readInfo_writeInfo_self, hv])
    (fun _ hl' => Mem.readInfo_writeInfo_ne _ _ hl')
    (by cases l <;> simp [Mem.drawsTo, Mem.writeInfo])

/-- A process creates a span. -/
theorem Tracks.spawn (h : Tracks L w outs) {p : ℕ} {m : Mem} {t : Addr} {s : Lineage Span}
    (hc : Creates (w.proc p) t m s) (hs : L s) (hg : Lineage.Grown (w.created ++ [s])) :
    Tracks L ((w.goOn p m).spawn p t s) outs where
  holds q l s' hs' := by
    change ((w.goOn p m).learn p (.trace t) s).holds q l = some s' at hs'
    rw [holds_learn] at hs'
    show s' ∈ w.created ++ [s] ∧ ((w.goOn p m).proc q).readInfo l = _
    rw [proc_goOn]
    split_ifs at hs' with hq
    · obtain ⟨rfl, rfl⟩ := hq
      obtain rfl := Option.some.inj hs'
      rw [if_pos rfl]
      exact ⟨by simp, hc.ids⟩
    · obtain ⟨hmem, hids⟩ := h.holds q l s' hs'
      refine ⟨List.mem_append_left _ hmem, ?_⟩
      split_ifs with hqp
      · subst hqp
        rw [hc.others l fun hll => hq ⟨rfl, hll⟩, hids]
      · exact hids
  net e he := ⟨List.mem_append_left _ (h.net e he).1, (h.net e he).2⟩
  events e he := ⟨List.mem_append_left _ (h.events e he).1, (h.events e he).2⟩
  grown := hg
  linked s' hs' := by
    rcases List.mem_append.1 hs' with hs' | hs'
    · exact h.linked s' hs'
    · obtain rfl := List.mem_singleton.1 hs'
      exact hs
  draws := by
    simp [World.spawn, World.learn, World.goOn, hc.draws, h.draws]

/-- A process creates a child of the span whose ids are at `l`, unless it is rejected. -/
theorem Tracks.create (h : Tracks L w outs) (hL : ∀ s, Linked s → L s) {p : ℕ} {t : Addr}
    {l : InfoLoc} {e : Ptr} {name : Option CString} {parent : Lineage Span} {r : Int32 × Mem}
    {w' : World} {out : List (Tracepoint × Lineage Span)} (hl : w.holds p l = some parent)
    (hne : l ≠ .trace t) (hr : r = initChildInfo (w.proc p) (some t) (some l) e name)
    (hs : (if r.1 = 0 then some ([], (w.goOn p r.2).spawn p t (.child (r.2.spanAt t) parent))
      else some ([], w.goOn p r.2)) = some (out, w')) :
    Tracks L w' (outs ++ out) := by
  subst hr
  obtain ⟨hmem, hids⟩ := h.holds p l parent hl
  split_ifs at hs with hok
  · obtain ⟨rfl, rfl⟩ := Prod.mk.inj (Option.some.inj hs)
    rw [List.append_nil]
    exact h.spawn (initChildInfo_creates parent hok) (hL _ (initChildInfo_linked hne hids hok))
      (.child _ h.grown hmem)
  · obtain ⟨rfl, rfl⟩ := Prod.mk.inj (Option.some.inj hs)
    rw [List.append_nil]
    exact h.goOn (by rw [initChildInfo_rejects hok]; exact .refl _)

/-- A process records an annotation on a trace that holds a span. -/
theorem Tracks.record (h : Tracks L w outs) {p : ℕ} {t a : Addr} {s : Lineage Span} {o : Outcome}
    (ht : w.holds p (.trace t) = some s)
    (ho : Blkin.record (w.proc p) (some t) (some a) = some o) :
    Tracks L (w.goOn p o.mem) (outs ++ o.fired.toList.map fun tp => (tp, s)) := by
  obtain ⟨hsame, hfired⟩ := record_sameIds ho
  obtain ⟨hmem, hids⟩ := h.holds p _ s ht
  refine { h.goOn hsame with events := fun ev hev => ?_ }
  rcases List.mem_append.1 hev with hev | hev
  · exact h.events ev hev
  · obtain ⟨tp, htp, rfl⟩ := List.mem_map.1 hev
    exact ⟨hmem, (hfired tp (Option.mem_toList.1 htp)).trans hids⟩

/-- The action of a call, once the call is made. -/
theorem Tracks.call (h : Tracks L w outs) (hL : ∀ s, Linked s → L s) {p : ℕ} {c : Call}
    {w' : World} {out : List (Tracepoint × Lineage Span)}
    (hs : w.step (.call p c) = some (out, w')) : Tracks L w' (outs ++ out) := by
  simp only [step, Option.bind_eq_bind, Option.bind_eq_some_iff] at hs
  obtain ⟨o, ho, hs⟩ := hs
  -- a call that creates nothing, copies nothing and fires nothing
  have quiet : (w.proc p).SameIds o.mem → some ([], w.goOn p o.mem) = some (out, w') →
      Tracks L w' (outs ++ out) := fun hm hs => by
    obtain ⟨rfl, rfl⟩ := Prod.mk.inj (Option.some.inj hs)
    rw [List.append_nil]
    exact h.goOn hm
  cases c with
  | newTrace t service e =>
    obtain rfl := Option.some.inj ho
    cases t with
    | none => exact quiet (.refl _) hs
    | some t =>
      obtain ⟨rfl, rfl⟩ := Prod.mk.inj (Option.some.inj hs)
      rw [List.append_nil]
      exact h.spawn (initNewTrace_creates _ t service e)
        (hL _ (initNewTrace_linked _ t service e)) (.root _ h.grown)
  | child t q e name =>
    obtain rfl := Option.some.inj ho
    cases q with
    | none => cases t <;> exact quiet (.refl _) hs
    | some q =>
      cases t with
      | none => exact quiet (by rw [initChild_some]; exact .refl _) hs
      | some t =>
        simp only [Option.bind_eq_some_iff] at hs
        obtain ⟨parent, hq, hs⟩ := hs
        by_cases htq : t = q
        · simp [htq] at hs
        rw [if_neg htq] at hs
        rw [initChild_some] at hs
        exact h.create hL hq (fun hc => htq (InfoLoc.trace.inj hc).symm) rfl hs
  | childInfo t l e name =>
    obtain rfl := Option.some.inj ho
    cases t with
    | none => exact quiet (.refl _) hs
    | some t =>
      cases l with
      | none => exact quiet (.refl _) hs
      | some l =>
        simp only [Option.bind_eq_some_iff] at hs
        obtain ⟨parent, hl, hs⟩ := hs
        by_cases htl : l = .trace t
        · simp [htl] at hs
        rw [if_neg htl] at hs
        exact h.create hL hl htl rfl hs
  | endpoint e ip port name =>
    obtain rfl := Option.some.inj ho
    exact quiet (initEndpoint_sameIds _ e ip port name) hs
  | string a key val e =>
    obtain rfl := Option.some.inj ho
    exact quiet (initStringAnnotation_sameIds _ a key val e) hs
  | timestamp a event e =>
    obtain rfl := Option.some.inj ho
    exact quiet (initTimestampAnnotation_sameIds _ a event e) hs
  | record t a =>
    cases t with
    | none =>
      obtain rfl : o = ⟨-einval, w.proc p, none⟩ := by cases a <;> exact (Option.some.inj ho).symm
      exact quiet (.refl _) hs
    | some t =>
      cases a with
      | none =>
        obtain rfl := Option.some.inj ho
        exact quiet (.refl _) hs
      | some a =>
        simp only [Option.bind_eq_some_iff] at hs
        obtain ⟨s, ht, hs⟩ := hs
        obtain ⟨rfl, rfl⟩ := Prod.mk.inj (Option.some.inj hs)
        exact h.record ht ho
  | getInfo res t l =>
    obtain rfl := Option.some.inj ho
    cases t with
    | none => exact quiet (.refl _) hs
    | some t =>
      cases l with
      | none => exact quiet (.refl _) hs
      | some l =>
        simp only [Option.bind_eq_some_iff] at hs
        obtain ⟨s, ht, hs⟩ := hs
        obtain ⟨rfl, rfl⟩ := Prod.mk.inj (Option.some.inj hs)
        rw [List.append_nil]
        obtain ⟨hmem, hids⟩ := h.holds p _ s ht
        exact h.copy hmem hids
  | setInfo res t l =>
    obtain rfl := Option.some.inj ho
    cases t with
    | none => exact quiet (.refl _) hs
    | some t =>
      cases l with
      | none => exact quiet (.refl _) hs
      | some l =>
        simp only [Option.bind_eq_some_iff] at hs
        obtain ⟨s, hl, hs⟩ := hs
        obtain ⟨rfl, rfl⟩ := Prod.mk.inj (Option.some.inj hs)
        rw [List.append_nil]
        obtain ⟨hmem, hids⟩ := h.holds p _ s hl
        exact h.copy (l := .trace t) hmem hids
  | pack i q => simp at hs
  | unpack q i => simp at hs

theorem Tracks.step (h : Tracks L w outs) (hL : ∀ s, Linked s → L s) {a : Act} {w' : World}
    {out : List (Tracepoint × Lineage Span)} (hs : w.step a = some (out, w')) :
    Tracks L w' (outs ++ out) := by
  cases a with
  | send p l =>
    simp only [World.step, Option.bind_eq_bind, Option.bind_eq_some_iff] at hs
    obtain ⟨s, hl, hs⟩ := hs
    obtain ⟨rfl, rfl⟩ := Prod.mk.inj (Option.some.inj hs)
    rw [List.append_nil]
    refine { h with net := fun e he => ?_ }
    rcases List.mem_append.1 he with he | he
    · exact h.net e he
    · obtain rfl := List.mem_singleton.1 he
      exact h.holds p l s hl
  | receive p i n =>
    simp only [World.step, Option.bind_eq_bind, Option.bind_eq_some_iff] at hs
    obtain ⟨msg, hn, hs⟩ := hs
    obtain ⟨rfl, rfl⟩ := Prod.mk.inj (Option.some.inj hs)
    rw [List.append_nil]
    obtain ⟨hmem, hids⟩ := h.net msg (List.mem_of_getElem? hn)
    exact h.copy hmem hids
  | call p c => exact h.call hL hs

theorem inv_step : Keeps step Inv := fun _ _ _ _ _ h hs =>
  h.step (fun _ => id) hs

/-! ## The forest -/

/-- Ids that show up somewhere : in a span as created, at a location that holds a
context, in a message, or in an event. -/
inductive Known (w : World) (outs : List (Tracepoint × Lineage Span)) : TraceInfo → Prop
  | created {s} : s ∈ w.created → Known w outs s.label.info
  | held {p l s} : w.holds p l = some s → Known w outs ((w.proc p).readInfo l)
  | sent {e} : e ∈ w.net → Known w outs e.1
  | event {e} : e ∈ outs → Known w outs e.1.info

/-- Following `parent_span_id` from `u` leads to the span with ids `v`. -/
def ParentOf (w : World) (u v : TraceInfo) : Prop :=
  u.parentSpanId ≠ 0 ∧ u.parentSpanId = v.spanId ∧ ∃ s ∈ w.created, v = s.label.info

theorem Inv.known (h : w.Inv outs) {v : TraceInfo} (hv : w.Known outs v) :
    ∃ s ∈ w.created, v = s.label.info := by
  cases hv with
  | created hs => exact ⟨_, hs, rfl⟩
  | held hl => exact ⟨_, h.holds _ _ _ hl⟩
  | sent he => exact ⟨_, h.net _ he⟩
  | event he => exact ⟨_, h.events _ he⟩

/-- With distinct draws, a value drawn belongs to one span. -/
theorem Inv.eq_of_drawn (h : w.Inv outs) (hnodup : w.draws.Nodup) {s s' : Lineage Span}
    (hs : s ∈ w.created) (hs' : s' ∈ w.created) {x : Int64} (hx : x ∈ drawnFor s)
    (hx' : x ∈ drawnFor s') : s = s' := by
  rw [h.draws, List.nodup_flatMap] at hnodup
  have : Std.Symm (Function.onFun List.Disjoint drawnFor) := ⟨fun _ _ hd => hd.symm⟩
  by_contra hne
  exact hnodup.2.forall hs hs' hne hx hx'

theorem spanId_mem_drawnFor (s : Lineage Span) : s.label.info.spanId ∈ drawnFor s := by
  cases s <;> simp [drawnFor]

/-- A span with non-zero draws has a parent id exactly if it has a parent. -/
theorem Inv.parentSpanId_eq_zero_iff (h : w.Inv outs) (hzero : 0 ∉ w.draws) {s : Lineage Span}
    (hs : s ∈ w.created) : s.label.info.parentSpanId = 0 ↔ s.parent = none := by
  have hlinked := h.linked s hs
  cases s with
  | root a => simpa using hlinked.1
  | child a p =>
    have hp : p ∈ w.created := h.grown.parent_mem hs rfl
    have hmem : p.label.info.spanId ∈ w.draws := by
      rw [h.draws, List.mem_flatMap]
      exact ⟨p, hp, spanId_mem_drawnFor p⟩
    have hne : p.label.info.spanId ≠ 0 := ne_of_mem_of_not_mem hmem hzero
    simpa [hlinked.2.1] using hne

theorem Inv.reaches_root (h : w.Inv outs) (hzero : 0 ∉ w.draws) {s : Lineage Span}
    (hs : s ∈ w.created) : ∃ r ∈ w.created,
      Relation.ReflTransGen w.ParentOf s.label.info r.label.info ∧ r.parent = none ∧
        r.label.info.traceId = s.label.info.traceId := by
  induction s with
  | root a => exact ⟨.root a, hs, .refl, rfl, rfl⟩
  | child a p ih =>
    have hp : p ∈ w.created := h.grown.parent_mem hs rfl
    obtain ⟨htrace, hparent, -⟩ := h.linked _ hs
    obtain ⟨r, hr, hreach, hroot, hrt⟩ := ih hp
    have hne : a.info.parentSpanId ≠ 0 := by
      simpa using (h.parentSpanId_eq_zero_iff hzero hs).not
    refine ⟨r, hr, .head ⟨hne, hparent, p, hp, rfl⟩ hreach, hroot, ?_⟩
    rw [hrt, ← htrace, Lineage.label_child]

/-- The spans of a state form a forest whose trees are the traces, as the ids tell it. -/
structure IsForest (w : World) (outs : List (Tracepoint × Lineage Span)) : Prop where
  /-- Ids with the same span id are the same. -/
  eq_of_spanId : ∀ u v, w.Known outs u → w.Known outs v → u.spanId = v.spanId →
    u.traceId = v.traceId ∧ u.parentSpanId = v.parentSpanId
  /-- A parent is a span of the same trace, created strictly before. -/
  parent_before : ∀ v, w.Known outs v → v.parentSpanId ≠ 0 →
    ∃ (k j : ℕ) (s p : Lineage Span), w.created[k]? = some s ∧ s.label.info = v ∧
      w.created[j]? = some p ∧ j < k ∧ p.label.info.spanId = v.parentSpanId ∧
      p.label.info.traceId = v.traceId
  /-- Following parents ends at a span without one, the only such span of the trace. -/
  reaches_root : ∀ v, w.Known outs v → ∃ r, Relation.ReflTransGen w.ParentOf v r ∧
    r.parentSpanId = 0 ∧ r.traceId = v.traceId ∧
    ∀ r', w.Known outs r' → r'.parentSpanId = 0 → r'.traceId = v.traceId → r' = r

/-- Whatever the processes do, if the values drawn in the run are non-zero and pairwise
distinct, the spans of the state it reaches form a forest. -/
theorem spans_form_forest {proc : ℕ → Mem} {acts : List Act} {w : World}
    {outs : List (Tracepoint × Lineage Span)} (hrun : run step (start proc) acts = some (outs, w))
    (hnodup : w.draws.Nodup) (hzero : 0 ∉ w.draws) : w.IsForest outs := by
  have h : w.Inv outs := inv_step.run (inv_start proc) hrun
  refine ⟨fun u v hu hv huv => ?_, fun v hv hne => ?_, fun v hv => ?_⟩
  · obtain ⟨s, hs, rfl⟩ := h.known hu
    obtain ⟨s', hs', rfl⟩ := h.known hv
    obtain rfl := h.eq_of_drawn hnodup hs hs' (spanId_mem_drawnFor s)
      (huv ▸ spanId_mem_drawnFor s')
    exact ⟨rfl, rfl⟩
  · obtain ⟨s, hs, rfl⟩ := h.known hv
    obtain ⟨k, hk, rfl⟩ := List.getElem_of_mem hs
    have hparent := (h.parentSpanId_eq_zero_iff hzero hs).not.1 hne
    obtain ⟨p, hp⟩ := Option.ne_none_iff_exists'.1 hparent
    obtain ⟨j, hj, hjp⟩ := h.grown.parent_before (List.getElem?_eq_getElem hk) hp
    refine ⟨k, j, _, p, List.getElem?_eq_getElem hk, rfl, hjp, hj, ?_⟩
    have hlinked := h.linked _ hs
    generalize w.created[k] = s at hp hlinked ⊢
    cases s with
    | root a => simp at hp
    | child a q =>
      obtain rfl : q = p := by simpa using hp
      exact ⟨hlinked.2.1.symm, hlinked.1.symm⟩
  · obtain ⟨s, hs, rfl⟩ := h.known hv
    obtain ⟨r, hr, hreach, hroot, hrt⟩ := h.reaches_root hzero hs
    refine ⟨r.label.info, hreach, (h.parentSpanId_eq_zero_iff hzero hr).2 hroot, hrt, ?_⟩
    intro r' hr' hr'0 hr't
    obtain ⟨s', hs', rfl⟩ := h.known hr'
    have hroot' := (h.parentSpanId_eq_zero_iff hzero hs').1 hr'0
    cases r with
    | child a p => simp at hroot
    | root a =>
      cases s' with
      | child b q => simp at hroot'
      | root b =>
        have hid : a.info.traceId = b.info.traceId := hrt.trans hr't.symm
        rw [h.eq_of_drawn hnodup hr hs' (x := a.info.traceId) (by simp [drawnFor])
          (by simp [drawnFor, hid])]

/-- Two processes. The second gets the context of the first's trace twice : it makes a
child of the first copy, records on it and makes a child of the child, then joins the
trace itself with the second copy. -/
theorem spans_form_forest_two_processes : ∃ outs w,
    run step (start fun p => .static .little fun n => .ofNat (100 * p + n + 1))
      [.call 0 (.newTrace (some 0) none (some 0)),
        .call 0 (.getInfo 7 (some 0) (some (.info 0))), .send 0 (.info 0), .receive 1 0 0,
        .call 1 (.childInfo (some 0) (some (.info 0)) (some 0) none),
        .call 1 (.timestamp (some 0) (some (.lit "start")) none),
        .call 1 (.record (some 0) (some 0)), .call 1 (.child (some 1) (some 0) none none),
        .receive 1 1 0, .call 1 (.setInfo 0 (some 2) (some (.info 1)))] = some (outs, w) ∧
      outs.length = 1 ∧ w.created.length = 3 ∧ w.IsForest outs := by
  refine exists_of_map_eq (f := fun r => (r.1.length, r.2.created.length, r.2.draws))
    (c := (1, 3, [4294967298, 12884901892, 433791696998, 442381631592])) (by decide) ?_
  intro outs w hr hf
  obtain ⟨hlen, hcreated, hdraws⟩ : outs.length = 1 ∧ w.created.length = 3 ∧
    w.draws = [4294967298, 12884901892, 433791696998, 442381631592] := by simpa using hf
  exact ⟨hlen, hcreated,
    spans_form_forest hr (by rw [hdraws]; decide) (by rw [hdraws]; decide)⟩

end World

end Blkin
