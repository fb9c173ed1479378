import Blkin.Packed
import Blkin.Spans

/-!
# Children made in their parent's object

Nothing keeps a program from passing one `blkin_trace` as the child and as its parent, or
the info inside a trace as the parent of that trace. `_blkin_init_child_info` then reads
the parent's span id after it wrote the child's : the child joins the trace, but names
itself as its parent (`Reused`).

`Reusing` is a `World` whose processes do that too, and remembers the spans that were
created so. Its processes also pack and unpack contexts. What pack writes at a location is
not known to be the ids of a span, so the location can be used again only once it holds
those of one. Every run of a `World` is one of `Reusing` (`follows_world`).

Every step keeps `Reusing.Inv` : ids in memory, in flight and in past events are still
those of the spans they belong to, and a span is `Linked` unless it was created in its
parent's object.
-/

open Machine

namespace Blkin

/-- The trace that the call makes a child in, where it holds the ids of the parent. -/
def Call.inPlace : Call → Option Addr
  | .child (some t) (some q) _ _ => if t = q then some t else none
  | .childInfo (some t) (some l) _ _ => if l = .trace t then some t else none
  | _ => none

/-- What becomes of the ids of a child made in its parent's object. -/
def Reused : Lineage Span → Prop
  | .root _ => False
  | .child s p => s.info.traceId = p.label.info.traceId ∧
      s.info.parentSpanId = s.info.spanId ∧ s.info.spanId = randomBig s.x s.y

/-- The ids at `l` of process `p` are not known to belong to a span. -/
def World.forget (w : World) (p : ℕ) (l : InfoLoc) : World :=
  { w with holds := Function.update w.holds p (Function.update (w.holds p) l none) }

/-- A world, and the spans that were created in their parent's object. -/
structure Reusing where
  world : World
  inPlace : List (Lineage Span)

namespace Reusing

def start (proc : ℕ → Mem) : Reusing :=
  ⟨.start proc, []⟩

/-- An action of the world. -/
def follow (r : Reusing) (a : Act) : Option (List (Tracepoint × Lineage Span) × Reusing) :=
  (r.world.step a).map fun x => (x.1, { r with world := x.2 })

/-- A call that makes a child in the trace `t`, which holds the ids of its parent. -/
def create (r : Reusing) (p : ℕ) (c : Call) (t : Addr) :
    Option (List (Tracepoint × Lineage Span) × Reusing) := do
  let parent ← r.world.holds p (.trace t)
  let o ← exec (r.world.proc p) c
  let w := r.world.goOn p o.mem
  if o.ret = 0 then
    let s := .child (o.mem.spanAt t) parent
    some ([], ⟨w.spawn p t s, r.inPlace ++ [s]⟩)
  else some ([], { r with world := w })

/-- One action. -/
def step (r : Reusing) (a : Act) : Option (List (Tracepoint × Lineage Span) × Reusing) :=
  match a with
  | .call p (.pack l q) =>
    let w := r.world.goOn p (packTraceInfo (r.world.proc p) l q).2
    match l, q with
    | some l, some _ => some ([], { r with world := w.forget p l })
    | _, _ => some ([], { r with world := w })
  | .call p (.unpack q l) =>
    some ([], { r with world := r.world.goOn p (unpackTraceInfo (r.world.proc p) q l).2 })
  | .call p c =>
    match c.inPlace with
    | some t => r.create p c t
    | none => r.follow (.call p c)
  | a => r.follow a

/-- Ids are those of the spans they belong to, and a span is linked to its parent unless it
was created in its parent's object. -/
structure Inv (r : Reusing) (outs : List (Tracepoint × Lineage Span)) : Prop where
  tracks : World.Tracks (fun s => Linked s ∨ s ∈ r.inPlace) r.world outs
  reused : ∀ s ∈ r.inPlace, Reused s

end Reusing

/-! ## What a step preserves -/

namespace World

variable {L L' : Lineage Span → Prop} {w : World} {outs : List (Tracepoint × Lineage Span)}

theorem Tracks.mono (h : Tracks L w outs) (hL : ∀ s, L s → L' s) : Tracks L' w outs :=
  { h with linked := fun s hs => hL s (h.linked s hs) }

theorem holds_forget (p : ℕ) (l : InfoLoc) (q : ℕ) (l' : InfoLoc) :
    (w.forget p l).holds q l' = if q = p ∧ l' = l then none else w.holds q l' := by
  by_cases hq : q = p
  · subst hq
    by_cases hl : l' = l <;> simp [forget, hl]
  · simp [forget, hq]

/-- A process writes ids of no known span at `l`. -/
theorem Tracks.forget (h : Tracks L w outs) (p : ℕ) (l : InfoLoc) (v : TraceInfo) :
    Tracks L ((w.goOn p ((w.proc p).writeInfo l v)).forget p l) outs where
  holds q l' s hs := by
    rw [holds_forget] at hs
    split_ifs at hs with hq
    obtain ⟨hmem, hids⟩ := h.holds q l' s hs
    refine ⟨hmem, ?_⟩
    show ((w.goOn p ((w.proc p).writeInfo l v)).proc q).readInfo l' = _
    rw [proc_goOn]
    split_ifs with hqp
    · subst hqp
      rw [Mem.readInfo_writeInfo_ne _ _ fun hl => hq ⟨rfl, hl⟩, hids]
    · exact hids
  net := h.net
  events := h.events
  grown := h.grown
  linked := h.linked
  draws := by
    have hdraws : (w.proc p).drawsTo ((w.proc p).writeInfo l v) = [] := by
      cases l <;> simp [Mem.drawsTo, Mem.writeInfo]
    simp [World.forget, World.goOn, hdraws, h.draws]

end World

/-- A child made in the object that holds its parent's ids names itself as its parent. -/
theorem initChildInfo_reused {m : Mem} {t : Addr} {e : Ptr} {name : Option CString}
    {parent : Lineage Span} (hp : (m.traces t).info = parent.label.info)
    (hok : (initChildInfo m (some t) (some (.trace t)) e name).1 = 0) :
    Reused (.child ((initChildInfo m (some t) (some (.trace t)) e name).2.spanAt t) parent) := by
  cases e with
  | none => simp [initChildInfo, einval] at hok
  | some e =>
    rw [initChildInfo_some, if_pos rfl, Mem.readInfo_trace, hp]
    exact ⟨by simp [Mem.spanAt], by simp [Mem.spanAt], by simp [Mem.spanAt, Mem.big]⟩

theorem unpackTraceInfo_sameIds (m : Mem) (p : Ptr) (l : Option InfoLoc) :
    m.SameIds (unpackTraceInfo m p l).2 := by
  cases p <;> cases l
  case some.some p l =>
    rw [unpackTraceInfo_some]
    exact ⟨fun l => by cases l <;> rfl, by simp [Mem.drawsTo]⟩
  all_goals exact .refl m

/-- A call that makes a child in its parent's object is one of `_blkin_init_child_info`. -/
theorem exec_inPlace {m : Mem} {c : Call} {t : Addr} (h : c.inPlace = some t) :
    ∃ e name, exec m c = silent (initChildInfo m (some t) (some (.trace t)) e name) := by
  unfold Call.inPlace at h
  split at h
  case h_1 c q e name =>
    split_ifs at h with hq
    obtain rfl := Option.some.inj h
    subst hq
    exact ⟨childEndpoint m c e, name, by rw [exec, initChild_some]⟩
  case h_2 c l e name =>
    split_ifs at h with hl
    obtain rfl := Option.some.inj h
    subst hl
    exact ⟨e, name, rfl⟩
  case h_3 => cases h

namespace Reusing

variable {r r' : Reusing} {outs out : List (Tracepoint × Lineage Span)}

theorem inv_start (proc : ℕ → Mem) : (start proc).Inv [] where
  tracks := World.tracks_start proc
  reused _ h := by simp [start] at h

/-- A process goes on without touching an id. -/
theorem Inv.goOn (h : r.Inv outs) {p : ℕ} {m : Mem} (hm : (r.world.proc p).SameIds m) :
    ({ r with world := r.world.goOn p m } : Reusing).Inv outs :=
  ⟨h.tracks.goOn hm, h.reused⟩

theorem Inv.follow (h : r.Inv outs) {a : Act} (hs : r.follow a = some (out, r')) :
    r'.Inv (outs ++ out) := by
  obtain ⟨x, hx, heq⟩ := Option.map_eq_some_iff.1 hs
  obtain ⟨rfl, rfl⟩ := Prod.mk.inj heq
  exact ⟨h.tracks.step (fun _ => .inl) hx, h.reused⟩

theorem Inv.create (h : r.Inv outs) {p : ℕ} {c : Call} {t : Addr} (hc : c.inPlace = some t)
    (hs : r.create p c t = some (out, r')) : r'.Inv (outs ++ out) := by
  obtain ⟨e, name, hexec⟩ := exec_inPlace (m := r.world.proc p) hc
  simp only [Reusing.create, hexec, silent, Option.bind_eq_bind, Option.bind_some,
    Option.bind_eq_some_iff] at hs
  obtain ⟨parent, ht, hs⟩ := hs
  obtain ⟨hmem, hids⟩ := h.tracks.holds p _ parent ht
  split_ifs at hs with hok
  · obtain ⟨rfl, rfl⟩ := Prod.mk.inj (Option.some.inj hs)
    rw [List.append_nil]
    refine ⟨?_, fun s hs => ?_⟩
    · exact (h.tracks.mono fun s => Or.imp_right (List.mem_append_left _)).spawn
        (initChildInfo_creates parent hok) (.inr (by simp)) (.child _ h.tracks.grown hmem)
    · rcases List.mem_append.1 hs with hs | hs
      · exact h.reused s hs
      · obtain rfl := List.mem_singleton.1 hs
        exact initChildInfo_reused hids hok
  · obtain ⟨rfl, rfl⟩ := Prod.mk.inj (Option.some.inj hs)
    rw [List.append_nil]
    exact h.goOn (by rw [initChildInfo_rejects hok]; exact .refl _)

theorem inv_step : Keeps step Inv := by
  intro r outs a out r' h hs
  unfold step at hs
  split at hs
  case h_1 p l q =>
    cases l <;> cases q <;> obtain ⟨rfl, rfl⟩ := Prod.mk.inj (Option.some.inj hs) <;>
      rw [List.append_nil]
    case some.some l q =>
      refine ⟨?_, h.reused⟩
      rw [packTraceInfo_some]
      exact h.tracks.forget p l _
    all_goals exact h.goOn (.refl _)
  case h_2 p q l =>
    obtain ⟨rfl, rfl⟩ := Prod.mk.inj (Option.some.inj hs)
    rw [List.append_nil]
    exact h.goOn (unpackTraceInfo_sameIds _ q l)
  case h_3 p c _ _ =>
    cases hc : c.inPlace with
    | some t =>
      rw [hc] at hs
      exact h.create hc hs
    | none =>
      rw [hc] at hs
      exact h.follow hs
  case h_4 => exact h.follow hs

/-- What a world does, a world that may reuse objects does too. -/
theorem follows_world : Simulates World.step step fun w r => r.world = w := by
  rintro w r a out w' rfl hs
  refine ⟨{ r with world := w' }, ?_, rfl⟩
  have hfollow : r.follow a = some (out, { r with world := w' }) := by simp [follow, hs]
  unfold step
  split
  case h_1 p l q => simp [World.step] at hs
  case h_2 p q l => simp [World.step] at hs
  case h_3 p c _ _ =>
    cases hc : c.inPlace with
    | none => exact hfollow
    | some t =>
      unfold Call.inPlace at hc
      split at hc
      · split_ifs at hc with hq
        subst hq
        simp [World.step] at hs
      · split_ifs at hc with hl
        subst hl
        simp [World.step] at hs
      · cases hc
  case h_4 => exact hfollow

end Reusing

end Blkin
