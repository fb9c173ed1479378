import Blkin.RefCount
import Blkin.ZTracer

/-!
# Lifetimes of the wrapper's objects

A program holds `ZTraceEndpointRef`s and `ZTraceRef`s, which it copies and gives back in
any order. A `ZTrace` holds a handle to its endpoint in the member `ep`. Both classes hold
copies of their strings, which `to_cstr` made and the destructors delete, and the C
structures inside them point to these strings, and to the endpoint's C structure.

`Life.perform` is a call of the wrapper with the objects it uses, or a copy or the end of
a handle. It is a fault (`none`) to use an object after its destructor, to read a string
that was deleted, and to delete one twice. `Life.Allowed` is what the program and the
allocator keep : the program uses handles it holds, and memory that is handed out is not
in use. It does not call `create_ZTrace(name, ep, NULL, true)`, after which the structure
still holds what was in the memory, such as a string that was deleted. `runs_safely` says
that then no fault happens, in any order of calls, copies and ends, that an object is there
exactly as long as a handle leads to it, and that the program sees what it would see if
nothing were ever deleted.
-/

open Machine RefCount

namespace Blkin

/-- An object of the wrapper, by its address. -/
inductive Ref
  | endpoint (e : Addr)
  | trace (t : Addr)
  deriving DecidableEq

/-- A `ZTrace` holds a `ZTraceEndpoint`, which holds no object. -/
def Ref.rank : Ref → ℕ
  | .endpoint _ => 0
  | .trace _ => 1

/-- The address of an array of `char`. -/
abbrev Arr := ℕ

/-- An array of `char` with a text in it, which ends before the array does. -/
structure Chars where
  size : ℕ
  text : CString
  fits : text.bytes.length < size

/-- `to_cstr` : an array for the characters and a `NUL`, and what `strcpy` leaves in it. -/
def newCstr (s : StdString) : Chars where
  size := s.length + 1
  text := toCstr s
  fits := Nat.lt_succ_of_le (List.takeWhile_prefix _).length_le

/-- `to_cstr` of each string, in the arrays that `new` returns. -/
def writeAll (chars : Arr → Chars) : List Arr → List StdString → Arr → Chars
  | b :: bs, s :: ss => writeAll (Function.update chars b (newCstr s)) bs ss
  | _, _ => chars

theorem writeAll_of_notMem : ∀ {bs : List Arr} {ss : List StdString} {chars : Arr → Chars}
    {b : Arr}, b ∉ bs → writeAll chars bs ss b = chars b
  | [], _, _, _, _ => by simp [writeAll]
  | _ :: _, [], _, _, _ => by simp [writeAll]
  | _ :: bs, _ :: ss, chars, b, hb => by
    obtain ⟨hne, hb⟩ := not_or.1 (List.mem_cons.not.1 hb)
    rw [writeAll, writeAll_of_notMem hb, Function.update_of_ne hne]

theorem map_writeAll : ∀ {bs : List Arr} {ss : List StdString} {chars : Arr → Chars},
    bs.Nodup → bs.length = ss.length → bs.map (writeAll chars bs ss) = ss.map newCstr
  | [], [], _, _, _ => rfl
  | b :: bs, s :: ss, chars, hnodup, hlen => by
    obtain ⟨hb, hnodup⟩ := List.nodup_cons.1 hnodup
    rw [List.map_cons, List.map_cons]
    refine congrArg₂ _ ?_ (map_writeAll hnodup (Nat.succ.inj hlen))
    rw [writeAll, writeAll_of_notMem hb, Function.update_self]

/-! ## Calls and the objects they use -/

/-- The strings that the C structure of an object points to. -/
def Mem.texts (m : Mem) : Ref → List (Option CString)
  | .endpoint e => [(m.endps e).ip, (m.endps e).name]
  | .trace t => [(m.traces t).name]

namespace ZCall

/-- The handles that the call is given, `this` among them. -/
def given : ZCall → List Ref
  | createZTraceEndpoint _ _ _ _ => []
  | createZTrace _ _ ep => [.endpoint ep]
  | createZTraceChild _ _ t => [.trace t]
  | createZTraceChildAt _ _ t ep => [.trace t, .endpoint ep]
  | createZTraceInfo _ _ _ ep _ _ => [.endpoint ep]
  | keyval _ t _ _ => [.trace t]
  | event _ t _ => [.trace t]
  | keyvalAt _ t _ _ ep => [.trace t, .endpoint ep]
  | eventAt _ t _ ep => [.trace t, .endpoint ep]
  | getTraceInfo _ t _ => [.trace t]
  | setTraceInfo _ t _ => [.trace t]

/-- The `ZTrace` whose member `ep` the call uses. -/
def owner : ZCall → Ptr
  | createZTraceChild _ _ t => some t
  | keyval _ t _ _ => some t
  | event _ t _ => some t
  | _ => none

/-- The objects that the call uses. -/
def touches (h : ZTracer.Heap) (c : ZCall) : List Ref :=
  c.given ++ (c.owner.bind h.ep).toList.map .endpoint

/-- The call fires a tracepoint, which reads the strings of the objects it uses. -/
def fires : ZCall → Bool
  | keyval _ _ _ _ => true
  | event _ _ _ => true
  | keyvalAt _ _ _ _ _ => true
  | eventAt _ _ _ _ => true
  | _ => false

/-- The object that the call constructs, with the handles it holds and its strings. -/
def constructs (h : ZTracer.Heap) : ZCall → Option (Ref × List Ref × List StdString)
  | createZTraceEndpoint dst ip _ name => some (.endpoint dst, [], [ip, name])
  | createZTrace dst name ep => some (.trace dst, [.endpoint ep], [name])
  | createZTraceChild dst name t => (h.ep t).map fun ep => (.trace dst, [.endpoint ep], [name])
  | createZTraceChildAt dst name _ ep => some (.trace dst, [.endpoint ep], [name])
  | createZTraceInfo _ dst name ep _ _ => some (.trace dst, [.endpoint ep], [name])
  | _ => none

/-- The call is given the info that it constructs a child of. -/
def hasInfo : ZCall → Bool
  | createZTraceInfo _ _ _ _ info true => info.isSome
  | _ => true

end ZCall

/-- The handles that the object holds are `fs`, and so are the pointers in it. -/
def ZTracer.Heap.Linked (h : ZTracer.Heap) (fs : List Ref) : Ref → Prop
  | .endpoint _ => fs = []
  | .trace t => ∃ e, fs = [.endpoint e] ∧ h.ep t = some e ∧
      (h.mem.traces t).traceEndpoint = some e

/-- The object is as before, as far as it points to others. -/
def ZTracer.Heap.Keeps (h h' : ZTracer.Heap) (r : Ref) : Prop :=
  h'.mem.texts r = h.mem.texts r ∧ ∀ fs, h.Linked fs r → h'.Linked fs r

/-- What a call leaves : other objects that have all their strings are as before, and the
one it constructs has the strings and the handles of the call. -/
structure ZCall.Leaves (c : ZCall) (h h' : ZTracer.Heap) : Prop where
  keeps : ∀ r, (∀ x ∈ c.constructs h, r ≠ x.1) → (∀ x ∈ h.mem.texts r, x ≠ none) →
    h.Keeps h' r
  makes : ∀ x ∈ c.constructs h, h'.mem.texts x.1 = x.2.2.map (fun s => some (toCstr s)) ∧
    h'.Linked x.2.1 x.1

namespace ZCall.Leaves

open ZTracer

variable {h : Heap} {c : ZCall} {m : Mem} {t e : Addr}

/-- A call that constructs a `ZTrace`. -/
theorem ofTrace {name : StdString}
    (hc : c.constructs h = some (.trace t, [.endpoint e], [name]))
    (hendps : m.endps = h.mem.endps) (hothers : ∀ u, u ≠ t → m.traces u = h.mem.traces u)
    (hname : (m.traces t).name = some (toCstr name))
    (hlink : (m.traces t).traceEndpoint = some e) :
    c.Leaves h ⟨m, Function.update h.ep t (some e)⟩ := by
  refine ⟨fun r hr _ => ?_, fun x hx => ?_⟩
  · have hr := hr _ hc
    cases r with
    | endpoint d => exact ⟨by simp [Mem.texts, hendps], fun fs hfs => hfs⟩
    | trace u =>
      have hne : u ≠ t := fun hut => hr (by rw [hut])
      refine ⟨by simp [Mem.texts, hothers u hne], ?_⟩
      rintro fs ⟨d, hfs, hep, hd⟩
      exact ⟨d, hfs, by simpa [hne] using hep, by rwa [hothers u hne]⟩
  · obtain rfl := Option.some.inj (hc.symm.trans hx)
    exact ⟨by simp [Mem.texts, hname], e, rfl, by simp, hlink⟩

/-- A call that leaves names and links as they are. -/
theorem ofQuiet (hc : c.constructs h = none) (hendps : m.endps = h.mem.endps)
    (htraces : ∀ u, (m.traces u).name = (h.mem.traces u).name ∧
      (m.traces u).traceEndpoint = (h.mem.traces u).traceEndpoint) :
    c.Leaves h { h with mem := m } := by
  refine ⟨fun r _ _ => ?_, by simp [hc]⟩
  cases r with
  | endpoint d => exact ⟨by simp [Mem.texts, hendps], fun fs hfs => hfs⟩
  | trace u =>
    refine ⟨by simp [Mem.texts, htraces u], ?_⟩
    rintro fs ⟨d, hfs, hep, hd⟩
    exact ⟨d, hfs, hep, by rwa [(htraces u).2]⟩

/-- A call that fires an event has nothing to fill in. -/
theorem ofFill {a : Addr} {f : Annotation → Annotation} (hc : c.constructs h = none) :
    c.Leaves h { h with mem := (h.mem.modAnnot a f).fillDefaults t a e } := by
  refine ⟨fun r _ hr => ?_, by simp [hc]⟩
  cases r with
  | endpoint d =>
    refine ⟨?_, fun fs hfs => hfs⟩
    have hip : (h.mem.endps d).ip ≠ none := hr _ (by simp [Mem.texts])
    have hname : (h.mem.endps d).name ≠ none := hr _ (by simp [Mem.texts])
    obtain ⟨ip, hip⟩ := Option.ne_none_iff_exists'.1 hip
    obtain ⟨name, hname⟩ := Option.ne_none_iff_exists'.1 hname
    rcases eq_or_ne d e with rfl | hne
    · simp [Mem.texts, Mem.fillDefaults, Endpoint.filled, hip, hname]
    · simp [Mem.texts, Mem.fillDefaults, hne]
  | trace u =>
    have hname : (h.mem.traces u).name ≠ none := hr _ (by simp [Mem.texts])
    obtain ⟨name, hname⟩ := Option.ne_none_iff_exists'.1 hname
    constructor
    · rcases eq_or_ne u t with rfl | hne
      · simp [Mem.texts, Mem.fillDefaults, Trace.filled, hname]
      · simp [Mem.texts, Mem.fillDefaults, hne]
    · rintro fs ⟨d, hfs, hep, hd⟩
      refine ⟨d, hfs, hep, ?_⟩
      rwa [Mem.traceEndpoint_fillDefaults]

end ZCall.Leaves

/-- Every call on `ZTrace`s with an endpoint. -/
theorem ZCall.step_leaves {h : ZTracer.Heap} {c : ZCall}
    (hgiven : ∀ t, .trace t ∈ c.given → ∃ e, h.ep t = some e) (hinfo : c.hasInfo = true) :
    ∃ out h', ZTracer.step h c = some (out, h') ∧ c.Leaves h h' := by
  cases c with
  | createZTraceEndpoint dst ip port name =>
    refine ⟨[], _, rfl, fun r hr _ => ?_, fun x hx => ?_⟩
    · cases r with
      | endpoint d =>
        have hne : d ≠ dst := fun hd => hr _ rfl (by rw [hd])
        rw [initEndpoint_some]
        exact ⟨by simp [Mem.texts, hne], fun fs hfs => hfs⟩
      | trace u => exact ⟨rfl, fun fs hfs => hfs⟩
    · obtain rfl := Option.some.inj hx
      rw [initEndpoint_some]
      exact ⟨by simp [Mem.texts], rfl⟩
  | createZTrace dst name ep =>
    refine ⟨[], _, rfl, .ofTrace rfl rfl (fun u hu => ?_) ?_ ?_⟩
    all_goals rw [initNewTrace_some]
    · simp [ZTracer.Heap.setEp, hu]
    · simp
    · simp
  | createZTraceChild dst name t =>
    obtain ⟨e, he⟩ := hgiven t (by simp [given])
    have hc : (createZTraceChild dst name t).constructs h =
        some (.trace dst, [.endpoint e], [name]) := by
      simp [constructs, he]
    refine ⟨[], _, ZTracer.createZTraceChild_some dst name he,
      .ofTrace hc rfl (fun u hu => ?_) ?_ ?_⟩
    all_goals rw [initChildInfo_some]
    · simp [hu]
    · simp
    · simp
  | createZTraceChildAt dst name t ep =>
    obtain ⟨e, he⟩ := hgiven t (by simp [given])
    refine ⟨[], _, ZTracer.createZTraceChildAt_some dst name ep he,
      .ofTrace rfl rfl (fun u hu => ?_) ?_ ?_⟩
    all_goals rw [initChildInfo_some]
    · simp [hu]
    · simp
    · simp
  | createZTraceInfo res dst name ep info child =>
    cases child with
    | true =>
      obtain ⟨i, rfl⟩ := Option.isSome_iff_exists.1 hinfo
      refine ⟨[], _, rfl, .ofTrace rfl rfl (fun u hu => ?_) ?_ ?_⟩
      all_goals rw [Option.map_some, initChildInfo_some]
      · simp [ZTracer.Heap.setEp, hu]
      · simp
      · simp
    | false =>
      refine ⟨[], _, rfl, .ofTrace rfl ?_ (fun u hu => ?_) ?_ ?_⟩
      · cases info <;> rfl
      all_goals
        rw [initNewTrace_some]
        cases info
      all_goals simp_all [Blkin.setTraceInfo, Mem.writeInfo, ZTracer.Heap.setEp]
  | keyval annot t key val =>
    obtain ⟨e, he⟩ := hgiven t (by simp [given])
    have hz := (ZTracer.keyval_eq_keyvalAt annot key val he).trans
      (ZTracer.keyvalAt_some annot key val e he)
    exact ⟨_, _, congrArg (Option.map Prod.snd) hz, .ofFill rfl⟩
  | event annot t ev =>
    obtain ⟨e, he⟩ := hgiven t (by simp [given])
    have hz := (ZTracer.event_eq_eventAt annot ev he).trans (ZTracer.eventAt_some annot ev e he)
    exact ⟨_, _, congrArg (Option.map Prod.snd) hz, .ofFill rfl⟩
  | keyvalAt annot t key val ep =>
    obtain ⟨e, he⟩ := hgiven t (by simp [given])
    have hz := ZTracer.keyvalAt_some annot key val ep he
    exact ⟨_, _, congrArg (Option.map Prod.snd) hz, .ofFill rfl⟩
  | eventAt annot t ev ep =>
    obtain ⟨e, he⟩ := hgiven t (by simp [given])
    have hz := ZTracer.eventAt_some annot ev ep he
    exact ⟨_, _, congrArg (Option.map Prod.snd) hz, .ofFill rfl⟩
  | getTraceInfo res t info =>
    obtain ⟨e, he⟩ := hgiven t (by simp [given])
    refine ⟨[], { h with mem := (Blkin.getTraceInfo res h.mem (some t) (info.map .info)).2 },
      by simp [ZTracer.step, ZTracer.getTraceInfo, he], .ofQuiet rfl ?_ fun u => ?_⟩
    · cases info <;> rfl
    · cases info <;> exact ⟨rfl, rfl⟩
  | setTraceInfo res t info =>
    obtain ⟨e, he⟩ := hgiven t (by simp [given])
    refine ⟨[], { h with mem := (Blkin.setTraceInfo res h.mem (some t) (info.map .info)).2 },
      by simp [ZTracer.step, ZTracer.setTraceInfo, he], .ofQuiet rfl ?_ fun u => ?_⟩
    · cases info <;> rfl
    · cases info with
      | none => exact ⟨rfl, rfl⟩
      | some i =>
        rcases eq_or_ne u t with rfl | hne
        · simp [Blkin.setTraceInfo, Mem.writeInfo]
        · simp [Blkin.setTraceInfo, Mem.writeInfo, hne]

/-- A new object holds handles to objects that the call uses. -/
theorem ZCall.mem_touches {h : ZTracer.Heap} {c : ZCall} {r : Ref} {fs : List Ref}
    {ss : List StdString} (hc : c.constructs h = some (r, fs, ss)) : ∀ f ∈ fs, f ∈ c.touches h := by
  intro f hf
  cases c with
  | createZTraceChild dst name t =>
    obtain ⟨e, he, heq⟩ := Option.map_eq_some_iff.1 hc
    simp_all [touches, owner]
  | _ => simp_all [constructs, touches, given]

/-! ## Programs that hold handles -/

/-- A call of the wrapper with the arrays that `new` returns in it, a call of
`get_endpoint`, a copy of a handle, or the end of one. -/
inductive LifeAct
  | call (c : ZCall) (bs : List Arr)
  | getEndpoint (t : Addr)
  | copy (r : Ref)
  | drop (r : Ref)

/-- The calls that `ZTracer.step` makes. -/
def LifeAct.calls : LifeAct → List ZCall
  | call c _ => [c]
  | _ => []

structure Life where
  heap : ZTracer.Heap
  store : Store Ref Arr
  /-- The handles that the program holds. -/
  held : Multiset Ref
  /-- The arrays that the `char *` of an object's C structure point to. -/
  strings : Ref → List Arr
  chars : Arr → Chars

namespace Life

/-- No object is constructed. -/
def start (m : Mem) : Life :=
  ⟨⟨m, fun _ => none⟩, .empty, 0, fun _ => [], fun _ => newCstr []⟩

/-- The program uses handles that it holds, makes no child of a `NULL` info, and the memory
that `new` returns is not in use. -/
def Allowed (s : Life) : LifeAct → Prop
  | .call c bs => (∀ r ∈ c.given, r ∈ s.held) ∧ c.hasInfo = true ∧
      ∀ x ∈ c.constructs s.heap, s.store.Fresh x.1 bs ∧ bs.length = x.2.2.length
  | .getEndpoint t => .trace t ∈ s.held
  | .copy r => r ∈ s.held
  | .drop r => r ∈ s.held

instance (s : Life) : ∀ act, Decidable (s.Allowed act)
  | .call _ _ => inferInstanceAs (Decidable (_ ∧ _ ∧ _))
  | .getEndpoint t => inferInstanceAs (Decidable (Ref.trace t ∈ s.held))
  | .copy r => inferInstanceAs (Decidable (r ∈ s.held))
  | .drop r => inferInstanceAs (Decidable (r ∈ s.held))

/-- The object is live, and so are its strings. -/
def Readable (s : Life) (strings : Bool) (r : Ref) : Prop :=
  r ∈ s.store.live ∧ (strings = true → ∀ b ∈ s.strings r, b ∈ s.store.arrays)

instance (s : Life) (strings : Bool) (r : Ref) : Decidable (s.Readable strings r) :=
  inferInstanceAs (Decidable (_ ∧ _))

/-- A call on the objects it uses. -/
def perform (s : Life) : LifeAct → Option (List Tracepoint × Life)
  | .call c bs =>
    if ∀ r ∈ c.touches s.heap, s.Readable c.fires r then do
      let (out, heap) ← ZTracer.step s.heap c
      match c.constructs s.heap with
      | none => some (out, { s with heap := heap })
      | some (r, fs, ss) =>
        let store ← s.store.construct r fs bs
        some (out, ⟨heap, store, r ::ₘ s.held, Function.update s.strings r bs,
          writeAll s.chars bs ss⟩)
    else none
  | .getEndpoint t =>
    if .trace t ∈ s.store.live then do
      let e ← s.heap.ep t
      let store ← s.store.copy (.endpoint e)
      some ([], { s with store := store, held := .endpoint e ::ₘ s.held })
    else none
  | .copy r => do
    let store ← s.store.copy r
    some ([], { s with store := store, held := r ::ₘ s.held })
  | .drop r => do
    let store ← s.store.drop [r]
    some ([], { s with store := store, held := s.held.erase r })

/-- The machine of programs that keep to what is allowed. -/
def step (s : Life) (act : LifeAct) : Option (List Tracepoint × Life) :=
  if s.Allowed act then s.perform act else none

/-- The C structure of the object points to its own strings, with their texts, and to
what the object holds. -/
structure Backed (s : Life) (r : Ref) : Prop where
  strings : s.strings r = s.store.arraysOf r
  texts : s.heap.mem.texts r = (s.store.arraysOf r).map fun b => some (s.chars b).text
  linked : s.heap.Linked (s.store.fields r) r

structure Inv (s : Life) : Prop where
  counted : Counted s.held s.store
  backed : ∀ r ∈ s.store.live, s.Backed r

theorem inv_start (m : Mem) : (start m).Inv :=
  ⟨.empty, fun r hr => absurd hr (Finset.notMem_empty r)⟩

variable {s : Life}

theorem Backed.texts_ne_none {r : Ref} (h : s.Backed r) :
    ∀ x ∈ s.heap.mem.texts r, x ≠ none := by
  rw [h.texts]
  intro x hx
  obtain ⟨b, -, rfl⟩ := List.mem_map.1 hx
  exact Option.some_ne_none _

namespace Inv

/-- A `ZTrace` that is live has a live endpoint. -/
theorem endpoint (h : s.Inv) {t : Addr} (ht : .trace t ∈ s.store.live) :
    ∃ e, s.heap.ep t = some e ∧ .endpoint e ∈ s.store.live := by
  obtain ⟨e, hfields, hep, -⟩ := (h.backed _ ht).linked
  exact ⟨e, hep, h.counted.live_of_field ht (by simp [hfields])⟩

theorem ranked (h : s.Inv) : Ranked Ref.rank s.store := by
  intro r hr b hb
  have hlinked := (h.backed r hr).linked
  cases r with
  | endpoint e =>
    have hfields : s.store.fields (.endpoint e) = [] := hlinked
    simp [hfields] at hb
  | trace t =>
    obtain ⟨e, hfields, -⟩ := hlinked
    obtain rfl : b = .endpoint e := by simpa [hfields] using hb
    exact Nat.one_pos

theorem readable (h : s.Inv) {r : Ref} (hr : r ∈ s.store.live) (strings : Bool) :
    s.Readable strings r := by
  refine ⟨hr, fun _ b hb => ?_⟩
  rw [(h.backed r hr).strings] at hb
  exact Multiset.mem_of_le (h.counted.arraysOf_le hr) hb

/-- The objects that an allowed call uses are live. -/
theorem touches (h : s.Inv) {c : ZCall} (hc : ∀ r ∈ c.given, r ∈ s.held) :
    ∀ r ∈ c.touches s.heap, r ∈ s.store.live := by
  intro r hr
  rcases List.mem_append.1 hr with hr | hr
  · exact h.counted.live_of_held (hc r hr)
  · obtain ⟨e, he, rfl⟩ := List.mem_map.1 hr
    obtain ⟨t, ht, hep⟩ := Option.bind_eq_some_iff.1 (Option.mem_toList.1 he)
    have hgiven : Ref.trace t ∈ c.given := by
      cases c <;> simp_all [ZCall.owner, ZCall.given]
    obtain ⟨e', he', hlive⟩ := h.endpoint (h.counted.live_of_held (hc _ hgiven))
    obtain rfl := Option.some.inj (hep.symm.trans he')
    exact hlive

/-- Handles that are copied or given back change no object that is still live. -/
theorem restore (h : s.Inv) {store : Store Ref Arr} {held : Multiset Ref}
    (hcounted : Counted held store) (hlive : store.live ⊆ s.store.live)
    (hfields : store.fields = s.store.fields) (harrays : store.arraysOf = s.store.arraysOf) :
    ({ s with store := store, held := held } : Life).Inv := by
  refine ⟨hcounted, fun r hr => ?_⟩
  obtain ⟨hstrings, htexts, hlinked⟩ := h.backed r (hlive hr)
  exact ⟨by simpa [harrays] using hstrings, by simpa [harrays] using htexts,
    by simpa [hfields] using hlinked⟩

/-- What an allowed action leads to. -/
structure Performs (s : Life) (act : LifeAct) (out : List Tracepoint) (s' : Life) : Prop where
  perform : s.perform act = some (out, s')
  inv : s'.Inv
  calls : run ZTracer.step s.heap act.calls = some (out, s'.heap)

/-- A call that constructs nothing. -/
theorem performs_call (h : s.Inv) {c : ZCall} {bs : List Arr} {out : List Tracepoint}
    {heap : ZTracer.Heap} (hc : ∀ r ∈ c.given, r ∈ s.held)
    (hz : ZTracer.step s.heap c = some (out, heap)) (hleaves : c.Leaves s.heap heap)
    (hnone : c.constructs s.heap = none) :
    Performs s (.call c bs) out { s with heap := heap } := by
  have hguard : ∀ r ∈ c.touches s.heap, s.Readable c.fires r := fun r hr =>
    h.readable (h.touches hc r hr) c.fires
  refine ⟨?_, ⟨h.counted, fun r hr => ?_⟩, by rw [LifeAct.calls, run_singleton, hz]⟩
  · simp only [Life.perform, if_pos hguard, hz, hnone, Option.bind_eq_bind, Option.bind_some]
  · have hb := h.backed r hr
    have hkeeps := hleaves.keeps r (by simp [hnone]) hb.texts_ne_none
    exact ⟨hb.strings, hkeeps.1.trans hb.texts, hkeeps.2 _ hb.linked⟩

/-- A call that constructs the object `r`. -/
theorem performs_construct (h : s.Inv) {c : ZCall} {bs : List Arr} {out : List Tracepoint}
    {heap : ZTracer.Heap} {r : Ref} {fs : List Ref} {ss : List StdString}
    (hc : ∀ r ∈ c.given, r ∈ s.held) (hz : ZTracer.step s.heap c = some (out, heap))
    (hleaves : c.Leaves s.heap heap) (hsome : c.constructs s.heap = some (r, fs, ss))
    (hfresh : s.store.Fresh r bs) (hlen : bs.length = ss.length) :
    Performs s (.call c bs) out ⟨heap, s.store.insert r fs bs, r ::ₘ s.held,
      Function.update s.strings r bs, writeAll s.chars bs ss⟩ := by
  have hguard : ∀ r ∈ c.touches s.heap, s.Readable c.fires r := fun r hr =>
    h.readable (h.touches hc r hr) c.fires
  have hfs : ∀ f ∈ fs, f ∈ s.store.live := fun f hf => h.touches hc f (c.mem_touches hsome f hf)
  obtain ⟨hnew, hcounted⟩ := h.counted.construct hfs hfresh
  obtain ⟨hr, hnodup, hbs⟩ := hfresh
  obtain ⟨htexts, hlinked⟩ := hleaves.makes _ hsome
  refine ⟨?_, ⟨hcounted, fun x hx => ?_⟩, by rw [LifeAct.calls, run_singleton, hz]⟩
  · simp only [Life.perform, if_pos hguard, hz, hsome, hnew, Option.bind_eq_bind,
      Option.bind_some]
  · rcases eq_or_ne x r with rfl | hne
    · refine ⟨by simp [Store.insert], ?_, by simpa [Store.insert] using hlinked⟩
      have hchars : bs.map (writeAll s.chars bs ss) = ss.map newCstr := map_writeAll hnodup hlen
      have hmap := congrArg (List.map fun ch : Chars => some ch.text) hchars
      simp only [List.map_map] at hmap
      simp only [Store.insert, Function.update_self]
      exact htexts.trans hmap.symm
    · have hx : x ∈ s.store.live := (Finset.mem_insert.1 hx).resolve_left hne
      have hb := h.backed x hx
      have hkeeps := hleaves.keeps x (fun y hy => by
        obtain rfl := Option.some.inj (hsome.symm.trans hy)
        exact hne) hb.texts_ne_none
      refine ⟨by simpa [Store.insert, hne] using hb.strings, ?_,
        by simpa [Store.insert, hne] using hkeeps.2 _ hb.linked⟩
      simp only [Store.insert, Function.update_of_ne hne]
      rw [hkeeps.1, hb.texts]
      refine List.map_congr_left fun b hin => ?_
      rw [writeAll_of_notMem]
      exact fun hin' => hbs b hin' (Multiset.mem_of_le (h.counted.arraysOf_le hx) hin)

/-- What is allowed is no fault. -/
theorem performs (h : s.Inv) {act : LifeAct} (hact : s.Allowed act) :
    ∃ out s', Performs s act out s' := by
  cases act with
  | call c bs =>
    obtain ⟨hc, hinfo, hnew⟩ := hact
    have hgiven : ∀ t, .trace t ∈ c.given → ∃ e, s.heap.ep t = some e := fun t ht => by
      obtain ⟨e, he, -⟩ := h.endpoint (h.counted.live_of_held (hc _ ht))
      exact ⟨e, he⟩
    obtain ⟨out, heap, hz, hleaves⟩ := ZCall.step_leaves hgiven hinfo
    cases hcon : c.constructs s.heap with
    | none => exact ⟨out, _, h.performs_call hc hz hleaves hcon⟩
    | some x =>
      obtain ⟨hfresh, hlen⟩ := hnew x hcon
      exact ⟨out, _, h.performs_construct hc hz hleaves hcon hfresh hlen⟩
  | getEndpoint t =>
    have ht := h.counted.live_of_held hact
    obtain ⟨e, he, hlive⟩ := h.endpoint ht
    obtain ⟨store, hcopy, hcounted, hframe, hfields, harrays⟩ := h.counted.copy hlive
    exact ⟨[], { s with store := store, held := .endpoint e ::ₘ s.held },
      by simp [Life.perform, ht, he, hcopy], h.restore hcounted hframe.subset hfields harrays, rfl⟩
  | copy r =>
    obtain ⟨store, hcopy, hcounted, hframe, hfields, harrays⟩ :=
      h.counted.copy (h.counted.live_of_held hact)
    exact ⟨[], { s with store := store, held := r ::ₘ s.held }, by simp [Life.perform, hcopy],
      h.restore hcounted hframe.subset hfields harrays, rfl⟩
  | drop r =>
    have hheld : Counted ((([r] : List Ref) : Multiset Ref) + s.held.erase r) s.store := by
      rw [Multiset.coe_singleton, Multiset.singleton_add, Multiset.cons_erase hact]
      exact h.counted
    obtain ⟨store, hdrop, hcounted, hframe, hfields, harrays⟩ := hheld.drop
    exact ⟨[], { s with store := store, held := s.held.erase r }, by simp [Life.perform, hdrop],
      h.restore hcounted hframe hfields harrays, rfl⟩

end Inv

/-- One action keeps the invariant. -/
theorem keeps_inv : Keeps step fun s _ => s.Inv := by
  intro s _ act out s' h hs
  obtain ⟨hact, hs⟩ : s.Allowed act ∧ s.perform act = some (out, s') := by
    rw [step] at hs
    split_ifs at hs with hact
    exact ⟨hact, hs⟩
  obtain ⟨out', s'', hp⟩ := h.performs hact
  obtain ⟨-, rfl⟩ := Prod.mk.inj (Option.some.inj (hs.symm.trans hp.perform))
  exact hp.inv

/-- A run of the program is a run of its calls. -/
theorem Inv.run_calls : ∀ {acts : List LifeAct} {s s' : Life} {outs : List Tracepoint}, s.Inv →
    run step s acts = some (outs, s') →
    run ZTracer.step s.heap (acts.flatMap LifeAct.calls) = some (outs, s'.heap)
  | [], s, s', outs, _, hr => by
    obtain ⟨rfl, rfl⟩ : [] = outs ∧ s = s' := by simpa using hr
    rfl
  | act :: acts, s, s', outs, h, hr => by
    obtain ⟨out₁, s₁, out₂, h₁, h₂, rfl⟩ := run_cons_eq_some.1 hr
    have hinv := keeps_inv s [] act out₁ s₁ h h₁
    rw [step] at h₁
    split_ifs at h₁ with hact
    obtain ⟨out', s'', hp⟩ := h.performs hact
    obtain ⟨rfl, rfl⟩ := Prod.mk.inj (Option.some.inj (h₁.symm.trans hp.perform))
    rw [List.flatMap_cons]
    exact run_append_eq_some.2 ⟨_, _, _, hp.calls, hinv.run_calls h₂, rfl⟩

/-- A program that uses the handles it holds never touches what was deleted and never
deletes twice. An object is there exactly while a handle leads to it, with its own strings
and a live endpoint ; without handles nothing is left. The program sees what it would see
if nothing were deleted. -/
theorem runs_safely {m : Mem} {acts : List LifeAct} {outs : List Tracepoint} {s : Life}
    (hr : run step (start m) acts = some (outs, s)) :
    (∀ act, s.Allowed act → s.perform act ≠ none) ∧
    (∀ r, r ∈ s.store.live ↔ Reachable s.held s.store r) ∧
    (∀ r ∈ s.store.live, s.Backed r ∧ s.Readable true r) ∧
    (s.held = 0 → s.store.live = ∅ ∧ s.store.arrays = 0) ∧
    run ZTracer.step ⟨m, fun _ => none⟩ (acts.flatMap LifeAct.calls) = some (outs, s.heap) := by
  have h : s.Inv := keeps_inv.run_state (inv_start m) hr
  refine ⟨fun act hact => ?_, fun r => h.counted.mem_live_iff h.ranked,
    fun r hlive => ⟨h.backed r hlive, h.readable hlive true⟩, fun hheld => ?_,
    (inv_start m).run_calls hr⟩
  · obtain ⟨out, s', hp⟩ := h.performs hact
    simp [hp.perform]
  · have hcounted := h.counted
    rw [hheld] at hcounted
    exact hcounted.eq_empty h.ranked

/-- The parent and both handles to its endpoint end before the child's event ; the next
`ZTrace` takes the parent's memory, at the endpoint that only the child's member `ep` has
kept. Then every handle ends. -/
def orphan : List LifeAct :=
  [.call (.createZTraceEndpoint 0 [49] 1 [97]) [0, 1], .copy (.endpoint 0),
    .call (.createZTrace 0 [112] 0) [2], .drop (.endpoint 0), .drop (.endpoint 0),
    .call (.createZTraceChild 1 [99] 0) [3], .drop (.trace 0), .call (.event 7 1 [101]) [],
    .getEndpoint 1, .drop (.trace 1), .call (.createZTrace 0 [113] 0) [2], .drop (.endpoint 0),
    .call (.event 7 0 [102]) [], .drop (.trace 0)]

theorem runs_safely_orphan : ∃ outs s,
    run step (start (.static .little .ofNat)) orphan = some (outs, s) ∧
    (outs.length = 2 ∧ s.store.live = ∅ ∧ s.store.arrays = 0 ∧
      run ZTracer.step ⟨.static .little .ofNat, fun _ => none⟩
        (orphan.flatMap LifeAct.calls) = some (outs, s.heap)) := by
  refine exists_of_map_eq (f := fun r => (r.1.length, r.2.held)) (c := (2, 0))
    (by decide +kernel) ?_
  intro outs s hr hc
  obtain ⟨hlen, hheld⟩ := Prod.mk.inj hc
  obtain ⟨-, -, -, hempty, hcalls⟩ := runs_safely hr
  exact ⟨hlen, (hempty hheld).1, (hempty hheld).2, hcalls⟩

end Life

end Blkin
