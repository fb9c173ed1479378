import Blkin.EndToEnd
import Blkin.Loop
import Blkin.Scribe

/-!
# The plugin, `babeltrace_zipkin.py`

`main` is the loop over the events of a stream. An event whose name is not `zipkin:` and
one more part is skipped; any other is converted and logged, and an exception ends the
loop.

Whether an event can be converted does not depend on the events before it, so the loop
ends normally exactly if every event that is not skipped can be (`main_ends_iff`), and
then has logged the message of each, in order (`main_logged`). Nothing looks at the reply
to a `Log` call.

`relays_iff` says for which streams the loop does what the format asks for, and
`delivers_iff` for which replies the server has got every event.
-/

open Loop

namespace Blkin

namespace ZipkinClient

/-- `ZipkinClient.scribe_log` -/
def scribeLog (P : TProtocol) (replies : ℕ → ℤ) (sent : Sent) (trace : PyTrace)
    (annots : List PyAnnotation) : Except PyError (ℤ × Sent) := do
  let message ← base64ThriftFormatter P trace annots
  .ok (ScribeClient.log replies sent (ascii "zipkin") message)

/-- `ZipkinClient.record` -/
def record (P : TProtocol) (replies : ℕ → ℤ) (sent : Sent) (trace : PyTrace)
    (annot : PyAnnotation) : Except PyError Sent := do
  let (_, sent) ← scribeLog P replies sent trace [annot]
  .ok sent

end ZipkinClient

namespace BabeltraceZipkin

/-- `:` -/
def colon : UInt8 := 58

/-- The kind of an event that is not skipped. -/
def kindOf (name : Bytes) : Option Bytes :=
  match name.splitOn colon with
  | [provider, kind] => if provider ≠ ascii "zipkin" then none else some kind
  | _ => none

/-- The body of the loop. -/
def body (P : TProtocol) (replies : ℕ → ℤ) (sent : Sent) (event : Event) :
    Except PyError Sent :=
  match kindOf event.name with
  | none => .ok sent
  | some kind => do
    let trace ← createTrace event
    let annot ← createAnnotation event kind
    ZipkinClient.record P replies sent trace annot

/-- The loop of `main` : the `Log` calls it made, and the exception that ended it. -/
def main (P : TProtocol) (replies : ℕ → ℤ) (events : List Event) : Sent × Option PyError :=
  forEach (body P replies) [] events

/-! ## What the loop sends -/

variable {P : TProtocol} {replies : ℕ → ℤ}

/-- The event is skipped. -/
def Skipped (e : Event) : Prop :=
  kindOf e.name = none

instance : DecidablePred Skipped := fun _ => inferInstanceAs (Decidable (_ = _))

/-- `x` logs the message of the event. -/
def Logs (P : TProtocol) (e : Event) (x : LogEntry) : Prop :=
  ∃ kind, kindOf e.name = some kind ∧ x.category = ascii "zipkin" ∧
    convert P e kind = .ok x.message

theorem body_of_skipped {e : Event} (h : Skipped e) (sent : Sent) :
    body P replies sent e = .ok sent := by
  rw [body, h]

theorem body_of_kind {e : Event} {kind : Bytes} (h : kindOf e.name = some kind) (sent : Sent) :
    body P replies sent e = convert P e kind >>= fun message =>
      .ok (sent ++ [(⟨ascii "zipkin", message⟩, replies sent.length)]) := by
  rw [body, h, convert]
  simp only [bind_assoc, ZipkinClient.record, ZipkinClient.scribeLog, ScribeClient.log, ok_bind]

theorem body_ends_iff (sent : Sent) (e : Event) :
    (∃ sent', body P replies sent e = .ok sent') ↔ (¬Skipped e → ∃ x, Logs P e x) := by
  cases hk : kindOf e.name with
  | none => simp [body_of_skipped hk, Skipped, hk]
  | some kind =>
    cases hc : convert P e kind with
    | error err => simp [body_of_kind hk, hc, Skipped, Logs, hk]
    | ok message =>
      simp only [body_of_kind hk, hc, ok_bind, Skipped, hk, reduceCtorEq, not_false_eq_true,
        forall_const, Except.ok.injEq, exists_eq']
      exact iff_of_true trivial ⟨⟨ascii "zipkin", message⟩, kind, hk, rfl, hc⟩

/-- The loop ends normally exactly if no event that is not skipped raises. -/
theorem main_ends_iff (P : TProtocol) (replies : ℕ → ℤ) (events : List Event) :
    (main P replies events).2 = none ↔ ∀ e ∈ events, ¬Skipped e → ∃ x, Logs P e x :=
  forEach_ends_iff body_ends_iff events []

/-- The calls made for the events `done` : one for each that is not skipped, in order, with
the reply to the call. -/
structure Logged (P : TProtocol) (replies : ℕ → ℤ) (done : List Event) (sent : Sent) : Prop where
  logs : List.Forall₂ (Logs P) (done.filter (¬Skipped ·)) (sent.map Prod.fst)
  replies : sent.map Prod.snd = (List.range sent.length).map replies

theorem Logged.body {done : List Event} {sent sent' : Sent} {e : Event}
    (h : Logged P replies done sent) (hb : body P replies sent e = .ok sent') :
    Logged P replies (done ++ [e]) sent' := by
  cases hk : kindOf e.name with
  | none =>
    obtain rfl := Except.ok.inj ((body_of_skipped hk sent).symm.trans hb)
    have hskip : Skipped e := hk
    exact ⟨by simpa [hskip] using h.logs, h.replies⟩
  | some kind =>
    have hskip : ¬Skipped e := by simp [Skipped, hk]
    rw [body_of_kind hk] at hb
    cases hc : convert P e kind with
    | error err => simp [hc] at hb
    | ok message =>
      rw [hc, ok_bind] at hb
      obtain rfl := Except.ok.inj hb
      refine ⟨?_, ?_⟩
      · have hlogs : Logs P e ⟨ascii "zipkin", message⟩ := ⟨kind, hk, rfl, hc⟩
        simpa [hskip] using List.rel_append h.logs (.cons hlogs .nil)
      · simp [List.range_succ, h.replies]

/-- Where the loop ends normally it made exactly one call for each event that is not
skipped, in order. -/
theorem main_logged {events : List Event} (h : (main P replies events).2 = none) :
    Logged P replies events (main P replies events).1 := by
  have hstart : Logged P replies [] [] := ⟨.nil, rfl⟩
  exact forEach_keeps (fun _ _ _ _ => Logged.body) hstart h

/-! ## Events of the format -/

/-- The event follows the format and shows `r` : every declared field is there, at its
declared width, with a port below 2¹⁵, a dotted quad and at least a microsecond. -/
structure Conforms (e : Event) (r : Report) : Prop where
  name : e.name = ascii "zipkin:" ++ r.content.kind
  shows : e.Shows r
  traceId : Fits 64 r.traceId
  spanId : Fits 64 r.spanId
  parentSpanId : Fits 64 r.parentSpanId
  port : 0 ≤ r.port ∧ r.port ≤ 32767
  ip : Inet.IsQuad r.ip
  timestamp : 1000 ≤ e.timestamp ∧ e.timestamp < 2 ^ 64

theorem Conforms.kindOf_name {e : Event} {r : Report} (h : Conforms e r) :
    kindOf e.name = some r.content.kind := by
  rw [h.name]
  cases r.content with
  | keyval key val => exact (by decide : kindOf (ascii "zipkin:keyval") = some (ascii "keyval"))
  | timestamp event ns =>
    exact (by decide : kindOf (ascii "zipkin:timestamp") = some (ascii "timestamp"))

theorem Conforms.convertible_iff {e : Event} {r : Report} (h : Conforms e r) :
    r.Convertible ↔ r.Short := by
  have hport : Fits 16 r.port := by
    have hbounds := h.port
    simp only [Fits]
    omega
  have hns : ∀ event ns, r.content = .timestamp event ns → e.timestamp = ns := by
    intro event ns hc
    have hshown := h.shows.content
    rw [hc] at hshown
    exact hshown.2
  have htimely : r.content.Timely := by
    cases hc : r.content with
    | keyval key val => trivial
    | timestamp event ns => exact hns event ns hc ▸ h.timestamp
  rw [Report.convertible_iff h.traceId h.spanId h.parentSpanId fun event ns hc =>
    hns event ns hc ▸ h.timestamp.2]
  simp [h.ip.aton, hport, htimely]

theorem Conforms.logs_iff {e : Event} {r : Report} (h : Conforms e r) :
    (∃ x, Logs P e x) ↔ r.Short := by
  rw [← h.convertible_iff]
  constructor
  · rintro ⟨x, kind, hkind, -, hconvert⟩
    obtain rfl := Option.some.inj (hkind.symm.trans h.kindOf_name)
    exact convertible_of_convert P h.shows hconvert
  · intro hr
    obtain ⟨message, -, -, hmessage, -⟩ := (converts_iff_convertible P h.shows).2 hr
    exact ⟨⟨ascii "zipkin", message⟩, _, h.kindOf_name, rfl, hmessage⟩

/-- One call for each event that follows the format, in order, each the conversion of that
event alone, and none for the others. -/
inductive Relayed (P : TProtocol) : List Event → List LogEntry → Prop
  | nil : Relayed P [] []
  | send {e r x es xs} : Conforms e r → Logs P e x → Relayed P es xs →
      Relayed P (e :: es) (x :: xs)
  | drop {e es xs} : (¬∃ r, Conforms e r) → Relayed P es xs → Relayed P (e :: es) xs

theorem Conforms.not_skipped {e : Event} {r : Report} (h : Conforms e r) : ¬Skipped e := by
  simp [Skipped, h.kindOf_name]

theorem relayed_of_logs : ∀ {events : List Event} {xs : List LogEntry},
    (∀ e ∈ events, ¬Skipped e → ∃ r, Conforms e r) →
      List.Forall₂ (Logs P) (events.filter (¬Skipped ·)) xs → Relayed P events xs
  | [], xs, _, hxs => by
    obtain rfl : xs = [] := by simpa using hxs
    exact .nil
  | e :: events, xs, hall, hxs => by
    obtain ⟨he, hall⟩ := List.forall_mem_cons.1 hall
    by_cases hskip : Skipped e
    · rw [List.filter_cons_of_neg (by simpa using hskip)] at hxs
      refine .drop ?_ (relayed_of_logs hall hxs)
      rintro ⟨r, hr⟩
      exact hr.not_skipped hskip
    · rw [List.filter_cons_of_pos (by simpa using hskip)] at hxs
      obtain ⟨x, rest, hx, hrest, rfl⟩ := List.forall₂_cons_left_iff.1 hxs
      obtain ⟨r, hr⟩ := he hskip
      exact .send hr hx (relayed_of_logs hall hrest)

/-- At most one call for each event that is not skipped, and one for each only if all of
them follow the format. -/
theorem Relayed.length_le {events : List Event} {xs : List LogEntry}
    (h : Relayed P events xs) : xs.length ≤ (events.filter (¬Skipped ·)).length ∧
      (xs.length = (events.filter (¬Skipped ·)).length →
        ∀ e ∈ events, ¬Skipped e → ∃ r, Conforms e r) := by
  induction h with
  | nil => simp
  | send hr _ _ ih =>
    rw [List.filter_cons_of_pos (by simpa using hr.not_skipped)]
    refine ⟨Nat.succ_le_succ ih.1, fun heq => ?_⟩
    exact List.forall_mem_cons.2 ⟨fun _ => ⟨_, hr⟩, ih.2 (Nat.succ.inj heq)⟩
  | @drop e es xs hno _ ih =>
    by_cases hskip : Skipped e
    · rw [List.filter_cons_of_neg (by simpa using hskip)]
      exact ⟨ih.1, fun heq => List.forall_mem_cons.2 ⟨fun h => absurd hskip h, ih.2 heq⟩⟩
    · rw [List.filter_cons_of_pos (by simpa using hskip), List.length_cons]
      exact ⟨ih.1.trans (Nat.le_succ _), fun heq => absurd ih.1 (by omega)⟩

/-- The loop ends normally, having logged what it should. -/
structure Relays (P : TProtocol) (events : List Event) (result : Sent × Option PyError) :
    Prop where
  ends : result.2 = none
  relayed : Relayed P events (result.1.map Prod.fst)

/-- The loop relays a stream exactly if every event of it is skipped or follows the format
with strings that are not too long. -/
theorem relays_iff (P : TProtocol) (replies : ℕ → ℤ) (events : List Event) :
    Relays P events (main P replies events) ↔
      ∀ e ∈ events, ¬Skipped e → ∃ r, Conforms e r ∧ r.Short := by
  constructor
  · rintro ⟨hends, hrelayed⟩ e he hskip
    have hlogged := main_logged hends
    obtain ⟨r, hr⟩ := hrelayed.length_le.2 hlogged.logs.length_eq.symm e he hskip
    exact ⟨r, hr, hr.logs_iff.1 ((main_ends_iff P replies events).1 hends e he hskip)⟩
  · intro h
    have hends : (main P replies events).2 = none := by
      refine (main_ends_iff P replies events).2 fun e he hskip => ?_
      obtain ⟨r, hr, hshort⟩ := h e he hskip
      exact hr.logs_iff.2 hshort
    refine ⟨hends, relayed_of_logs (fun e he hskip => ?_) (main_logged hends).logs⟩
    obtain ⟨r, hr, -⟩ := h e he hskip
    exact ⟨r, hr⟩

/-- An event of the format. -/
def good : Event :=
  deliver .lp64 1000000 (.keyval (.lit "request") (.lit "front") 80 (.lit "10.0.0.1") 7 8 0
    (.lit "key") (.lit "val"))

/-- The same event with another kind. -/
def odd : Event :=
  { good with name := ascii "zipkin:other" }

/-- What `good` shows. -/
def goodReport : Report :=
  ⟨ascii "request", 7, 8, 0, ascii "front", 80, ascii "10.0.0.1",
    .keyval (ascii "key") (ascii "val")⟩

theorem good_conforms : Conforms good goodReport := by
  refine ⟨by decide, ⟨by decide, by decide, by decide, by decide, by decide, by decide,
    by decide, by decide, by decide⟩, by decide, by decide, by decide, by decide, ?_, by decide⟩
  rw [show goodReport.ip = Inet.quad 10 0 0 1 by decide]
  exact Inet.isQuad_quad 10 0 0 1

theorem good_short : goodReport.Short := by
  unfold Report.Short goodReport
  decide

/-- `annotation` is unbound for the odd event, and the good one behind it is never
logged. -/
theorem odd_event_ends_loop : (∃ r, Conforms good r ∧ r.Short) ∧ ∀ P replies,
    main P replies [odd, good] = ([], some (.unboundLocalError "annotation")) ∧
      ¬Relays P [odd, good] (main P replies [odd, good]) := by
  refine ⟨⟨goodReport, good_conforms, good_short⟩, fun P replies => ?_⟩
  have hkind : kindOf odd.name = some (ascii "other") := by decide
  have hbody : body P replies [] odd = .error (.unboundLocalError "annotation") := by
    rw [body_of_kind hkind]
    rfl
  have hmain : main P replies [odd, good] = ([], some (.unboundLocalError "annotation")) :=
    forEach_cons_error hbody [good]
  refine ⟨hmain, fun h => ?_⟩
  rw [hmain] at h
  cases h.ends

/-! ## Replies -/

/-- The server took exactly one entry for each event that is not skipped. -/
def Delivered (P : TProtocol) (events : List Event) (sent : Sent) : Prop :=
  ∃ xs, List.Forall₂ (Logs P) (events.filter (¬Skipped ·)) xs ∧ sent.accepted.Perm xs

theorem Logged.accepts_iff {events : List Event} {sent : Sent}
    (h : Logged P replies events sent) :
    (∀ x ∈ sent, x.2 = 0) ↔ ∀ k < sent.length, replies k = 0 := by
  rw [← List.forall_mem_map (f := Prod.snd) (P := (· = 0)), h.replies]
  simp

/-- If every event can be converted, a loop that ends normally has delivered each exactly if
the server took every entry. -/
theorem delivers_iff {P : TProtocol} {events : List Event}
    (h : ∀ e ∈ events, ¬Skipped e → ∃ x, Logs P e x) (replies : ℕ → ℤ) :
    ((main P replies events).2 = none → Delivered P events (main P replies events).1) ↔
      ∀ k < (events.filter (¬Skipped ·)).length, replies k = 0 := by
  have hends : (main P replies events).2 = none := (main_ends_iff P replies events).2 h
  have hlogged := main_logged hends
  have hlength : (events.filter (¬Skipped ·)).length = (main P replies events).1.length := by
    simpa using hlogged.logs.length_eq
  rw [hlength, ← hlogged.accepts_iff]
  constructor
  · intro hdelivered
    obtain ⟨xs, hxs, hperm⟩ := hdelivered hends
    rw [← Sent.length_accepted, hperm.length_eq, ← hlength, hxs.length_eq]
  · intro haccepts _
    exact ⟨_, hlogged.logs, by rw [Sent.accepted_eq haccepts]⟩

theorem delivers_iff_good :
    (main binaryProtocol (fun _ => 0) [good, good]).2 = none ∧
      Delivered binaryProtocol [good, good] (main binaryProtocol (fun _ => 0) [good, good]).1 := by
  have hlogs : ∀ e ∈ [good, good], ¬Skipped e → ∃ x, Logs binaryProtocol e x := by
    intro e he _
    obtain rfl : e = good := by simpa using he
    exact good_conforms.logs_iff.2 good_short
  have hends := (main_ends_iff binaryProtocol (fun _ => 0) [good, good]).2 hlogs
  exact ⟨hends, (delivers_iff hlogs fun _ => 0).2 (fun _ _ => rfl) hends⟩

/-- The server tells the client to try later, the loop ends normally, and the event is
lost. -/
theorem try_later_loses_event : ∃ x, Logs binaryProtocol good x ∧
    main binaryProtocol (fun _ => 1) [good] = ([(x, 1)], none) ∧
      ¬Delivered binaryProtocol [good] [(x, 1)] := by
  have hexists : ∃ x, Logs binaryProtocol good x := good_conforms.logs_iff.2 good_short
  obtain ⟨x, hx⟩ := hexists
  obtain ⟨kind, hkind, hcategory, hmessage⟩ := id hx
  have hbody : body binaryProtocol (fun _ => 1) [] good = .ok [(x, 1)] := by
    rw [body_of_kind hkind, hmessage, ok_bind, ← hcategory]
    rfl
  refine ⟨x, hx, forEach_cons_ok hbody [], ?_⟩
  rintro ⟨xs, hxs, hperm⟩
  have hlength := hxs.length_eq
  rw [List.filter_cons_of_pos (by simpa using good_conforms.not_skipped), ← hperm.length_eq]
    at hlength
  simp [Sent.accepted] at hlength

end BabeltraceZipkin

end Blkin
