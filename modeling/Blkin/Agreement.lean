import Blkin.BabeltraceJson
import Blkin.Collector

/-!
# The two plugins on one stream

Both plugins send one message for each event they get to : the one of `babeltrace_json.py`
is an object, the one of `babeltrace_zipkin.py` a span. On the events of the library, with
strings that are UTF-8, the report that is recovered from the object is the one of which
the span tells (`Agree`), at any place that both loops come to.

They end at different events. The first raises at a keyval event, the second at an event
that cannot be converted. A loop that ends normally has sent as many messages as the other
at least (`plugins_agree`).
-/

open Loop

namespace Blkin

open BabeltraceJson (eventOf told isTimestamp stringsOf recover)

/-- The span in the message `y` is that of the report in the message `x`. -/
def Agree (P : TProtocol) (x y : LogEntry) : Prop :=
  ∃ r ns address, recover x.message = some (r, ns) ∧ Inet.aton r.ip = some address ∧
    y.Decodes P (r.span (Endian.ofBigInt address))

/-- The results of the two loops on one stream. -/
structure AgreeOn (P : TProtocol) (json zipkin : Sent × Option PyError) : Prop where
  agree : ∀ (k : ℕ) (x y : LogEntry × ℤ), json.1[k]? = some x → zipkin.1[k]? = some y →
    Agree P x.1 y.1
  json_ends : json.2 = none → zipkin.1.length ≤ json.1.length
  zipkin_ends : zipkin.2 = none → json.1.length ≤ zipkin.1.length

/-- What the first loop sends for an event. -/
theorem json_sends (order : DictOrder) (replies : ℕ → ℤ) (abi : Abi) {x : UInt64 × Tracepoint}
    (hutf8 : ∀ s ∈ stringsOf x.2, IsUtf8 s.bytes) (sent sent' : Sent)
    (h : BabeltraceJson.body order replies sent (eventOf abi x) = .ok sent') :
    ∃ b, sent' = sent ++ [b] ∧ recover b.1.message = some (told abi x) := by
  rw [BabeltraceJson.body_eq] at h
  cases hkind : isTimestamp x.2 with
  | false =>
    rw [BabeltraceJson.message_keyval abi order hkind] at h
    cases h
  | true =>
    obtain ⟨text, htext, hrecover⟩ := BabeltraceJson.message_timestamp abi order hkind hutf8
    rw [htext, ok_bind] at h
    exact ⟨_, (Except.ok.inj h).symm, hrecover⟩

/-- What the second loop sends for an event. -/
theorem zipkin_sends (P : TProtocol) (replies : ℕ → ℤ) (abi : Abi) (x : UInt64 × Tracepoint)
    (sent sent' : Sent) (h : BabeltraceZipkin.body P replies sent (eventOf abi x) = .ok sent') :
    ∃ b, sent' = sent ++ [b] ∧ ∃ address, Inet.aton (told abi x).1.ip = some address ∧
      b.1.Decodes P ((told abi x).1.span (Endian.ofBigInt address)) := by
  have hshows : (eventOf abi x).Shows (told abi x).1 := deliver_shows abi x.1 x.2
  have hkind : BabeltraceZipkin.kindOf (eventOf abi x).name = some (told abi x).1.content.kind :=
    (kindOf_deliver abi x.1 x.2).trans (congrArg some (kind_report ..).symm)
  rw [BabeltraceZipkin.body_of_kind hkind] at h
  cases hmessage : convert P (eventOf abi x) (told abi x).1.content.kind with
  | error err =>
    rw [hmessage] at h
    cases h
  | ok message =>
    rw [hmessage, ok_bind] at h
    have hconv := convertible_of_convert P hshows hmessage
    obtain ⟨address, haddress⟩ := hconv.ip
    obtain ⟨message', bytes, hmessage', hdecode, hread⟩ :=
      convert_decodes P hshows hconv haddress
    obtain rfl := Except.ok.inj (hmessage.symm.trans hmessage')
    exact ⟨_, (Except.ok.inj h).symm, address, haddress, bytes, hdecode, hread⟩

/-- Wherever both loops come to, their messages agree. -/
theorem plugins_agree (P : TProtocol) (order : DictOrder) (replies replies' : ℕ → ℤ) (abi : Abi)
    {stream : List (UInt64 × Tracepoint)}
    (hutf8 : ∀ x ∈ stream, ∀ s ∈ stringsOf x.2, IsUtf8 s.bytes) :
    AgreeOn P (BabeltraceJson.main order replies (stream.map (eventOf abi)))
      (BabeltraceZipkin.main P replies' (stream.map (eventOf abi))) := by
  rw [BabeltraceJson.main, BabeltraceZipkin.main, forEach_map, forEach_map]
  obtain ⟨new, hnew, hle, hall, hends⟩ :=
    forEach_appends [] fun x hx => json_sends order replies abi (hutf8 x hx)
  obtain ⟨new', hnew', hle', hall', hends'⟩ :=
    forEach_appends [] fun x (_ : x ∈ stream) => zipkin_sends P replies' abi x
  refine ⟨fun k x y hx hy => ?_, fun h => ?_, fun h => ?_⟩
  · rw [hnew, List.nil_append] at hx
    rw [hnew', List.nil_append] at hy
    obtain ⟨e, he, hrecover⟩ := hall k x hx
    obtain ⟨e', he', address, haddress, hdecodes⟩ := hall' k y hy
    obtain rfl := Option.some.inj (he.symm.trans he')
    exact ⟨_, _, address, hrecover, haddress, hdecodes⟩
  · rwa [hnew, hnew', List.nil_append, List.nil_append, hends h]
  · rwa [hnew, hnew', List.nil_append, List.nil_append, hends' h]

/-- The first plugin raises at the second event, the other sends both. -/
theorem plugins_agree_keyed :
    let events := [BabeltraceJson.started, BabeltraceJson.keyed].map (eventOf .lp64)
    let json := BabeltraceJson.main ⟨id, .refl⟩ (fun _ => 0) events
    let zipkin := BabeltraceZipkin.main binaryProtocol (fun _ => 0) events
    (json.1.length, zipkin.1.length) = (1, 2) ∧ AgreeOn binaryProtocol json zipkin := by
  refine ⟨by decide +kernel, plugins_agree _ _ _ _ _ ?_⟩
  exact List.forall_mem_cons.2 ⟨BabeltraceJson.isUtf8_started,
    by simpa using BabeltraceJson.isUtf8_keyed⟩

end Blkin
