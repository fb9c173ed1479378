import Blkin.EndToEnd
import Blkin.Json
import Blkin.Loop
import Blkin.Scribe

/-!
# The plugin, `babeltrace_json.py`

The loop looks nine fields up in every event, among them `event`, which only timestamp
events have. It sends what it found as a JSON object, written by `json.dumps` in the order
in which the dictionary gives its items.

`recover` reads a message. `forEach_body` : of the events of a stream whose strings are UTF-8,
those before the first keyval event are sent, one message each, and each can be recovered
from its message. The keyval event raises. So `recovers_iff` : every event of a stream can
be recovered exactly if no keyval event is in it.
-/

open Loop

namespace Blkin

/-! ## `json.dumps` -/

/-- The order in which a dictionary gives its items. -/
structure DictOrder where
  items : List (String × Value) → List (String × Value)
  perm : ∀ data, (items data).Perm data

/-- The code points of an ASCII key. -/
def codes (s : String) : List ℕ :=
  s.toList.map Char.toNat

/-- A value as JSON. A `str` is decoded, and an object of a class JSON does not have
raises. -/
def scalar : Value → Except PyError Json.Scalar
  | .none => .ok .null
  | .int n => .ok (.int n)
  | .str s => (Utf8.decode s).elim (.error .valueError) fun s => .ok (.str s)
  | .unicode s => .ok (.str (s.map Char.toNat))
  | .other _ _ => .error .typeError

/-- `json.dumps(data)` for a dictionary. -/
def dumps (order : DictOrder) (data : List (String × Value)) : Except PyError Bytes := do
  let members ← (order.items data).mapM fun item => (scalar item.2).map (codes item.1, ·)
  .ok (Json.objectText members)

/-- The bytes are those of a text of characters. -/
def IsUtf8 (s : Bytes) : Prop :=
  ∃ cs, s = encodeUtf8 cs

theorem codes_injective : Function.Injective codes := by
  intro s t h
  exact String.toList_inj.1 (List.map_injective_iff.2 (fun _ _ => Char.toNat_inj.1) h)

theorem isText_map_toNat (cs : List Char) : Json.IsText (cs.map Char.toNat) := by
  intro c hc
  obtain ⟨ch, -, rfl⟩ := List.mem_map.1 hc
  exact Utf16.scalar_toNat ch

theorem scalar_encodeUtf8 (cs : List Char) :
    scalar (.str (encodeUtf8 cs)) = .ok (.str (cs.map Char.toNat)) := by
  rw [scalar, encodeUtf8, Utf8.decode_encode]
  rfl

/-- Where the body of a comprehension raises on no element. -/
theorem mapM_eq_ok {α β : Type} {f : α → Except PyError β} {g : α → β} :
    ∀ {as : List α}, (∀ a ∈ as, f a = .ok (g a)) → as.mapM f = .ok (as.map g)
  | [], _ => rfl
  | a :: as, h => by
    obtain ⟨ha, has⟩ := List.forall_mem_cons.1 h
    rw [List.mapM_cons, ha, mapM_eq_ok has]
    rfl

theorem lookup_of_mem {α β : Type} [BEq α] [LawfulBEq α] {k : α} {v : β} :
    ∀ {l : List (α × β)}, (l.map Prod.fst).Nodup → (k, v) ∈ l → l.lookup k = some v
  | x :: l, hnodup, h => by
    obtain ⟨hx, hnodup⟩ := List.nodup_cons.1 hnodup
    rcases List.mem_cons.1 h with rfl | h
    · simp
    · have hne : k ≠ x.1 := by
        rintro rfl
        exact hx (List.mem_map.2 ⟨_, h, rfl⟩)
      rw [List.lookup_cons, beq_eq_false_iff_ne.2 hne]
      exact lookup_of_mem hnodup h

/-- A dictionary of values that JSON has is written, in whatever order, so that each value
is read back under its key. -/
theorem dumps_reads (order : DictOrder) (data : List (String × Value))
    (hkeys : (data.map Prod.fst).Nodup)
    (hdata : ∀ item ∈ data, ∃ v, scalar item.2 = .ok v ∧ v.IsText) :
    ∃ message members, dumps order data = .ok message ∧
      Json.readObject message = some members ∧
      ∀ key value v, (key, value) ∈ data → scalar value = .ok v →
        members.lookup (codes key) = some v := by
  have hperm := order.perm data
  let member : String × Value → Json.Member :=
    fun item => (codes item.1, (scalar item.2).toOption.getD .null)
  have hmember : ∀ item ∈ data, scalar item.2 = .ok (member item).2 ∧ (member item).2.IsText := by
    intro item hitem
    obtain ⟨v, hv, htext⟩ := hdata item hitem
    have hmember : (member item).2 = v := by simp [member, hv, Except.toOption]
    rw [hmember]
    exact ⟨hv, htext⟩
  have hmembers : ((order.items data).mapM fun item => (scalar item.2).map (codes item.1, ·)) =
      .ok ((order.items data).map member) :=
    mapM_eq_ok fun item hitem => by
      rw [(hmember item (hperm.mem_iff.1 hitem)).1]
      rfl
  refine ⟨_, (order.items data).map member, ?_, Json.readObject_objectText ?_, ?_⟩
  · rw [dumps, hmembers, ok_bind]
  · intro m hm
    obtain ⟨item, hitem, rfl⟩ := List.mem_map.1 hm
    exact ⟨isText_map_toNat _, (hmember item (hperm.mem_iff.1 hitem)).2⟩
  · intro key value v hitem hv
    have hnodup : (((order.items data).map member).map Prod.fst).Nodup := by
      have hcodes := hkeys.map codes_injective
      rw [List.map_map] at hcodes ⊢
      exact (hperm.map _).nodup_iff.2 hcodes
    refine lookup_of_mem hnodup (List.mem_map.2 ⟨_, hperm.mem_iff.2 hitem, ?_⟩)
    simp [member, hv, Except.toOption]

namespace BabeltraceJson

/-! ## The loop -/

/-- `CATEGORY` -/
def category : Bytes :=
  ascii "LTTng"

/-- The items of the dictionary. -/
def items (parentSpanId name traceId spanId port serviceName ip evemt timestamp : Value) :
    List (String × Value) :=
  [("parent_span_id", parentSpanId), ("name", name), ("trace_id", traceId),
    ("span_id", spanId), ("port", port), ("service_name", serviceName), ("ip", ip),
    ("evemt", evemt), ("timestamp", timestamp)]

/-- The dictionary of an event. -/
def dataOf (event : Event) : Except PyError (List (String × Value)) := do
  let parentSpanId ← event.get "parent_span_id"
  let name ← event.get "trace_name"
  let traceId ← event.get "trace_id"
  let spanId ← event.get "span_id"
  let port ← event.get "port_no"
  let serviceName ← event.get "service_name"
  let ip ← event.get "ip"
  let evemt ← event.get "event"
  .ok (items parentSpanId name traceId spanId port serviceName ip evemt (.int event.timestamp))

/-- The body of the loop. -/
def body (order : DictOrder) (replies : ℕ → ℤ) (sent : Sent) (event : Event) :
    Except PyError Sent := do
  let data ← dataOf event
  let jsonData ← dumps order data
  .ok (ScribeClient.log replies sent category jsonData).2

/-- The loop of `main` : the `Log` calls it made, and the exception that ended it. -/
def main (order : DictOrder) (replies : ℕ → ℤ) (events : List Event) : Sent × Option PyError :=
  forEach (body order replies) [] events

/-! ## Reading a message -/

/-- The bytes of a string member. -/
def strOf (ms : List Json.Member) (key : String) : Option Bytes :=
  match ms.lookup (codes key) with
  | some (.str s) => some (encodeUtf8 (s.map Char.ofNat))
  | _ => none

def intOf (ms : List Json.Member) (key : String) : Option ℤ :=
  match ms.lookup (codes key) with
  | some (.int n) => some n
  | _ => none

/-- The annotation : its event, or its key and value. -/
def contentOf (ms : List Json.Member) (ns : ℕ) : Option Content :=
  ((strOf ms "evemt").map fun event => .timestamp event ns) <|>
    (strOf ms "key").bind fun key => (strOf ms "val").map fun val => .keyval key val

/-- The report and the timestamp in a message. -/
def recover (message : Bytes) : Option (Report × ℕ) := do
  let ms ← Json.readObject message
  let ns := (← intOf ms "timestamp").toNat
  let name ← strOf ms "name"
  let traceId ← intOf ms "trace_id"
  let spanId ← intOf ms "span_id"
  let parentSpanId ← intOf ms "parent_span_id"
  let service ← strOf ms "service_name"
  let port ← intOf ms "port"
  let ip ← strOf ms "ip"
  let content ← contentOf ms ns
  some (⟨name, traceId, spanId, parentSpanId, service, port, ip, content⟩, ns)

/-! ## One event -/

/-- The event's message. -/
def message (order : DictOrder) (event : Event) : Except PyError Bytes := do
  let data ← dataOf event
  dumps order data

theorem body_eq (order : DictOrder) (replies : ℕ → ℤ) (sent : Sent) (event : Event) :
    body order replies sent event = message order event >>= fun message =>
      .ok (sent ++ [(⟨category, message⟩, replies sent.length)]) := by
  rw [body, message, bind_assoc]
  rfl

theorem strOf_codes {ms : List Json.Member} {key : String} {cs : List Char}
    (h : ms.lookup (codes key) = some (.str (cs.map Char.toNat))) :
    strOf ms key = some (encodeUtf8 cs) := by
  rw [strOf, h]
  simp [Function.comp_def]

theorem intOf_codes {ms : List Json.Member} {key : String} {n : ℤ}
    (h : ms.lookup (codes key) = some (.int n)) : intOf ms key = some n := by
  rw [intOf, h]

/-- The items for a report whose strings are these texts. -/
def itemsOf (r : Report) (name service ip event : List Char) (ns : ℕ) : List (String × Value) :=
  items (.int r.parentSpanId) (.str (encodeUtf8 name)) (.int r.traceId) (.int r.spanId)
    (.int r.port) (.str (encodeUtf8 service)) (.str (encodeUtf8 ip)) (.str (encodeUtf8 event))
    (.int ns)

section Items

variable (order : DictOrder) (r : Report) (name service ip event : List Char) (ns : ℕ)

theorem nodup_itemsOf : ((itemsOf r name service ip event ns).map Prod.fst).Nodup := by
  show ["parent_span_id", "name", "trace_id", "span_id", "port", "service_name", "ip", "evemt",
    "timestamp"].Nodup
  decide

theorem scalar_itemsOf :
    ∀ item ∈ itemsOf r name service ip event ns, ∃ v, scalar item.2 = .ok v ∧ v.IsText := by
  have hint : ∀ n : ℤ, ∃ v, scalar (.int n) = .ok v ∧ v.IsText := fun n => ⟨.int n, rfl, trivial⟩
  have hstr : ∀ cs, ∃ v, scalar (.str (encodeUtf8 cs)) = .ok v ∧ v.IsText :=
    fun cs => ⟨_, scalar_encodeUtf8 cs, isText_map_toNat cs⟩
  simp [itemsOf, items, hint, hstr]

/-- The dictionary is recovered from its text. -/
theorem dumps_recover : ∃ text, dumps order (itemsOf r name service ip event ns) = .ok text ∧
    recover text = some (⟨encodeUtf8 name, r.traceId, r.spanId, r.parentSpanId,
      encodeUtf8 service, r.port, encodeUtf8 ip, .timestamp (encodeUtf8 event) ns⟩, ns) := by
  obtain ⟨text, ms, htext, hread, hlookup⟩ := dumps_reads order _
    (nodup_itemsOf r name service ip event ns) (scalar_itemsOf r name service ip event ns)
  have hint : ∀ key n, (key, .int n) ∈ itemsOf r name service ip event ns →
      intOf ms key = some n :=
    fun key n hmem => intOf_codes (hlookup key _ _ hmem rfl)
  have hstr : ∀ key cs, (key, .str (encodeUtf8 cs)) ∈ itemsOf r name service ip event ns →
      strOf ms key = some (encodeUtf8 cs) :=
    fun key cs hmem => strOf_codes (hlookup key _ _ hmem (scalar_encodeUtf8 cs))
  refine ⟨text, htext, ?_⟩
  have hns := hint "timestamp" ns (by simp [itemsOf, items])
  have hname := hstr "name" name (by simp [itemsOf, items])
  have htrace := hint "trace_id" r.traceId (by simp [itemsOf, items])
  have hspan := hint "span_id" r.spanId (by simp [itemsOf, items])
  have hparent := hint "parent_span_id" r.parentSpanId (by simp [itemsOf, items])
  have hservice := hstr "service_name" service (by simp [itemsOf, items])
  have hport := hint "port" r.port (by simp [itemsOf, items])
  have hip := hstr "ip" ip (by simp [itemsOf, items])
  have hevent := hstr "evemt" event (by simp [itemsOf, items])
  simp [recover, hread, hns, hname, htrace, hspan, hparent, hservice, hport, hip, contentOf,
    hevent]

end Items

/-- A timestamp event can be recovered from its message. -/
theorem message_recover (order : DictOrder) {e : Event} {r : Report} {event : Bytes} {ns : ℕ}
    (h : e.Shows r) (hc : r.content = .timestamp event ns) (hname : IsUtf8 r.name)
    (hservice : IsUtf8 r.service) (hip : IsUtf8 r.ip) (hevent : IsUtf8 event) :
    ∃ text, message order e = .ok text ∧ recover text = some (r, ns) := by
  obtain ⟨name, hname⟩ := hname
  obtain ⟨service, hservice⟩ := hservice
  obtain ⟨ip, hip⟩ := hip
  obtain ⟨event, rfl⟩ := hevent
  obtain ⟨hget, hns⟩ : Content.ShownBy e (.timestamp (encodeUtf8 event) ns) := hc ▸ h.content
  have hdata : dataOf e = .ok (items (.int r.parentSpanId) (.str (encodeUtf8 name))
      (.int r.traceId) (.int r.spanId) (.int r.port) (.str (encodeUtf8 service))
      (.str (encodeUtf8 ip)) (.str (encodeUtf8 event)) (.int ns)) := by
    simp [dataOf, h.name, h.traceId, h.spanId, h.parentSpanId, h.service, h.port, h.ip, hget,
      hns, ← hname, ← hservice, ← hip]
  obtain ⟨text, htext, hrecover⟩ := dumps_recover order r name service ip event ns
  refine ⟨text, by rw [message, hdata, ok_bind, ← htext, itemsOf], ?_⟩
  rw [hrecover, ← hname, ← hservice, ← hip, ← hc]

/-! ## A stream -/

/-- The string fields of the tracepoint. -/
def stringsOf : Tracepoint → List CString
  | .keyval traceName service _ ip _ _ _ key val => [traceName, service, ip, key, val]
  | .timestamp traceName service _ ip _ _ _ event => [traceName, service, ip, event]

def isTimestamp : Tracepoint → Bool
  | .timestamp .. => true
  | .keyval .. => false

/-- The event of a tracepoint fired at a time. -/
def eventOf (abi : Abi) (x : UInt64 × Tracepoint) : Event :=
  deliver abi x.1 x.2

/-- All that such an event says. -/
def told (abi : Abi) (x : UInt64 × Tracepoint) : Report × ℕ :=
  (x.2.report abi x.1, x.1.toNat)

variable (abi : Abi) (order : DictOrder) (replies : ℕ → ℤ)

theorem message_timestamp {x : UInt64 × Tracepoint} (h : isTimestamp x.2 = true)
    (hutf8 : ∀ s ∈ stringsOf x.2, IsUtf8 s.bytes) :
    ∃ text, message order (eventOf abi x) = .ok text ∧ recover text = some (told abi x) := by
  obtain ⟨ts, tp⟩ := x
  cases tp with
  | keyval => cases h
  | timestamp traceName service port ip trace span parentSpan event =>
    simp only [stringsOf, List.forall_mem_cons] at hutf8
    exact message_recover order (deliver_shows abi ts _) rfl hutf8.1 hutf8.2.1 hutf8.2.2.1
      hutf8.2.2.2.1

/-- A keyval event has no field `event`. -/
theorem message_keyval {x : UInt64 × Tracepoint} (h : isTimestamp x.2 = false) :
    message order (eventOf abi x) = .error (.keyError "event") := by
  obtain ⟨ts, tp⟩ := x
  cases tp with
  | keyval => rfl
  | timestamp => cases h

/-- The loop from any event on : the messages of the timestamp events up to the first keyval
event, which raises. -/
theorem forEach_body : ∀ {stream : List (UInt64 × Tracepoint)} (sent : Sent),
    (∀ x ∈ stream, ∀ s ∈ stringsOf x.2, IsUtf8 s.bytes) → ∃ new : Sent,
      forEach (body order replies) sent (stream.map (eventOf abi)) = (sent ++ new,
        if stream.all (isTimestamp ·.2) then none else some (.keyError "event")) ∧
      new.map (fun x => recover x.1.message) =
        (stream.takeWhile (isTimestamp ·.2)).map fun x => some (told abi x)
  | [], _, _ => ⟨[], by simp [forEach], rfl⟩
  | x :: stream, sent, hutf8 => by
    obtain ⟨hx, hstream⟩ := List.forall_mem_cons.1 hutf8
    cases hkind : isTimestamp x.2 with
    | false =>
      have hbody : body order replies sent (eventOf abi x) = .error (.keyError "event") := by
        rw [body_eq, message_keyval abi order hkind, error_bind]
      exact ⟨[], by simp [forEach_cons_error hbody, hkind], by simp [hkind]⟩
    | true =>
      obtain ⟨text, htext, hrecover⟩ := message_timestamp abi order hkind hx
      have hbody := body_eq order replies sent (eventOf abi x)
      rw [htext, ok_bind] at hbody
      obtain ⟨new, hloop, hnew⟩ := forEach_body
        (sent ++ [(⟨category, text⟩, replies sent.length)]) hstream
      refine ⟨(⟨category, text⟩, replies sent.length) :: new, ?_, ?_⟩
      · rw [List.map_cons, forEach_cons_ok hbody, hloop, List.all_cons, hkind, Bool.true_and,
          List.append_assoc]
        rfl
      · simp [hkind, hrecover, hnew]

/-- The loop ends normally, and each event can be recovered from the one message sent for
it, in order. -/
structure Recovers (events : List (Report × ℕ)) (result : Sent × Option PyError) : Prop where
  ends : result.2 = none
  messages : result.1.map (fun x => recover x.1.message) = events.map some

/-- A stream of library events with UTF-8 strings is sent so that each event can be
recovered exactly if no keyval event is in it. -/
theorem recovers_iff {stream : List (UInt64 × Tracepoint)}
    (hutf8 : ∀ x ∈ stream, ∀ s ∈ stringsOf x.2, IsUtf8 s.bytes) :
    Recovers (stream.map (told abi)) (main order replies (stream.map (eventOf abi))) ↔
      ∀ x ∈ stream, isTimestamp x.2 = true := by
  obtain ⟨new, hmain, hnew⟩ := forEach_body abi order replies [] hutf8
  rw [main, hmain, List.nil_append]
  constructor
  · rintro ⟨hends, -⟩
    by_contra hall
    rw [if_neg (by simpa using hall)] at hends
    cases hends
  · intro hall
    refine ⟨if_pos (List.all_eq_true.2 hall), ?_⟩
    rw [hnew, List.takeWhile_eq_self_iff.2 hall, List.map_map]
    rfl

/-- A timestamp event whose span has a name beyond ASCII. -/
def started : UInt64 × Tracepoint :=
  (1000000, .timestamp (.cut [195, 169]) (.lit "front") 80 (.lit "10.0.0.1") 7 8 0 (.lit "start"))

/-- A keyval event. -/
def keyed : UInt64 × Tracepoint :=
  (2000000, .keyval (.cut [195, 169]) (.lit "front") 80 (.lit "10.0.0.1") 7 8 0 (.lit "key")
    (.lit "val"))

theorem isUtf8_started : ∀ s ∈ stringsOf started.2, IsUtf8 s.bytes := by
  simp only [started, stringsOf, List.forall_mem_cons]
  exact ⟨⟨['é'], by decide⟩, ⟨"front".toList, by decide⟩, ⟨"10.0.0.1".toList, by decide⟩,
    ⟨"start".toList, by decide⟩, by simp⟩

theorem isUtf8_keyed : ∀ s ∈ stringsOf keyed.2, IsUtf8 s.bytes := by
  simp only [keyed, stringsOf, List.forall_mem_cons]
  exact ⟨⟨['é'], by decide⟩, ⟨"front".toList, by decide⟩, ⟨"10.0.0.1".toList, by decide⟩,
    ⟨"key".toList, by decide⟩, ⟨"val".toList, by decide⟩, by simp⟩

theorem recovers_iff_started :
    Recovers ([started, started].map (told .lp64))
      (main ⟨List.reverse, List.reverse_perm⟩ (fun _ => 0)
        ([started, started].map (eventOf .lp64))) :=
  (recovers_iff .lp64 ⟨List.reverse, List.reverse_perm⟩ (fun _ => 0)
    (List.forall_mem_cons.2 ⟨isUtf8_started, by simpa using isUtf8_started⟩)).2 (by simp [started,
      isTimestamp])

/-- The keyval event raises, and the event behind it is never sent. -/
theorem keyval_ends_loop :
    (∀ x ∈ [keyed, started], ∀ s ∈ stringsOf x.2, IsUtf8 s.bytes) ∧ ∀ abi order replies,
      main order replies ([keyed, started].map (eventOf abi)) = ([], some (.keyError "event")) ∧
        ¬Recovers ([keyed, started].map (told abi))
          (main order replies ([keyed, started].map (eventOf abi))) := by
  refine ⟨List.forall_mem_cons.2 ⟨isUtf8_keyed, by simpa using isUtf8_started⟩, ?_⟩
  intro abi order replies
  have hbody : body order replies [] (eventOf abi keyed) = .error (.keyError "event") := by
    rw [body_eq, message_keyval abi order (by decide), error_bind]
  have hmain : main order replies ([keyed, started].map (eventOf abi)) =
      ([], some (.keyError "event")) :=
    forEach_cons_error hbody [eventOf abi started]
  refine ⟨hmain, fun h => ?_⟩
  rw [hmain] at h
  cases h.ends

end BabeltraceJson

end Blkin
