import Blkin.ZipkinC
import Mathlib.Data.Finset.Card

/-!
# The front library, `blkin-front.c`

Applications call the library through eleven function pointers, which `blkin_init` sets
to the symbols of `libzipkin-c.so`. It first opens `/dev/urandom` and seeds `rand()` with
what it reads there, then resolves the symbols unless an earlier call has.

`Answers` is what the system answers in one call : any of its five kinds of calls may
fail. The local `seed` then holds what it happened to hold, and so does the local `ret`
when `initialized` was already set : it is returned unassigned (`none`).
-/

namespace Blkin

def enoent : Int32 := 2

def enxio : Int32 := 6

/-- The function pointers. -/
inductive Pointer
  | initNewTrace
  | initChild
  | initChildInfo
  | initEndpoint
  | initStringAnnotation
  | initTimestampAnnotation
  | record
  | getTraceInfo
  | setTraceInfo
  | packTraceInfo
  | unpackTraceInfo
  deriving DecidableEq

/-- Their names. -/
def Pointer.name : Pointer → String
  | initNewTrace => "blkin_init_new_trace"
  | initChild => "blkin_init_child"
  | initChildInfo => "blkin_init_child_info"
  | initEndpoint => "blkin_init_endpoint"
  | initStringAnnotation => "blkin_init_string_annotation"
  | initTimestampAnnotation => "blkin_init_timestamp_annotation"
  | record => "blkin_record"
  | getTraceInfo => "blkin_get_trace_info"
  | setTraceInfo => "blkin_set_trace_info"
  | packTraceInfo => "blkin_pack_trace_info"
  | unpackTraceInfo => "blkin_unpack_trace_info"

/-- A symbol that `dlsym` found, and where. -/
structure Resolved where
  symbol : String
  addr : ℕ
  deriving DecidableEq

abbrev Pointers := Pointer → Option Resolved

/-- The generator behind `rand()` : its seed, and how many values it gave since. -/
structure Generator where
  seed : UInt32
  drawn : ℕ
  deriving DecidableEq

/-- What `blkin_init` writes in its process : the pointers, the flag, the open descriptors,
of which there are at most `limit`, and the generator. -/
structure Front where
  pointers : Pointers
  initialized : Bool
  fds : Finset ℕ
  limit : ℕ
  gen : Generator

/-- A call of `srand` with the local `seed` : its value, and whether `read` assigned all of
it. -/
structure Seeding where
  seed : UInt32
  full : Bool
  deriving DecidableEq

/-- What the system answers in one call. -/
structure Answers where
  /-- The descriptor `open` gives. -/
  inf : Option ℕ
  /-- What `seed` holds after `read`. -/
  seed : UInt32
  /-- All of `seed` was read. -/
  full : Bool
  /-- `dlopen` finds the library. -/
  handle : Bool
  /-- The address `dlsym` finds for a symbol. -/
  dlsym : String → Option ℕ

/-- The assignments of `resolve_symbols` in order, each with the symbol it looks up. -/
def assignments : List (Pointer × String) :=
  [.mk .initNewTrace "_blkin_init_new_trace",
    .mk .initChild "_blkin_init_child",
    .mk .initChildInfo "_blkin_init_child_info",
    .mk .initEndpoint "_blkin_init_endpoint",
    .mk Pointer.initStringAnnotation "_blkin_init_string_annotation",
    .mk Pointer.initTimestampAnnotation "_blkin_init_timestamp_annotation",
    .mk .record "_blkin_record",
    .mk .setTraceInfo "_blkin_set_trace_info",
    .mk .getTraceInfo "_blkin_get_trace_info",
    .mk .packTraceInfo "_blkin_pack_trace_info",
    .mk .unpackTraceInfo "_blkin_unpack_trace_info"]

/-- One assignment. A symbol that is not found leaves `NULL`. -/
def Pointers.assign (pointers : Pointers) (b : Pointer × String) (addr : Option ℕ) : Pointers :=
  Function.update pointers b.1 (addr.map fun addr => ⟨b.2, addr⟩)

/-- The assignments that are left, up to the first that fails. -/
def resolveFrom (dlsym : String → Option ℕ) :
    List (Pointer × String) → Pointers → Int32 × Pointers
  | [], pointers => (0, pointers)
  | b :: rest, pointers =>
    let addr := dlsym b.2
    let pointers := pointers.assign b addr
    if addr = none then (-enxio, pointers) else resolveFrom dlsym rest pointers

/-- `resolve_symbols` -/
def resolveSymbols (answers : Answers) (pointers : Pointers) : Int32 × Pointers :=
  if answers.handle then resolveFrom answers.dlsym assignments pointers else (-enoent, pointers)

namespace Front

/-- Nothing was resolved. -/
def start (fds : Finset ℕ) (limit : ℕ) (gen : Generator) : Front :=
  ⟨fun _ => none, false, fds, limit, gen⟩

/-- `open("/dev/urandom", O_RDONLY)`. A descriptor it gives was free. -/
def openUrandom (s : Front) : Option ℕ → Option Front
  | none => some s
  | some fd =>
    if fd ∉ s.fds ∧ s.fds.card < s.limit then some { s with fds := insert fd s.fds } else none

/-- `srand(seed)` -/
def srand (s : Front) (seed : UInt32) : Front :=
  { s with gen := ⟨seed, 0⟩ }

/-- The call of `srand`, kept. -/
def seed (s : Front) (x : Seeding) : List Seeding × Front :=
  ([x], s.srand x.seed)

/-- `random_big()` draws twice. -/
def randomBig (s : Front) : Front :=
  { s with gen := { s.gen with drawn := s.gen.drawn + 2 } }

end Front

/-- `blkin_init`, with its calls of `srand` and the value of `ret` it returns. Undefined
where the answers are impossible : a descriptor that was not free, or a full read from
none. -/
def blkinInit (s : Front) (answers : Answers) : Option (List Seeding × Option Int32 × Front) :=
  (s.openUrandom answers.inf).bind fun s =>
  if answers.full ∧ answers.inf = none then none
  else
    let (seeded, s) := s.seed ⟨answers.seed, answers.full⟩
    if s.initialized then some (seeded, none, s)
    else
      let (ret, pointers) := resolveSymbols answers s.pointers
      let s := { s with pointers := pointers }
      some (seeded, some ret, if 0 ≤ ret then { s with initialized := true } else s)

/-- The device is not opened, or gets a descriptor that was free. -/
theorem Front.of_openUrandom {s s' : Front} {inf : Option ℕ} (h : s.openUrandom inf = some s') :
    inf = none ∧ s' = s ∨
      ∃ fd, inf = some fd ∧ fd ∉ s.fds ∧ s' = { s with fds := insert fd s.fds } := by
  cases inf with
  | none => exact .inl ⟨rfl, (Option.some.inj h).symm⟩
  | some fd =>
    dsimp only [openUrandom] at h
    split_ifs at h with hfd
    exact .inr ⟨fd, rfl, hfd.1, (Option.some.inj h).symm⟩

/-! ## What was resolved -/

/-- The pointer holds what `dlsym` found for the symbol. -/
def Pointers.Holds (pointers : Pointers) (b : Pointer × String) : Prop :=
  ∃ addr, pointers b.1 = some ⟨b.2, addr⟩

theorem Pointers.holds_assign {pointers : Pointers} {b : Pointer × String} {addr : Option ℕ}
    (h : addr ≠ none) : (pointers.assign b addr).Holds b := by
  obtain ⟨addr, rfl⟩ := Option.ne_none_iff_exists'.1 h
  exact ⟨addr, by simp [assign]⟩

/-- An assignment leaves the pointers of others alone. -/
theorem Pointers.Holds.assign {pointers : Pointers} {b b' : Pointer × String} {addr : Option ℕ}
    (h : pointers.Holds b') (hne : b'.1 ≠ b.1) : (pointers.assign b addr).Holds b' := by
  obtain ⟨addr', h⟩ := h
  exact ⟨addr', by rw [Pointers.assign, Function.update_of_ne hne, h]⟩

/-- Every pointer is assigned once, and its symbol is its name with an underscore. -/
theorem nodup_assignments : (assignments.map Prod.fst).Nodup := by
  decide

theorem mem_assignments (p : Pointer) : (p, "_" ++ p.name) ∈ assignments := by
  cases p <;> decide

end Blkin
