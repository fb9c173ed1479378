import Blkin.BabeltraceJson
import Blkin.BabeltraceZipkin
import Blkin.Getopt

/-!
# The plugins from the command line on

`main` of both plugins reads its options, connects to the server, opens the trace, runs its
loop over the events and closes the connection. The plugins differ in the server they take
by default and in the loop.

A command line is a path and then settings, each a `-s` or `-p` with its value in the same
word or the next (`Commands`). On any other line `main` does nothing but raise the usage. On
a command line the last setting of each kind counts, unless its value is empty, and the
connection is closed exactly where no exception ends `main` (`Plugin.Obeys`).
-/

open Getopt

namespace Blkin

/-- What `main` does to the world outside. -/
inductive Effect
  | connect (port : Value) (host : Bytes)
  | addTrace (path : Bytes)
  | log (entry : LogEntry) (reply : ℤ)
  | close
  deriving DecidableEq

/-- The exceptions that end `main` : the usage, those of the connection and of a trace that
cannot be added, and those of its loop. -/
inductive Exit
  | help
  | refused
  | noTrace
  | raised (err : PyError)
  deriving DecidableEq

/-- The world outside : the servers that accept a connection, the traces, and the replies of
the server. -/
structure Env where
  accepts : Value → Bytes → Bool
  traces : Bytes → Option (List Event)
  replies : ℕ → ℤ

/-! ## Options -/

/-- `-` -/
def dash : UInt8 := 45

/-- `getopt.short_has_arg` -/
def shortHasArg (opt : UInt8) : Bytes → Option Bool
  | [] => none
  | c :: cs =>
    if opt = c ∧ c ≠ BabeltraceZipkin.colon then some (cs.head? = some BabeltraceZipkin.colon)
    else shortHasArg opt cs

/-- The options of both plugins. -/
def takes (opt : UInt8) : Option Bool :=
  shortHasArg opt (ascii "hs:p:")

/-- The options that have an argument. -/
inductive Key
  | server
  | port
  deriving DecidableEq

/-- `s` or `p` -/
def Key.letter : Key → UInt8
  | server => 115
  | port => 112

/-- One option of the loop over them : the server and the port so far. -/
def setOption (acc : Option Bytes × Option Bytes) (o : Opt UInt8) :
    Option (Option Bytes × Option Bytes) :=
  -- `-h`
  if o.name = 104 then none
  else if o.name = Key.server.letter then some (some o.arg, acc.2)
  else if o.name = Key.port.letter then some (acc.1, some o.arg)
  else some acc

/-- The path, the server and the port, or `none` where `main` raises the usage. -/
def options : List Bytes → Option (Bytes × Option Bytes × Option Bytes)
  | [] => none
  | path :: args => do
    let (opts, _) ← getopt dash takes args
    let (server, port) ← opts.foldlM setOption (none, none)
    some (path, server, port)

/-- `v`, or `w` if it is `None` or empty. -/
def orDefault {α : Type} (f : Bytes → α) (w : α) : Option Bytes → α
  | some (b :: bs) => f (b :: bs)
  | _ => w

/-! ## The two plugins -/

structure Plugin where
  server : Bytes
  loop : (ℕ → ℤ) → List Event → Sent × Option PyError

/-- `babeltrace_zipkin.py` -/
def zipkinPlugin (P : TProtocol) : Plugin where
  server := ascii "83.212.113.88"
  loop := BabeltraceZipkin.main P

/-- `babeltrace_json.py` -/
def jsonPlugin (order : DictOrder) : Plugin where
  server := ascii "localhost"
  loop := BabeltraceJson.main order

namespace Plugin

variable (p : Plugin) (env : Env)

/-- `main` once the options are read. -/
def work (path : Bytes) (port : Value) (host : Bytes) : List Effect × Option Exit :=
  if env.accepts port host then
    match env.traces path with
    | none => ([.connect port host, .addTrace path], some .noTrace)
    | some events =>
      let (sent, err) := p.loop env.replies events
      let done := [.connect port host, .addTrace path] ++ sent.map fun x => .log x.1 x.2
      match err with
      | none => (done ++ [.close], none)
      | some err => (done, some (.raised err))
  else ([.connect port host], some .refused)

def main (argv : List Bytes) : List Effect × Option Exit :=
  match options argv with
  | none => ([], some .help)
  | some (path, server, port) =>
    p.work env path (orDefault .str (.int 1463) port) (orDefault id p.server server)

end Plugin

/-! ## Command lines -/

/-- An option with its value, in the same word or the next. -/
structure Setting where
  key : Key
  value : Bytes
  joined : Bool

namespace Setting

def cluster (s : Setting) : Cluster UInt8 :=
  if s.joined then .joined [] s.key.letter s.value else .apart [] s.key.letter s.value

/-- A value in the same word is not empty. -/
def Fits (s : Setting) : Prop :=
  s.joined = true → s.value ≠ []

/-- The value of the last setting of the kind. -/
def last (k : Key) (ss : List Setting) : Option Bytes :=
  (ss.reverse.find? (·.key = k)).map Setting.value

end Setting

/-- The words are a path and settings, before a word that stops the options. -/
def Commands (argv : List Bytes) (path : Bytes) (ss : List Setting) : Prop :=
  (∀ s ∈ ss, s.Fits) ∧ ∃ tail rest, Stops dash tail rest ∧
    argv = path :: (ss.flatMap (fun s => s.cluster.words dash) ++ tail)

theorem takes_dash : takes dash = none := by
  decide

/-- `h` takes no argument, `s` and `p` take one. -/
theorem takes_eq (c : UInt8) : takes c =
    if c = 104 then some false
    else if c = Key.server.letter then some true
    else if c = Key.port.letter then some true else none := by
  have hascii : ascii "hs:p:" = [104, 115, 58, 112, 58] := by decide
  by_cases hh : c = 104
  · subst hh
    decide
  by_cases hs : c = Key.server.letter
  · subst hs
    decide
  by_cases hp : c = Key.port.letter
  · subst hp
    decide
  simp only [Key.letter] at hs hp
  simp [takes, hascii, shortHasArg, Key.letter, BabeltraceZipkin.colon, hh, hs, hp]

theorem Setting.fits_cluster {s : Setting} (h : s.Fits) :
    s.cluster.Fits takes ∧ s.cluster.letters ≠ [] := by
  obtain ⟨k, v, j⟩ := s
  have hk : takes k.letter = some true := by cases k <;> decide
  cases j with
  | false => exact ⟨⟨by simp, hk⟩, by simp [cluster, Cluster.letters]⟩
  | true => exact ⟨⟨by simp, hk, h rfl⟩, by simp [cluster, Cluster.letters]⟩

theorem Setting.opts_cluster (s : Setting) : s.cluster.opts = [⟨s.key.letter, s.value⟩] := by
  obtain ⟨k, v, j⟩ := s
  cases j <;> rfl

/-- A cluster without `h` is a setting. -/
theorem exists_setting {g : Cluster UInt8} (h : g.Fits takes) (hne : g.letters ≠ [])
    (hhelp : ∀ o ∈ g.opts, o.name ≠ 104) : ∃ s : Setting, s.Fits ∧ s.cluster = g := by
  have hflags : ∀ fs : List UInt8, (∀ f ∈ fs, takes f = some false) →
      (∀ f ∈ fs, f ≠ 104) → fs = [] := by
    intro fs hfs hne
    refine List.eq_nil_iff_forall_not_mem.2 fun f hf => ?_
    have hf' := hfs f hf
    rw [takes_eq, if_neg (hne f hf)] at hf'
    split_ifs at hf' <;> simp at hf'
  have hkey : ∀ c, takes c = some true → ∃ k : Key, k.letter = c := by
    intro c hc
    rw [takes_eq] at hc
    split_ifs at hc with h₁ h₂ h₃
    · simp at hc
    · exact ⟨.server, h₂.symm⟩
    · exact ⟨.port, h₃.symm⟩
  cases g with
  | flags fs =>
    refine absurd (hflags fs h fun f hf => ?_) hne
    exact hhelp ⟨f, []⟩ (List.mem_map_of_mem hf)
  | joined fs c arg =>
    obtain rfl := hflags fs h.1 fun f hf =>
      hhelp ⟨f, []⟩ (List.mem_append_left _ (List.mem_map_of_mem hf))
    obtain ⟨k, rfl⟩ := hkey c h.2.1
    exact ⟨⟨k, arg, true⟩, fun _ => h.2.2, rfl⟩
  | apart fs c arg =>
    obtain rfl := hflags fs h.1 fun f hf =>
      hhelp ⟨f, []⟩ (List.mem_append_left _ (List.mem_map_of_mem hf))
    obtain ⟨k, rfl⟩ := hkey c h.2
    exact ⟨⟨k, arg, false⟩, by simp [Setting.Fits], rfl⟩

/-! ## The options of a command line -/

theorem Setting.last_cons (k : Key) (s : Setting) (ss : List Setting) :
    last k (s :: ss) = (last k ss).or (if s.key = k then some s.value else none) := by
  simp only [last, List.reverse_cons, List.find?_append, List.find?_singleton]
  cases ss.reverse.find? (·.key = k) <;> split_ifs <;> simp_all

/-- The loop over the options keeps the last value of each kind. -/
theorem foldlM_settings : ∀ (ss : List Setting) (acc : Option Bytes × Option Bytes),
    (ss.flatMap fun s => s.cluster.opts).foldlM setOption acc =
      some ((Setting.last .server ss).or acc.1, (Setting.last .port ss).or acc.2)
  | [], acc => rfl
  | ⟨k, v, j⟩ :: ss, acc => by
    rw [List.flatMap_cons, Setting.opts_cluster, List.singleton_append, List.foldlM_cons,
      Setting.last_cons, Setting.last_cons]
    cases k with
    | server =>
      show (ss.flatMap fun s => s.cluster.opts).foldlM setOption (some v, acc.2) = _
      rw [foldlM_settings ss]
      simp
    | port =>
      show (ss.flatMap fun s => s.cluster.opts).foldlM setOption (acc.1, some v) = _
      rw [foldlM_settings ss]
      simp

theorem Commands.options {argv : List Bytes} {path : Bytes} {ss : List Setting}
    (h : Commands argv path ss) :
    options argv = some (path, Setting.last .server ss, Setting.last .port ss) := by
  obtain ⟨hss, tail, rest, hstops, rfl⟩ := h
  have hgetopt : getopt dash takes (ss.flatMap (fun s => s.cluster.words dash) ++ tail) =
      some (ss.flatMap fun s => s.cluster.opts, rest) := by
    refine (getopt_eq_some_iff takes_dash).2 ⟨ss.map Setting.cluster, tail, ?_, hstops, ?_, ?_⟩
    · exact List.forall_mem_map.2 fun s hs => Setting.fits_cluster (hss s hs)
    · rw [List.flatMap_map]
    · rw [List.flatMap_map]
  simp [Blkin.options, hgetopt, foldlM_settings]

/-- `-h` raises. -/
theorem name_of_foldlM : ∀ {opts : List (Opt UInt8)} {acc r : Option Bytes × Option Bytes},
    opts.foldlM setOption acc = some r → ∀ o ∈ opts, o.name ≠ 104
  | [], _, _, _ => by simp
  | o :: opts, acc, r, h => by
    rw [List.foldlM_cons, Option.bind_eq_bind, Option.bind_eq_some_iff] at h
    obtain ⟨acc', ho, hopts⟩ := h
    refine List.forall_mem_cons.2 ⟨fun hname => ?_, name_of_foldlM hopts⟩
    rw [setOption, if_pos hname] at ho
    cases ho

theorem exists_settings : ∀ {gs : List (Cluster UInt8)},
    (∀ g ∈ gs, ∃ s : Setting, s.Fits ∧ s.cluster = g) →
      ∃ ss : List Setting, (∀ s ∈ ss, s.Fits) ∧ ss.map Setting.cluster = gs
  | [], _ => ⟨[], by simp, rfl⟩
  | g :: gs, h => by
    obtain ⟨⟨s, hs, rfl⟩, hgs⟩ := List.forall_mem_cons.1 h
    obtain ⟨ss, hss, rfl⟩ := exists_settings hgs
    exact ⟨s :: ss, List.forall_mem_cons.2 ⟨hs, hss⟩, rfl⟩

/-- Options that are read are settings. -/
theorem exists_commands {argv : List Bytes} {r : Bytes × Option Bytes × Option Bytes}
    (h : options argv = some r) : ∃ path ss, Commands argv path ss := by
  match argv with
  | [] => cases h
  | path :: args =>
    simp only [options, Option.bind_eq_bind, Option.bind_eq_some_iff] at h
    obtain ⟨⟨opts, rest⟩, hgetopt, acc, hfold, -⟩ := h
    obtain ⟨gs, tail, hgs, hstops, rfl, rfl⟩ := (getopt_eq_some_iff takes_dash).1 hgetopt
    have hname := name_of_foldlM hfold
    obtain ⟨ss, hss, rfl⟩ := exists_settings fun g hg =>
      exists_setting (hgs g hg).1 (hgs g hg).2 fun o ho =>
        hname o (List.mem_flatMap.2 ⟨g, hg, ho⟩)
    exact ⟨path, ss, hss, tail, rest, hstops, by rw [List.flatMap_map]⟩

example : options [ascii "trace", ascii "-shost", ascii "-p", ascii "99", ascii "-s", [],
    ascii "more"] = some (ascii "trace", some [], some (ascii "99")) := by
  decide +kernel

/-! ## Runs -/

namespace Plugin

variable (p : Plugin) (env : Env)

/-- The port of the settings. -/
def portOf (ss : List Setting) : Value :=
  orDefault .str (.int 1463) (Setting.last .port ss)

/-- The server of the settings. -/
def hostOf (ss : List Setting) : Bytes :=
  orDefault id p.server (Setting.last .server ss)

variable {p env}

theorem main_of_commands {argv : List Bytes} {path : Bytes} {ss : List Setting}
    (h : Commands argv path ss) :
    p.main env argv = p.work env path (portOf ss) (p.hostOf ss) := by
  rw [main, h.options]
  rfl

theorem main_of_not_commands {argv : List Bytes} (h : ∀ path ss, ¬Commands argv path ss) :
    p.main env argv = ([], some .help) := by
  rw [main]
  cases hopts : options argv with
  | none => rfl
  | some r =>
    obtain ⟨path, ss, hcommands⟩ := exists_commands hopts
    exact absurd hcommands (h path ss)

/-- What `main` has done where it ends without an exception. -/
def whole (p : Plugin) (env : Env) (path : Bytes) (ss : List Setting) (events : List Event) :
    List Effect :=
  [.connect (portOf ss) (p.hostOf ss), .addTrace path] ++
    (p.loop env.replies events).1.map (fun x => .log x.1 x.2) ++ [.close]

theorem work_closes (path : Bytes) (port : Value) (host : Bytes) :
    .close ∈ (p.work env path port host).1 ↔ (p.work env path port host).2 = none := by
  unfold work
  split_ifs
  · cases env.traces path with
    | none => simp
    | some events =>
      simp only []
      cases (p.loop env.replies events).2 <;> simp
  · simp

theorem work_ends_iff (path : Bytes) (ss : List Setting) :
    (p.work env path (portOf ss) (p.hostOf ss)).2 = none ↔
      ∃ events, env.accepts (portOf ss) (p.hostOf ss) = true ∧ env.traces path = some events ∧
        (p.loop env.replies events).2 = none ∧
          (p.work env path (portOf ss) (p.hostOf ss)).1 = p.whole env path ss events := by
  unfold work whole
  split_ifs with haccepts
  · cases env.traces path with
    | none => simp
    | some events =>
      simp only [Option.some.injEq]
      cases herr : (p.loop env.replies events).2 <;> simp [haccepts, herr]
  · simp [haccepts]

theorem work_connects (p : Plugin) (env : Env) (path : Bytes) (port : Value) (host : Bytes) :
    (p.work env path port host).1.head? = some (.connect port host) ∧
      (p.work env path port host).2 ≠ some .help := by
  unfold work
  split_ifs
  · cases env.traces path with
    | none => simp
    | some events =>
      simp only []
      cases (p.loop env.replies events).2 <;> simp
  · simp

/-- How `main` treats the command line and the connection. -/
structure Obeys (p : Plugin) (env : Env) (argv : List Bytes) : Prop where
  /-- The usage is raised exactly on a line that is no command, and before anything is done. -/
  help : ((p.main env argv).2 = some .help ↔ ∀ path ss, ¬Commands argv path ss) ∧
    ((p.main env argv).2 = some .help → (p.main env argv).1 = [])
  /-- Any other line connects to the port and the server of its settings first. -/
  connects : ∀ path ss, Commands argv path ss →
    (p.main env argv).1.head? = some (.connect (portOf ss) (p.hostOf ss))
  /-- Where no exception ends `main`, it sent what its loop sends for the trace. -/
  ends : (p.main env argv).2 = none ↔ ∃ path ss events, Commands argv path ss ∧
    env.accepts (portOf ss) (p.hostOf ss) = true ∧ env.traces path = some events ∧
      (p.loop env.replies events).2 = none ∧ (p.main env argv).1 = p.whole env path ss events
  /-- The connection is closed exactly then. -/
  closes : .close ∈ (p.main env argv).1 ↔ (p.main env argv).2 = none

theorem obeys_of_commands {argv : List Bytes} {path : Bytes} {ss : List Setting}
    (h : Commands argv path ss) : p.Obeys env argv := by
  have hmain : p.main env argv = p.work env path (portOf ss) (p.hostOf ss) := main_of_commands h
  have hhelp : (p.main env argv).2 ≠ some .help := by
    rw [hmain]
    exact (work_connects p env path _ _).2
  refine ⟨⟨iff_of_false hhelp fun hno => hno path ss h, fun h' => absurd h' hhelp⟩,
    fun path' ss' h' => ?_, ⟨fun hends => ?_, ?_⟩, ?_⟩
  · rw [main_of_commands h']
    exact (work_connects p env path' _ _).1
  · rw [hmain] at hends ⊢
    obtain ⟨events, hevents⟩ := (work_ends_iff path ss).1 hends
    exact ⟨path, ss, events, h, hevents⟩
  · rintro ⟨path', ss', events, h', haccepts, htraces, hends, hwhole⟩
    rw [main_of_commands h'] at hwhole ⊢
    exact (work_ends_iff path' ss').2 ⟨events, haccepts, htraces, hends, hwhole⟩
  · rw [hmain]
    exact work_closes path _ _

theorem obeys_of_not_commands {argv : List Bytes} (h : ∀ path ss, ¬Commands argv path ss) :
    p.Obeys env argv := by
  have hmain : p.main env argv = ([], some .help) := main_of_not_commands h
  refine ⟨⟨iff_of_true (by rw [hmain]) h, fun _ => by rw [hmain]⟩,
    fun path ss h' => absurd h' (h path ss), ⟨fun hends => ?_, ?_⟩, by simp [hmain]⟩
  · rw [hmain] at hends
    cases hends
  · rintro ⟨path, ss, -, h', -⟩
    exact absurd h' (h path ss)

theorem obeys (p : Plugin) (env : Env) (argv : List Bytes) : p.Obeys env argv := by
  by_cases h : ∃ path ss, Commands argv path ss
  · obtain ⟨path, ss, h⟩ := h
    exact obeys_of_commands h
  · exact obeys_of_not_commands fun path ss h' => h ⟨path, ss, h'⟩

end Plugin

/-- Both plugins, on any command line and in any world. -/
theorem plugins_obey (P : TProtocol) (order : DictOrder) (env : Env) (argv : List Bytes) :
    (zipkinPlugin P).Obeys env argv ∧ (jsonPlugin order).Obeys env argv :=
  ⟨Plugin.obeys _ env argv, Plugin.obeys _ env argv⟩

end Blkin
