import Mathlib.Data.List.Basic

/-!
# Options on a command line

`getopt` takes options of one letter off the front of a list of words, up to the first
word that is none. An option stands in a word behind a dash, alone or with others, and its
argument is the rest of the word or the next word. There are no long options, so a word
that starts with two dashes is an error, unless it is the two dashes that end the options.

`Cluster` is one way to write some options together. `getopt_eq_some_iff` says that exactly
the clusters, one after the other and before a word that stops them, are read, and as the
options that they write.
-/

namespace Getopt

variable {α : Type*}

/-- An option with its argument, which is empty if it takes none. -/
structure Opt (α : Type*) where
  name : α
  arg : List α
  deriving DecidableEq

/-- The options in a word, the last of which may take the next word. `takes` tells whether an
option takes an argument, if it is one at all. -/
def shorts (takes : α → Option Bool) :
    List α → List (List α) → Option (List (Opt α) × List (List α))
  | [], args => some ([], args)
  | c :: cs, args =>
    match takes c with
    | none => none
    | some false => (shorts takes cs args).map fun r => (⟨c, []⟩ :: r.1, r.2)
    | some true =>
      match cs, args with
      | [], [] => none
      | [], arg :: args => some ([⟨c, arg⟩], args)
      | c' :: cs, args => some ([⟨c, c' :: cs⟩], args)

/-! ## Clusters -/

/-- Flags in a word, and perhaps an option with its argument, joined to it or apart. -/
inductive Cluster (α : Type*)
  | flags (fs : List α)
  | joined (fs : List α) (c : α) (arg : List α)
  | apart (fs : List α) (c : α) (arg : List α)

namespace Cluster

/-- The letters behind the dash. -/
def letters : Cluster α → List α
  | flags fs => fs
  | joined fs c arg => fs ++ c :: arg
  | apart fs c _ => fs ++ [c]

/-- The word after it that belongs to it. -/
def next : Cluster α → List (List α)
  | apart _ _ arg => [arg]
  | _ => []

def words (dash : α) (g : Cluster α) : List (List α) :=
  (dash :: g.letters) :: g.next

def opts : Cluster α → List (Opt α)
  | flags fs => fs.map (⟨·, []⟩)
  | joined fs c arg => fs.map (⟨·, []⟩) ++ [⟨c, arg⟩]
  | apart fs c arg => fs.map (⟨·, []⟩) ++ [⟨c, arg⟩]

/-- The flags take no argument and the option takes one. A joined argument has a letter at
least. -/
def Fits (takes : α → Option Bool) : Cluster α → Prop
  | flags fs => ∀ f ∈ fs, takes f = some false
  | joined fs c arg => (∀ f ∈ fs, takes f = some false) ∧ takes c = some true ∧ arg ≠ []
  | apart fs c _ => (∀ f ∈ fs, takes f = some false) ∧ takes c = some true

/-- The cluster with one more flag. -/
def cons (f : α) : Cluster α → Cluster α
  | flags fs => flags (f :: fs)
  | joined fs c arg => joined (f :: fs) c arg
  | apart fs c arg => apart (f :: fs) c arg

variable {takes : α → Option Bool} {g : Cluster α} {f : α}

@[simp] theorem letters_cons (f : α) (g : Cluster α) : (g.cons f).letters = f :: g.letters := by
  cases g <;> rfl

@[simp] theorem next_cons (f : α) (g : Cluster α) : (g.cons f).next = g.next := by
  cases g <;> rfl

@[simp] theorem opts_cons (f : α) (g : Cluster α) : (g.cons f).opts = ⟨f, []⟩ :: g.opts := by
  cases g <;> rfl

theorem Fits.cons (h : g.Fits takes) (hf : takes f = some false) : (g.cons f).Fits takes := by
  cases g with
  | flags fs => exact List.forall_mem_cons.2 ⟨hf, h⟩
  | joined fs c arg => exact ⟨List.forall_mem_cons.2 ⟨hf, h.1⟩, h.2⟩
  | apart fs c arg => exact ⟨List.forall_mem_cons.2 ⟨hf, h.1⟩, h.2⟩

/-- The first letter is an option. -/
theorem Fits.takes_ne_none (h : g.Fits takes) {c : α} {cs : List α} (hg : g.letters = c :: cs) :
    takes c ≠ none := by
  have hc : c ∈ g.letters.head? := by simp [hg]
  cases g with
  | flags fs =>
    rw [h c (List.mem_of_mem_head? hc)]
    simp
  | joined fs c' arg | apart fs c' arg =>
    cases fs with
    | nil =>
      obtain rfl : c' = c := by simpa [letters] using hc
      simp [h.2]
    | cons f fs =>
      obtain rfl : f = c := by simpa [letters] using hc
      simp [h.1 f (by simp)]

end Cluster

open Cluster

variable {takes : α → Option Bool} {cs : List α} {args rest : List (List α)} {opts : List (Opt α)}

theorem shorts_flags {fs : List α} (h : ∀ f ∈ fs, takes f = some false) :
    shorts takes (fs ++ cs) args =
      (shorts takes cs args).map fun r => (fs.map (⟨·, []⟩) ++ r.1, r.2) := by
  induction fs with
  | nil => simp
  | cons f fs ih =>
    obtain ⟨hf, hfs⟩ := List.forall_mem_cons.1 h
    simp [shorts, hf, ih hfs, Option.map_map, Function.comp_def]

/-- A cluster is read as its options. -/
theorem shorts_cluster {g : Cluster α} (h : g.Fits takes) (args : List (List α)) :
    shorts takes g.letters (g.next ++ args) = some (g.opts, args) := by
  cases g with
  | flags fs =>
    have hflags : shorts takes (fs ++ []) args = _ := shorts_flags h
    simpa [letters, next, Cluster.opts, shorts] using hflags
  | joined fs c arg =>
    obtain ⟨hfs, hc, harg⟩ := h
    obtain ⟨a, arg, rfl⟩ := List.exists_cons_of_ne_nil harg
    simp [letters, next, Cluster.opts, shorts_flags hfs, shorts, hc]
  | apart fs c arg =>
    obtain ⟨hfs, hc⟩ := h
    simp [letters, next, Cluster.opts, shorts_flags hfs, shorts, hc]

/-- What is read is a cluster. -/
theorem exists_cluster_of_shorts : ∀ {cs : List α} {args rest : List (List α)}
    {opts : List (Opt α)}, shorts takes cs args = some (opts, rest) →
      ∃ g : Cluster α, g.Fits takes ∧ g.letters = cs ∧ args = g.next ++ rest ∧ opts = g.opts
  | [], args, rest, opts, h => by
    obtain ⟨rfl, rfl⟩ := Prod.mk.inj (Option.some.inj h)
    exact ⟨flags [], by simp [Fits], rfl, rfl, rfl⟩
  | c :: cs, args, rest, opts, h => by
    cases hc : takes c with
    | none => simp [shorts, hc] at h
    | some b =>
      cases b with
      | false =>
        simp only [shorts, hc, Option.map_eq_some_iff] at h
        obtain ⟨⟨opts, rest⟩, hcs, heq⟩ := h
        obtain ⟨rfl, rfl⟩ := Prod.mk.inj heq
        obtain ⟨g, hg, rfl, hargs, rfl⟩ := exists_cluster_of_shorts hcs
        exact ⟨g.cons c, hg.cons hc, by simp, by simpa using hargs, by simp⟩
      | true =>
        match cs, args with
        | [], [] => simp [shorts, hc] at h
        | [], arg :: args =>
          simp only [shorts, hc, Option.some.injEq, Prod.mk.injEq] at h
          obtain ⟨rfl, rfl⟩ := h
          exact ⟨apart [] c arg, ⟨by simp, hc⟩, rfl, rfl, rfl⟩
        | c' :: cs, args =>
          simp only [shorts, hc, Option.some.injEq, Prod.mk.injEq] at h
          obtain ⟨rfl, rfl⟩ := h
          exact ⟨joined [] c (c' :: cs), ⟨by simp, hc, by simp⟩, rfl, rfl, rfl⟩

theorem length_of_shorts (h : shorts takes cs args = some (opts, rest)) :
    rest.length ≤ args.length := by
  obtain ⟨g, -, -, rfl, -⟩ := exists_cluster_of_shorts h
  simp

/-! ## The words of a command line -/

variable [DecidableEq α] {dash : α}

/-- The options at the front, and the words after them. -/
def getopt (dash : α) (takes : α → Option Bool) :
    List (List α) → Option (List (Opt α) × List (List α))
  | [] => some ([], [])
  | (d :: c :: cs) :: args =>
    if d ≠ dash then some ([], (d :: c :: cs) :: args)
    else if c = dash then
      if cs = [] then some ([], args) else none
    else
      match _hr : shorts takes (c :: cs) args with
      | none => none
      | some r => (getopt dash takes r.2).map fun r' => (r.1 ++ r'.1, r'.2)
  | w :: args => some ([], w :: args)
termination_by args => args.length
decreasing_by exact Nat.lt_succ_of_le (length_of_shorts _hr)

/-- The options end here, and the words `rest` are left. -/
inductive Stops (dash : α) : List (List α) → List (List α) → Prop
  | nil : Stops dash [] []
  | dashes (ws : List (List α)) : Stops dash ([dash, dash] :: ws) ws
  | single (ws : List (List α)) : Stops dash ([dash] :: ws) ([dash] :: ws)
  | word {w : List α} (ws : List (List α)) : w.head? ≠ some dash → Stops dash (w :: ws) (w :: ws)

theorem Stops.getopt {tail rest : List (List α)} (h : Stops dash tail rest) :
    getopt dash takes tail = some ([], rest) := by
  cases h with
  | nil => rw [Getopt.getopt]
  | dashes args => simp [Getopt.getopt]
  | single args => simp [Getopt.getopt]
  | @word w args hw =>
    match w with
    | [] => simp [Getopt.getopt]
    | [d] => simp [Getopt.getopt]
    | d :: c :: cs =>
      have hd : d ≠ dash := by simpa using hw
      simp [Getopt.getopt, hd]

theorem getopt_cluster {g : Cluster α} (hdash : takes dash = none) (h : g.Fits takes)
    (hne : g.letters ≠ []) (args : List (List α)) :
    getopt dash takes (g.words dash ++ args) =
      (getopt dash takes args).map fun r => (g.opts ++ r.1, r.2) := by
  obtain ⟨c, cs, hg⟩ := List.exists_cons_of_ne_nil hne
  have hc : c ≠ dash := by
    rintro rfl
    exact h.takes_ne_none hg hdash
  have hshorts := shorts_cluster h args
  rw [hg] at hshorts
  rw [words, hg, List.cons_append, getopt, if_neg (by simp), if_neg hc]
  split
  · rename_i hnone
    rw [hshorts] at hnone
    cases hnone
  · rename_i r hr
    obtain rfl := Option.some.inj (hshorts.symm.trans hr)
    rfl

/-- What is read is clusters before a word that stops the options. -/
theorem exists_clusters_of_getopt {args rest : List (List α)} {opts : List (Opt α)}
    (h : getopt dash takes args = some (opts, rest)) :
    ∃ (gs : List (Cluster α)) (tail : List (List α)), (∀ g ∈ gs, g.Fits takes ∧ g.letters ≠ []) ∧
      Stops dash tail rest ∧ args = gs.flatMap (words dash) ++ tail ∧
        opts = gs.flatMap Cluster.opts := by
  fun_induction getopt dash takes args generalizing rest opts with
  | case1 =>
    obtain ⟨rfl, rfl⟩ := Prod.mk.inj (Option.some.inj h)
    exact ⟨[], [], by simp, .nil, rfl, rfl⟩
  | case2 d c cs args hd =>
    obtain ⟨rfl, rfl⟩ := Prod.mk.inj (Option.some.inj h)
    exact ⟨[], _, by simp, .word args (by simpa using hd), rfl, rfl⟩
  | case3 d args hd =>
    obtain ⟨rfl, rfl⟩ := Prod.mk.inj (Option.some.inj h)
    obtain rfl := not_not.1 hd
    exact ⟨[], _, by simp, .dashes args, rfl, rfl⟩
  | case4 | case5 => cases h
  | case6 d c cs args hd _ r hr ih =>
    obtain ⟨r', hr', heq⟩ := Option.map_eq_some_iff.1 h
    obtain ⟨rfl, rfl⟩ := Prod.mk.inj heq
    obtain ⟨gs, tail, hgs, hstops, hargs, hopts⟩ := ih hr'
    obtain ⟨g, hg, hletters, rfl, hgopts⟩ := exists_cluster_of_shorts hr
    refine ⟨g :: gs, tail, List.forall_mem_cons.2 ⟨⟨hg, by simp [hletters]⟩, hgs⟩, hstops, ?_, ?_⟩
    · rw [List.flatMap_cons, words, hletters, List.append_assoc, ← hargs, not_not.1 hd,
        List.cons_append]
    · rw [List.flatMap_cons, hgopts, hopts]
  | case7 w args hw =>
    obtain ⟨rfl, rfl⟩ := Prod.mk.inj (Option.some.inj h)
    refine ⟨[], _, by simp, ?_, rfl, rfl⟩
    by_cases hd : w.head? = some dash
    · match w with
      | [] => simp at hd
      | [d] =>
        obtain rfl : d = dash := by simpa using hd
        exact .single args
      | d :: c :: cs => exact (hw d c cs rfl).elim
    · exact .word args hd

/-- The words are read exactly if they are clusters before a word that stops the options. -/
theorem getopt_eq_some_iff (hdash : takes dash = none) {args rest : List (List α)}
    {opts : List (Opt α)} : getopt dash takes args = some (opts, rest) ↔
      ∃ (gs : List (Cluster α)) (tail : List (List α)),
        (∀ g ∈ gs, g.Fits takes ∧ g.letters ≠ []) ∧ Stops dash tail rest ∧
          args = gs.flatMap (words dash) ++ tail ∧ opts = gs.flatMap Cluster.opts := by
  refine ⟨exists_clusters_of_getopt, ?_⟩
  rintro ⟨gs, tail, hgs, hstops, rfl, rfl⟩
  induction gs with
  | nil => exact hstops.getopt
  | cons g gs ih =>
    obtain ⟨hg, hgs⟩ := List.forall_mem_cons.1 hgs
    rw [List.flatMap_cons, List.append_assoc, getopt_cluster hdash hg.1 hg.2, ih hgs]
    rfl

end Getopt
