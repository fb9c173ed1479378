import Mathlib.Data.List.Basic

/-!
# Lineages

A lineage is a node together with the nodes it descends from, back to a root. A lineage
whose nodes carry an optional value inherits the value of the nearest node that has one
(`nearest`).

`Grown` says that a list of lineages was grown one at a time : each is a root or a child
of one already in the list. In such a list the parent of a lineage stands strictly before
it (`Grown.parent_before`).
-/

/-- A node and its ancestors. -/
inductive Lineage (α : Type*)
  | root (a : α)
  | child (a : α) (parent : Lineage α)
  deriving DecidableEq, Repr

namespace Lineage

variable {α β : Type*}

/-- The value at the node itself. -/
def label : Lineage α → α
  | root a => a
  | child a _ => a

/-- The lineage of the parent. -/
def parent : Lineage α → Option (Lineage α)
  | root _ => none
  | child _ p => some p

@[simp] theorem label_root (a : α) : (root a).label = a := rfl

@[simp] theorem label_child (a : α) (p : Lineage α) : (child a p).label = a := rfl

@[simp] theorem parent_root (a : α) : (root a).parent = none := rfl

@[simp] theorem parent_child (a : α) (p : Lineage α) : (child a p).parent = some p := rfl

/-- The root it descends from. -/
def origin : Lineage α → Lineage α
  | root a => root a
  | child _ p => p.origin

@[simp] theorem origin_root (a : α) : (root a).origin = root a := rfl

/-- The value of the nearest node that has one, the node itself first. -/
def nearest : Lineage (Option β) → Option β
  | root b => b
  | child (some b) _ => some b
  | child none p => p.nearest

@[simp] theorem nearest_root (b : Option β) : (root b).nearest = b := rfl

@[simp] theorem nearest_child (b : Option β) (p : Lineage (Option β)) :
    (child b p).nearest = b.or p.nearest := by
  cases b <;> rfl

/-- Every lineage of the list is a root or a child of one before it. -/
inductive Grown : List (Lineage α) → Prop
  | nil : Grown []
  | root (a : α) {ls : List (Lineage α)} : Grown ls → Grown (ls ++ [.root a])
  | child (a : α) {p : Lineage α} {ls : List (Lineage α)} :
      Grown ls → p ∈ ls → Grown (ls ++ [.child a p])

theorem getElem?_snoc {ls : List α} {a l : α} {k : ℕ}
    (h : (ls ++ [a])[k]? = some l) : ls[k]? = some l ∨ k = ls.length ∧ a = l := by
  rcases Nat.lt_or_ge k ls.length with hlt | hge
  · rw [List.getElem?_append_left hlt] at h
    exact Or.inl h
  · rw [List.getElem?_append_right hge, List.getElem?_singleton] at h
    split_ifs at h with hk
    exact Or.inr ⟨by omega, Option.some.inj h⟩

theorem Grown.parent_before {ls : List (Lineage α)} (h : Grown ls) {k : ℕ} {l p : Lineage α}
    (hk : ls[k]? = some l) (hp : l.parent = some p) : ∃ j < k, ls[j]? = some p := by
  have weaken : ∀ {ls : List (Lineage α)} {a : Lineage α} {k j : ℕ}, j < k → ls[j]? = some p →
      ∃ j < k, (ls ++ [a])[j]? = some p := fun hj hjp =>
    ⟨_, hj, by rw [List.getElem?_append_left (List.getElem?_eq_some_iff.1 hjp).1, hjp]⟩
  induction h generalizing k with
  | nil => simp at hk
  | root a _ ih =>
    rcases getElem?_snoc hk with hk | ⟨-, rfl⟩
    · obtain ⟨j, hj, hjp⟩ := ih hk
      exact weaken hj hjp
    · simp at hp
  | child a _ hq ih =>
    rcases getElem?_snoc hk with hk | ⟨rfl, rfl⟩
    · obtain ⟨j, hj, hjp⟩ := ih hk
      exact weaken hj hjp
    · obtain rfl := Option.some.inj hp
      obtain ⟨j, hj, hjq⟩ := List.getElem_of_mem hq
      exact weaken hj (by rw [← hjq]; simp)

theorem Grown.parent_mem {ls : List (Lineage α)} (h : Grown ls) {l p : Lineage α} (hl : l ∈ ls)
    (hp : l.parent = some p) : p ∈ ls := by
  obtain ⟨k, hk, rfl⟩ := List.getElem_of_mem hl
  obtain ⟨j, -, hj⟩ := h.parent_before (List.getElem?_eq_getElem hk) hp
  exact List.mem_of_getElem? hj

end Lineage
