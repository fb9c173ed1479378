import Mathlib.Algebra.BigOperators.Group.Finset.Basic
import Mathlib.Algebra.Order.BigOperators.Group.Multiset
import Mathlib.Data.Finset.Lattice.Fold
import Mathlib.Data.Multiset.AddSub
import Mathlib.Logic.Relation

/-!
# Objects that are freed with their last handle

A store of objects that are reached through counted handles. An object has handles to
other objects as fields, and arrays of its own that its destructor deletes. The handles
are held by a program outside, or are fields of live objects. `drop` gives handles back :
an object whose last one this was deletes its arrays, gives its own handles back, and is
freed. To use an object that was freed, or to delete an array twice, is a fault (`none`).

`Counted` says that every use count is the number of handles there are, and that the
arrays are those of the live objects, each once. Copying, constructing and dropping keep
it, so handles that are there can always be dropped (`Counted.drop`). If no object is
reached from itself, the live objects are those that can be reached from a handle that is
held (`Counted.mem_live_iff`), and without handles nothing is left.
-/

set_option linter.unusedSectionVars false

namespace RefCount

variable {α β : Type*} [DecidableEq α] [DecidableEq β]

/-- The objects that are not freed with their use counts, fields and arrays, and all
arrays that are not deleted. -/
structure Store (α β : Type*) where
  live : Finset α
  uses : α → ℕ
  fields : α → List α
  arraysOf : α → List β
  arrays : Multiset β

namespace Store

/-- No object. -/
def empty : Store α β :=
  ⟨∅, fun _ => 0, fun _ => [], fun _ => [], 0⟩

variable (s : Store α β)

/-- The handles that are fields of live objects. -/
def inner : Multiset α :=
  ∑ a ∈ s.live, (s.fields a : Multiset α)

/-- Neither the object nor one of the arrays is there. -/
def Fresh (a : α) (bs : List β) : Prop :=
  a ∉ s.live ∧ bs.Nodup ∧ ∀ b ∈ bs, b ∉ s.arrays

instance (a : α) (bs : List β) : Decidable (s.Fresh a bs) :=
  inferInstanceAs (Decidable (_ ∧ _ ∧ _))

/-- One more handle to `a`. -/
def copy (a : α) : Option (Store α β) :=
  if a ∈ s.live then some { s with uses := Function.update s.uses a (s.uses a + 1) } else none

/-- The store with the object `a`, a first handle to it, and the handles `fs`. -/
def insert (a : α) (fs : List α) (bs : List β) : Store α β where
  live := Insert.insert a s.live
  uses x := (if x = a then 1 else s.uses x) + fs.count x
  fields := Function.update s.fields a fs
  arraysOf := Function.update s.arraysOf a bs
  arrays := bs + s.arrays

/-- A new object. The handles that are its fields are copies. -/
def construct (a : α) (fs : List α) (bs : List β) : Option (Store α β) :=
  if ∀ f ∈ fs, f ∈ s.live then some (s.insert a fs bs) else none

/-- The object deletes its arrays and is gone. -/
def free (a : α) : Store α β :=
  { s with live := s.live.erase a, arrays := s.arrays - s.arraysOf a }

variable {s}

theorem inner_eq {a : α} (ha : a ∈ s.live) : s.inner = s.fields a + (s.free a).inner :=
  (Finset.add_sum_erase s.live (fun x => (s.fields x : Multiset α)) ha).symm

/-- Give the handles back, and then those that were fields of freed objects. -/
def drop (s : Store α β) : List α → Option (Store α β)
  | [] => some s
  | a :: as =>
    if _ : a ∈ s.live then
      if s.uses a = 1 then
        if (s.arraysOf a : Multiset β) ≤ s.arrays then (s.free a).drop (s.fields a ++ as)
        else none
      else { s with uses := Function.update s.uses a (s.uses a - 1) }.drop as
    else none
  termination_by as => s.inner.card + as.length
  decreasing_by
    · have hcard := congrArg Multiset.card (inner_eq ‹a ∈ s.live›)
      simp only [Multiset.card_add, Multiset.coe_card] at hcard
      simp only [List.length_append, List.length_cons]
      omega
    · simp only [inner, List.length_cons]
      omega

end Store

/-! ## Counts -/

variable {s : Store α β} {held : Multiset α} {a : α}

/-- The objects that have a handle are live, each use count is the number of its handles,
and the arrays are those of the live objects, each once. -/
structure Counted (held : Multiset α) (s : Store α β) : Prop where
  live : ∀ a, a ∈ s.live ↔ a ∈ held + s.inner
  uses : ∀ a ∈ s.live, s.uses a = (held + s.inner).count a
  arrays : s.arrays = ∑ a ∈ s.live, (s.arraysOf a : Multiset β)
  nodup : s.arrays.Nodup

theorem sum_insert_update {γ : Type*} (f : α → List γ) (v : List γ) {t : Finset α}
    (ha : a ∉ t) : ∑ x ∈ insert a t, (Function.update f a v x : Multiset γ) =
      v + ∑ x ∈ t, (f x : Multiset γ) := by
  rw [Finset.sum_insert ha, Function.update_self]
  refine congrArg _ (Finset.sum_congr rfl fun x hx => ?_)
  have hne : x ≠ a := by
    rintro rfl
    exact ha hx
  rw [Function.update_of_ne hne]

namespace Counted

theorem empty : Counted 0 (Store.empty : Store α β) :=
  ⟨by simp [Store.empty, Store.inner], by simp [Store.empty], rfl, Multiset.nodup_zero⟩

theorem live_of_held (h : Counted held s) (ha : a ∈ held) : a ∈ s.live :=
  (h.live a).2 (Multiset.mem_add.2 (.inl ha))

/-- The handles of live objects are to live objects. -/
theorem live_of_field (h : Counted held s) {b : α} (ha : a ∈ s.live) (hb : b ∈ s.fields a) :
    b ∈ s.live := by
  refine (h.live b).2 (Multiset.mem_add.2 (.inr ?_))
  rw [Store.inner_eq ha]
  exact Multiset.mem_add.2 (.inl hb)

/-- The arrays of live objects are not deleted. -/
theorem arraysOf_le (h : Counted held s) (ha : a ∈ s.live) :
    (s.arraysOf a : Multiset β) ≤ s.arrays := by
  rw [h.arrays, ← Finset.add_sum_erase s.live (fun x => (s.arraysOf x : Multiset β)) ha]
  exact Multiset.le_add_right _ _

theorem copy (h : Counted held s) (ha : a ∈ s.live) :
    ∃ s', s.copy a = some s' ∧ Counted (a ::ₘ held) s' ∧ s'.live = s.live ∧
      s'.fields = s.fields ∧ s'.arraysOf = s.arraysOf := by
  refine ⟨_, if_pos ha, ⟨fun x => ?_, fun x hx => ?_, h.arrays, h.nodup⟩, rfl, rfl, rfl⟩
  · rw [Multiset.cons_add, Multiset.mem_cons]
    constructor
    · intro hx
      exact .inr ((h.live x).1 hx)
    · rintro (rfl | hx)
      · exact ha
      · exact (h.live x).2 hx
  · rw [Multiset.cons_add]
    show Function.update s.uses a (s.uses a + 1) x = _
    rcases eq_or_ne x a with rfl | hne
    · rw [Function.update_self, Multiset.count_cons_self, h.uses x ha]
      rfl
    · rw [Function.update_of_ne hne, Multiset.count_cons_of_ne hne, h.uses x hx]
      rfl

/-- The fields of a new object are handles to live objects. -/
theorem construct (h : Counted held s) {fs : List α} {bs : List β}
    (hfs : ∀ f ∈ fs, f ∈ s.live) (hfresh : s.Fresh a bs) :
    s.construct a fs bs = some (s.insert a fs bs) ∧
      Counted (a ::ₘ held) (s.insert a fs bs) := by
  obtain ⟨ha, hbs, hnew⟩ := hfresh
  have hinner : (s.insert a fs bs).inner = fs + s.inner := sum_insert_update s.fields fs ha
  have hnone : a ∉ held + s.inner := fun hin => ha ((h.live a).2 hin)
  refine ⟨if_pos hfs, fun x => ?_, fun x hx => ?_, ?_, ?_⟩
  · rw [hinner, Store.insert, Finset.mem_insert, h.live x]
    simp only [Multiset.mem_add, Multiset.mem_cons, Multiset.mem_coe]
    have hfield : x ∈ fs → x ∈ held ∨ x ∈ s.inner := fun hx =>
      Multiset.mem_add.1 ((h.live x).1 (hfs x hx))
    tauto
  · rw [hinner, Store.insert]
    simp only [Multiset.count_add, Multiset.coe_count]
    rcases eq_or_ne x a with rfl | hne
    · have hzero := Multiset.count_eq_zero_of_notMem hnone
      rw [Multiset.count_add] at hzero
      rw [if_pos rfl, Multiset.count_cons_self]
      omega
    · have huses := h.uses x ((Finset.mem_insert.1 hx).resolve_left hne)
      rw [Multiset.count_add] at huses
      rw [if_neg hne, Multiset.count_cons_of_ne hne]
      omega
  · exact (congrArg _ h.arrays).trans (sum_insert_update s.arraysOf bs ha).symm
  · refine Multiset.nodup_add.2 ⟨hbs, h.nodup, Multiset.disjoint_left.2 fun hb => ?_⟩
    exact hnew _ hb

/-- An object whose last handle is given back, with the handles it held. -/
theorem free (h : Counted (a ::ₘ held) s) (huses : s.uses a = 1) :
    Counted ((s.fields a : Multiset α) + held) (s.free a) := by
  have ha : a ∈ s.live := h.live_of_held (Multiset.mem_cons_self a held)
  have hall : a ::ₘ held + s.inner =
      a ::ₘ ((s.fields a : Multiset α) + held + (s.free a).inner) := by
    rw [Store.inner_eq ha, Multiset.cons_add, add_left_comm, ← add_assoc]
  have hlast : a ∉ (s.fields a : Multiset α) + held + (s.free a).inner := by
    have hcount := h.uses a ha
    rw [hall, Multiset.count_cons_self, huses] at hcount
    exact Multiset.count_eq_zero.1 (by omega)
  refine ⟨fun x => ?_, fun x hx => ?_, ?_, ?_⟩
  · rw [Store.free, Finset.mem_erase, h.live x, hall, Multiset.mem_cons]
    constructor
    · rintro ⟨hne, hx⟩
      exact hx.resolve_left hne
    · intro hx
      exact ⟨fun hxa => hlast (hxa ▸ hx), .inr hx⟩
  · obtain ⟨hne, hx⟩ := Finset.mem_erase.1 hx
    rw [← Multiset.count_cons_of_ne hne, ← hall]
    exact h.uses x hx
  · show s.arrays - s.arraysOf a = _
    rw [h.arrays, ← Finset.add_sum_erase s.live (fun x => (s.arraysOf x : Multiset β)) ha,
      add_tsub_cancel_left]
    rfl
  · exact Multiset.nodup_of_le (Multiset.sub_le_self _ _) h.nodup

/-- An object with another handle besides the one that is given back. -/
theorem decrement (h : Counted (a ::ₘ held) s) (huses : s.uses a ≠ 1) :
    Counted held { s with uses := Function.update s.uses a (s.uses a - 1) } := by
  have ha : a ∈ s.live := h.live_of_held (Multiset.mem_cons_self a held)
  have hcount := h.uses a ha
  rw [Multiset.cons_add, Multiset.count_cons_self] at hcount
  refine ⟨fun x => ?_, fun x hx => ?_, h.arrays, h.nodup⟩
  · rw [h.live x, Multiset.cons_add, Multiset.mem_cons]
    refine or_iff_right_of_imp ?_
    rintro rfl
    exact Multiset.count_pos.1 (by show 0 < (held + s.inner).count x; omega)
  · show Function.update s.uses a (s.uses a - 1) x = (held + s.inner).count x
    rcases eq_or_ne x a with rfl | hne
    · rw [Function.update_self, hcount, Nat.add_sub_cancel]
    · have hx := h.uses x hx
      rw [Multiset.cons_add, Multiset.count_cons_of_ne hne] at hx
      rw [Function.update_of_ne hne, hx]

/-- Handles that are there can be given back. -/
theorem drop {s : Store α β} {as : List α} {held : Multiset α}
    (h : Counted ((as : Multiset α) + held) s) :
    ∃ s', s.drop as = some s' ∧ Counted held s' ∧ s'.live ⊆ s.live ∧ s'.fields = s.fields ∧
      s'.arraysOf = s.arraysOf := by
  induction s, as using Store.drop.induct generalizing held with
  | case1 s => exact ⟨s, by rw [Store.drop], by simpa using h, subset_rfl, rfl, rfl⟩
  | case2 s a as ha huses harrays ih =>
    have hcons : Counted (a ::ₘ (as + held)) s := by
      rwa [← Multiset.cons_add, Multiset.cons_coe]
    have hfree := hcons.free huses
    rw [← add_assoc, Multiset.coe_add] at hfree
    obtain ⟨s', hs', hc, hlive, hfields, harraysOf⟩ := ih hfree
    refine ⟨s', ?_, hc, hlive.trans (Finset.erase_subset _ _), hfields, harraysOf⟩
    rw [Store.drop, dif_pos ha, if_pos huses, if_pos harrays, hs']
  | case3 s a as ha huses harrays => exact absurd (h.arraysOf_le ha) harrays
  | case4 s a as ha huses ih =>
    have hcons : Counted (a ::ₘ (as + held)) s := by
      rwa [← Multiset.cons_add, Multiset.cons_coe]
    obtain ⟨s', hs', hc, hframe⟩ := ih (hcons.decrement huses)
    refine ⟨s', ?_, hc, hframe⟩
    rw [Store.drop, dif_pos ha, if_neg huses, hs']
  | case5 s a as ha => exact absurd (h.live_of_held (by simp)) ha

end Counted

/-! ## Reachability -/

/-- The fields of an object are handles to objects of lower rank. -/
def Ranked (rank : α → ℕ) (s : Store α β) : Prop :=
  ∀ a ∈ s.live, ∀ b ∈ s.fields a, rank b < rank a

/-- A handle in `held` leads to the object, by way of fields. -/
def Reachable (held : Multiset α) (s : Store α β) (a : α) : Prop :=
  ∃ r ∈ held, Relation.ReflTransGen (fun x y => y ∈ s.fields x) r a

theorem Counted.live_of_reachable (h : Counted held s) (hr : Reachable held s a) :
    a ∈ s.live := by
  obtain ⟨r, hheld, hpath⟩ := hr
  induction hpath with
  | refl => exact h.live_of_held hheld
  | tail _ hfield ih => exact h.live_of_field ih hfield

/-- By recursion on how far the rank is below the highest : an object that no handle in
`held` is to is a field of an object of higher rank. -/
theorem Counted.reachable_of_live (h : Counted held s) {rank : α → ℕ} (hrank : Ranked rank s)
    (a : α) (ha : a ∈ s.live) : Reachable held s a := by
  rcases Multiset.mem_add.1 ((h.live a).1 ha) with hheld | hinner
  · exact ⟨a, hheld, .refl⟩
  · obtain ⟨b, hb, hfield⟩ := Multiset.mem_sum.1 hinner
    have hlt := hrank b hb a hfield
    have hle : rank b ≤ s.live.sup rank := Finset.le_sup hb
    obtain ⟨r, hr, hpath⟩ := h.reachable_of_live hrank b hb
    exact ⟨r, hr, hpath.tail hfield⟩
  termination_by s.live.sup rank - rank a

/-- What is live can be reached, and nothing else is. -/
theorem Counted.mem_live_iff (h : Counted held s) {rank : α → ℕ} (hrank : Ranked rank s) :
    a ∈ s.live ↔ Reachable held s a :=
  ⟨h.reachable_of_live hrank a, h.live_of_reachable⟩

/-- Without handles nothing is left. -/
theorem Counted.eq_empty (h : Counted 0 s) {rank : α → ℕ} (hrank : Ranked rank s) :
    s.live = ∅ ∧ s.arrays = 0 := by
  have hlive : s.live = ∅ := Finset.eq_empty_of_forall_notMem fun a ha => by
    obtain ⟨r, hr, -⟩ := h.reachable_of_live hrank a ha
    exact absurd hr (Multiset.notMem_zero r)
  exact ⟨hlive, by rw [h.arrays, hlive, Finset.sum_empty]⟩

end RefCount
