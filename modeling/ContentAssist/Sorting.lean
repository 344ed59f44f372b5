/-! # Stable sorting

Insertion sort with respect to a comparison `le`. Elements that tie keep their order, and a list
that is sorted already is gone through once.

Main facts: `perm_sortStable`, `pairwise_sortStable`, `sortStable_eq_of_perm`, `sortStable_map`. -/

namespace ContentAssist

/-- Puts an element in front of the first one that it does not exceed. -/
def insertSorted {α : Type} (le : α → α → Bool) (a : α) : List α → List α
  | [] => [a]
  | b :: bs => if le a b then a :: b :: bs else b :: insertSorted le a bs

/-- Sorts a list; elements that tie keep their order. -/
def sortStable {α : Type} (le : α → α → Bool) (as : List α) : List α :=
  as.foldr (insertSorted le) []

theorem perm_insertSorted {α : Type} (le : α → α → Bool) (a : α) (as : List α) :
    (insertSorted le a as).Perm (a :: as) := by
  induction as with
  | nil => exact .refl _
  | cons b bs ih =>
    unfold insertSorted
    split
    · exact .refl _
    · exact (ih.cons b).trans (.swap a b bs)

/-- **Sorting keeps the elements.** -/
theorem perm_sortStable {α : Type} (le : α → α → Bool) (as : List α) :
    (sortStable le as).Perm as := by
  induction as with
  | nil => exact .refl _
  | cons a as ih => exact (perm_insertSorted le a _).trans (ih.cons a)

section Order
variable {α : Type} {le : α → α → Bool} (htotal : ∀ a b, le a b = true ∨ le b a = true)
  (htrans : ∀ a b c, le a b = true → le b c = true → le a c = true)
include htotal htrans

theorem pairwise_insertSorted (a : α) {as : List α} (h : as.Pairwise fun x y => le x y = true) :
    (insertSorted le a as).Pairwise fun x y => le x y = true := by
  induction as with
  | nil => exact List.pairwise_singleton _ _
  | cons b bs ih =>
    obtain ⟨hb, hbs⟩ := List.pairwise_cons.1 h
    unfold insertSorted
    split
    · rename_i hab
      refine List.pairwise_cons.2 ⟨fun c hc => ?_, h⟩
      rcases List.mem_cons.1 hc with rfl | hc
      · exact hab
      · exact htrans a b c hab (hb c hc)
    · rename_i hab
      refine List.pairwise_cons.2 ⟨fun c hc => ?_, ih hbs⟩
      rcases List.mem_cons.1 ((perm_insertSorted le a bs).mem_iff.1 hc) with rfl | hc
      · exact (htotal c b).resolve_left hab
      · exact hb c hc

/-- **Sorting sorts.** -/
theorem pairwise_sortStable (as : List α) :
    (sortStable le as).Pairwise fun x y => le x y = true := by
  induction as with
  | nil => exact List.Pairwise.nil
  | cons a as ih => exact pairwise_insertSorted htotal htrans a ih

/-- **Only the elements matter**, not their order, where no two different ones tie. -/
theorem sortStable_eq_of_perm {as bs : List α} (h : as.Perm bs)
    (hties : ∀ a ∈ as, ∀ b ∈ as, le a b = true → le b a = true → a = b) :
    sortStable le as = sortStable le bs := by
  have hperm := (perm_sortStable le as).trans (h.trans (perm_sortStable le bs).symm)
  refine hperm.eq_of_pairwise (fun a b ha hb => ?_) (pairwise_sortStable htotal htrans as)
    (pairwise_sortStable htotal htrans bs)
  exact hties a ((perm_sortStable le as).mem_iff.1 ha) b
    (h.mem_iff.2 ((perm_sortStable le bs).mem_iff.1 hb))

end Order

theorem insertSorted_map {α β : Type} (f : α → β) (le : β → β → Bool) (a : α) (as : List α) :
    insertSorted le (f a) (as.map f) = (insertSorted (fun x y => le (f x) (f y)) a as).map f := by
  induction as with
  | nil => rfl
  | cons b bs ih =>
    by_cases h : le (f a) (f b) = true <;> simp [insertSorted, h, ih]

/-- Sorting by a property of images sorts the images. -/
theorem sortStable_map {α β : Type} (f : α → β) (le : β → β → Bool) (as : List α) :
    sortStable le (as.map f) = (sortStable (fun x y => le (f x) (f y)) as).map f := by
  induction as with
  | nil => rfl
  | cons a as ih =>
    show insertSorted le (f a) (sortStable le (as.map f)) = _
    rw [ih, insertSorted_map]
    rfl

end ContentAssist
