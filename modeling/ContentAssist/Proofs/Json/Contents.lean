import ContentAssist.Json.Basic

/-! # What is inside a JSON value

The bounds of reading and writing are about the integers in a value and about its nesting.

* `Json.integers`: the integers in a value;
* `Json.depth`: how many containers lie inside one another, empty ones not counted. -/

namespace ContentAssist.Json

variable {xs : List Json} {fs : List (String × Json)}

mutual

/-- The integers in a value. -/
def integers : Json → List Int
  | null | bool _ | float _ | str _ => []
  | int n => [n]
  | arr xs => itemIntegers xs
  | obj fs => fieldIntegers fs

/-- The integers in the items of an array. -/
def itemIntegers : List Json → List Int
  | [] => []
  | x :: xs => x.integers ++ itemIntegers xs

/-- The integers in the fields of an object. -/
def fieldIntegers : List (String × Json) → List Int
  | [] => []
  | (_, v) :: fs => v.integers ++ fieldIntegers fs

end

mutual

/-- How many containers lie inside one another; a container that holds nothing does not count. -/
def depth : Json → Nat
  | null | bool _ | int _ | float _ | str _ => 0
  | arr xs => itemDepth xs
  | obj fs => fieldDepth fs

/-- The depth of an array with the given items. -/
def itemDepth : List Json → Nat
  | [] => 0
  | x :: xs => max (x.depth + 1) (itemDepth xs)

/-- The depth of an object with the given fields. -/
def fieldDepth : List (String × Json) → Nat
  | [] => 0
  | (_, v) :: fs => max (v.depth + 1) (fieldDepth fs)

end

theorem fieldIntegers_eq (fs : List (String × Json)) :
    fieldIntegers fs = itemIntegers (fs.map (·.2)) := by
  induction fs with
  | nil => rfl
  | cons f fs ih => rw [fieldIntegers, ih, List.map_cons, itemIntegers]

theorem fieldDepth_eq (fs : List (String × Json)) : fieldDepth fs = itemDepth (fs.map (·.2)) := by
  induction fs with
  | nil => rfl
  | cons f fs ih => rw [fieldDepth, ih, List.map_cons, itemDepth]

theorem forall_mem_itemIntegers {p : Int → Prop} :
    (∀ n ∈ itemIntegers xs, p n) ↔ ∀ x ∈ xs, ∀ n ∈ x.integers, p n := by
  induction xs with
  | nil => simp [itemIntegers]
  | cons x xs ih => simp only [itemIntegers, List.forall_mem_append, ih, List.forall_mem_cons]

theorem lt_itemDepth_iff {k : Nat} : k < itemDepth xs ↔ ∃ x ∈ xs, k < x.depth + 1 := by
  induction xs with
  | nil => simp [itemDepth]
  | cons x xs ih =>
    have hmax : k < max (x.depth + 1) (itemDepth xs) ↔ k < x.depth + 1 ∨ k < itemDepth xs := by omega
    rw [itemDepth, hmax, ih]
    simp

end ContentAssist.Json
