import ContentAssist.Json.Basic
import ContentAssist.Sorting
import Mathlib.Data.List.Nodup

/-! # The order of fields

An object is read by the names of its fields, so their order says nothing. Two values that differ only in
this order have the same normal form, in which the fields of each object are sorted by name; and what is
read from the normal form is the normal form of what is read from the value.

* `Json.Reordered`: the fields of some objects inside a value stand in another order;
* `Json.normal`, `Json.Reordered.normal_eq`: the normal form does not depend on the order;
* `Json.field?_normal`, `Json.get_normal`, `Json.items_normal`: what is read from it. -/

namespace ContentAssist.Json

/-! ### Reordered values -/

mutual

/-- The values are the same up to the order of the fields of the objects in them. -/
inductive Reordered : Json → Json → Prop
  | same (v : Json) : Reordered v v
  | arr {vs ws : List Json} (h : ReorderedItems vs ws) : Reordered (.arr vs) (.arr ws)
  | obj {fs gs hs : List (String × Json)} (h : ReorderedFields fs gs) (hkeys : (gs.map (·.1)).Nodup)
      (hperm : gs.Perm hs) : Reordered (.obj fs) (.obj hs)

/-- The items are, one by one. -/
inductive ReorderedItems : List Json → List Json → Prop
  | nil : ReorderedItems [] []
  | cons {v w : Json} {vs ws : List Json} (h : Reordered v w) (hrest : ReorderedItems vs ws) :
      ReorderedItems (v :: vs) (w :: ws)

/-- The values of the fields are, one by one. -/
inductive ReorderedFields : List (String × Json) → List (String × Json) → Prop
  | nil : ReorderedFields [] []
  | cons {key : String} {v w : Json} {fs gs : List (String × Json)} (h : Reordered v w)
      (hrest : ReorderedFields fs gs) : ReorderedFields ((key, v) :: fs) ((key, w) :: gs)

end

/-! ### The normal form -/

/-- Sorts fields by name. -/
def sortFields (fs : List (String × Json)) : List (String × Json) :=
  sortStable (fun f g => decide (f.1 ≤ g.1)) fs

mutual

/-- The value with the fields of all objects in it sorted by name. -/
def normal : Json → Json
  | .arr items => .arr (normalItems items)
  | .obj fields => .obj (sortFields (normalFields fields))
  | v => v

/-- The normal forms of items. -/
def normalItems : List Json → List Json
  | [] => []
  | v :: vs => v.normal :: normalItems vs

/-- Fields with the normal forms of their values. -/
def normalFields : List (String × Json) → List (String × Json)
  | [] => []
  | (key, v) :: fs => (key, v.normal) :: normalFields fs

end

theorem normalItems_eq (vs : List Json) : normalItems vs = vs.map normal := by
  induction vs with
  | nil => rfl
  | cons v vs ih => rw [normalItems, ih, List.map_cons]

theorem normalFields_eq (fs : List (String × Json)) :
    normalFields fs = fs.map fun f => (f.1, f.2.normal) := by
  induction fs with
  | nil => rfl
  | cons f fs ih => rw [normalFields, ih, List.map_cons]

theorem sortFields_eq_of_perm {fs gs : List (String × Json)} (h : fs.Perm gs)
    (hkeys : (fs.map (·.1)).Nodup) : sortFields fs = sortFields gs := by
  refine sortStable_eq_of_perm (fun f g => ?_) (fun f g k => ?_) h fun f hf g hg hfg hgf => ?_
  · simpa using String.le_total f.1 g.1
  · simpa using String.le_trans
  · exact List.inj_on_of_nodup_map hkeys hf hg
      (String.le_antisymm (of_decide_eq_true hfg) (of_decide_eq_true hgf))

mutual

/-- **The normal form does not depend on the order of fields.** -/
theorem Reordered.normal_eq {v w : Json} : Reordered v w → v.normal = w.normal
  | .same _ => rfl
  | .arr h => by rw [normal, normal, h.normal_eq]
  | @Reordered.obj _ gs _ h hkeys hperm => by
    have hkeys' : ((normalFields gs).map (·.1)).Nodup := by
      rw [normalFields_eq, List.map_map]
      exact hkeys
    have hperm' := hperm.map fun f : String × Json => (f.1, f.2.normal)
    rw [← normalFields_eq, ← normalFields_eq] at hperm'
    rw [normal, normal, h.normal_eq, sortFields_eq_of_perm hperm' hkeys']

theorem ReorderedItems.normal_eq {vs ws : List Json} :
    ReorderedItems vs ws → normalItems vs = normalItems ws
  | .nil => rfl
  | .cons h hrest => by rw [normalItems, normalItems, h.normal_eq, hrest.normal_eq]

theorem ReorderedFields.normal_eq {fs gs : List (String × Json)} :
    ReorderedFields fs gs → normalFields fs = normalFields gs
  | .nil => rfl
  | .cons h hrest => by rw [normalFields, normalFields, h.normal_eq, hrest.normal_eq]

end

/-! ### Reading the normal form -/

/-- A field that is put among others is found as if it stood in front of them: only those with smaller
names do. -/
theorem fieldIn_insertSorted (key : String) (f : String × Json) (fs : List (String × Json)) :
    fieldIn key (insertSorted (fun f g => decide (f.1 ≤ g.1)) f fs) = fieldIn key (f :: fs) := by
  induction fs with
  | nil => rfl
  | cons g fs ih =>
    rw [insertSorted]
    split
    · rfl
    · rename_i hle
      have hne : f.1 ≠ g.1 := fun h => hle (decide_eq_true (h ▸ String.le_refl _))
      rw [fieldIn, ih, fieldIn, fieldIn, fieldIn]
      by_cases hg : g.1 = key
      · rw [if_pos hg, if_neg (hg ▸ hne), if_pos hg]
      · rw [if_neg hg, if_neg hg]

theorem fieldIn_sortFields (key : String) (fs : List (String × Json)) :
    fieldIn key (sortFields fs) = fieldIn key fs := by
  induction fs with
  | nil => rfl
  | cons f fs ih =>
    show fieldIn key (insertSorted _ f (sortFields fs)) = _
    rw [fieldIn_insertSorted, fieldIn, fieldIn, ih]

theorem fieldIn_normalFields (key : String) (fs : List (String × Json)) :
    fieldIn key (normalFields fs) = (fieldIn key fs).map normal := by
  induction fs with
  | nil => rfl
  | cons f fs ih =>
    rw [normalFields, fieldIn, fieldIn, ih]
    split <;> rfl

/-- **A field of the normal form** is the normal form of the field. -/
theorem field?_normal (v : Json) (key : String) : v.normal.field? key = (v.field? key).map normal := by
  cases v with
  | obj fs => rw [normal, field?, fieldIn_sortFields, fieldIn_normalFields, field?]
  | _ => rfl

@[simp] theorem get_normal (v : Json) (key : String) : v.normal.get key = (v.get key).normal := by
  rw [get, get, field?_normal]
  cases v.field? key <;> rfl

@[simp] theorem items_normal (v : Json) : v.normal.items = v.items.map normal := by
  cases v with
  | arr vs => exact normalItems_eq vs
  | _ => rfl

theorem fields_normal (v : Json) :
    v.normal.fields = sortFields (v.fields.map fun f => (f.1, f.2.normal)) := by
  cases v with
  | obj fs => rw [normal, fields, fields, normalFields_eq]
  | _ => rfl

@[simp] theorem isObject_normal (v : Json) : v.normal.isObject = v.isObject := by
  cases v <;> rfl

@[simp] theorem isNull_normal (v : Json) : v.normal.isNull = v.isNull := by
  cases v <;> rfl

@[simp] theorem str?_normal (v : Json) : v.normal.str? = v.str? := by
  cases v <;> rfl

@[simp] theorem int?_normal (v : Json) : v.normal.int? = v.int? := by
  cases v <;> rfl

@[simp] theorem isSet_normal (v : Json) : v.normal.isSet = v.isSet := by
  cases v with
  | arr vs => rw [normal, normalItems_eq, isSet, isSet, List.isEmpty_map]
  | obj fs =>
    rw [normal, normalFields_eq, isSet, isSet, sortFields, (perm_sortStable _ _).isEmpty_eq,
      List.isEmpty_map]
  | _ => rfl

end ContentAssist.Json
