import ContentAssist.Environment.Basic
import Mathlib.Data.List.Nodup

/-! # Looking up in a changed map

What is found in a map after each way to change it, and that no key comes twice. The last sections do
the same for the operations on tables and for overlaid records. -/

namespace ContentAssist.OrderedMap

variable {κ ν : Type} [DecidableEq κ] (m : OrderedMap κ ν)

/-! ### Keys -/

theorem findIn_eq_none_iff {k : κ} {es : List (κ × ν)} :
    findIn k es = none ↔ k ∉ es.map (·.1) := by
  induction es with
  | nil => simp [findIn]
  | cons e es ih =>
    obtain ⟨k', v⟩ := e
    by_cases h : k' = k
    · simp [findIn, h]
    · simp [findIn, h, ih, Ne.symm h]

theorem find?_eq_none_iff {k : κ} : m.find? k = none ↔ k ∉ m.keys := findIn_eq_none_iff

theorem contains_iff {k : κ} : m.contains k = true ↔ k ∈ m.keys := by
  rw [contains, ← not_iff_not, ← find?_eq_none_iff]
  cases m.find? k <;> simp

theorem mem_values_of_find? {k : κ} {v : ν} (h : m.find? k = some v) : v ∈ m.values :=
  List.mem_map.2 ⟨_, m.mem_of_find? h, rfl⟩

theorem exists_find?_of_mem_keys {k : κ} (h : k ∈ m.keys) : ∃ v, m.find? k = some v := by
  cases hf : m.find? k with
  | none => exact absurd h (m.find?_eq_none_iff.1 hf)
  | some v => exact ⟨v, rfl⟩

theorem findIn_of_mem {k : κ} {v : ν} {es : List (κ × ν)} (hes : (es.map (·.1)).Nodup)
    (h : (k, v) ∈ es) : findIn k es = some v := by
  induction es with
  | nil => simp at h
  | cons e es ih =>
    rw [List.map_cons, List.nodup_cons] at hes
    rcases List.mem_cons.1 h with rfl | h
    · exact if_pos rfl
    · have hk : e.1 ≠ k := by
        rintro rfl
        exact hes.1 (List.mem_map.2 ⟨_, h, rfl⟩)
      rw [findIn, if_neg hk]
      exact ih hes.2 h

/-! ### What is found first -/

theorem findIn_append (k : κ) (es es' : List (κ × ν)) :
    findIn k (es ++ es') = (findIn k es).or (findIn k es') := by
  induction es with
  | nil => rfl
  | cons e es ih =>
    rw [List.cons_append, findIn, findIn]
    split
    · rfl
    · exact ih

theorem findIn_flatMap {α : Type} (k : κ) (as : List α) (f : α → List (κ × ν)) :
    findIn k (as.flatMap f) = as.findSome? fun a => findIn k (f a) := by
  induction as with
  | nil => rfl
  | cons a as ih =>
    rw [List.flatMap_cons, findIn_append, ih, List.findSome?_cons]
    cases findIn k (f a) <;> rfl

theorem findIn_reverse {es : List (κ × ν)} (hes : (es.map (·.1)).Nodup) (k : κ) :
    findIn k es.reverse = findIn k es := by
  cases hk : findIn k es with
  | none =>
    rw [findIn_eq_none_iff] at hk ⊢
    simpa using hk
  | some v =>
    refine findIn_of_mem ?_ (List.mem_reverse.2 (mem_findIn hk))
    rw [List.map_reverse, List.nodup_reverse]
    exact hes

/-! ### What is found -/

theorem find?_insert (k l : κ) (v : ν) :
    (m.insert k v).find? l = if k = l then some v else m.find? l := by
  by_cases h : k = l
  · rw [if_pos h, ← h, find?_insert_self]
  · rw [if_neg h, m.find?_insert_of_ne h]

theorem find?_erase (k l : κ) : (m.erase k).find? l = if k = l then none else m.find? l := by
  by_cases h : k = l
  · rw [if_pos h, ← h, find?_erase_self]
  · rw [if_neg h, m.find?_erase_of_ne h]

theorem find?_modify (k l : κ) (f : ν → ν) :
    (m.modify k f).find? l = if k = l then (m.find? l).map f else m.find? l := by
  unfold modify
  by_cases h : k = l
  · subst h
    rw [if_pos rfl]
    cases hk : m.find? k with
    | none => exact hk
    | some v => exact m.find?_insert_self k (f v)
  · rw [if_neg h]
    cases hk : m.find? k with
    | none => rfl
    | some v => exact m.find?_insert_of_ne h (f v)

theorem find?_mapValues {ν' : Type} (f : ν → ν') (k : κ) :
    (m.mapValues f).find? k = (m.find? k).map f := by
  obtain ⟨es⟩ := m
  change findIn k (es.map fun e => (e.1, f e.2)) = (findIn k es).map f
  induction es with
  | nil => rfl
  | cons e es ih =>
    rw [List.map_cons, findIn, findIn]
    split
    · rfl
    · exact ih

theorem find?_filter (hm : m.keys.Nodup) (p : κ → ν → Bool) (k : κ) :
    (m.filter p).find? k = (m.find? k).filter (p k) := by
  obtain ⟨es⟩ := m
  change findIn k (es.filter fun e => p e.1 e.2) = (findIn k es).filter (p k)
  change (es.map (·.1)).Nodup at hm
  induction es with
  | nil => rfl
  | cons e es ih =>
    obtain ⟨k', v⟩ := e
    rw [List.map_cons, List.nodup_cons] at hm
    by_cases hk : k' = k
    · subst hk
      have hnone : findIn k' es = none := findIn_eq_none_iff.2 hm.1
      cases hp : p k' v with
      | true => simp [findIn, hp, Option.filter]
      | false => simp [findIn, hp, Option.filter, ih hm.2, hnone]
    · cases hp : p k' v with
      | true => simp [findIn, hp, hk, ih hm.2]
      | false => simp [findIn, hp, hk, ih hm.2]

theorem findIn_filter {p : κ × ν → Bool} {k : κ} {v : ν} {es : List (κ × ν)}
    (h : findIn k es = some v) (hp : p (k, v) = true) : findIn k (es.filter p) = some v := by
  induction es with
  | nil => cases h
  | cons e es ih =>
    obtain ⟨k', w⟩ := e
    rw [findIn] at h
    split at h
    · rename_i hk
      cases h
      subst hk
      rw [List.filter_cons_of_pos hp, findIn, if_pos rfl]
    · rename_i hk
      rw [List.filter_cons]
      split
      · rw [findIn, if_neg hk]
        exact ih h
      · exact ih h

/-! ### The keys of a changed map -/

theorem mem_keys_insert {k l : κ} {v : ν} : l ∈ (m.insert k v).keys ↔ l = k ∨ l ∈ m.keys := by
  rw [← contains_iff, ← contains_iff, contains, contains, find?_insert]
  by_cases h : k = l
  · simp [h]
  · simp [h, Ne.symm h]

theorem mem_keys_modify {k l : κ} {f : ν → ν} : l ∈ (m.modify k f).keys ↔ l ∈ m.keys := by
  rw [← contains_iff, ← contains_iff, contains, contains, find?_modify]
  split <;> simp

omit [DecidableEq κ] in
theorem keys_mapValues {ν' : Type} (f : ν → ν') : (m.mapValues f).keys = m.keys := by
  unfold mapValues keys
  rw [List.map_map]
  rfl

variable {m}

theorem nodup_keys_insert (hm : m.keys.Nodup) (k : κ) (v : ν) : (m.insert k v).keys.Nodup := by
  obtain ⟨es⟩ := m
  change (es.map (·.1)).Nodup at hm
  change ((insertInto k v es).map (·.1)).Nodup
  induction es with
  | nil => simp [insertInto]
  | cons e es ih =>
    obtain ⟨k', v'⟩ := e
    rw [List.map_cons, List.nodup_cons] at hm
    by_cases h : k' = k
    · simp only [insertInto, h, ↓reduceIte, List.map_cons, List.nodup_cons]
      exact h ▸ hm
    · simp only [insertInto, h, ↓reduceIte, List.map_cons, List.nodup_cons]
      refine ⟨fun hk => ?_, ih hm.2⟩
      rcases (mem_keys_insert ⟨es⟩).1 hk with rfl | hk
      · exact h rfl
      · exact hm.1 hk

theorem insert_of_not_mem {k : κ} (hk : k ∉ m.keys) (v : ν) :
    m.insert k v = ⟨m.entries ++ [(k, v)]⟩ := by
  obtain ⟨es⟩ := m
  change k ∉ es.map (·.1) at hk
  refine congrArg OrderedMap.mk ?_
  induction es with
  | nil => rfl
  | cons e es ih =>
    rw [List.map_cons, List.mem_cons, not_or] at hk
    change (if e.1 = k then (e.1, v) :: es else e :: insertInto k v es) = e :: (es ++ [(k, v)])
    rw [if_neg (Ne.symm hk.1), ih hk.2]

theorem mem_values_insert {k : κ} {v w : ν} (h : w ∈ (m.insert k v).values) :
    w = v ∨ w ∈ m.values := by
  obtain ⟨es⟩ := m
  change w ∈ (insertInto k v es).map (·.2) at h
  change w = v ∨ w ∈ es.map (·.2)
  induction es with
  | nil => exact Or.inl (by simpa [insertInto] using h)
  | cons e es ih =>
    obtain ⟨k', v'⟩ := e
    rw [insertInto] at h
    split at h
    · rcases List.mem_cons.1 h with rfl | h
      · exact Or.inl rfl
      · exact Or.inr (List.mem_cons_of_mem _ h)
    · rcases List.mem_cons.1 h with rfl | h
      · exact Or.inr List.mem_cons_self
      · exact (ih h).imp_right fun h => List.mem_cons_of_mem _ h

theorem mem_values_foldl_insert {es : List (κ × ν)} {w : ν}
    (h : w ∈ (es.foldl (fun m e => m.insert e.1 e.2) m).values) :
    w ∈ es.map (·.2) ∨ w ∈ m.values := by
  induction es generalizing m with
  | nil => exact Or.inr h
  | cons e es ih =>
    rcases ih h with h | h
    · exact Or.inl (List.mem_cons_of_mem _ h)
    · rcases mem_values_insert h with rfl | h
      · exact Or.inl List.mem_cons_self
      · exact Or.inr h

theorem mem_keys_foldl_insert {es : List (κ × ν)} {k : κ}
    (h : k ∈ (es.foldl (fun m e => m.insert e.1 e.2) m).keys) : k ∈ es.map (·.1) ∨ k ∈ m.keys := by
  induction es generalizing m with
  | nil => exact Or.inr h
  | cons e es ih =>
    rcases ih h with h | h
    · exact Or.inl (List.mem_cons_of_mem _ h)
    · rcases (m.mem_keys_insert).1 h with rfl | h
      · exact Or.inl List.mem_cons_self
      · exact Or.inr h

theorem nodup_keys_modify (hm : m.keys.Nodup) (k : κ) (f : ν → ν) : (m.modify k f).keys.Nodup := by
  unfold modify
  split
  · exact hm
  · exact nodup_keys_insert hm _ _

theorem nodup_keys_erase (hm : m.keys.Nodup) (k : κ) : (m.erase k).keys.Nodup :=
  hm.sublist (List.filter_sublist.map _)

theorem exists_find?_of_mem_values (hm : m.keys.Nodup) {v : ν} (h : v ∈ m.values) :
    ∃ k, m.find? k = some v := by
  obtain ⟨e, he, rfl⟩ := List.mem_map.1 h
  exact ⟨e.1, findIn_of_mem hm he⟩

theorem mem_values_iff (hm : m.keys.Nodup) {v : ν} : v ∈ m.values ↔ ∃ k, m.find? k = some v :=
  ⟨exists_find?_of_mem_values hm, fun ⟨_, hk⟩ => m.mem_values_of_find? hk⟩

theorem find?_foldl_insert_reverse (es : List (κ × ν)) (m : OrderedMap κ ν) (k : κ) :
    (es.foldl (fun m e => m.insert e.1 e.2) m).find? k =
      (findIn k es.reverse).or (m.find? k) := by
  induction es generalizing m with
  | nil => rfl
  | cons e es ih =>
    rw [List.foldl_cons, ih, find?_insert, List.reverse_cons, findIn_append, Option.or_assoc, findIn,
      findIn]
    split <;> rfl

theorem find?_foldl_insert (es : List (κ × ν)) (hes : (es.map (·.1)).Nodup) (m : OrderedMap κ ν)
    (k : κ) :
    (es.foldl (fun m e => m.insert e.1 e.2) m).find? k = (findIn k es).or (m.find? k) := by
  rw [find?_foldl_insert_reverse, findIn_reverse hes]

/-- In a map made of entries the last one at a key is found. -/
theorem find?_ofList (es : List (κ × ν)) (k : κ) : (ofList es).find? k = findIn k es.reverse := by
  rw [ofList, find?_foldl_insert_reverse, find?_empty, Option.or_none]

theorem nodup_keys_ofList (es : List (κ × ν)) : (ofList es).keys.Nodup := by
  have hfold : ∀ (es : List (κ × ν)) (m : OrderedMap κ ν), m.keys.Nodup →
      (es.foldl (fun m e => m.insert e.1 e.2) m).keys.Nodup := by
    intro es
    induction es with
    | nil => exact fun _ hm => hm
    | cons e es ih => exact fun m hm => ih _ (nodup_keys_insert hm _ _)
  exact hfold es empty List.nodup_nil

end ContentAssist.OrderedMap

namespace ContentAssist

/-! ### Tables -/

namespace Table
variable (t : Table)

theorem find?_edit (name n : String) (f : Record → Record) :
    (t.edit name f).find? n =
      if name = n then (t.find? n).map fun r => if r.builtin then r else f r else t.find? n :=
  t.find?_modify _ _ _

theorem find?_addMissing (others : Table) (n : String) :
    (t.addMissing others).find? n = (t.find? n).or (others.find? n) := by
  obtain ⟨es⟩ := others
  change (es.foldl (fun t e => if t.contains e.1 then t else t.insert e.1 e.2) t).find? n =
    (t.find? n).or (OrderedMap.findIn n es)
  induction es generalizing t with
  | nil => simp [OrderedMap.findIn]
  | cons e es ih =>
    obtain ⟨n', r⟩ := e
    rw [List.foldl_cons, ih, OrderedMap.findIn]
    by_cases hn : n' = n
    · subst hn
      cases h : t.find? n' with
      | none => simp [OrderedMap.contains, h]
      | some r' => simp [OrderedMap.contains, h]
    · rw [if_neg hn]
      split
      · rfl
      · rw [t.find?_insert_of_ne hn]

end Table

/-! ### Answers of records -/

namespace Record
variable {r : Record}

open Table (answer?)

theorem mem_definitions_of_answer? {name : Name} {d : Definition} (h : answer? r name = some d) :
    d ∈ r.definitions := by
  unfold answer? at h
  split at h
  · exact List.mem_append_right _ (by simp [h])
  · exact List.mem_append_left _ (r.members.mem_values_of_find? h)

theorem answer?_prototype : answer? r (some "prototype") = r.proto := rfl

theorem answer?_attachPath (path : String) (name : Name) :
    answer? (r.attachPath path) name = (answer? r name).map (·.attachPath path) := by
  unfold answer? attachPath member?
  dsimp only
  split
  · rfl
  · exact r.members.find?_mapValues _ _

/-- An overlaid record answers with what lies on top, and else with what was there. -/
theorem answer?_overlay {provided : Record} (hkeys : provided.members.keys.Nodup) (name : Name) :
    answer? (Environment.overlay r provided) name =
      (answer? provided name).or (answer? r name) := by
  unfold answer? Environment.overlay member?
  dsimp only
  split
  · rfl
  · exact OrderedMap.find?_foldl_insert _ hkeys _ _

end Record

end ContentAssist
