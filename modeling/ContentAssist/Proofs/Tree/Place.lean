import ContentAssist.Proofs.Tree.Visit
import Mathlib.Data.List.Nodup

/-! # A place names one node

In a tree whose objects have no two fields of one name, the place of a node determines the node. So a
node has one parent, and the place of a node that is read from a field tells which node it was read
from.

* `Node.eq_of_place`: a place names one node;
* `Node.nodup_children`: no child comes twice;
* `Node.mem_all_of_suffix`: the places below a node;
* `Node.exists_parent`, `Node.mem_all_of_mem_children_of_ne`: the parent of a node. -/

namespace ContentAssist.Node

/-- No object of the tree has two fields of one name. -/
def KeysDistinct (root : Node) : Prop := ∀ m ∈ root.all, (m.value.fields.map (·.1)).Nodup

theorem index_of_mem_itemsFrom {place : Place} {index : Nat} {vs : List Json} {m : Node}
    (hm : m ∈ itemsFrom place index vs) : ∃ i, index ≤ i ∧ m.place = .item i :: place := by
  induction vs generalizing index with
  | nil => cases hm
  | cons v vs ih =>
    rcases List.mem_cons.1 hm with rfl | hm
    · exact ⟨index, Nat.le_refl _, rfl⟩
    · obtain ⟨i, hi, hp⟩ := ih hm
      exact ⟨i, Nat.le_of_succ_le hi, hp⟩

theorem place_ne_of_mem_itemsFrom_succ {place : Place} {index : Nat} {vs : List Json} {m : Node}
    (hm : m ∈ itemsFrom place (index + 1) vs) : m.place ≠ .item index :: place := by
  intro heq
  obtain ⟨i, hi, hp⟩ := index_of_mem_itemsFrom hm
  rw [hp] at heq
  have hindex : i = index := by simpa using heq
  omega

theorem nodup_itemsFrom (place : Place) (index : Nat) (vs : List Json) :
    (itemsFrom place index vs).Nodup := by
  induction vs generalizing index with
  | nil => exact List.nodup_nil
  | cons v vs ih =>
    exact List.nodup_cons.2 ⟨fun h => place_ne_of_mem_itemsFrom_succ h rfl, ih (index + 1)⟩

theorem eq_of_mem_itemsFrom {place : Place} {index : Nat} {vs : List Json} {m m' : Node}
    (hm : m ∈ itemsFrom place index vs) (hm' : m' ∈ itemsFrom place index vs)
    (h : m.place = m'.place) : m = m' := by
  induction vs generalizing index with
  | nil => cases hm
  | cons v vs ih =>
    rcases List.mem_cons.1 hm with rfl | hm
    · rcases List.mem_cons.1 hm' with rfl | hm'
      · rfl
      · exact absurd h.symm (place_ne_of_mem_itemsFrom_succ hm')
    · rcases List.mem_cons.1 hm' with rfl | hm'
      · exact absurd h (place_ne_of_mem_itemsFrom_succ hm)
      · exact ih hm hm'

theorem value_eq_of_nodup {fields : List (String × Json)} (hkeys : (fields.map (·.1)).Nodup)
    {key : String} {v v' : Json} (h : (key, v) ∈ fields) (h' : (key, v') ∈ fields) : v = v' := by
  exact (Prod.mk.inj (List.inj_on_of_nodup_map hkeys h h' rfl)).2

theorem step_eq_of_append {a a' p : Place} {step step' : Step}
    (h : a ++ step :: p = a' ++ step' :: p) : a = a' ∧ step = step' := by
  rw [List.append_cons, List.append_cons a'] at h
  obtain ⟨ha, hstep⟩ := List.append_inj' (List.append_cancel_right h) rfl
  exact ⟨ha, List.head_eq_of_cons_eq hstep⟩

/-- The children of a node are told apart by any place below them. -/
theorem eq_of_mem_children {n c c' : Node} (hkeys : (n.value.fields.map (·.1)).Nodup)
    (hc : c ∈ n.children) (hc' : c' ∈ n.children) {place : Place} (h : c.place <:+ place)
    (h' : c'.place <:+ place) : c = c' := by
  obtain ⟨key, v, hmem, hnode, hform⟩ := exists_of_mem_children hc
  obtain ⟨key', v', hmem', hnode', hform'⟩ := exists_of_mem_children hc'
  obtain ⟨a, ha⟩ := h
  obtain ⟨a', ha'⟩ := h'
  -- an object holds no items, so a field that is a node is not also a list
  have hobject : ∀ {w : Json} {m : Node} {p : Place}, isNode w = true → m ∈ itemsFrom p 0 w.items →
      False := by
    intro w m p hw hm
    cases w <;> simp [isNode, Json.field?, Json.items, itemsFrom] at hw hm
  have hsame : key = key' → v = v' := by
    rintro rfl
    exact value_eq_of_nodup hkeys hmem hmem'
  rcases hform with rfl | hitem
  · rcases hform' with rfl | hitem'
    · obtain ⟨-, hkey⟩ := step_eq_of_append (ha.trans ha'.symm)
      cases hkey
      rw [hsame rfl]
    · obtain ⟨i, hi⟩ := place_of_mem_itemsFrom hitem'
      rw [hi, List.append_cons] at ha'
      obtain ⟨-, hkey⟩ := step_eq_of_append (ha.trans ha'.symm)
      cases hkey
      rw [← hsame rfl] at hitem'
      exact absurd hitem' (hobject hnode)
  · obtain ⟨i, hi⟩ := place_of_mem_itemsFrom hitem
    rw [hi, List.append_cons] at ha
    rcases hform' with rfl | hitem'
    · obtain ⟨-, hkey⟩ := step_eq_of_append (ha.trans ha'.symm)
      cases hkey
      rw [hsame rfl] at hitem
      exact absurd hitem (hobject hnode')
    · obtain ⟨i', hi'⟩ := place_of_mem_itemsFrom hitem'
      rw [hi', List.append_cons] at ha'
      obtain ⟨hrest, hkey⟩ := step_eq_of_append (ha.trans ha'.symm)
      cases hkey
      obtain ⟨-, hindex⟩ := List.append_inj' hrest rfl
      cases hindex
      rw [← hsame rfl] at hitem'
      exact eq_of_mem_itemsFrom hitem hitem' (hi.trans hi'.symm)

theorem nodup_fieldNodes {n : Node} {fields : List (String × Json)}
    (hkeys : (fields.map (·.1)).Nodup) : (n.fieldNodes fields).Nodup := by
  induction fields with
  | nil => exact List.nodup_nil
  | cons f rest ih =>
    obtain ⟨key, v⟩ := f
    obtain ⟨hkey, hrest⟩ := List.nodup_cons.1 hkeys
    rw [fieldNodes.eq_def]
    dsimp only
    split
    · exact ih hrest
    · -- the places below one field do not begin with another one
      have hbelow : ∀ {m : Node}, m ∈ nodesOf (⟨.field key :: n.place, v⟩ ::
          items ⟨.field key :: n.place, v⟩) → .field key :: n.place <:+ m.place := by
        intro m hm
        rcases List.mem_cons.1 (List.mem_filter.1 hm).1 with rfl | hm
        · exact List.suffix_rfl
        · obtain ⟨i, hi⟩ := place_of_mem_itemsFrom hm
          exact hi ▸ List.suffix_cons _ _
      have hitem : ⟨.field key :: n.place, v⟩ ∉ items ⟨.field key :: n.place, v⟩ := by
        intro h
        obtain ⟨i, hi⟩ := place_of_mem_itemsFrom h
        exact absurd (congrArg List.length hi) (by simp)
      refine List.nodup_append.2 ⟨(List.nodup_cons.2 ⟨hitem, nodup_itemsFrom _ _ _⟩).filter _,
        ih hrest, fun m hm m' hm' heq => ?_⟩
      subst heq
      obtain ⟨a, ha⟩ := hbelow hm
      obtain ⟨key', v', hmem, -, hform⟩ := mem_fieldNodes hm'
      have hsuffix : .field key' :: n.place <:+ m.place := by
        rcases hform with rfl | hitem
        · exact List.suffix_rfl
        · obtain ⟨i, hi⟩ := place_of_mem_itemsFrom hitem
          exact hi ▸ List.suffix_cons _ _
      obtain ⟨a', ha'⟩ := hsuffix
      cases (step_eq_of_append (ha.trans ha'.symm)).2
      exact hkey (List.mem_map.2 ⟨_, hmem, rfl⟩)

theorem nodup_children {n : Node} (hkeys : (n.value.fields.map (·.1)).Nodup) : n.children.Nodup :=
  (perm_sortStable _ _).nodup_iff.2 (nodup_fieldNodes hkeys)

theorem length_lt_of_mem_children {n c : Node} (hc : c ∈ n.children) :
    n.place.length < c.place.length := by
  obtain ⟨step, path, hplace, hpath⟩ := place_of_mem_children hc
  rw [hplace, List.length_cons]
  exact Nat.lt_succ_of_le hpath.length_le

theorem place_ne_of_mem_child {n c m : Node} (hc : c ∈ n.children) (hm : m ∈ c.all) :
    m.place ≠ n.place := by
  intro h
  have h1 := length_lt_of_mem_children hc
  have h2 := (suffix_of_mem_all hm).length_le
  rw [h] at h2
  omega

theorem KeysDistinct.of_child {n c : Node} (h : n.KeysDistinct) (hc : c ∈ n.children) :
    c.KeysDistinct := fun m hm => h m (mem_all_of_child hc hm)

/-- **A place names one node.** -/
theorem eq_of_place {n m m' : Node} (hkeys : n.KeysDistinct) (hm : m ∈ n.all) (hm' : m' ∈ n.all)
    (h : m.place = m'.place) : m = m' := by
  induction n using induct with
  | step n ih =>
    rcases mem_all_iff.1 hm with rfl | ⟨c, hc, hmc⟩
    · rcases mem_all_iff.1 hm' with rfl | ⟨c, hc, hmc⟩
      · rfl
      · exact absurd h.symm (place_ne_of_mem_child hc hmc)
    · rcases mem_all_iff.1 hm' with rfl | ⟨c', hc', hmc'⟩
      · exact absurd h (place_ne_of_mem_child hc hmc)
      · obtain rfl : c = c' := eq_of_mem_children (hkeys n n.mem_all_self) hc hc'
          (suffix_of_mem_all hmc) (h ▸ suffix_of_mem_all hmc')
        exact ih c hc (hkeys.of_child hc) hmc hmc'

/-- A node that is read from a field of one node and is a child of another is read from that one. -/
theorem eq_of_get_mem_children {n p q : Node} (hkeys : n.KeysDistinct) (hp : p ∈ n.all)
    (hq : q ∈ n.all) {key : String} (hc : q.get key ∈ p.children) : q = p := by
  obtain ⟨key', v, -, -, hm | hm⟩ := exists_of_mem_children hc
  · have hplace : (q.get key).place = .field key' :: p.place := congrArg Node.place hm
    exact eq_of_place hkeys hq hp (List.tail_eq_of_cons_eq hplace)
  · obtain ⟨i, hi⟩ := place_of_mem_itemsFrom hm
    cases (List.head_eq_of_cons_eq hi : Step.field key = Step.item i)

theorem mem_all_of_suffix {n m d : Node} (hkeys : n.KeysDistinct) (hd : d ∈ n.all) (hm : m ∈ n.all)
    (h : d.place <:+ m.place) : m ∈ d.all := by
  induction n using induct with
  | step n ih =>
    rcases mem_all_iff.1 hd with rfl | ⟨c, hc, hdc⟩
    · exact hm
    · have hcm : c.place <:+ m.place := (suffix_of_mem_all hdc).trans h
      rcases mem_all_iff.1 hm with rfl | ⟨c', hc', hmc⟩
      · have hlt := length_lt_of_mem_children hc
        have hle := hcm.length_le
        omega
      · obtain rfl : c = c' := eq_of_mem_children (hkeys n n.mem_all_self) hc hc' hcm
          (suffix_of_mem_all hmc)
        exact ih c hc (hkeys.of_child hc) hdc hmc

/-! ### Parents -/

theorem exists_parent {n m : Node} (hm : m ∈ n.all) (hne : m ≠ n) : ∃ p ∈ n.all, m ∈ p.children := by
  induction n using induct with
  | step n ih =>
    obtain rfl | ⟨c, hc, hmc⟩ := mem_all_iff.1 hm
    · exact absurd rfl hne
    · by_cases hmc' : m = c
      · exact ⟨n, n.mem_all_self, hmc' ▸ hc⟩
      · obtain ⟨p, hp, hmp⟩ := ih c hc hmc hmc'
        exact ⟨p, mem_all_of_child hc hp, hmp⟩

theorem place_eq_of_mem_children {p q c c' : Node} (hc : c ∈ p.children) (hc' : c' ∈ q.children)
    (h : c.place = c'.place) : p.place = q.place := by
  have hplace : ∀ {n m : Node}, m ∈ n.children →
      (∃ key, m.place = .field key :: n.place) ∨ ∃ i key, m.place = .item i :: .field key :: n.place := by
    intro n m hm
    obtain ⟨key, v, -, -, rfl | hitem⟩ := exists_of_mem_children hm
    · exact Or.inl ⟨key, rfl⟩
    · obtain ⟨i, hi⟩ := place_of_mem_itemsFrom hitem
      exact Or.inr ⟨i, key, hi⟩
  rcases hplace hc with ⟨key, hk⟩ | ⟨i, key, hk⟩ <;> rcases hplace hc' with ⟨key', hk'⟩ | ⟨i', key', hk'⟩ <;>
    rw [hk, hk'] at h
  · exact List.tail_eq_of_cons_eq h
  · cases (List.head_eq_of_cons_eq h : Step.field key = Step.item i')
  · cases (List.head_eq_of_cons_eq h : Step.item i = Step.field key')
  · exact List.tail_eq_of_cons_eq (List.tail_eq_of_cons_eq h)

/-- If a child lies below a node and is not that node, then its parent lies below it too. -/
theorem mem_all_of_mem_children_of_ne {n p c d : Node} (hkeys : n.KeysDistinct) (hp : p ∈ n.all)
    (hd : d ∈ n.all) (hc : c ∈ p.children) (hcd : c ∈ d.all) (hne : c ≠ d) : p ∈ d.all := by
  obtain ⟨q, hq, hcq⟩ := exists_parent hcd hne
  obtain rfl := eq_of_place hkeys hp (mem_all_trans hd hq) (place_eq_of_mem_children hc hcq rfl)
  exact hq

/-- A node that stands at the place of a field is a child of what stands where the field is read from. -/
theorem exists_parent_of_place_get {n p q : Node} (hq : q ∈ n.all) {key : String}
    (h : q.place = (p.get key).place) (hp : n.place <:+ p.place) :
    ∃ r ∈ n.all, r.place = p.place ∧ q ∈ r.children := by
  have hroot : q ≠ n := by
    rintro rfl
    have hle := hp.length_le
    rw [h, Node.get, List.length_cons] at hle
    omega
  obtain ⟨r, hr, hqr⟩ := exists_parent hq hroot
  refine ⟨r, hr, ?_, hqr⟩
  obtain ⟨key', v, -, -, rfl | hitem⟩ := exists_of_mem_children hqr
  · exact List.tail_eq_of_cons_eq h
  · obtain ⟨i, hi⟩ := place_of_mem_itemsFrom hitem
    cases (List.head_eq_of_cons_eq (hi.symm.trans h) : Step.item i = Step.field key)

theorem eq_of_place_item {n m p q : Node} (hkeys : n.KeysDistinct) (hm : m ∈ n.all) {key : String}
    (hp : p ∈ m.list key) (hq : q ∈ n.all) (h : q.place = p.place) : q = p := by
  obtain ⟨i, hi⟩ := place_of_mem_itemsFrom hp
  have hplace : q.place = .item i :: .field key :: m.place := h.trans hi
  have hroot : q ≠ n := by
    rintro rfl
    have hle := (suffix_of_mem_all hm).length_le
    rw [hplace, List.length_cons, List.length_cons] at hle
    omega
  obtain ⟨r, hr, hqr⟩ := exists_parent hq hroot
  obtain ⟨key', v, hv, -, rfl | hitem⟩ := exists_of_mem_children hqr
  · cases (List.head_eq_of_cons_eq hplace : Step.field key' = Step.item i)
  · obtain ⟨j, hj⟩ := place_of_mem_itemsFrom hitem
    rw [hj] at hplace
    have hrest := List.tail_eq_of_cons_eq hplace
    obtain rfl := eq_of_place hkeys hr hm (List.tail_eq_of_cons_eq hrest)
    cases (List.head_eq_of_cons_eq hrest : Step.field key' = Step.field key)
    have hvalue : (r.get key).value = v := by
      cases hr' : r.value with
      | obj fields =>
        cases hf : Json.fieldIn key fields with
        | none => simp [list, items, Node.get, hr', Json.get, Json.field?, hf, Json.items, itemsFrom] at hp
        | some v' =>
          have hmem : (key, v') ∈ r.value.fields := by
            rw [hr']
            exact Json.fieldIn_mem hf
          rw [value_eq_of_nodup (hkeys r hr) hv hmem]
          simp [Node.get, hr', Json.get, Json.field?, hf]
      | _ => simp [hr', Json.fields] at hv
    rw [list, items, hvalue] at hp
    exact eq_of_mem_itemsFrom hitem hp h

end ContentAssist.Node
