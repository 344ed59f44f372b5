import ContentAssist.Completion.Site
import ContentAssist.Inference.Enter
import ContentAssist.Proofs.Tree.Visit

/-! # The identifiers of a tree

Rules read names off the identifiers in the fields of a node, in the items of lists there, or further
down. All of them are among the identifiers in the value of the node.

* `Json.identifiers`: the names of all identifiers in a value;
* `identifiers_get`, `identifiers_list`, `identifiers_children`: those further down are among them;
* `propertyName?_mem`, `rightMost?_mem`, `paramName_mem`: the names that rules read. -/

namespace ContentAssist

namespace Json

mutual

/-- The names of all identifiers in a value, however deep. -/
def identifiers : Json → List String
  | arr items => itemIdentifiers items
  | obj fields => (Node.root (obj fields)).identifier?.toList ++ fieldIdentifiers fields
  | _ => []

/-- The names of all identifiers in the items. -/
def itemIdentifiers : List Json → List String
  | [] => []
  | v :: rest => identifiers v ++ itemIdentifiers rest

/-- The names of all identifiers in the fields. -/
def fieldIdentifiers : List (String × Json) → List String
  | [] => []
  | (_, v) :: rest => identifiers v ++ fieldIdentifiers rest

end

variable {v : Json}

theorem itemIdentifiers_of_mem {items : List Json} (h : v ∈ items) :
    v.identifiers ⊆ itemIdentifiers items := by
  induction items with
  | nil => cases h
  | cons w rest ih =>
    rw [itemIdentifiers]
    rcases List.mem_cons.1 h with rfl | h
    · exact List.subset_append_left _ _
    · exact List.Subset.trans (ih h) (List.subset_append_right _ _)

theorem fieldIdentifiers_of_mem {fields : List (String × Json)} {key : String} (h : (key, v) ∈ fields) :
    v.identifiers ⊆ fieldIdentifiers fields := by
  induction fields with
  | nil => cases h
  | cons f rest ih =>
    obtain ⟨key', w⟩ := f
    rw [fieldIdentifiers]
    rcases List.mem_cons.1 h with heq | h
    · cases heq
      exact List.subset_append_left _ _
    · exact List.Subset.trans (ih h) (List.subset_append_right _ _)

theorem identifiers_of_mem_fields {w : Json} {key : String} (h : (key, v) ∈ w.fields) :
    v.identifiers ⊆ w.identifiers := by
  cases w with
  | obj fields => exact List.Subset.trans (fieldIdentifiers_of_mem h) (List.subset_append_right _ _)
  | _ => cases h

theorem identifiers_of_mem_items {w : Json} (h : v ∈ w.items) : v.identifiers ⊆ w.identifiers := by
  cases w with
  | arr items => exact itemIdentifiers_of_mem h
  | _ => cases h

theorem identifiers_get (v : Json) (key : String) : (v.get key).identifiers ⊆ v.identifiers := by
  unfold get
  cases hf : v.field? key with
  | none => exact List.nil_subset _
  | some w =>
    have hw : (key, w) ∈ v.fields := by
      cases v with
      | obj fields => exact fieldIn_mem hf
      | _ => cases hf
    exact identifiers_of_mem_fields hw

end Json

namespace Node

variable {n m id : Node} {x : String}

/-- The names of all identifiers in the value of a node. -/
def identifiers (n : Node) : List String := n.value.identifiers

theorem identifiers_get (n : Node) (key : String) : (n.get key).identifiers ⊆ n.identifiers :=
  n.value.identifiers_get key

theorem identifiers_list {key : String} (h : m ∈ n.list key) : m.identifiers ⊆ n.identifiers :=
  List.Subset.trans (Json.identifiers_of_mem_items (value_mem_of_mem_itemsFrom h))
    (n.identifiers_get key)

theorem identifiers_children (h : m ∈ n.children) : m.identifiers ⊆ n.identifiers := by
  obtain ⟨key, v, hf, -, rfl | hm⟩ := exists_of_mem_children h
  · exact Json.identifiers_of_mem_fields hf
  · exact List.Subset.trans (Json.identifiers_of_mem_items (value_mem_of_mem_itemsFrom hm))
      (Json.identifiers_of_mem_fields hf)

theorem identifiers_all (h : m ∈ n.all) : m.identifiers ⊆ n.identifiers := by
  induction n using induct with
  | step n ih =>
    rcases mem_all_iff.1 h with rfl | ⟨c, hc, hm⟩
    · exact List.Subset.refl _
    · exact List.Subset.trans (ih c hc hm) (identifiers_children hc)

/-! ### Names that are read -/

theorem identifier?_mem (h : n.identifier? = some x) : x ∈ n.identifiers := by
  obtain ⟨place, v⟩ := n
  have hobject := isObject_of_kind (n := ⟨place, v⟩) (by rw [kind_of_identifier? h]; decide)
  cases v with
  | obj fields =>
    refine List.mem_append_left _ ?_
    rw [show (root (.obj fields)).identifier? = some x from h]
    exact List.mem_singleton_self x
  | _ => cases hobject

theorem name_mem (hkind : n.kind = .identifier) (h : n.name = some x) : x ∈ n.identifiers :=
  identifier?_mem ((identifier?_of_kind hkind).trans h)

theorem rightMost?_mem (hid : n.rightMost? = some id) (h : id.name = some x) : x ∈ n.identifiers := by
  induction n using rightMost?.induct with
  | case1 n hkind =>
    rw [rightMost?.eq_def] at hid
    split at hid
    · cases hid
      exact name_mem hkind h
    all_goals simp_all
  | case2 n hkind ih =>
    rw [rightMost?.eq_def] at hid
    split at hid
    · simp_all
    · exact n.identifiers_get _ (ih hid)
    · cases hid
  | case3 n h1 h2 =>
    rw [rightMost?.eq_def] at hid
    split at hid
    · exact absurd ‹_› h1
    · exact absurd ‹_› h2
    · cases hid

theorem hoverTarget?_mem {offset : Int} (hid : hoverTarget? n offset = some id) (h : id.name = some x) :
    x ∈ n.identifiers := by
  unfold hoverTarget? at hid
  rcases hv : n.visit (.entering (enterHover offset)) () with ⟨_ | a, s⟩ <;> rw [hv] at hid
  · cases hid
  · obtain rfl : a = some id := hid
    obtain ⟨m, hm, s₀, hstep | hstep⟩ := exists_step_of_visit hv
    · change enterHover offset m s₀ = _ at hstep
      unfold enterHover at hstep
      split at hstep
      · rename_i hkind
        cases hstep
        exact identifiers_all hm (name_mem hkind.1 h)
      · split at hstep
        · split at hstep <;> cases hstep
        · cases hstep
    · cases hstep

end Node

namespace Inference

variable {n : Node} {x : String}

theorem propertyName?_mem (h : propertyName? n = some x) : x ∈ n.identifiers := by
  unfold propertyName? at h
  split at h
  · cases h
  · exact n.identifiers_get _ (Node.identifier?_mem h)

theorem paramName_mem (n : Node) : paramName n = "" ∨ paramName n ∈ n.identifiers := by
  induction n using paramName.induct with
  | case1 n hkind ih =>
    rw [paramName.eq_def, hkind]
    exact ih.imp_right fun h => n.identifiers_get _ h
  | case2 n hkind ih =>
    rw [paramName.eq_def, hkind]
    exact ih.imp_right fun h => n.identifiers_get _ h
  | case3 n h1 h2 =>
    have hname : paramName n = n.identifier?.getD "" := by
      rw [paramName.eq_def]
      split <;> simp_all
    rw [hname]
    cases hid : n.identifier? with
    | none => exact Or.inl rfl
    | some x => exact Or.inr (Node.identifier?_mem hid)

end Inference

end ContentAssist
