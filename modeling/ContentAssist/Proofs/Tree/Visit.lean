import ContentAssist.Tree.Walk
import Mathlib.Data.List.Basic

/-! # Induction over a walk

A walk of the tree below a node is one step down, the walks below the children one after the other,
and one step up: `visit_eq`. Statements about walks are therefore proved by induction from the
children to the node, `Node.induct`. The place of a child extends that of its node, so what is said
about places below a node holds below its children too.

`Visitor.located` lets a visitor answer together with the node at which it answered; the walk is
the same otherwise (`visit_located`). -/

namespace ContentAssist

theorem startsNoLater_total (a b : Option Int) : startsNoLater a b = true ∨ startsNoLater b a = true := by
  cases a <;> cases b <;> simp [startsNoLater]
  omega

theorem startsNoLater_trans (a b c : Option Int) (hab : startsNoLater a b = true)
    (hbc : startsNoLater b c = true) : startsNoLater a c = true := by
  cases a <;> cases b <;> cases c <;> simp [startsNoLater] at hab hbc ⊢
  omega

theorem startsNoLater_antisymm {a b : Option Int} (hab : startsNoLater a b = true)
    (hba : startsNoLater b a = true) : a = b := by
  cases a <;> cases b <;> simp [startsNoLater] at hab hba ⊢
  omega

namespace Node

/-! ### Children -/

theorem mem_fieldNodes {n m : Node} {fields : List (String × Json)} (h : m ∈ n.fieldNodes fields) :
    ∃ key v, (key, v) ∈ fields ∧ isNode m.value = true ∧
      (m = ⟨.field key :: n.place, v⟩ ∨ m ∈ itemsFrom (.field key :: n.place) 0 v.items) := by
  induction fields with
  | nil => simp [fieldNodes] at h
  | cons f rest ih =>
    obtain ⟨key, v⟩ := f
    rw [fieldNodes.eq_def] at h
    by_cases hk : key ∈ bookkeepingFields
    · simp only [hk, if_true] at h
      obtain ⟨key', v', hm, hn⟩ := ih h
      exact ⟨key', v', List.mem_cons_of_mem _ hm, hn⟩
    · simp only [hk, if_false, List.mem_append] at h
      rcases h with h | h
      · rw [nodesOf, List.mem_filter] at h
        refine ⟨key, v, List.mem_cons_self, h.2, ?_⟩
        rcases List.mem_cons.1 h.1 with h | h
        · exact Or.inl h
        · exact Or.inr h
      · obtain ⟨key', v', hm, hn⟩ := ih h
        exact ⟨key', v', List.mem_cons_of_mem _ hm, hn⟩

theorem place_of_mem_itemsFrom {place : Place} {index : Nat} {vs : List Json} {m : Node}
    (h : m ∈ itemsFrom place index vs) : ∃ i, m.place = .item i :: place := by
  induction vs generalizing index with
  | nil => simp [itemsFrom] at h
  | cons v vs ih =>
    rcases List.mem_cons.1 h with rfl | h
    · exact ⟨index, rfl⟩
    · exact ih h

theorem mem_children {n m : Node} : m ∈ n.children ↔ m ∈ n.fieldNodes n.value.fields :=
  (perm_sortStable _ _).mem_iff

theorem pairwise_children (n : Node) :
    n.children.Pairwise fun c c' => startsNoLater c.start? c'.start? = true := by
  refine pairwise_sortStable (fun a b => ?_) (fun a b c => ?_) _
  · exact startsNoLater_total a.start? b.start?
  · exact startsNoLater_trans a.start? b.start? c.start?

/-- The children of a node stand in its fields. -/
theorem exists_of_mem_children {n m : Node} (h : m ∈ n.children) :
    ∃ key v, (key, v) ∈ n.value.fields ∧ isNode m.value = true ∧
      (m = ⟨.field key :: n.place, v⟩ ∨ m ∈ itemsFrom (.field key :: n.place) 0 v.items) :=
  mem_fieldNodes (mem_children.1 h)

theorem isNode_of_kind {n : Node} (h : n.kind ≠ .other) : isNode n.value = true := by
  unfold isNode
  cases hv : n.value.field? "type" with
  | none => simp [kind, Json.get, hv, Json.str?] at h
  | some v => rfl

theorem kind_of_identifier? {n : Node} {name : String} (h : n.identifier? = some name) :
    n.kind = .identifier := by
  unfold identifier? at h
  split at h
  · assumption
  · cases h

theorem identifier?_of_kind {n : Node} (hkind : n.kind = .identifier) : n.identifier? = n.name :=
  if_pos hkind

theorem mem_fieldNodes_of_mem {n : Node} {fields : List (String × Json)} {key : String} {v : Json}
    (h : (key, v) ∈ fields) (hkey : key ∉ bookkeepingFields) (hnode : isNode v = true) :
    ⟨.field key :: n.place, v⟩ ∈ n.fieldNodes fields := by
  induction fields with
  | nil => cases h
  | cons f rest ih =>
    obtain ⟨key', v'⟩ := f
    rw [fieldNodes.eq_def]
    rcases List.mem_cons.1 h with heq | h
    · cases heq
      simp [hkey, nodesOf, hnode]
    · dsimp only
      split
      · exact ih h
      · exact List.mem_append_right _ (ih h)

/-- A node that is read from a field is a child, unless the field is one of the parser's own. -/
theorem get_mem_children {n : Node} {key : String} (hnode : isNode (n.get key).value = true)
    (hkey : key ∉ bookkeepingFields) : n.get key ∈ n.children := by
  cases hn : n.value with
  | obj fields =>
    cases hf : Json.fieldIn key fields with
    | none => simp [Node.get, hn, Json.get, Json.field?, hf, isNode] at hnode
    | some v =>
      have hv : (n.get key).value = v := by simp [Node.get, hn, Json.get, Json.field?, hf]
      rw [mem_children, hn, show n.get key = ⟨.field key :: n.place, v⟩ by rw [← hv]; rfl]
      exact mem_fieldNodes_of_mem (Json.fieldIn_mem hf) hkey (hv ▸ hnode)
  | _ => simp [Node.get, hn, Json.get, Json.field?, isNode] at hnode

theorem mem_children_of_mem_list {n m : Node} {key : String} (hm : m ∈ n.list key)
    (hnode : isNode m.value = true) (hkey : key ∉ bookkeepingFields) : m ∈ n.children := by
  have hfield : ∀ {fields : List (String × Json)} {v : Json}, Json.fieldIn key fields = some v →
      m ∈ itemsFrom (.field key :: n.place) 0 v.items → m ∈ n.fieldNodes fields := by
    intro fields v hf hitem
    induction fields with
    | nil => cases hf
    | cons f rest ih =>
      obtain ⟨key', v'⟩ := f
      rw [Json.fieldIn] at hf
      rw [fieldNodes.eq_def]
      dsimp only
      split at hf
      · rename_i heq
        subst heq
        cases hf
        rw [if_neg hkey]
        exact List.mem_append_left _ (List.mem_filter.2 ⟨List.mem_cons_of_mem _ hitem, hnode⟩)
      · split
        · exact ih hf
        · exact List.mem_append_right _ (ih hf)
  rw [mem_children]
  cases hn : n.value with
  | obj fields =>
    cases hf : Json.fieldIn key fields with
    | none => simp [list, items, Node.get, hn, Json.get, Json.field?, hf, Json.items, itemsFrom] at hm
    | some v =>
      have hv : (n.get key).value = v := by simp [Node.get, hn, Json.get, Json.field?, hf]
      rw [list, items, hv] at hm
      exact hfield hf hm
  | _ => simp [list, items, Node.get, hn, Json.get, Json.field?, Json.items, itemsFrom] at hm

theorem sizeOf_lt_of_mem_children {n m : Node} (h : m ∈ n.children) :
    sizeOf m.value < sizeOf n.value := by
  obtain ⟨key, v, hf, -, hm⟩ := exists_of_mem_children h
  have hv : sizeOf v < sizeOf n.value := by
    cases hn : n.value with
    | obj fs =>
      rw [hn] at hf
      have := List.sizeOf_lt_of_mem (show (key, v) ∈ fs from hf)
      simp only [Json.obj.sizeOf_spec, Prod.mk.sizeOf_spec] at this ⊢
      omega
    | _ => simp [hn, Json.fields] at hf
  rcases hm with rfl | hm
  · exact hv
  · exact Nat.lt_trans (Json.sizeOf_lt_of_item (value_mem_of_mem_itemsFrom hm)) hv

theorem place_of_mem_children {n m : Node} (h : m ∈ n.children) :
    ∃ step path, m.place = step :: path ∧ n.place <:+ path := by
  obtain ⟨key, v, -, -, rfl | hm⟩ := exists_of_mem_children h
  · exact ⟨_, _, rfl, List.suffix_rfl⟩
  · obtain ⟨i, hi⟩ := place_of_mem_itemsFrom hm
    exact ⟨_, _, hi, List.suffix_cons _ _⟩

theorem suffix_of_mem_children {n m : Node} (h : m ∈ n.children) : n.place <:+ m.place := by
  obtain ⟨step, path, hm, hs⟩ := place_of_mem_children h
  exact hm ▸ hs.trans (List.suffix_cons _ _)

/-- **Induction from the children to the node.** -/
theorem induct {P : Node → Prop} (step : ∀ n : Node, (∀ c ∈ n.children, P c) → P n) (n : Node) :
    P n := by
  induction hk : sizeOf n.value using Nat.strongRecOn generalizing n with
  | _ k ih =>
    subst hk
    exact step n fun c hc => ih _ (sizeOf_lt_of_mem_children hc) c rfl

/-! ### Walks -/

/-- Walks the trees below nodes one after the other, up to the first answer. -/
def visitEach {σ α : Type} (v : Visitor σ α) : List Node → σ → Option α × σ
  | [], s => (none, s)
  | n :: ns, s =>
    match n.visit v s with
    | (some a, s) => (some a, s)
    | (none, s) => visitEach v ns s

theorem visitAll_map_tree {σ α : Type} (v : Visitor σ α) (ns : List Node) (s : σ) :
    visitAll v (ns.map Node.tree) s = visitEach v ns s := by
  induction ns generalizing s with
  | nil => rfl
  | cons n ns ih =>
    rw [List.map_cons, visitAll, visitEach, Node.visit]
    rcases n.tree.visit v s with ⟨_ | a, s'⟩
    · exact ih s'
    · rfl

theorem tree_eq (n : Node) : n.tree = .mk n (n.children.map Node.tree) := by
  have hr := root_tree n
  have hs := subtrees_tree n
  cases ht : n.tree with
  | mk m ts =>
    rw [ht] at hr hs
    exact congrArg₂ Tree.mk hr hs

/-- **A walk is a step down, the walks of the children, and a step up.** -/
theorem visit_eq {σ α : Type} (n : Node) (v : Visitor σ α) (s : σ) :
    n.visit v s =
      match v.enter n s with
      | (.found a, s) => (some a, s)
      | (.skip, s) => (none, s)
      | (.descend, s) =>
        match visitEach v n.children s with
        | (some a, s) => (some a, s)
        | (none, s) => v.leave n s := by
  rw [Node.visit, tree_eq, Tree.visit]
  rcases v.enter n s with ⟨_ | _ | a, s'⟩
  · dsimp only
    exact congrArg (fun r : Option α × σ =>
      match r with
      | (some a, s) => (some a, s)
      | (none, s) => v.leave n s) (visitAll_map_tree v n.children s')
  · rfl
  · rfl

/-! ### The nodes below a node -/

/-- The visitor that collects the nodes on the way down, latest first. -/
def collector : Visitor (List Node) Unit := .entering fun m seen => (.descend, m :: seen)

theorem visit_collector (n : Node) (seen : List Node) :
    n.visit collector seen = (none, n.all.reverse ++ seen) := by
  have key : ∀ n : Node, ∃ l : List Node, ∀ seen, n.visit collector seen = (none, l ++ seen) := by
    refine induct fun n ih => ?_
    -- the walks of the children put one list each in front of what was seen
    have each : ∀ ns : List Node, (∀ c ∈ ns, c ∈ n.children) →
        ∃ l : List Node, ∀ seen, visitEach collector ns seen = (none, l ++ seen) := by
      intro ns
      induction ns with
      | nil => exact fun _ => ⟨[], fun seen => rfl⟩
      | cons c cs ihc =>
        intro hsub
        obtain ⟨l, hl⟩ := ih c (hsub c List.mem_cons_self)
        obtain ⟨ls, hls⟩ := ihc fun c' hc' => hsub c' (List.mem_cons_of_mem _ hc')
        exact ⟨ls ++ l, fun seen => by simp [visitEach, hl, hls]⟩
    obtain ⟨l, hl⟩ := each n.children fun c hc => hc
    refine ⟨l ++ [n], fun seen => ?_⟩
    rw [visit_eq, show collector.enter n seen = (.descend, n :: seen) from rfl]
    simp only [hl, List.append_assoc]
    rfl
  obtain ⟨l, hl⟩ := key n
  have hall : n.all = l.reverse := by
    simpa [Node.all, collector] using congrArg (fun r => r.2.reverse) (hl [])
  rw [hl, hall, List.reverse_reverse]

theorem visitEach_collector (ns : List Node) (seen : List Node) :
    visitEach collector ns seen = (none, (ns.flatMap Node.all).reverse ++ seen) := by
  induction ns generalizing seen with
  | nil => rfl
  | cons n ns ih => simp [visitEach, visit_collector, ih]

theorem all_eq (n : Node) : n.all = n :: n.children.flatMap Node.all := by
  have h := visit_collector n []
  rw [visit_eq, show collector.enter n [] = (.descend, [n]) from rfl] at h
  simp only [visitEach_collector] at h
  have h' : (n.children.flatMap Node.all).reverse ++ [n] = n.all.reverse ++ [] :=
    congrArg Prod.snd h
  simpa using (congrArg List.reverse h').symm

theorem mem_all_iff {n m : Node} : m ∈ n.all ↔ m = n ∨ ∃ c ∈ n.children, m ∈ c.all := by
  rw [all_eq, List.mem_cons, List.mem_flatMap]

theorem mem_all_self (n : Node) : n ∈ n.all := mem_all_iff.2 (Or.inl rfl)

theorem mem_all_of_child {n c m : Node} (hc : c ∈ n.children) (hm : m ∈ c.all) : m ∈ n.all :=
  mem_all_iff.2 (Or.inr ⟨c, hc, hm⟩)

theorem mem_all_of_mem_children {n c : Node} (hc : c ∈ n.children) : c ∈ n.all :=
  mem_all_of_child hc c.mem_all_self

theorem mem_all_trans {n m k : Node} (hm : m ∈ n.all) (hk : k ∈ m.all) : k ∈ n.all := by
  induction n using induct with
  | step n ih =>
    rcases mem_all_iff.1 hm with rfl | ⟨c, hc, hm⟩
    · exact hk
    · exact mem_all_of_child hc (ih c hc hm)

theorem suffix_of_mem_all {n m : Node} (h : m ∈ n.all) : n.place <:+ m.place := by
  induction n using induct with
  | step n ih =>
    rcases mem_all_iff.1 h with rfl | ⟨c, hc, hm⟩
    · exact List.suffix_rfl
    · exact (suffix_of_mem_children hc).trans (ih c hc hm)

/-- **A visitor that is never done on the way down** folds over the nodes of the tree. -/
theorem visit_entering {σ α : Type} (step : σ → Node → σ) (n : Node) (s : σ) :
    n.visit (α := α) (.entering fun m s => (.descend, step s m)) s = (none, n.all.foldl step s) := by
  induction n using induct generalizing s with
  | step n ih =>
    have each : ∀ ns : List Node, (∀ c ∈ ns, c ∈ n.children) → ∀ s,
        visitEach (α := α) (.entering fun m s => (.descend, step s m)) ns s =
          (none, (ns.flatMap Node.all).foldl step s) := by
      intro ns
      induction ns with
      | nil => exact fun _ _ => rfl
      | cons c cs ihc =>
        intro hsub s
        rw [visitEach, ih c (hsub c List.mem_cons_self), List.flatMap_cons, List.foldl_append]
        exact ihc (fun k hk => hsub k (List.mem_cons_of_mem _ hk)) _
    rw [visit_eq, show (Visitor.entering (α := α) fun m s => (.descend, step s m)).enter n s =
      (.descend, step s n) from rfl]
    dsimp only
    rw [each n.children fun _ hc => hc, all_eq n]
    rfl

/-! ### Visitors that do the same -/

theorem visitEach_congr {σ α : Type} {v v' : Visitor σ α} {ns : List Node}
    (ih : ∀ n ∈ ns, ∀ s, n.visit v s = n.visit v' s) (s : σ) :
    visitEach v ns s = visitEach v' ns s := by
  induction ns generalizing s with
  | nil => rfl
  | cons n ns ihn =>
    rw [visitEach, visitEach, ih n List.mem_cons_self]
    rcases n.visit v' s with ⟨_ | a, s'⟩
    · exact ihn (fun k hk => ih k (List.mem_cons_of_mem _ hk)) s'
    · rfl

/-- **Visitors that do the same at the nodes of a tree walk it alike.** -/
theorem visit_congr {σ α : Type} {v v' : Visitor σ α} {n : Node}
    (henter : ∀ m ∈ n.all, ∀ s, v.enter m s = v'.enter m s)
    (hleave : ∀ m ∈ n.all, ∀ s, v.leave m s = v'.leave m s) (s : σ) :
    n.visit v s = n.visit v' s := by
  induction n using induct generalizing s with
  | step n ih =>
    have heach : ∀ s, visitEach v n.children s = visitEach v' n.children s :=
      visitEach_congr fun c hc =>
        ih c hc (fun m hm => henter m (mem_all_of_child hc hm)) fun m hm =>
          hleave m (mem_all_of_child hc hm)
    rw [visit_eq n v, visit_eq n v', henter n n.mem_all_self]
    rcases v'.enter n s with ⟨_ | _ | a, s₁⟩
    · dsimp only
      rw [heach]
      rcases visitEach v' n.children s₁ with ⟨_ | a, s₂⟩
      · exact hleave n n.mem_all_self s₂
      · rfl
    · rfl
    · rfl

section
variable {σ α : Type} {v v' : Visitor σ α} {I : σ → Prop}

theorem visitEach_congr_on {ns : List Node}
    (ih : ∀ n ∈ ns, ∀ s, I s → n.visit v s = n.visit v' s ∧ I (n.visit v s).2) {s : σ} (hs : I s) :
    visitEach v ns s = visitEach v' ns s ∧ I (visitEach v ns s).2 := by
  induction ns generalizing s with
  | nil => exact ⟨rfl, hs⟩
  | cons n ns ihn =>
    obtain ⟨heq, hinv⟩ := ih n List.mem_cons_self s hs
    rw [visitEach, visitEach, ← heq]
    rcases hv : n.visit v s with ⟨_ | a, s'⟩ <;> rw [hv] at hinv
    · exact ihn (fun k hk => ih k (List.mem_cons_of_mem _ hk)) hinv
    · exact ⟨rfl, hinv⟩

/-- **Visitors that do the same in the states that keep an invariant** walk a tree alike from such a
state. -/
theorem visit_congr_on {n : Node}
    (henter : ∀ m ∈ n.all, ∀ s, I s → v.enter m s = v'.enter m s ∧ I (v.enter m s).2)
    (hleave : ∀ m ∈ n.all, ∀ s, I s → v.leave m s = v'.leave m s ∧ I (v.leave m s).2) {s : σ}
    (hs : I s) : n.visit v s = n.visit v' s ∧ I (n.visit v s).2 := by
  induction n using induct generalizing s with
  | step n ih =>
    have heach : ∀ {s}, I s → visitEach v n.children s = visitEach v' n.children s ∧
        I (visitEach v n.children s).2 :=
      visitEach_congr_on fun c hc _ hs =>
        ih c hc (fun m hm => henter m (mem_all_of_child hc hm))
          (fun m hm => hleave m (mem_all_of_child hc hm)) hs
    obtain ⟨he, hinv⟩ := henter n n.mem_all_self s hs
    rw [visit_eq n v, visit_eq n v', ← he]
    rcases hv : v.enter n s with ⟨_ | _ | a, s₁⟩ <;> rw [hv] at hinv
    · obtain ⟨hc, hinv⟩ := heach hinv
      dsimp only
      rw [← hc]
      rcases hv : visitEach v n.children s₁ with ⟨_ | a, s₂⟩ <;> rw [hv] at hinv
      · exact hleave n n.mem_all_self s₂ hinv
      · exact ⟨rfl, hinv⟩
    · exact ⟨rfl, hinv⟩
    · exact ⟨rfl, hinv⟩

end

/-! ### Where an answer comes from -/

theorem exists_step_of_visitEach {σ α : Type} {v : Visitor σ α} {ns : List Node} {s s' : σ} {a : α}
    (ih : ∀ n ∈ ns, ∀ {s}, n.visit v s = (some a, s') →
      ∃ m ∈ n.all, ∃ s₀, v.enter m s₀ = (.found a, s') ∨ v.leave m s₀ = (some a, s'))
    (h : visitEach v ns s = (some a, s')) :
    ∃ n ∈ ns, ∃ m ∈ n.all, ∃ s₀, v.enter m s₀ = (.found a, s') ∨ v.leave m s₀ = (some a, s') := by
  induction ns generalizing s with
  | nil => simp [visitEach] at h
  | cons n ns ihn =>
    rw [visitEach] at h
    split at h
    · rename_i hv
      cases h
      exact ⟨n, List.mem_cons_self, ih n List.mem_cons_self hv⟩
    · obtain ⟨k, hk, hm⟩ := ihn (fun k hk => ih k (List.mem_cons_of_mem _ hk)) h
      exact ⟨k, List.mem_cons_of_mem _ hk, hm⟩

/-- **An answer comes from one of the two steps at a node of the tree.** -/
theorem exists_step_of_visit {σ α : Type} {v : Visitor σ α} {n : Node} {s s' : σ} {a : α}
    (h : n.visit v s = (some a, s')) :
    ∃ m ∈ n.all, ∃ s₀, v.enter m s₀ = (.found a, s') ∨ v.leave m s₀ = (some a, s') := by
  induction n using induct generalizing s with
  | step n ih =>
    rw [visit_eq] at h
    split at h
    · rename_i he
      cases h
      exact ⟨n, n.mem_all_self, s, Or.inl he⟩
    · cases h
    · split at h
      · rename_i hv
        cases h
        obtain ⟨c, hc, m, hm, hs⟩ :=
          exists_step_of_visitEach (fun c hc _ hv => ih c hc hv) hv
        exact ⟨m, mem_all_of_child hc hm, hs⟩
      · exact ⟨n, n.mem_all_self, _, Or.inr h⟩

end Node

/-! ### Answers with their place -/

/-- The visitor that answers together with the node at which it does so. -/
def Visitor.located {σ α : Type} (v : Visitor σ α) : Visitor σ (Node × α) where
  enter n s :=
    match v.enter n s with
    | (.found a, s) => (.found (n, a), s)
    | (.skip, s) => (.skip, s)
    | (.descend, s) => (.descend, s)
  leave n s :=
    match v.leave n s with
    | (some a, s) => (some (n, a), s)
    | (none, s) => (none, s)

theorem located_enter {σ α : Type} (v : Visitor σ α) (n : Node) (s : σ) :
    v.located.enter n s =
      match v.enter n s with
      | (.found a, s) => (.found (n, a), s)
      | (.skip, s) => (.skip, s)
      | (.descend, s) => (.descend, s) := rfl

theorem located_leave {σ α : Type} (v : Visitor σ α) (n : Node) (s : σ) :
    v.located.leave n s =
      match v.leave n s with
      | (some a, s) => (some (n, a), s)
      | (none, s) => (none, s) := rfl

namespace Node

theorem visitEach_located {σ α : Type} {v : Visitor σ α} {ns : List Node}
    (ih : ∀ n ∈ ns, ∀ s,
      n.visit v s = ((n.visit v.located s).1.map Prod.snd, (n.visit v.located s).2)) (s : σ) :
    visitEach v ns s =
      ((visitEach v.located ns s).1.map Prod.snd, (visitEach v.located ns s).2) := by
  induction ns generalizing s with
  | nil => rfl
  | cons n ns ihn =>
    rw [visitEach, visitEach, ih n List.mem_cons_self]
    rcases n.visit v.located s with ⟨_ | a, s'⟩
    · exact ihn (fun k hk => ih k (List.mem_cons_of_mem _ hk)) s'
    · rfl

/-- **Locating the answer does not change the walk.** -/
theorem visit_located {σ α : Type} (v : Visitor σ α) (n : Node) (s : σ) :
    n.visit v s = ((n.visit v.located s).1.map Prod.snd, (n.visit v.located s).2) := by
  induction n using induct generalizing s with
  | step n ih =>
    rw [visit_eq n v, visit_eq n v.located, located_enter]
    rcases v.enter n s with ⟨_ | _ | a, s₁⟩
    · dsimp only
      rw [visitEach_located fun c hc => ih c hc]
      rcases visitEach v.located n.children s₁ with ⟨_ | a, s₂⟩
      · dsimp only [Option.map]
        rw [located_leave]
        rcases v.leave n s₂ with ⟨_ | a, s₃⟩ <;> rfl
      · rfl
    · rfl
    · rfl

end Node

end ContentAssist
