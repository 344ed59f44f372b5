import ContentAssist.Proofs.Tree.Place

/-! # The moves of a walk

A walk asks its visitor at one node after the other, on the way down and on the way up. `Node.moves`
lists these moves with the states before and after each: they lead from the state in which the walk
begins, one after the other, to the state in which it ends. What each move keeps holds in every state
that the walk reaches.

* `Leads`: moves one after the other;
* `leads_moves`: the moves of a walk lead to its end;
* `isMove_of_mem_moves`: each is one of the two steps at a node of the tree;
* `exists_descent_of_mem_moves`: before a move up there is the move down at the same node;
* `Leads.invariant`, `Leads.invariant_before`: what each move keeps;
* `before_of_mem_moves`: what each step down and each walk keeps;
* `exists_moves_of_mem_all`: the moves below a node are those of its walk. -/

namespace ContentAssist

/-- Whether a visitor is asked on the way down or on the way up. -/
inductive Way where
  | down
  | up
  deriving DecidableEq, Repr

/-- A visitor is asked at a node. -/
structure Move (σ : Type) where
  node : Node
  way : Way
  before : σ
  after : σ

variable {σ α : Type}

/-- The state in which a visitor leaves a node on the way down or up. -/
def Visitor.next (v : Visitor σ α) (n : Node) (s : σ) : Way → σ
  | .down => (v.enter n s).2
  | .up => (v.leave n s).2

/-- The move of a visitor at a node. -/
def Visitor.move (v : Visitor σ α) (way : Way) (n : Node) (s : σ) : Move σ :=
  ⟨n, way, s, v.next n s way⟩

theorem Visitor.after_of_isMove {v : Visitor σ α} {m : Move σ} (h : m = v.move m.way m.node m.before) :
    m.way = .down ∧ m.after = (v.enter m.node m.before).2 ∨
      m.way = .up ∧ m.after = (v.leave m.node m.before).2 := by
  have hafter : m.after = v.next m.node m.before m.way := congrArg Move.after h
  cases hway : m.way with
  | down => exact Or.inl ⟨rfl, by rw [hafter, hway, next]⟩
  | up => exact Or.inr ⟨rfl, by rw [hafter, hway, next]⟩

mutual

/-- The moves of a walk of a tree. -/
def Tree.moves (v : Visitor σ α) : Tree → σ → List (Move σ)
  | .mk n ts, s =>
    v.move .down n s ::
      match v.enter n s with
      | (.descend, s) =>
        movesAll v ts s ++
          match visitAll v ts s with
          | (some _, _) => []
          | (none, s) => [v.move .up n s]
      | _ => []

/-- The moves of the walks of trees one after the other, up to the first answer. -/
def movesAll (v : Visitor σ α) : List Tree → σ → List (Move σ)
  | [], _ => []
  | t :: ts, s =>
    t.moves v s ++
      match t.visit v s with
      | (some _, _) => []
      | (none, s) => movesAll v ts s

end

namespace Node

/-- The moves of a walk of the tree below a node. -/
def moves (n : Node) (v : Visitor σ α) (s : σ) : List (Move σ) := n.tree.moves v s

/-- The moves of the walks of the trees below nodes one after the other, up to the first answer. -/
def movesEach (v : Visitor σ α) : List Node → σ → List (Move σ)
  | [], _ => []
  | n :: ns, s =>
    n.moves v s ++
      match n.visit v s with
      | (some _, _) => []
      | (none, s) => movesEach v ns s

theorem movesAll_map_tree (v : Visitor σ α) (ns : List Node) (s : σ) :
    movesAll v (ns.map Node.tree) s = movesEach v ns s := by
  induction ns generalizing s with
  | nil => rfl
  | cons n ns ih =>
    rw [List.map_cons, movesAll, movesEach, Node.moves, Node.visit]
    rcases n.tree.visit v s with ⟨_ | a, s'⟩
    · exact congrArg (n.tree.moves v s ++ ·) (ih s')
    · rfl

/-- The moves of a walk are the move down, those below the children, and the move up. -/
theorem moves_eq (n : Node) (v : Visitor σ α) (s : σ) :
    n.moves v s =
      v.move .down n s ::
        match v.enter n s with
        | (.descend, s) =>
          movesEach v n.children s ++
            match visitEach v n.children s with
            | (some _, _) => []
            | (none, s) => [v.move .up n s]
        | _ => [] := by
  rw [Node.moves, tree_eq, Tree.moves]
  congr 1
  rcases v.enter n s with ⟨_ | _ | a, s'⟩
  · dsimp only
    rw [movesAll_map_tree, visitAll_map_tree]
  · rfl
  · rfl

end Node

/-! ### Moves one after the other -/

/-- The moves lead from one state to another one. -/
inductive Leads : σ → List (Move σ) → σ → Prop
  | nil (s : σ) : Leads s [] s
  | cons {s s' : σ} {m : Move σ} {ms : List (Move σ)} (hm : m.before = s)
      (h : Leads m.after ms s') : Leads s (m :: ms) s'

namespace Leads

variable {s s₁ s₂ : σ} {m : Move σ} {ms ms' : List (Move σ)}

theorem single (m : Move σ) : Leads m.before [m] m.after := .cons rfl (.nil _)

theorem append (h : Leads s ms s₁) (h' : Leads s₁ ms' s₂) : Leads s (ms ++ ms') s₂ := by
  induction h with
  | nil => exact h'
  | cons hm _ ih => exact .cons hm (ih h')

theorem rest (h : Leads s ms s₁) (hm : m ∈ ms) : ∃ rest, rest ⊆ ms ∧ Leads m.after rest s₁ := by
  induction h with
  | nil => cases hm
  | @cons s s' k ms hk h ih =>
    rcases List.mem_cons.1 hm with rfl | hm
    · exact ⟨ms, List.subset_cons_self _ _, h⟩
    · obtain ⟨rest, hsub, hrest⟩ := ih hm
      exact ⟨rest, List.subset_cons_of_subset _ hsub, hrest⟩

/-- **What each move keeps** holds in the state that is reached. -/
theorem invariant {I : σ → Prop} (h : Leads s ms s₁)
    (hmove : ∀ m ∈ ms, I m.before → I m.after) (hs : I s) : I s₁ := by
  induction h with
  | nil => exact hs
  | @cons s s' m ms hm h ih =>
    subst hm
    exact ih (fun k hk => hmove k (List.mem_cons_of_mem _ hk)) (hmove m List.mem_cons_self hs)

theorem invariant_before {I : σ → Prop} (h : Leads s ms s₁)
    (hmove : ∀ m ∈ ms, I m.before → I m.after) (hs : I s) (hm : m ∈ ms) : I m.before := by
  induction h with
  | nil => cases hm
  | @cons s s' k ms hk h ih =>
    subst hk
    rcases List.mem_cons.1 hm with rfl | hm
    · exact hs
    · exact ih (fun k hk => hmove k (List.mem_cons_of_mem _ hk)) (hmove k List.mem_cons_self hs) hm

end Leads

namespace Node

/-! ### The moves of a walk -/

theorem leads_movesEach {v : Visitor σ α} {ns : List Node}
    (ih : ∀ n ∈ ns, ∀ s, Leads s (n.moves v s) (n.visit v s).2) (s : σ) :
    Leads s (movesEach v ns s) (visitEach v ns s).2 := by
  induction ns generalizing s with
  | nil => exact .nil s
  | cons n ns ihn =>
    have hn := ih n List.mem_cons_self s
    rw [movesEach, visitEach]
    rcases hv : n.visit v s with ⟨_ | a, s'⟩ <;> rw [hv] at hn
    · exact hn.append (ihn (fun k hk => ih k (List.mem_cons_of_mem _ hk)) s')
    · exact hn.append (.nil s')

/-- **The moves of a walk lead to its end.** -/
theorem leads_moves (n : Node) (v : Visitor σ α) (s : σ) :
    Leads s (n.moves v s) (n.visit v s).2 := by
  induction n using induct generalizing s with
  | step n ih =>
    rw [moves_eq, visit_eq]
    refine .cons rfl ?_
    show Leads (v.enter n s).2 _ _
    rcases v.enter n s with ⟨_ | _ | a, s₁⟩
    · have heach := leads_movesEach ih s₁
      dsimp only
      rcases hv : visitEach v n.children s₁ with ⟨_ | a, s₂⟩ <;> rw [hv] at heach
      · exact heach.append (.single (v.move .up n s₂))
      · exact heach.append (.nil s₂)
    · exact .nil s₁
    · exact .nil s₁

theorem isMove_of_mem_movesEach {v : Visitor σ α} {ns : List Node} {m : Move σ}
    (ih : ∀ n ∈ ns, ∀ s, m ∈ n.moves v s → m.node ∈ n.all ∧ m = v.move m.way m.node m.before) {s : σ}
    (h : m ∈ movesEach v ns s) :
    (∃ n ∈ ns, m.node ∈ n.all) ∧ m = v.move m.way m.node m.before := by
  induction ns generalizing s with
  | nil => cases h
  | cons n ns ihn =>
    rw [movesEach, List.mem_append] at h
    rcases h with h | h
    · obtain ⟨hall, hmove⟩ := ih n List.mem_cons_self s h
      exact ⟨⟨n, List.mem_cons_self, hall⟩, hmove⟩
    · rcases hv : n.visit v s with ⟨_ | a, s'⟩ <;> rw [hv] at h
      · obtain ⟨⟨k, hk, hall⟩, hmove⟩ := ihn (fun k hk => ih k (List.mem_cons_of_mem _ hk)) h
        exact ⟨⟨k, List.mem_cons_of_mem _ hk, hall⟩, hmove⟩
      · cases h

/-- **Each move is one of the two steps at a node of the tree.** -/
theorem isMove_of_mem_moves {n : Node} {v : Visitor σ α} {s : σ} {m : Move σ}
    (h : m ∈ n.moves v s) : m.node ∈ n.all ∧ m = v.move m.way m.node m.before := by
  induction n using induct generalizing s with
  | step n ih =>
    rw [moves_eq] at h
    rcases List.mem_cons.1 h with rfl | h
    · exact ⟨n.mem_all_self, rfl⟩
    · rcases hv : v.enter n s with ⟨_ | _ | a, s₁⟩ <;> rw [hv] at h
      · rcases List.mem_append.1 h with h | h
        · obtain ⟨⟨c, hc, hall⟩, hmove⟩ := isMove_of_mem_movesEach (fun c hc s => ih c hc) h
          exact ⟨mem_all_of_child hc hall, hmove⟩
        · rcases he : visitEach v n.children s₁ with ⟨_ | a, s₂⟩ <;> rw [he] at h
          · obtain rfl := List.mem_singleton.1 h
            exact ⟨n.mem_all_self, rfl⟩
          · cases h
      · cases h
      · cases h

theorem mem_moves_of_mem_movesEach {n : Node} {v : Visitor σ α} {s s₁ : σ} {m : Move σ}
    (henter : v.enter n s = (.descend, s₁)) (hm : m ∈ movesEach v n.children s₁) : m ∈ n.moves v s := by
  rw [moves_eq, henter]
  exact List.mem_cons_of_mem _ (List.mem_append_left _ hm)

theorem exists_enter_of_mem_moves {n : Node} {v : Visitor σ α} {s : σ} {m : Move σ} (hm : m ∈ n.moves v s)
    (hne : m.node ≠ n) : ∃ s₁, v.enter n s = (.descend, s₁) ∧ m ∈ movesEach v n.children s₁ := by
  rw [moves_eq] at hm
  rcases List.mem_cons.1 hm with rfl | hm
  · exact absurd rfl hne
  · rcases he : v.enter n s with ⟨_ | _ | a, s₁⟩ <;> rw [he] at hm
    · rcases List.mem_append.1 hm with hm | hm
      · exact ⟨s₁, rfl, hm⟩
      · rcases hv : visitEach v n.children s₁ with ⟨_ | a, s₂⟩ <;> rw [hv] at hm
        · obtain rfl := List.mem_singleton.1 hm
          exact absurd rfl hne
        · cases hm
    · cases hm
    · cases hm

theorem movesEach_cons {n : Node} {ns : List Node} {v : Visitor σ α} {s s' : σ}
    (h : n.visit v s = (none, s')) : movesEach v (n :: ns) s = n.moves v s ++ movesEach v ns s' := by
  rw [movesEach, h]

theorem mem_movesEach_cons {n : Node} {ns : List Node} {v : Visitor σ α} {s : σ} {m : Move σ}
    (hm : m ∈ movesEach v (n :: ns) s) :
    m ∈ n.moves v s ∨ ∃ s', n.visit v s = (none, s') ∧ m ∈ movesEach v ns s' := by
  rw [movesEach] at hm
  rcases List.mem_append.1 hm with hm | hm
  · exact Or.inl hm
  · rcases hv : n.visit v s with ⟨_ | a, s'⟩ <;> rw [hv] at hm
    · exact Or.inr ⟨s', rfl, hm⟩
    · cases hm

/-- The node was entered and its children were walked without an answer. -/
def Descended (v : Visitor σ α) (n : Node) (s₀ s : σ) : Prop :=
  ∃ s₁, v.enter n s₀ = (.descend, s₁) ∧ visitEach v n.children s₁ = (none, s)

theorem Descended.up_mem_moves {n : Node} {v : Visitor σ α} {s₀ s : σ} (h : Descended v n s₀ s) :
    v.move .up n s ∈ n.moves v s₀ := by
  obtain ⟨s₁, henter, hvisit⟩ := h
  rw [moves_eq, henter]
  dsimp only
  rw [hvisit]
  exact List.mem_cons_of_mem _ (List.mem_append_right _ List.mem_cons_self)

/-- A node that was walked without an answer was skipped, or it was left. -/
theorem left_of_visit {n : Node} {v : Visitor σ α} {s s' : σ} (h : n.visit v s = (none, s')) :
    v.enter n s = (.skip, s') ∨ ∃ s₂, Descended v n s s₂ ∧ v.leave n s₂ = (none, s') := by
  rw [visit_eq] at h
  rcases he : v.enter n s with ⟨_ | _ | a, s₁⟩ <;> rw [he] at h
  · dsimp only at h
    rcases hv : visitEach v n.children s₁ with ⟨_ | a, s₂⟩ <;> rw [hv] at h
    · exact Or.inr ⟨s₂, ⟨s₁, he, hv⟩, h⟩
    · cases h
  · cases h
    exact Or.inl rfl
  · cases h

theorem exists_descent_of_mem_movesEach {v : Visitor σ α} {ns : List Node} {m : Move σ}
    (ih : ∀ n ∈ ns, ∀ s, m ∈ n.moves v s →
      ∃ s₀, v.move .down m.node s₀ ∈ n.moves v s ∧ Descended v m.node s₀ m.before) {s : σ}
    (h : m ∈ movesEach v ns s) :
    ∃ s₀, v.move .down m.node s₀ ∈ movesEach v ns s ∧ Descended v m.node s₀ m.before := by
  induction ns generalizing s with
  | nil => cases h
  | cons n ns ihn =>
    rw [movesEach, List.mem_append] at h
    rw [movesEach]
    rcases h with h | h
    · obtain ⟨s₀, hmem, hdown⟩ := ih n List.mem_cons_self s h
      exact ⟨s₀, List.mem_append_left _ hmem, hdown⟩
    · rcases hv : n.visit v s with ⟨_ | a, s'⟩ <;> rw [hv] at h
      · obtain ⟨s₀, hmem, hdown⟩ := ihn (fun k hk => ih k (List.mem_cons_of_mem _ hk)) h
        exact ⟨s₀, List.mem_append_right _ hmem, hdown⟩
      · cases h

/-- **Before a move up** there is the move down at the same node, and then the walks of its children. -/
theorem exists_descent_of_mem_moves {n : Node} {v : Visitor σ α} {s : σ} {m : Move σ}
    (h : m ∈ n.moves v s) (hup : m.way = .up) :
    ∃ s₀, v.move .down m.node s₀ ∈ n.moves v s ∧ Descended v m.node s₀ m.before := by
  induction n using induct generalizing s with
  | step n ih =>
    rw [moves_eq] at h ⊢
    rcases List.mem_cons.1 h with rfl | h
    · cases hup
    · rcases hv : v.enter n s with ⟨_ | _ | a, s₁⟩ <;> rw [hv] at h
      · rcases List.mem_append.1 h with h | h
        · obtain ⟨s₀, hmem, hdown⟩ :=
            exists_descent_of_mem_movesEach (fun c hc s hm => ih c hc hm) h
          exact ⟨s₀, List.mem_cons_of_mem _ (List.mem_append_left _ hmem), hdown⟩
        · rcases he : visitEach v n.children s₁ with ⟨_ | a, s₂⟩ <;> rw [he] at h
          · obtain rfl := List.mem_singleton.1 h
            exact ⟨s, List.mem_cons_self, s₁, hv, he⟩
          · cases h
      · cases h
      · cases h

/-! ### The moves below a node -/

section

variable {v : Visitor σ α} {P : σ → Prop} {Q : Move σ → Prop}

theorem of_visitEach {ns : List Node}
    (hvisit : ∀ n ∈ ns, ∀ s, P s → (∀ k ∈ n.moves v s, Q k) → P (n.visit v s).2) {s : σ} (hs : P s)
    (hquiet : ∀ k ∈ movesEach v ns s, Q k) : P (visitEach v ns s).2 := by
  induction ns generalizing s with
  | nil => exact hs
  | cons n ns ih =>
    rw [movesEach] at hquiet
    rw [visitEach]
    have hn := hvisit n List.mem_cons_self s hs fun k hk => hquiet k (List.mem_append_left _ hk)
    rcases hv : n.visit v s with ⟨_ | a, s'⟩ <;> rw [hv] at hn hquiet
    · exact ih (fun k hk => hvisit k (List.mem_cons_of_mem _ hk)) hn fun k hk =>
        hquiet k (List.mem_append_right _ hk)
    · exact hn

theorem before_of_each {ns : List Node}
    (hvisit : ∀ n ∈ ns, ∀ s, P s → (∀ k ∈ n.moves v s, Q k) → P (n.visit v s).2)
    (ih : ∀ n ∈ ns, ∀ s, P s → (∀ k ∈ n.moves v s, Q k) → ∀ m ∈ n.moves v s, P m.before) {s : σ}
    (hs : P s) (hquiet : ∀ k ∈ movesEach v ns s, Q k) {m : Move σ} (hm : m ∈ movesEach v ns s) :
    P m.before := by
  induction ns generalizing s with
  | nil => cases hm
  | cons n ns ihn =>
    have hfirst : ∀ k ∈ n.moves v s, Q k := fun k hk => hquiet k (by
      rw [movesEach]
      exact List.mem_append_left _ hk)
    rcases mem_movesEach_cons hm with hm | ⟨s', hv, hm⟩
    · exact ih n List.mem_cons_self s hs hfirst m hm
    · have hn := hvisit n List.mem_cons_self s hs hfirst
      rw [hv] at hn
      rw [movesEach_cons hv] at hquiet
      exact ihn (fun k hk => hvisit k (List.mem_cons_of_mem _ hk))
        (fun k hk => ih k (List.mem_cons_of_mem _ hk)) hn
        (fun k hk => hquiet k (List.mem_append_right _ hk)) hm

/-- **What each step down and each walk keeps** holds before each move. -/
theorem before_of_mem_moves (henter : ∀ n s, P s → Q (v.move .down n s) → P (v.enter n s).2)
    (hvisit : ∀ (n : Node) (s : σ), P s → (∀ k ∈ n.moves v s, Q k) → P (n.visit v s).2) {n : Node} {s : σ}
    (hs : P s) (hquiet : ∀ k ∈ n.moves v s, Q k) {m : Move σ} (hm : m ∈ n.moves v s) : P m.before := by
  induction n using induct generalizing s m with
  | step n ih =>
    rw [moves_eq] at hm hquiet
    have hdown := henter n s hs (hquiet _ List.mem_cons_self)
    rcases List.mem_cons.1 hm with rfl | hm
    · exact hs
    · have hrest := fun k hk => hquiet k (List.mem_cons_of_mem _ hk)
      rcases he : v.enter n s with ⟨_ | _ | a, s₁⟩ <;> rw [he] at hm hrest hdown
      · have heach : ∀ k ∈ movesEach v n.children s₁, Q k := fun k hk =>
          hrest k (List.mem_append_left _ hk)
        rcases List.mem_append.1 hm with hm | hm
        · exact before_of_each (fun c _ => hvisit c) (fun c hc s hs hq m hm => ih c hc hs hq hm) hdown
            heach hm
        · have hend := of_visitEach (fun c _ => hvisit c) hdown heach
          rcases hv : visitEach v n.children s₁ with ⟨_ | a, s₂⟩ <;> rw [hv] at hm hend
          · obtain rfl := List.mem_singleton.1 hm
            exact hend
          · cases hm
      · cases hm
      · cases hm

/-- The same for the walks of several nodes. -/
theorem before_of_mem_movesEach (henter : ∀ n s, P s → Q (v.move .down n s) → P (v.enter n s).2)
    (hvisit : ∀ (n : Node) (s : σ), P s → (∀ k ∈ n.moves v s, Q k) → P (n.visit v s).2)
    {ns : List Node} {s : σ} (hs : P s) (hquiet : ∀ k ∈ movesEach v ns s, Q k) {m : Move σ}
    (hm : m ∈ movesEach v ns s) : P m.before :=
  before_of_each (fun n _ => hvisit n)
    (fun _ _ _ hs hquiet _ hm => before_of_mem_moves henter hvisit hs hquiet hm) hs hquiet hm

end

/-- **The moves below a node** are moves of a walk of that node. -/
theorem exists_moves_of_mem_all {v : Visitor σ α} {n d : Node} (hkeys : n.KeysDistinct) (hd : d ∈ n.all)
    {s : σ} {m : Move σ} (hm : m ∈ n.moves v s) (hbelow : m.node ∈ d.all) :
    ∃ s₀, m ∈ d.moves v s₀ ∧ d.moves v s₀ ⊆ n.moves v s := by
  induction n using induct generalizing s with
  | step n ih =>
    rcases mem_all_iff.1 hd with rfl | ⟨c, hc, hdc⟩
    · exact ⟨s, hm, List.Subset.refl _⟩
    · have hmc : m.node ∈ c.all := mem_all_trans hdc hbelow
      have hn : m.node ≠ n := fun h => place_ne_of_mem_child hc hmc (congrArg Node.place h)
      -- the move is one in the walk of the child that holds the node
      have heach : ∀ ns : List Node, (∀ k ∈ ns, k ∈ n.children) → ∀ s, m ∈ movesEach v ns s →
          ∃ s₀, m ∈ d.moves v s₀ ∧ d.moves v s₀ ⊆ movesEach v ns s := by
        intro ns
        induction ns with
        | nil => exact fun _ _ h => absurd h List.not_mem_nil
        | cons k ns ihn =>
          intro hns s h
          rcases mem_movesEach_cons h with h | ⟨s₁, hv, h⟩
          · have hk := hns k List.mem_cons_self
            obtain rfl : k = c := eq_of_mem_children (hkeys n n.mem_all_self) hk hc
              (suffix_of_mem_all (isMove_of_mem_moves h).1) (suffix_of_mem_all hmc)
            obtain ⟨s₀, hmem, hsub⟩ := ih k hk (hkeys.of_child hk) hdc h
            exact ⟨s₀, hmem, List.subset_append_of_subset_left _ hsub⟩
          · obtain ⟨s₀, hmem, hsub⟩ := ihn (fun q hq => hns q (List.mem_cons_of_mem _ hq)) s₁ h
            rw [movesEach_cons hv]
            exact ⟨s₀, hmem, List.subset_append_of_subset_right _ hsub⟩
      obtain ⟨s₁, henter, hm⟩ := exists_enter_of_mem_moves hm hn
      obtain ⟨s₀, hmem, hsub⟩ := heach _ (fun _ hk => hk) s₁ hm
      exact ⟨s₀, hmem, fun k hk => mem_moves_of_mem_movesEach henter (hsub hk)⟩

end Node

end ContentAssist
