import ContentAssist.Proofs.Tree.Moves

/-! # A walk with an explicit stack

A walk can be written as a loop over the calls that are still pending. A call on the way down puts the
calls of the children in front of the pending ones, and behind them the call on the way up. The loop and
the recursion give the same answer, the same state and the same calls.

Which calls these are can be told from the tree: those of its schedule, in that order, without those below
nodes that were skipped, up to the first answer.

* `Node.schedule`: the calls of a walk in which nothing is skipped;
* `runStack`, `runStack_down`: the loop, and what it does with a pending call on the way down;
* `Visitor.recording`: a visitor that writes down its moves;
* `Visitor.Due`, `Node.keeps_moves`: the calls that a walk does not leave out are those that it makes;
* `Node.endsWith_moves`: the answer is found in the last move;
* `Node.stack_walk`: all this together. -/

namespace ContentAssist

variable {σ α : Type}

/-- A visitor is to be asked at a node. -/
structure Call where
  way : Way
  node : Node

/-- The call of a move. -/
def Move.call (m : Move σ) : Call := ⟨m.way, m.node⟩

/-! ### The schedule -/

namespace Node

/-- The calls of a walk in which nothing is skipped: the way down to a node, the calls of its children one
after the other, and the way up. -/
def schedule (n : Node) : List Call :=
  ⟨.down, n⟩ :: (n.children.attach.flatMap fun c => c.1.schedule) ++ [⟨.up, n⟩]
termination_by sizeOf n.value
decreasing_by exact sizeOf_lt_of_mem_children c.2

theorem schedule_eq (n : Node) :
    n.schedule = ⟨.down, n⟩ :: n.children.flatMap schedule ++ [⟨.up, n⟩] := by
  rw [schedule, List.flatMap_subtype (g := schedule) (fun _ _ => rfl), List.unattach_attach]

theorem mem_all_of_mem_schedule {n : Node} {c : Call} (hc : c ∈ n.schedule) : c.node ∈ n.all := by
  induction n using induct with
  | step n ih =>
    rw [schedule_eq, List.cons_append, List.mem_cons, List.mem_append, List.mem_flatMap,
      List.mem_singleton] at hc
    rcases hc with rfl | ⟨k, hk, hc⟩ | rfl
    · exact n.mem_all_self
    · exact mem_all_of_child hk (ih k hk hc)
    · exact n.mem_all_self

end Node

/-- The calls that a pending one stands for. -/
def Call.scheduled : Call → List Call
  | ⟨.down, n⟩ => n.schedule
  | ⟨.up, n⟩ => [⟨.up, n⟩]

/-- A call on the way down stands for itself and those of the children, and for the one on the way up. -/
theorem scheduled_down (n : Node) : Call.scheduled ⟨.down, n⟩ =
    Call.mk .down n ::
      (n.children.map (Call.mk .down) ++ [Call.mk .up n]).flatMap Call.scheduled := by
  rw [Call.scheduled, Node.schedule_eq, List.flatMap_append, List.flatMap_map]
  rfl

/-! ### The loop -/

/-- Makes the pending calls one after the other, up to the first answer. -/
def runStack (v : Visitor σ α) : List Call → σ → Option α × σ
  | [], s => (none, s)
  | ⟨.down, n⟩ :: stack, s =>
    match v.enter n s with
    | (.found a, s) => (some a, s)
    | (.skip, s) => runStack v stack s
    | (.descend, s) => runStack v (n.children.map (Call.mk .down) ++ ⟨.up, n⟩ :: stack) s
  | ⟨.up, n⟩ :: stack, s =>
    match v.leave n s with
    | (some a, s) => (some a, s)
    | (none, s) => runStack v stack s
termination_by stack => (stack.flatMap Call.scheduled).length
decreasing_by
  · simp only [List.flatMap_cons, scheduled_down, List.length_append, List.length_cons]
    omega
  · simp only [List.flatMap_cons, List.flatMap_append, List.flatMap_nil, scheduled_down, List.length_append,
      List.length_cons, List.length_nil]
    omega
  · simp [Call.scheduled]

/-- What comes of an answer: the rest of the stack is dropped. -/
def thenStack (v : Visitor σ α) (stack : List Call) : Option α × σ → Option α × σ
  | (some a, s) => (some a, s)
  | (none, s) => runStack v stack s

theorem runStack_children {v : Visitor σ α} {ns : List Node}
    (ih : ∀ n ∈ ns, ∀ stack s, runStack v (⟨.down, n⟩ :: stack) s = thenStack v stack (n.visit v s))
    (stack : List Call) (s : σ) : runStack v (ns.map (Call.mk .down) ++ stack) s =
      thenStack v stack (Node.visitEach v ns s) := by
  induction ns generalizing s with
  | nil => rfl
  | cons n ns ihn =>
    rw [List.map_cons, List.cons_append, ih n List.mem_cons_self, Node.visitEach]
    rcases n.visit v s with ⟨_ | a, s'⟩
    · exact ihn (fun k hk => ih k (List.mem_cons_of_mem _ hk)) s'
    · rfl

/-- **A pending call on the way down is a walk** of the tree below its node; if that gives no answer, the
other calls follow. -/
theorem runStack_down (v : Visitor σ α) (n : Node) (stack : List Call) (s : σ) :
    runStack v (⟨.down, n⟩ :: stack) s = thenStack v stack (n.visit v s) := by
  induction n using Node.induct generalizing stack s with
  | step n ih =>
    rw [runStack, Node.visit_eq]
    rcases v.enter n s with ⟨_ | _ | a, s₁⟩
    · dsimp only
      rw [runStack_children ih]
      rcases Node.visitEach v n.children s₁ with ⟨_ | a, s₂⟩
      · dsimp only [thenStack]
        rw [runStack]
      · rfl
    · rfl
    · rfl

/-- **The loop is the walk.** -/
theorem runStack_eq_visit (v : Visitor σ α) (n : Node) (s : σ) :
    runStack v [⟨.down, n⟩] s = n.visit v s := by
  rw [runStack_down]
  rcases n.visit v s with ⟨_ | a, s'⟩
  · exact runStack.eq_1 v s'
  · rfl

/-! ### Recording -/

/-- The visitor that writes down its moves and is the same otherwise. -/
def Visitor.recording (v : Visitor σ α) : Visitor (σ × List (Move σ)) α where
  enter n s := ((v.enter n s.1).1, (v.enter n s.1).2, s.2 ++ [v.move .down n s.1])
  leave n s := ((v.leave n s.1).1, (v.leave n s.1).2, s.2 ++ [v.move .up n s.1])

theorem recording_leave (v : Visitor σ α) (n : Node) (s : σ) (ms : List (Move σ)) :
    v.recording.leave n (s, ms) = ((v.leave n s).1, (v.leave n s).2, ms ++ [v.move .up n s]) := rfl

namespace Node

theorem visitEach_recording {v : Visitor σ α} {ns : List Node}
    (ih : ∀ n ∈ ns, ∀ s ms, n.visit v.recording (s, ms) =
      ((n.visit v s).1, (n.visit v s).2, ms ++ n.moves v s)) (s : σ) (ms : List (Move σ)) :
    visitEach v.recording ns (s, ms) =
      ((visitEach v ns s).1, (visitEach v ns s).2, ms ++ movesEach v ns s) := by
  induction ns generalizing s ms with
  | nil => rw [movesEach, List.append_nil]; rfl
  | cons n ns ihn =>
    rw [visitEach, ih n List.mem_cons_self, visitEach, movesEach]
    rcases n.visit v s with ⟨_ | a, s'⟩
    · dsimp only
      rw [ihn fun k hk => ih k (List.mem_cons_of_mem _ hk), List.append_assoc]
    · dsimp only
      rw [List.append_nil]

/-- **What a recording visitor writes down** are the moves of the walk, and the walk is the same. -/
theorem visit_recording (v : Visitor σ α) (n : Node) (s : σ) (ms : List (Move σ)) :
    n.visit v.recording (s, ms) = ((n.visit v s).1, (n.visit v s).2, ms ++ n.moves v s) := by
  induction n using induct generalizing s ms with
  | step n ih =>
    have henter : v.recording.enter n (s, ms) =
        ((v.enter n s).1, (v.enter n s).2, ms ++ [v.move .down n s]) := rfl
    rw [visit_eq, visit_eq n v, moves_eq, henter]
    rcases v.enter n s with ⟨_ | _ | a, s₁⟩
    · dsimp only
      rw [visitEach_recording ih]
      rcases visitEach v n.children s₁ with ⟨_ | a, s₂⟩
      · simp only [recording_leave, List.append_assoc, List.cons_append, List.nil_append]
      · simp only [List.append_assoc, List.singleton_append, List.append_nil]
    · rfl
    · rfl

end Node

/-! ### Nodes above others -/

namespace Node

/-- The node stands above the other one: the way to that one leads through it. -/
def Above (a n : Node) : Prop := a.place <:+ n.place ∧ a.place ≠ n.place

instance (a n : Node) : Decidable (a.Above n) := inferInstanceAs (Decidable (_ ∧ _))

theorem above_of_mem_children {a c n : Node} (hc : c ∈ a.children) (hn : n ∈ c.all) : a.Above n :=
  ⟨(suffix_of_mem_children hc).trans (suffix_of_mem_all hn),
    fun h => place_ne_of_mem_child hc hn h.symm⟩

theorem above_iff {root a n : Node} (hkeys : root.KeysDistinct) (ha : a ∈ root.all)
    (hn : n ∈ root.all) : a.Above n ↔ ∃ c ∈ a.children, n ∈ c.all := by
  constructor
  · rintro ⟨hsuffix, hne⟩
    rcases mem_all_iff.1 (mem_all_of_suffix hkeys ha hn hsuffix) with rfl | h
    · exact absurd rfl hne
    · exact h
  · rintro ⟨c, hc, hn⟩
    exact above_of_mem_children hc hn

end Node

/-! ### Due calls -/

instance (e : Entry α) : Decidable (e = .skip) :=
  match e with
  | .skip => isTrue rfl
  | .descend => isFalse nofun
  | .found _ => isFalse nofun

instance (e : Entry α) : Decidable (e = .descend) :=
  match e with
  | .skip => isFalse nofun
  | .descend => isTrue rfl
  | .found _ => isFalse nofun

namespace Visitor

/-- The visitor leaves out what is below the node of the move. -/
def Skips (v : Visitor σ α) (m : Move σ) : Prop :=
  m.way = .down ∧ (v.enter m.node m.before).1 = .skip

/-- The visitor goes on to the children of the node of the move. -/
def Descends (v : Visitor σ α) (m : Move σ) : Prop :=
  m.way = .down ∧ (v.enter m.node m.before).1 = .descend

instance (v : Visitor σ α) (m : Move σ) : Decidable (v.Skips m) := inferInstanceAs (Decidable (_ ∧ _))

instance (v : Visitor σ α) (m : Move σ) : Decidable (v.Descends m) :=
  inferInstanceAs (Decidable (_ ∧ _))

/-- The answer that the visitor finds in the move, if any. -/
def answerAt? (v : Visitor σ α) (m : Move σ) : Option α :=
  match m.way with
  | .down =>
    match (v.enter m.node m.before).1 with
    | .found a => some a
    | _ => none
  | .up => (v.leave m.node m.before).1

/-- The call is not left out by a walk with the given moves: on the way down if no node above was skipped,
on the way up if the walk went on from the node to its children. -/
def Due (v : Visitor σ α) (ms : List (Move σ)) : Call → Prop
  | ⟨.down, n⟩ => ∀ m ∈ ms, v.Skips m → ¬ m.node.Above n
  | ⟨.up, n⟩ => ∃ m ∈ ms, v.Descends m ∧ m.node.place = n.place

instance (v : Visitor σ α) (ms : List (Move σ)) : DecidablePred (v.Due ms)
  | ⟨.down, n⟩ => inferInstanceAs (Decidable (∀ m ∈ ms, v.Skips m → ¬ m.node.Above n))
  | ⟨.up, n⟩ => inferInstanceAs (Decidable (∃ m ∈ ms, v.Descends m ∧ m.node.place = n.place))

variable {v : Visitor σ α} {ms ms' : List (Move σ)}

/-- The move decides whether a call at the node is due. -/
def Bears (v : Visitor σ α) (m : Move σ) (n : Node) : Prop :=
  v.Skips m ∧ m.node.Above n ∨ v.Descends m ∧ m.node.place = n.place

theorem due_congr {c : Call} (hsub : ms ⊆ ms') (hrest : ∀ m ∈ ms', m ∈ ms ∨ ¬ v.Bears m c.node) :
    v.Due ms' c ↔ v.Due ms c := by
  obtain ⟨_ | _, n⟩ := c
  · refine ⟨fun h m hm => h m (hsub hm), fun h m hm hskip habove => ?_⟩
    rcases hrest m hm with hm | hbears
    · exact h m hm hskip habove
    · exact hbears (Or.inl ⟨hskip, habove⟩)
  · refine ⟨fun ⟨m, hm, hdescends⟩ => ?_, fun ⟨m, hm, hdescends⟩ => ⟨m, hsub hm, hdescends⟩⟩
    rcases hrest m hm with hm | hbears
    · exact ⟨m, hm, hdescends⟩
    · exact absurd (Or.inr hdescends) hbears

/-- The calls are those that are due, or the first ones of these if the walk ends with an answer. -/
def Keeps (answer : Option α) (calls due : List Call) : Prop :=
  match answer with
  | none => calls = due
  | some _ => calls <+: due

theorem keeps_of_eq {answer : Option α} {calls due : List Call} (h : calls = due) :
    Keeps answer calls due := by
  cases answer with
  | none => exact h
  | some _ => exact h ▸ List.prefix_rfl

end Visitor

namespace Node

open Visitor

variable {v : Visitor σ α} {n c c' m k : Node} {s : σ}

/-! ### Children apart -/

theorem not_bears_of_mem_children (hkeys : n.KeysDistinct) (hc : c ∈ n.children) (hc' : c' ∈ n.children)
    (hne : c ≠ c') (hk : k ∈ c.all) {m : Move σ} (hm : m.node ∈ c'.all) : ¬ v.Bears m k := by
  have hsuffix : ¬ m.node.place <:+ k.place := fun h =>
    hne (eq_of_mem_children (hkeys n n.mem_all_self) hc hc' (suffix_of_mem_all hk)
      ((suffix_of_mem_all hm).trans h))
  rintro (⟨-, habove, -⟩ | ⟨-, hplace⟩)
  · exact hsuffix habove
  · exact hsuffix (hplace ▸ List.suffix_rfl)

/-- A move at the node itself that skips nothing bears on no call below a child. -/
theorem not_bears_of_root (hc : c ∈ n.children) (hk : k ∈ c.all) {m : Move σ} (hm : m.node = n)
    (hskip : ¬ v.Skips m) : ¬ v.Bears m k := by
  rintro (⟨h, -⟩ | ⟨-, hplace⟩)
  · exact hskip h
  · rw [hm] at hplace
    exact place_ne_of_mem_child hc hk hplace.symm

/-! ### The calls of a walk -/

/-- Which calls are due depends only on the moves that bear on them. -/
theorem filter_due_congr {ms ms' : List (Move σ)} {cs : List Call} (hsub : ms ⊆ ms')
    (hrest : ∀ c ∈ cs, ∀ m ∈ ms', m ∈ ms ∨ ¬ v.Bears m c.node) :
    cs.filter (v.Due ms') = cs.filter (v.Due ms) :=
  List.filter_congr fun c hc => decide_eq_decide.2 (due_congr hsub (hrest c hc))

/-- The moves below children decide by themselves which of the calls there are due. -/
theorem keeps_movesEach (hkeys : n.KeysDistinct) {ns : List Node} (hns : ns ⊆ n.children)
    (hnodup : ns.Nodup)
    (ih : ∀ k ∈ ns, ∀ s, Keeps (k.visit v s).1 ((k.moves v s).map Move.call)
      (k.schedule.filter (v.Due (k.moves v s)))) (s : σ) :
    Keeps (visitEach v ns s).1 ((movesEach v ns s).map Move.call)
      ((ns.flatMap schedule).filter (v.Due (movesEach v ns s))) := by
  induction ns generalizing s with
  | nil => rfl
  | cons k ns ihn =>
    obtain ⟨hknew, hnodup⟩ := List.nodup_cons.1 hnodup
    have hk : k ∈ n.children := hns List.mem_cons_self
    have hns : ∀ q ∈ ns, q ∈ n.children := fun q hq => hns (List.mem_cons_of_mem k hq)
    have hfirst := ih k List.mem_cons_self s
    rw [visitEach, movesEach, List.flatMap_cons, List.filter_append]
    rcases hv : k.visit v s with ⟨_ | a, s'⟩ <;> rw [hv] at hfirst
    · have hrest := ihn (fun q => hns q) hnodup (fun q hq => ih q (List.mem_cons_of_mem _ hq)) s'
      -- the moves below this child and those below the others do not bear on each other's calls
      have hleft : k.schedule.filter (v.Due (k.moves v s ++ movesEach v ns s')) =
          k.schedule.filter (v.Due (k.moves v s)) := by
        refine filter_due_congr (List.subset_append_left _ _) fun c hc m hm => ?_
        refine (List.mem_append.1 hm).imp_right fun hm => ?_
        obtain ⟨q, hq, hmq⟩ := (isMove_of_mem_movesEach (fun _ _ _ => isMove_of_mem_moves) hm).1
        exact not_bears_of_mem_children hkeys hk (hns q hq) (fun h => hknew (h ▸ hq))
          (mem_all_of_mem_schedule hc) hmq
      have hright : (ns.flatMap schedule).filter (v.Due (k.moves v s ++ movesEach v ns s')) =
          (ns.flatMap schedule).filter (v.Due (movesEach v ns s')) := by
        refine filter_due_congr (List.subset_append_right _ _) fun c hc m hm => ?_
        refine (List.mem_append.1 hm).symm.imp_right fun hm => ?_
        obtain ⟨q, hq, hcq⟩ := List.mem_flatMap.1 hc
        exact not_bears_of_mem_children hkeys (hns q hq) hk (fun h => hknew (h ▸ hq))
          (mem_all_of_mem_schedule hcq) (isMove_of_mem_moves hm).1
      dsimp only [Keeps] at hfirst ⊢
      rw [hleft, hright, ← hfirst, List.map_append]
      cases h : (visitEach v ns s').1 <;> rw [h] at hrest
      · exact congrArg _ hrest
      · exact (List.prefix_append_right_inj _).2 hrest
    · dsimp only [Keeps] at hfirst ⊢
      rw [List.append_nil]
      exact hfirst.trans (List.prefix_append _ _)

/-- What is below a node that was skipped is not due. -/
theorem filter_due_of_skips {m : Move σ} (hskips : v.Skips m) (hm : m.node = n) :
    (n.children.flatMap schedule).filter (v.Due [m]) = [] := by
  refine List.filter_eq_nil_iff.2 fun c hc => ?_
  obtain ⟨k, hk, hck⟩ := List.mem_flatMap.1 hc
  have hbelow := mem_all_of_mem_schedule hck
  rw [decide_eq_true_eq]
  obtain ⟨_ | _, q⟩ := c
  · exact fun h => h m List.mem_cons_self hskips (hm ▸ above_of_mem_children hk hbelow)
  · rintro ⟨m', hm', hdescends, -⟩
    obtain rfl := List.mem_singleton.1 hm'
    exact absurd (hskips.2.symm.trans hdescends.2) nofun

/-- If the walk goes on to the children, then the moves are those below them and moves that skip nothing. -/
theorem mem_moves_of_descend {s₁ : σ} (he : v.enter n s = (.descend, s₁)) {m : Move σ}
    (hm : m ∈ n.moves v s) : m ∈ movesEach v n.children s₁ ∨ m.node = n ∧ ¬ v.Skips m := by
  rw [moves_eq, he] at hm
  rcases List.mem_cons.1 hm with rfl | hm
  · exact Or.inr ⟨rfl, fun h => absurd ((congrArg Prod.fst he).symm.trans h.2) nofun⟩
  · rcases List.mem_append.1 hm with hm | hm
    · exact Or.inl hm
    · rcases hv : visitEach v n.children s₁ with ⟨_ | a, s₂⟩ <;> rw [hv] at hm
      · obtain rfl := List.mem_singleton.1 hm
        exact Or.inr ⟨rfl, fun h => absurd h.1 nofun⟩
      · cases hm

/-- If the walk goes on to the children, then the moves below them decide which of the calls there are
due. -/
theorem filter_due_of_descend {s₁ : σ} (he : v.enter n s = (.descend, s₁)) :
    (n.children.flatMap schedule).filter (v.Due (n.moves v s)) =
      (n.children.flatMap schedule).filter (v.Due (movesEach v n.children s₁)) := by
  refine filter_due_congr (fun m hm => mem_moves_of_mem_movesEach he hm) fun c hc m hm => ?_
  obtain ⟨k, hk, hck⟩ := List.mem_flatMap.1 hc
  exact (mem_moves_of_descend he hm).imp_right fun ⟨hn, hskips⟩ =>
    not_bears_of_root hk (mem_all_of_mem_schedule hck) hn hskips

theorem due_down (v : Visitor σ α) (n : Node) (s : σ) : v.Due (n.moves v s) ⟨.down, n⟩ := by
  intro m hm _ habove
  have hle := (suffix_of_mem_all (isMove_of_mem_moves hm).1).length_le
  exact habove.2 (habove.1.eq_of_length_le hle)

/-- **The calls of a walk are the due ones of its schedule**, in their order, up to the first answer. -/
theorem keeps_moves (hkeys : n.KeysDistinct) (s : σ) : Keeps (n.visit v s).1
    ((n.moves v s).map Move.call) (n.schedule.filter (v.Due (n.moves v s))) := by
  induction n using induct generalizing s with
  | step n ih =>
    rw [schedule_eq, List.cons_append, List.filter_cons, if_pos (decide_eq_true (due_down v n s)),
      List.filter_append]
    rcases he : v.enter n s with ⟨_ | _ | a, s₁⟩
    · have heach := keeps_movesEach hkeys (List.Subset.refl _) (nodup_children (hkeys n n.mem_all_self))
        (fun k hk => ih k hk (hkeys.of_child hk)) s₁
      have hup : v.Due (n.moves v s) ⟨.up, n⟩ := by
        rw [moves_eq]
        exact ⟨_, List.mem_cons_self, ⟨rfl, congrArg Prod.fst he⟩, rfl⟩
      rw [filter_due_of_descend he, List.filter_singleton, decide_eq_true hup, moves_eq, visit_eq, he]
      dsimp only
      rcases hv : visitEach v n.children s₁ with ⟨_ | a, s₂⟩ <;> rw [hv] at heach
      · refine keeps_of_eq ?_
        dsimp only [Keeps] at heach
        rw [List.map_cons, List.map_append, heach]
        rfl
      · dsimp only [Keeps] at heach ⊢
        rw [List.map_cons, List.append_nil]
        exact (List.prefix_cons_inj _).2 (heach.trans (List.prefix_append _ _))
    · have hmoves : n.moves v s = [v.move .down n s] := by rw [moves_eq, he]
      have hup : ¬ v.Due [v.move .down n s] ⟨.up, n⟩ := by
        rintro ⟨m, hm, hdescends, -⟩
        obtain rfl := List.mem_singleton.1 hm
        exact absurd ((congrArg Prod.fst he).symm.trans hdescends.2) nofun
      have hskips : v.Skips (v.move .down n s) := ⟨rfl, congrArg Prod.fst he⟩
      have hnone : (n.children.flatMap schedule).filter (v.Due [v.move .down n s]) = [] :=
        filter_due_of_skips hskips rfl
      rw [hmoves, hnone, List.filter_singleton, decide_eq_false hup, visit_eq, he]
      rfl
    · rw [moves_eq, visit_eq, he]
      exact ⟨_, rfl⟩

end Node

/-! ### Answers -/

namespace Visitor

variable {v : Visitor σ α} {ms ms' : List (Move σ)} {answer : Option α}

/-- The moves end with the answer: it is found in the last one, and none is found in the others; if there is
no answer, none is found at all. -/
def EndsWith (v : Visitor σ α) (ms : List (Move σ)) (answer : Option α) : Prop :=
  match answer with
  | none => ∀ m ∈ ms, v.answerAt? m = none
  | some a => ∃ front last, ms = front ++ [last] ∧ v.answerAt? last = some a ∧
      ∀ m ∈ front, v.answerAt? m = none

theorem EndsWith.append (h : v.EndsWith ms none) (h' : v.EndsWith ms' answer) :
    v.EndsWith (ms ++ ms') answer := by
  cases answer with
  | none => exact fun m hm => (List.mem_append.1 hm).elim (h m) (h' m)
  | some a =>
    obtain ⟨front, last, rfl, hlast, hfront⟩ := h'
    exact ⟨ms ++ front, last, (List.append_assoc _ _ _).symm, hlast,
      fun m hm => (List.mem_append.1 hm).elim (h m) (hfront m)⟩

theorem endsWith_singleton (v : Visitor σ α) (m : Move σ) : v.EndsWith [m] (v.answerAt? m) := by
  cases h : v.answerAt? m with
  | none =>
    intro m' hm
    rwa [List.mem_singleton.1 hm]
  | some a => exact ⟨[], m, rfl, h, fun _ h => absurd h List.not_mem_nil⟩

end Visitor

namespace Node

open Visitor

variable {v : Visitor σ α}

theorem endsWith_movesEach {ns : List Node}
    (ih : ∀ n ∈ ns, ∀ s, v.EndsWith (n.moves v s) (n.visit v s).1) (s : σ) :
    v.EndsWith (movesEach v ns s) (visitEach v ns s).1 := by
  induction ns generalizing s with
  | nil => exact fun _ h => absurd h List.not_mem_nil
  | cons n ns ihn =>
    have hn := ih n List.mem_cons_self s
    rw [movesEach, visitEach]
    rcases hv : n.visit v s with ⟨_ | a, s'⟩ <;> rw [hv] at hn
    · exact hn.append (ihn (fun k hk => ih k (List.mem_cons_of_mem _ hk)) s')
    · rw [List.append_nil]
      exact hn

/-- **A walk ends with the first answer** that is found, and gives it. -/
theorem endsWith_moves (v : Visitor σ α) (n : Node) (s : σ) :
    v.EndsWith (n.moves v s) (n.visit v s).1 := by
  induction n using induct generalizing s with
  | step n ih =>
    have hdown := endsWith_singleton v (v.move .down n s)
    have hanswer : v.answerAt? (v.move .down n s) =
      match (v.enter n s).1 with
      | .found a => some a
      | _ => none := rfl
    rw [hanswer] at hdown
    rw [moves_eq, visit_eq]
    rcases he : v.enter n s with ⟨_ | _ | a, s₁⟩ <;> rw [he] at hdown
    · have heach := endsWith_movesEach ih s₁
      refine EndsWith.append hdown ?_
      dsimp only
      rcases hv : visitEach v n.children s₁ with ⟨_ | a, s₂⟩ <;> rw [hv] at heach
      · exact heach.append (endsWith_singleton v (v.move .up n s₂))
      · show v.EndsWith (movesEach v n.children s₁ ++ []) (some a)
        rw [List.append_nil]
        exact heach
    · exact hdown
    · exact hdown

/-! ### The walk and the loop -/

/-- **A walk is a loop over a stack of pending calls.** Both give the same answer, the same state and the
same calls, whatever the visitor does. Of these the last one finds the answer, and no other one finds any.
The calls are those of the schedule that are due, in that order, up to the answer; and in the schedule the
children of each node stand in the order of their start offsets. -/
theorem stack_walk (v : Visitor σ α) (n : Node) (s : σ) :
    runStack v [⟨.down, n⟩] s = n.visit v s ∧
      runStack v.recording [⟨.down, n⟩] (s, []) =
        ((n.visit v s).1, (n.visit v s).2, n.moves v s) ∧
      n.visit v.recording (s, []) = ((n.visit v s).1, (n.visit v s).2, n.moves v s) ∧
      v.EndsWith (n.moves v s) (n.visit v s).1 ∧
      (∀ m ∈ n.all, m.children.Pairwise fun c c' => startsNoLater c.start? c'.start? = true) ∧
      (n.KeysDistinct →
        (∀ a ∈ n.all, ∀ m ∈ n.all, a.Above m ↔ ∃ c ∈ a.children, m ∈ c.all) ∧
        Keeps (n.visit v s).1 ((n.moves v s).map Move.call)
          (n.schedule.filter (v.Due (n.moves v s)))) := by
  have hrecording := visit_recording v n s []
  rw [List.nil_append] at hrecording
  exact ⟨runStack_eq_visit v n s, (runStack_eq_visit v.recording n (s, [])).trans hrecording, hrecording,
    endsWith_moves v n s, fun m _ => pairwise_children m, fun hkeys =>
      ⟨fun a ha m hm => above_iff hkeys ha hm, keeps_moves hkeys s⟩⟩

/-- A block, a function and two names, listed from the last one on. -/
def namesProgram : Node :=
  let node (type : String) (start stop : Int) (fields : List (String × Json)) : Json :=
    .obj (("type", .str type) :: ("range", .arr [.int start, .int stop]) :: fields)
  .root (node "Program" 0 26 [("body", .arr [
    node "Identifier" 24 25 [("name", .str "d")],
    node "Identifier" 22 23 [("name", .str "c")],
    node "FunctionDeclaration" 5 21 [("body", node "BlockStatement" 19 21 []),
      ("id", node "Identifier" 14 15 [("name", .str "b")]), ("params", .arr [])],
    node "BlockStatement" 0 4 [("body", .arr [node "Identifier" 1 2 [("name", .str "a")]])]])])

/-- Answers at the second name outside of functions; the state counts the names. -/
def secondName : Visitor Nat Int :=
  .entering fun n seen =>
    if n.kind.isFunction then (.skip, seen)
    else if n.kind = .identifier then
      (if seen = 1 then .found (n.start?.getD 0) else .descend, seen + 1)
    else (.descend, seen)

/-- The function is skipped, and nothing follows the second name. -/
theorem stack_walk_names :
    namesProgram.KeysDistinct ∧ runStack secondName [⟨.down, namesProgram⟩] 0 = (some 22, 2) ∧
      ((namesProgram.moves secondName 0).map fun m => (m.way, m.node.start?)) =
        [(.down, some 0), (.down, some 0), (.down, some 1), (.up, some 1), (.up, some 0),
          (.down, some 5), (.down, some 22)] ∧
      Keeps (some (22 : Int)) ((namesProgram.moves secondName 0).map Move.call)
        (namesProgram.schedule.filter (secondName.Due (namesProgram.moves secondName 0))) := by
  have hkeys : namesProgram.KeysDistinct := by
    unfold KeysDistinct
    decide +kernel
  have hvisit : namesProgram.visit secondName 0 = (some 22, 2) := by decide +kernel
  obtain ⟨hloop, -, -, -, -, hkeeps⟩ := stack_walk secondName namesProgram 0
  have hkeeps := (hkeeps hkeys).2
  rw [hvisit] at hloop hkeeps
  exact ⟨hkeys, hloop, by decide +kernel, hkeeps⟩

end Node

end ContentAssist
