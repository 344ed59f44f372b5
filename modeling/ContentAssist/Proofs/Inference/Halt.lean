import ContentAssist.Proofs.Inference.Answer

/-! # Where an inference stops

The nodes at which a walk answers can be told without a state: `halts`. So can the first of them,
`halt?`, and unless the index fails that is where the walk stops (`halt?_of_visit`).

`StopsAt` names that node together with the record and the state at the end; every inference that
answers stops somewhere (`exists_stopsAt_of_run`). -/

namespace ContentAssist.Inference

/-- Whether a walk stops at a node that it comes back to. -/
def halts (cursor : Cursor) (source : String) (n : Node) : Bool :=
  match n.kind with
  | .program => true
  | .blockStatement | .catchClause | .identifier => cursor.isIn n.span?
  | .memberExpression => afterDot cursor n source
  | _ => false

/-- The visitor that skips what an inference skips and stops where it stops. -/
def haltVisitor (cursor : Cursor) (source : String) : Visitor Unit Node where
  enter n s :=
    if n.kind = .variableDeclaration ∧ cursor.isBefore n.span? then (.skip, s) else (.descend, s)
  leave n s := if halts cursor source n then (some n, s) else (none, s)

/-- The first node at which a walk stops. -/
def halt? (cursor : Cursor) (source : String) (n : Node) : Option Node :=
  (n.visit (haltVisitor cursor source) ()).1

section Halt
variable (cursor : Cursor) (source : String)

theorem visitEach_haltVisitor (cs : List Node) :
    (Node.visitEach (haltVisitor cursor source) cs ()).1 = cs.findSome? (halt? cursor source) := by
  induction cs with
  | nil => rfl
  | cons c cs ih =>
    rw [Node.visitEach, List.findSome?_cons]
    unfold halt?
    rcases c.visit (haltVisitor cursor source) () with ⟨_ | m, u⟩
    · exact ih
    · rfl

/-- The walk stops in the first child in which it does, else at the node itself. -/
theorem halt?_eq (n : Node) : halt? cursor source n =
    if n.kind = .variableDeclaration ∧ cursor.isBefore n.span? then none
    else (n.children.findSome? (halt? cursor source)).or
      (if halts cursor source n then some n else none) := by
  have heach := visitEach_haltVisitor cursor source n.children
  rw [halt?, Node.visit_eq]
  by_cases hskip : n.kind = .variableDeclaration ∧ cursor.isBefore n.span?
  · rw [if_pos hskip, show (haltVisitor cursor source).enter n () = (.skip, ()) from if_pos hskip]
  · rw [if_neg hskip,
      show (haltVisitor cursor source).enter n () = (.descend, ()) from if_neg hskip]
    dsimp only
    rw [← heach]
    rcases Node.visitEach (haltVisitor cursor source) n.children () with ⟨_ | m, u⟩
    · dsimp only
      by_cases hn : halts cursor source n = true
      · rw [if_pos hn, show (haltVisitor cursor source).leave n u = (some n, u) from if_pos hn]
        rfl
      · rw [if_neg hn, show (haltVisitor cursor source).leave n u = (none, u) from if_neg hn]
        rfl
    · rfl

variable {cursor source}

theorem mem_of_halt? {n m : Node} (h : halt? cursor source n = some m) :
    m ∈ n.all ∧ halts cursor source m = true := by
  induction n using Node.induct with
  | step n ih =>
    rw [halt?_eq] at h
    split at h
    · cases h
    · rcases Option.or_eq_some_iff.1 h with h | ⟨-, h⟩
      · obtain ⟨c, hc, hm⟩ := List.exists_of_findSome?_eq_some h
        exact ⟨Node.mem_all_of_child hc (ih c hc hm).1, (ih c hc hm).2⟩
      · split at h
        · rename_i hn
          cases h
          exact ⟨Node.mem_all_self _, hn⟩
        · cases h

theorem halt?_of_leaf {n : Node} (hkind : n.kind ≠ .variableDeclaration) (hchildren : n.children = [])
    (hhalts : halts cursor source n = true) : halt? cursor source n = some n := by
  rw [halt?_eq, if_neg (by simp [hkind]), hchildren, if_pos hhalts]
  rfl

end Halt

/-! ### The walk of an inference -/

variable {task : Task} {n m : Node} {s s' : State} {scope : String}

theorem exists_answers_iff (task : Task) (n : Node) (s : State) :
    (∃ scope, Answers task n s scope) ↔ halts task.cursor task.source n = true := by
  constructor
  · rintro ⟨scope, h⟩
    cases h with
    | program h => simp [halts, h]
    | block h hin => rcases h with h | h <;> simp [halts, h, hin]
    | member h hdot => simp [halts, h, hdot]
    | identifier h hin => simp [halts, h, hin]
  · intro h
    unfold halts at h
    split at h
    · exact ⟨_, .program ‹_›⟩
    · exact ⟨_, .block (Or.inl ‹_›) h⟩
    · exact ⟨_, .block (Or.inr ‹_›) h⟩
    · exact ⟨_, .identifier ‹_› h⟩
    · exact ⟨_, .member ‹_› h⟩
    · cases h

/-- The outcome of a part of a located walk agrees with the first node at which it stops. -/
def Agrees (first : Option Node) : Option (Node × Except Fault String) → Prop
  | none => first = none
  | some (m, .ok _) => first = some m
  | some (_, .error _) => True

theorem agrees_visitEach {cs : List Node}
    (ih : ∀ c ∈ cs, ∀ s, Agrees (halt? task.cursor task.source c)
      (c.visit (visitor task).located s).1) (s : State) :
    Agrees (cs.findSome? (halt? task.cursor task.source))
      (Node.visitEach (visitor task).located cs s).1 := by
  induction cs generalizing s with
  | nil => rfl
  | cons c cs ihc =>
    have hc := ih c List.mem_cons_self s
    rw [Node.visitEach, List.findSome?_cons]
    rcases hv : c.visit (visitor task).located s with ⟨_ | ⟨m, fault | scope⟩, s'⟩ <;> rw [hv] at hc
    · rw [show halt? task.cursor task.source c = none from hc]
      exact ihc (fun k hk => ih k (List.mem_cons_of_mem _ hk)) s'
    · trivial
    · rw [show halt? task.cursor task.source c = some m from hc]
      rfl

/-- **A walk stops at the first node at which it can**, unless a fault ends it before. -/
theorem halt?_of_visit (task : Task) (n : Node) (s : State) :
    Agrees (halt? task.cursor task.source n) (n.visit (visitor task).located s).1 := by
  induction n using Node.induct generalizing s with
  | step n ih =>
    rw [Node.visit_eq, located_enter, halt?_eq,
      show (visitor task).enter n s = enter task n s from rfl, enter_eq]
    by_cases hskip : n.kind = .variableDeclaration ∧ task.cursor.isBefore n.span?
    · rw [if_pos hskip, if_pos hskip]
      rfl
    · rw [if_neg hskip, if_neg hskip]
      rcases enterNode task n s with ⟨fault | _, s₁⟩
      · trivial
      · have heach := agrees_visitEach ih s₁
        dsimp only
        rcases hv : Node.visitEach (visitor task).located n.children s₁ with
          ⟨_ | ⟨m, fault | scope⟩, s₂⟩ <;> rw [hv] at heach
        · rw [show n.children.findSome? (halt? task.cursor task.source) = none from heach]
          dsimp only
          rw [located_leave, show (visitor task).leave n s₂ = leave task n s₂ from rfl]
          have hiff := exists_answers_iff task n s₂
          by_cases hn : halts task.cursor task.source n = true
          · obtain ⟨scope, ha⟩ := hiff.2 hn
            rw [leave_of_answers ha, if_pos hn]
            rfl
          · rw [if_neg hn]
            rcases hl : leave task n s₂ with ⟨_ | fault | scope, s₃⟩
            · rfl
            · trivial
            · exact absurd (hiff.1 ⟨scope, (answer_of_leave hl).2⟩) hn
        · trivial
        · rw [show n.children.findSome? (halt? task.cursor task.source) = some m from heach]
          rfl

/-! ### Whole inferences -/

/-- The inference stops at the node `m`, with the record `scope` and in the state `s`. -/
def StopsAt (task : Task) (root : Node) (env : Environment) (m : Node) (scope : String)
    (s : State) : Prop :=
  ∃ s₀, addIndexedGlobals task { env := addDeclaredGlobals root env } = (.ok (), s₀) ∧
    root.visit (visitor task).located s₀ = (some (m, .ok scope), s)

/-- **An inference that answers stops at some node.** -/
theorem exists_stopsAt_of_run {root : Node} {env : Environment}
    (h : run task root env = (.ok scope, s)) : ∃ m, StopsAt task root env m scope s := by
  unfold run at h
  split at h
  · cases h
  · rename_i s₀ hs₀
    unfold walk at h
    rw [Node.visit_located] at h
    rcases hv : root.visit (visitor task).located s₀ with ⟨_ | ⟨m, a⟩, s₁⟩ <;> rw [hv] at h
    · cases h
    · cases h
      exact ⟨m, s₀, hs₀, hv⟩

theorem StopsAt.halt? {root : Node} {env : Environment} (h : StopsAt task root env m scope s) :
    halt? task.cursor task.source root = some m := by
  obtain ⟨s₀, -, hv⟩ := h
  have := halt?_of_visit task root s₀
  rwa [hv] at this

end ContentAssist.Inference
