import ContentAssist.Proofs.Inference.Leave

/-! # Where a walk answers

Four kinds of nodes end a walk with a record: the program, a block or catch clause around the
cursor, a member access with the cursor behind its dot, and an identifier at the cursor.
`Answers` lists them with the record, `answer_of_leave` says that there are no others, and
`leave_of_answers` that each of them does answer. -/

namespace ContentAssist.Inference

variable {task : Task} {n : Node} {s s' : State} {scope : String}

/-- The node ends the walk with the record `scope`. -/
inductive Answers (task : Task) (n : Node) (s : State) : String → Prop
  | program (h : n.kind = .program) : Answers task n s (s.env.scope none)
  | block (h : n.kind = .blockStatement ∨ n.kind = .catchClause)
      (hin : task.cursor.isIn n.span? = true) : Answers task n s (s.env.scope none)
  | member (h : n.kind = .memberExpression) (hdot : afterDot task.cursor n task.source = true) :
      Answers task n s (s.env.scope (some (s.typeOf (n.get "object"))))
  | identifier (h : n.kind = .identifier) (hin : task.cursor.isIn n.span? = true) :
      Answers task n s (s.env.scope (s.targetType n))

theorem enter_ne_found_ok : enter task n s ≠ (.found (.ok scope), s') := by
  intro h
  rw [enter_eq] at h
  split at h
  · cases h
  · split at h <;> cases h

theorem closeScope_ne_ok : closeScope s ≠ (some (.ok scope), s') := by
  intro h
  unfold closeScope at h
  split at h <;> cases h

theorem leaveCall_ne_ok : leaveCall task n s ≠ (some (.ok scope), s') := by
  intro h
  unfold leaveCall at h
  split at h <;> cases h

theorem leaveFunction_ne_ok : leaveFunction n s ≠ (some (.ok scope), s') := by
  intro h
  have hconstructor : ∀ type result s₁,
      leaveConstructor n type result s₁ ≠ (some (.ok scope), s') := by
    intro type result s₁ h
    unfold leaveConstructor at h
    split at h
    · rename_i hc
      cases h
      exact closeScope_ne_ok hc
    · cases h
  unfold leaveFunction at h
  split at h
  · rename_i hc
    cases h
    exact closeScope_ne_ok hc
  · split at h
    · split at h
      · exact hconstructor _ _ _ h
      · cases h
    · cases h

theorem answer_of_leaveNode (h : leaveNode task n s = (some (.ok scope), s')) :
    s' = s ∧ Answers task n s scope := by
  unfold leaveNode at h
  split at h
  case h_1 hk =>
    cases h
    exact ⟨rfl, .program hk⟩
  case h_2 | h_3 =>
    rename_i hk
    unfold leaveBlock at h
    split at h
    · rename_i hin
      cases h
      exact ⟨rfl, .block (by simp [hk]) hin⟩
    · exact absurd h closeScope_ne_ok
  case h_4 hk =>
    unfold leaveMember at h
    dsimp only at h
    split at h
    · rename_i hdot
      cases h
      exact ⟨rfl, .member hk hdot⟩
    · split at h
      · cases h
      · split at h <;> cases h
  case h_5 => exact absurd h leaveCall_ne_ok
  case h_7 => exact absurd h closeScope_ne_ok
  case h_12 | h_13 | h_14 => exact absurd h leaveFunction_ne_ok
  case h_17 hk =>
    unfold leaveIdentifier at h
    dsimp only at h
    split at h
    · rename_i hin
      cases h
      exact ⟨rfl, .identifier hk hin⟩
    · split at h
      · cases h
      · split at h <;> cases h
  all_goals cases h

/-- **A record comes from one of the four kinds of nodes.** -/
theorem answer_of_leave (h : leave task n s = (some (.ok scope), s')) :
    s' = s ∧ Answers task n s scope := by
  rw [leave_eq] at h
  rcases hl : leaveNode task n s with ⟨_ | a, s₁⟩ <;> rw [hl] at h
  · cases h
  · cases h
    exact answer_of_leaveNode hl

theorem leave_of_answers (h : Answers task n s scope) :
    leave task n s = (some (.ok scope), s) := by
  rw [leave_eq]
  cases h with
  | program h => simp [leaveNode, h, answer]
  | block h hin => rcases h with h | h <;> simp [leaveNode, h, leaveBlock, hin, answer]
  | member h hdot => simp [leaveNode, h, leaveMember, hdot, answer]
  | identifier h hin => simp [leaveNode, h, leaveIdentifier, hin, answer]

/-- A program is entered and walked, and what its parts leave open it answers. -/
theorem visit_program (h : n.kind = .program) (s : State) :
    n.visit (visitor task) s =
      match Node.visitEach (visitor task) n.children (enterProgram n s) with
      | (some a, s) => (some a, s)
      | (none, s) => (some (.ok (s.env.scope none)), s) := by
  have henter : (visitor task).enter n s = (.descend, enterProgram n s) := by
    show enter task n s = _
    simp [enter_eq, enterNode, h]
  have hleave : ∀ s, (visitor task).leave n s = (some (.ok (s.env.scope none)), s) := fun s =>
    leave_of_answers (.program h)
  rw [Node.visit_eq, henter]
  rcases hv : Node.visitEach (visitor task) n.children (enterProgram n s) with ⟨_ | a, s'⟩
  · simp only [hv, hleave]
  · simp only [hv]

theorem kind_of_step_ok (hcursor : task.cursor = none)
    (h : enter task n s = (.found (.ok scope), s') ∨ leave task n s = (some (.ok scope), s')) :
    n.kind = .program := by
  rcases h with h | h
  · exact absurd h enter_ne_found_ok
  · obtain ⟨-, ha⟩ := answer_of_leave h
    cases ha with
    | program hk => exact hk
    | block h hin => simp [hcursor, Cursor.isIn] at hin
    | member h hdot => simp [hcursor, afterDot] at hdot
    | identifier h hin => simp [hcursor, Cursor.isIn] at hin

theorem kind_of_visit_ok (hcursor : task.cursor = none)
    (h : n.visit (visitor task) s = (some (.ok scope), s')) : ∃ m ∈ n.all, m.kind = .program := by
  obtain ⟨m, hm, s₀, hs⟩ := Node.exists_step_of_visit h
  exact ⟨m, hm, kind_of_step_ok hcursor hs⟩

theorem kind_of_visitEach_ok (hcursor : task.cursor = none) {cs : List Node}
    (h : Node.visitEach (visitor task) cs s = (some (.ok scope), s')) :
    ∃ c ∈ cs, ∃ m ∈ c.all, m.kind = .program := by
  obtain ⟨c, hc, m, hm, s₀, hs⟩ := Node.exists_step_of_visitEach
    (fun n _ _ hv => Node.exists_step_of_visit hv) h
  exact ⟨c, hc, m, hm, kind_of_step_ok hcursor hs⟩

end ContentAssist.Inference
