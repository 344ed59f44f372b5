import ContentAssist.Proofs.Inference.Answer

/-! # Rules that leave the scopes alone

Most rules of the inference neither open nor close a scope: they change facts, bindings and records
only, and many of them facts alone. So do the globals that are known before a walk begins. -/

namespace ContentAssist.Inference

variable {task : Task} {n : Node} {s s' : State}

theorem Scopes.ext {a b : Scopes} (houtermost : a.outermost = b.outermost)
    (hinner : a.inner = b.inner) : a = b := by
  cases a
  cases b
  exact congrArg₂ Scopes.mk houtermost hinner

/-! ### Rules that leave the environment alone -/

@[simp] theorem env_enterProgram (n : Node) (s : State) : (enterProgram n s).env = s.env := by
  unfold enterProgram
  dsimp only
  split
  · rfl
  · split <;> rfl

@[simp] theorem env_bindFunction (value : Node) (name : Name) (span : Option Span) (s : State) :
    (bindFunction value name span s).env = s.env := by
  unfold bindFunction
  split <;> rfl

@[simp] theorem env_enterDeclarator (n : Node) (s : State) : (enterDeclarator n s).env = s.env := by
  unfold enterDeclarator
  dsimp only
  split
  · rfl
  · exact env_bindFunction _ _ _ _

@[simp] theorem env_enterAssignment (n : Node) (s : State) : (enterAssignment n s).env = s.env := by
  unfold enterAssignment
  dsimp only
  split
  · exact env_bindFunction _ _ _ _
  · rfl

@[simp] theorem env_enterMember (n : Node) (s : State) : (enterMember n s).env = s.env := by
  unfold enterMember
  dsimp only
  split <;> rfl

@[simp] theorem env_enterCall (n : Node) (s : State) : (enterCall n s).env = s.env := by
  unfold enterCall
  dsimp only
  split
  · split <;> rfl
  · rfl

@[simp] theorem env_leaveMember (task : Task) (n : Node) (s : State) :
    (leaveMember task n s).2.env = s.env := by
  unfold leaveMember
  dsimp only
  split
  · rfl
  · split
    · rfl
    · split <;> rfl

@[simp] theorem env_leaveReturn (n : Node) (s : State) : (leaveReturn n s).env = s.env := by
  unfold leaveReturn
  dsimp only
  split <;> rfl

@[simp] theorem env_settle (n : Node) (s : State) : (settle n s).env = s.env := by
  unfold settle
  split <;> rfl

/-! ### Rules that open and close no scope -/

@[simp] theorem scopes_enterProperty (object : Ty) (s : State) (property : Node) :
    (enterProperty object s property).env.scopes = s.env.scopes := by
  unfold enterProperty
  split
  · rfl
  · rw [env_bindFunction]
    rfl

@[simp] theorem scopes_leaveProperty (object : Option Ty) (s : State) (property : Node) :
    (leaveProperty object s property).env.scopes = s.env.scopes := by
  unfold leaveProperty
  split <;> rfl

theorem scopes_foldl {f : State → Node → State}
    (h : ∀ s n, (f s n).env.scopes = s.env.scopes) (ns : List Node) (s : State) :
    (ns.foldl f s).env.scopes = s.env.scopes := by
  induction ns generalizing s with
  | nil => rfl
  | cons n ns ih => exact (ih (f s n)).trans (h s n)

@[simp] theorem scopes_newObjectTypes (params : List Node) (s : State) :
    (newObjectTypes params s).2.env.scopes = s.env.scopes := by
  induction params generalizing s with
  | nil => rfl
  | cons param params ih => exact ih s.newObjectType.2

@[simp] theorem scopes_loadModule (index : Index) (name : String) (s : State) :
    (loadModule index name s).2.env.scopes = s.env.scopes := by
  unfold loadModule applySummary
  dsimp only
  split
  · rfl
  · rfl
  · split
    · simp [State.withEnv, State.happened]
    · simp [State.withEnv, State.happened]

theorem scopes_dependencyType (index : Index) (dependency : Option Node) (s : State) :
    (dependencyType index dependency s).2.env.scopes = s.env.scopes := by
  unfold dependencyType
  split
  · rfl
  · rename_i name _
    have hload := scopes_loadModule index name s
    split
    · rename_i h
      rw [h] at hload
      exact hload
    · rename_i h
      rw [h] at hload
      exact hload
    · rename_i s' h
      rw [h] at hload
      exact hload

theorem scopes_dependencyTypes (index : Index) (params names : List Node) (s : State) :
    (dependencyTypes index params names s).2.env.scopes = s.env.scopes := by
  induction params generalizing names s with
  | nil => rfl
  | cons param params ih =>
    have h1 := scopes_dependencyType index names.head? s
    rw [dependencyTypes]
    rcases hd : dependencyType index names.head? s with ⟨fault | t, s₁⟩ <;> rw [hd] at h1
    · exact h1
    · have h2 := ih names.tail s₁
      dsimp only
      rcases hr : dependencyTypes index params names.tail s₁ with ⟨fault | ts, s₂⟩ <;> rw [hr] at h2
      · exact h2.trans h1
      · exact h2.trans h1

@[simp] theorem scopes_paramTypes (task : Task) (n : Node) (s : State) :
    (paramTypes task n s).2.env.scopes = s.env.scopes := by
  unfold paramTypes
  dsimp only
  split
  · exact scopes_dependencyTypes _ _ _ _
  · exact scopes_newObjectTypes _ _

@[simp] theorem scopes_bindParams (params : List Node) (ts : List Ty) (s : State) :
    (bindParams params ts s).env.scopes = s.env.scopes := by
  induction params generalizing ts s with
  | nil => rfl
  | cons param params ih =>
    cases ts with
    | nil => rfl
    | cons t ts =>
      rw [bindParams]
      refine (ih ts _).trans ?_
      split <;> rfl

theorem facts_bindParams (params : List Node) (ts : List Ty) (s : State) :
    (bindParams params ts s).facts = s.facts := by
  induction params generalizing ts s with
  | nil => rfl
  | cons param params ih =>
    cases ts with
    | nil => rfl
    | cons t ts =>
      rw [bindParams]
      refine (ih ts _).trans ?_
      split <;> rfl

@[simp] theorem scopes_leavePlainFunction (n : Node) (type : Ty) (s : State) :
    (leavePlainFunction n type s).env.scopes = s.env.scopes := by
  unfold leavePlainFunction
  split
  · rfl
  · dsimp only
    split
    · simp [State.assign, State.withEnv, State.setType, State.learn]
    · split
      · simp [State.assign, State.withEnv, State.setType, State.learn]
      · rfl

@[simp] theorem scopes_leaveDeclarator (n : Node) (s : State) :
    (leaveDeclarator n s).env.scopes = s.env.scopes := by
  unfold leaveDeclarator
  dsimp only
  split <;> rfl

@[simp] theorem scopes_leaveAssignment (n : Node) (s : State) :
    (leaveAssignment n s).env.scopes = s.env.scopes := by
  unfold leaveAssignment
  dsimp only
  split
  · rfl
  · simp [State.assign, State.withEnv, State.setType, State.learn]

@[simp] theorem scopes_leaveIdentifier (task : Task) (n : Node) (s : State) :
    (leaveIdentifier task n s).2.env.scopes = s.env.scopes := by
  unfold leaveIdentifier
  dsimp only
  split
  · rfl
  · split
    · rfl
    · split
      · rw [Environment.addOrSet_none _ _ _ _ (by simp [Ty.global])]
        simp [goOn, State.withEnv, State.setType, State.learn]
      · rfl

/-! ### Globals known beforehand -/

@[simp] theorem scopes_addDeclaredGlobals (root : Node) (env : Environment) :
    (addDeclaredGlobals root env).scopes = env.scopes := by
  refine addDeclaredGlobals_induction (P := fun e => e.scopes = env.scopes) root rfl ?_
  intro e name span _ he
  rw [Environment.addOrSet_none _ _ _ _ (by simp)]
  simpa using he

theorem scopes_mergeSummaries (summaries : List Summary) (target : String) (env : Environment) :
    (summaries.foldl (fun env m => env.mergeSummary m target) env).scopes = env.scopes := by
  induction summaries generalizing env with
  | nil => rfl
  | cons m summaries ih => exact (ih _).trans (env.mergeSummary_scopes m target)

theorem scopes_addIndexedGlobals (task : Task) (s : State) :
    (addIndexedGlobals task s).2.env.scopes = s.env.scopes := by
  unfold addIndexedGlobals
  split
  · rfl
  · dsimp only
    split
    · rfl
    · exact scopes_mergeSummaries _ _ _

end ContentAssist.Inference
