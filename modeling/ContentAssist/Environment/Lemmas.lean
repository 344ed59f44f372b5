import ContentAssist.Environment.Basic

/-! # What the operations on environments leave alone

Binding and assigning change the table only; new names are counted; the scopes change where a scope
is entered or left. The new names themselves are read off the counter. -/

namespace ContentAssist.Environment

variable (env : Environment)

/-! ### Names -/

@[simp] theorem newName_fst : env.newName.1 = Ty.generatedName env.uid env.count := rfl

@[simp] theorem newName_uid : env.newName.2.uid = env.uid := rfl

@[simp] theorem newName_count : env.newName.2.count = env.count + 1 := rfl

@[simp] theorem newName_types : env.newName.2.types = env.types := rfl

@[simp] theorem newName_scopes : env.newName.2.scopes = env.scopes := rfl

theorem objectName_some (name : String) :
    env.objectName (some name) = if env.isReserved name then env.newName else (name, env) := rfl

@[simp] theorem objectName_uid (name : Option String) : (env.objectName name).2.uid = env.uid := by
  cases name with
  | none => rfl
  | some name => rw [objectName_some]; split <;> rfl

@[simp] theorem objectName_types (name : Option String) :
    (env.objectName name).2.types = env.types := by
  cases name with
  | none => rfl
  | some name => rw [objectName_some]; split <;> rfl

@[simp] theorem objectName_scopes (name : Option String) :
    (env.objectName name).2.scopes = env.scopes := by
  cases name with
  | none => rfl
  | some name => rw [objectName_some]; split <;> rfl

theorem le_objectName_count (name : Option String) : env.count ≤ (env.objectName name).2.count := by
  cases name with
  | none => exact Nat.le_succ _
  | some name =>
    rw [objectName_some]
    split
    · exact Nat.le_succ _
    · exact Nat.le_refl _

/-! ### Variables -/

section Variables
variable (name : Name) (target type : Option Ty) (span : Option Span)

@[simp] theorem addVariable_uid : (env.addVariable name target type span).uid = env.uid := rfl

@[simp] theorem addVariable_count : (env.addVariable name target type span).count = env.count := rfl

@[simp] theorem addVariable_scopes :
    (env.addVariable name target type span).scopes = env.scopes := rfl

@[simp] theorem removeVariable_scopes : (env.removeVariable name target).scopes = env.scopes := rfl

end Variables

/-! ### Scopes and objects -/

section Objects
variable (name : Option String) (span : Option Span)

@[simp] theorem newScope_fst : (env.newScope span).1 = Ty.generatedName env.uid env.count := rfl

@[simp] theorem newScope_uid : (env.newScope span).2.uid = env.uid := rfl

@[simp] theorem newScope_count : (env.newScope span).2.count = env.count + 1 := rfl

@[simp] theorem newScope_scopes :
    (env.newScope span).2.scopes = env.scopes.push (Ty.generatedName env.uid env.count) := rfl

@[simp] theorem newFleetingObject_uid : (env.newFleetingObject name span).2.uid = env.uid := by
  simp [newFleetingObject, put]

@[simp] theorem newFleetingObject_scopes :
    (env.newFleetingObject name span).2.scopes = env.scopes := by
  simp [newFleetingObject, put]

@[simp] theorem newFleetingObject_none_fst :
    (env.newFleetingObject none span).1 = Ty.generatedName env.uid env.count := rfl

@[simp] theorem newFleetingObject_none_count :
    (env.newFleetingObject none span).2.count = env.count + 1 := rfl

theorem le_newFleetingObject_count :
    env.count ≤ (env.newFleetingObject name span).2.count :=
  env.le_objectName_count name

@[simp] theorem newObject_uid : (env.newObject name span).2.uid = env.uid := by
  simp [newObject]

@[simp] theorem newObject_scopes :
    (env.newObject name span).2.scopes = env.scopes.push (Ty.generatedName env.uid env.count) := by
  simp [newObject]

@[simp] theorem newObject_none_fst :
    (env.newObject none span).1 = Ty.generatedName env.uid (env.count + 1) := rfl

@[simp] theorem newObject_none_count : (env.newObject none span).2.count = env.count + 2 := rfl

theorem le_newObject_count : env.count ≤ (env.newObject name span).2.count :=
  Nat.le_trans (Nat.le_succ _) ((env.newScope span).2.le_newFleetingObject_count name span)

theorem popScope?_eq_none_iff : env.popScope? = none ↔ env.scopes.inner = [] := by
  unfold popScope?
  split <;> simp_all

theorem uid_of_popScope? {env env' : Environment} {name : String}
    (h : env.popScope? = some (name, env')) : env'.uid = env.uid := by
  unfold popScope? at h
  split at h
  · cases h
  · cases h
    rfl

theorem count_of_popScope? {env env' : Environment} {name : String}
    (h : env.popScope? = some (name, env')) : env'.count = env.count := by
  unfold popScope? at h
  split at h
  · cases h
  · cases h
    rfl

theorem scopes_of_popScope? {env env' : Environment} {name : String}
    (h : env.popScope? = some (name, env')) : env'.scopes = env.scopes.pop := by
  unfold popScope? at h
  split at h
  · cases h
  · cases h
    rfl

end Objects

/-! ### Assignment -/

section Assignment
variable (owner : String) (name : Name) (t : Ty) (target : Option Ty) (span : Option Span)

@[simp] theorem setPrototype_uid : (env.setPrototype owner t span).uid = env.uid := rfl

@[simp] theorem setPrototype_count : (env.setPrototype owner t span).count = env.count := rfl

@[simp] theorem setPrototype_scopes : (env.setPrototype owner t span).scopes = env.scopes := rfl

@[simp] theorem setBinding_uid : (env.setBinding owner name t span).uid = env.uid := by
  unfold setBinding
  dsimp only
  split
  · rfl
  · split <;> rfl

@[simp] theorem setBinding_count : (env.setBinding owner name t span).count = env.count := by
  unfold setBinding
  dsimp only
  split
  · rfl
  · split <;> rfl

@[simp] theorem setBinding_scopes : (env.setBinding owner name t span).scopes = env.scopes := by
  unfold setBinding
  dsimp only
  split
  · rfl
  · split <;> rfl

/-- Assigning a type sets the prototype link or a binding of the target's record. -/
theorem addOrSet_some : (env.addOrSet name target (some t) span).2 =
    if name = some "prototype" then env.setPrototype (env.scope target) t span
    else env.setBinding (env.scope target) name t span := by
  unfold addOrSet
  dsimp only
  split <;> rfl

@[simp] theorem addOrSet_some_uid : (env.addOrSet name target (some t) span).2.uid = env.uid := by
  rw [addOrSet_some]
  split <;> simp

@[simp] theorem addOrSet_some_count :
    (env.addOrSet name target (some t) span).2.count = env.count := by
  rw [addOrSet_some]
  split <;> simp

@[simp] theorem addOrSet_some_scopes :
    (env.addOrSet name target (some t) span).2.scopes = env.scopes := by
  rw [addOrSet_some]
  split <;> simp

/-- Without a type, a target that is named or current gets a new object. -/
theorem addOrSet_none (h : ∀ r params, target ≠ some (.function r params)) :
    env.addOrSet name target none span =
      (.named (Ty.generatedName env.uid env.count),
        ((env.newFleetingObject none span).2.addOrSet name target
          (some (.named (Ty.generatedName env.uid env.count))) span).2) := by
  have hs : (env.newFleetingObject none span).2.scope target = env.scope target := by
    match target, h with
    | none, _ => rfl
    | some (.named _), _ => rfl
    | some (.function r params), h => exact absurd rfl (h r params)
  rw [addOrSet_some, hs]
  unfold addOrSet
  dsimp only [newFleetingObject_none_fst]
  split <;> rfl

end Assignment

/-! ### Summaries and constructors -/

@[simp] theorem mergeSummary_uid (m : Summary) (target : String) :
    (env.mergeSummary m target).uid = env.uid := by
  unfold mergeSummary
  dsimp only
  split <;> rfl

@[simp] theorem mergeSummary_count (m : Summary) (target : String) :
    (env.mergeSummary m target).count = env.count := by
  unfold mergeSummary
  dsimp only
  split <;> rfl

@[simp] theorem mergeSummary_scopes (m : Summary) (target : String) :
    (env.mergeSummary m target).scopes = env.scopes := by
  unfold mergeSummary
  dsimp only
  split <;> rfl

@[simp] theorem createConstructor_uid (result : Ty) (instanceName : String) :
    (env.createConstructor result instanceName).uid = env.uid := by
  simp [createConstructor]

theorem le_createConstructor_count (result : Ty) (instanceName : String) :
    env.count ≤ (env.createConstructor result instanceName).count := by
  have h1 := env.le_newFleetingObject_count (some (Ty.constructorKey result)) none
  have h2 := (env.newFleetingObject (some (Ty.constructorKey result)) none).2
    |>.le_newFleetingObject_count (some (Ty.protoKey (Ty.constructorKey result))) none
  exact Nat.le_trans h1 h2

@[simp] theorem createConstructor_scopes (result : Ty) (instanceName : String) :
    (env.createConstructor result instanceName).scopes = env.scopes := by
  simp [createConstructor]

end ContentAssist.Environment
