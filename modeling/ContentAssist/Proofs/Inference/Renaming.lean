import ContentAssist.Proofs.Environment.Renaming
import ContentAssist.Proofs.Inference.BoundName

/-! # Inference and renaming

Each rule of the inference goes with a renaming of records: from a renamed state it comes to the renamed
outcome. Rules read of a type whether it is a function, whether it is one of the builtin ones, and what
its name resolves to; none of this depends on how a program's records are called. There is one rule in
which the name of a record could become that of a variable: a constructor that has no name is bound under
the name of its object. But no function without a name is a constructor.

* `Renamed`: a state is another one, renamed; `RenamedOutcome`: the same of an outcome;
* `renamed_enter`: the way down;
* `renamed_leaveNode`, `renamed_settle`: the way up. -/

namespace ContentAssist.Inference

open Ty (generatedName)

variable {f : String → String} {task : Task} {n : Node} {s s' : State}

/-! ### Renamed states -/

/-- The fact with its type renamed. -/
def Fact.rename (f : String → String) (k : Fact) : Fact := { k with type := k.type.map (·.rename f) }

section
variable (f : String → String) (k : Fact)

@[simp] theorem Fact.type_rename : (k.rename f).type = k.type.map (·.rename f) := rfl

@[simp] theorem Fact.target_rename : (k.rename f).target = k.target := rfl

@[simp] theorem Fact.isDefined_rename : (k.rename f).isDefined = k.isDefined := rfl

@[simp] theorem Fact.boundName_rename : (k.rename f).boundName = k.boundName := rfl

@[simp] theorem Fact.boundSpan_rename : (k.rename f).boundSpan = k.boundSpan := rfl

@[simp] theorem Fact.isConstructorBody_rename :
    (k.rename f).isConstructorBody = k.isConstructorBody := rfl

end

/-- The state `s'` is `s` with all records renamed. -/
structure Renamed (f : String → String) (s s' : State) : Prop where
  env : s.env.Renamed f s'.env
  facts : ∀ place, s'.facts.at place = (s.facts.at place).rename f
  amdModule : s'.amdModule = s.amdModule
  wrappedModule : s'.wrappedModule = s.wrappedModule
  events : s'.events = s.events

namespace Renamed

variable (h : Renamed f s s')
include h

theorem fact_eq (n : Node) : s'.fact n = (s.fact n).rename f := h.facts n.place

theorem targetType_eq (n : Node) : s'.targetType n = (s.targetType n).map (·.rename f) := by
  unfold State.targetType
  rw [h.fact_eq, Fact.target_rename]
  cases (s.fact n).target with
  | none => rfl
  | some place => exact congrArg Fact.type (h.facts place)

theorem withEnv {env env' : Environment} (henv : env.Renamed f env') :
    Renamed f (s.withEnv env) (s'.withEnv env') :=
  ⟨henv, h.facts, h.amdModule, h.wrappedModule, h.events⟩

theorem learn (n : Node) (g : Fact → Fact) (hg : ∀ k, (g k).rename f = g (k.rename f)) :
    Renamed f (s.learn n g) (s'.learn n g) where
  env := h.env
  facts := fun place => by
    rw [at_learn, at_learn, h.fact_eq, h.facts, ← hg]
    split <;> rfl
  amdModule := h.amdModule
  wrappedModule := h.wrappedModule
  events := h.events

theorem retype (n : Node) (o : Option Ty) :
    Renamed f (s.learn n fun k => { k with type := o })
      (s'.learn n fun k => { k with type := o.map (·.rename f) }) where
  env := h.env
  facts := fun place => by
    rw [at_learn, at_learn, h.fact_eq, h.facts]
    split <;> rfl
  amdModule := h.amdModule
  wrappedModule := h.wrappedModule
  events := h.events

theorem setType (n : Node) (t : Ty) : Renamed f (s.setType n t) (s'.setType n (t.rename f)) :=
  h.retype n (some t)

theorem happened (e : Event) : Renamed f (s.happened e) (s'.happened e) :=
  ⟨h.env, h.facts, h.amdModule, h.wrappedModule, congrArg (· ++ [e]) h.events⟩

end Renamed

variable (hf : Renames f)
include hf

namespace Renamed

variable (h : Renamed f s s')
include h

theorem typeOf_eq (n : Node) : s'.typeOf n = (s.typeOf n).rename f := by
  unfold State.typeOf
  rw [h.fact_eq, Fact.type_rename]
  cases (s.fact n).type with
  | none => exact (hf.rename_standard (by simp [standardTypes])).symm
  | some t => rfl

theorem bind (name : Name) (target : Option Ty) (t : Ty) (span : Option Span) :
    Renamed f (s.bind name target t span)
      (s'.bind name (target.map (·.rename f)) (t.rename f) span) :=
  h.withEnv (h.env.addVariable hf name target t span)

theorem assign (name : Name) (target : Option Ty) (t : Ty) (span : Option Span) :
    Renamed f (s.assign name target t span)
      (s'.assign name (target.map (·.rename f)) (t.rename f) span) :=
  h.withEnv (h.env.addOrSet_some hf name target t span)

theorem bind_standard (name : Name) {t : Ty} (ht : t ∈ standardTypes) (span : Option Span) :
    Renamed f (s.bind name none t span) (s'.bind name none t span) := by
  have hbind := h.bind hf name none t span
  rwa [hf.rename_standard ht] at hbind

theorem setType_standard (n : Node) {t : Ty} (ht : t ∈ standardTypes) :
    Renamed f (s.setType n t) (s'.setType n t) := by
  have hset := h.setType n t
  rwa [hf.rename_standard ht] at hset

theorem newObjectType : s'.newObjectType.1 = s.newObjectType.1.rename f ∧
    Renamed f s.newObjectType.2 s'.newObjectType.2 := by
  obtain ⟨hfst, hnew⟩ := h.env.newFleetingObject hf none (by simp) none
  exact ⟨congrArg Ty.named hfst, h.withEnv hnew⟩

end Renamed

/-! ### The way down -/

section Down
variable (h : Renamed f s s')
include h

omit hf in
theorem renamed_enterProgram (n : Node) : Renamed f (enterProgram n s) (enterProgram n s') := by
  have hfound : ∀ wrapped amd : Option Node,
      Renamed f { s with wrappedModule := wrapped, amdModule := amd }
        { s' with wrappedModule := wrapped, amdModule := amd } := fun _ _ =>
    ⟨h.env, h.facts, rfl, rfl, h.events⟩
  unfold enterProgram
  rw [h.amdModule]
  dsimp only
  split
  · exact (hfound _ _).happened _
  · split
    · exact (hfound _ _).happened _
    · exact hfound _ _

theorem renamed_openScope (n : Node) : Renamed f (openScope n s) (openScope n s') := by
  obtain ⟨hfst, hscope⟩ := h.env.newScope hf none
  have hset := (h.withEnv hscope).setType n (.named (s.env.newScope none).1)
  rwa [Ty.rename_named, ← hfst] at hset

theorem renamed_literalType (n : Node) :
    Renamed f (s.setType n (literalType n)) (s'.setType n (literalType n)) := by
  unfold literalType
  split
  · exact h.setType_standard hf n (by simp [standardTypes])
  · split <;> exact h.setType_standard hf n (by simp [standardTypes])

omit hf in
theorem renamed_bindFunction (value : Node) (name : Name) (span : Option Span) :
    Renamed f (bindFunction value name span s) (bindFunction value name span s') := by
  unfold bindFunction
  split
  · exact h.learn value _ fun _ => rfl
  · exact h

theorem renamed_enterProperty (object : Ty) (property : Node) :
    Renamed f (enterProperty object s property) (enterProperty (object.rename f) s' property) := by
  unfold enterProperty
  cases propertyName? property with
  | none => exact h
  | some name =>
    have hbind := h.bind hf (some name) (some object) .object (property.get "key").span?
    rw [show Ty.object.rename f = .object from hf.rename_standard (by simp [standardTypes])] at hbind
    have hdefined := hbind.learn (property.get "key") (fun k => { k with isDefined := true })
      fun _ => rfl
    exact renamed_bindFunction hdefined _ _ _

theorem renamed_enterObject (n : Node) : Renamed f (enterObject n s) (enterObject n s') := by
  obtain ⟨hfst, hobject⟩ := h.env.newObject hf none (by simp) n.span?
  have hset := (h.withEnv hobject).setType n (.named (s.env.newObject none n.span?).1)
  have hproperties : ∀ (object : Ty) (ps : List Node) {s s' : State}, Renamed f s s' →
      Renamed f (ps.foldl (enterProperty object) s) (ps.foldl (enterProperty (object.rename f)) s') := by
    intro object ps
    induction ps with
    | nil => exact id
    | cons p ps ih => exact fun h => ih (renamed_enterProperty hf h object p)
  have hall := hproperties (.named (s.env.newObject none n.span?).1) (n.list "properties") hset
  rw [Ty.rename_named, ← hfst] at hall
  exact hall

omit hf in
theorem functionName_eq (n : Node) : functionName n s' = functionName n s := by
  unfold functionName
  rw [h.fact_eq, Fact.boundName_rename, Fact.boundSpan_rename]

omit hf in
theorem renamed_markBody (n : Node) (b : Bool) : Renamed f (markBody n b s) (markBody n b s') := by
  unfold markBody
  split
  · exact h.learn (n.get "body") _ fun _ => rfl
  · exact h

omit hf h in
theorem isBase_newObject (env : Environment) {name : String} (span : Option Span)
    (hname : isConstructorName name = true) : IsBase (env.newObject (some name) span).1 := by
  change IsBase (((env.newScope span).2.newFleetingObject (some name) span).1)
  rw [Environment.newFleetingObject_some]
  split
  · exact isBase_generatedName _ _
  · exact isBase_of_isConstructorName hname

theorem renamed_constructed {name : String} (hname : isConstructorName name = true)
    (span : Option Span) :
    (constructed s'.env (some name) span).1 = f (constructed s.env (some name) span).1 ∧
      (constructed s.env (some name) span).2.Renamed f (constructed s'.env (some name) span).2 := by
  have hplain : ∀ n, some name = some n → ¬ IsNested n := by
    rintro n ⟨⟩
    exact not_isNested_of_mem_derivedNames (isBase_of_isConstructorName hname) List.mem_cons_self
  obtain ⟨hfst, hobject⟩ := h.env.newObject hf (some name) hplain span
  rw [Option.map_some, hf.constructor hname] at hfst hobject
  refine ⟨hfst, ?_⟩
  have hrecords := hobject.createConstructor hf (isBase_newObject s.env span hname)
  rwa [← hfst] at hrecords

theorem renamed_openFunction (n : Node) (name : Name) :
    (openFunction n name s').1 = (openFunction n name s).1.rename f ∧
      Renamed f (openFunction n name s).2 (openFunction n name s').2 := by
  rw [openFunction_eq, openFunction_eq]
  by_cases hc : isConstructor n name = true
  · rw [if_pos hc, if_pos hc]
    cases name with
    | none => simp [isConstructor] at hc
    | some name =>
      have hname : isConstructorName name = true := by
        simp only [isConstructor, Bool.and_eq_true] at hc
        exact hc.2
      obtain ⟨hfst, hrecords⟩ := renamed_constructed hf h hname n.span?
      refine ⟨?_, (renamed_markBody h n true).withEnv hrecords⟩
      dsimp only
      rw [hfst]
      rfl
  · rw [if_neg hc, if_neg hc]
    refine ⟨?_, renamed_markBody h n false⟩
    dsimp only
    rw [Ty.rename_function, show Ty.object.rename f = .object from
      hf.rename_standard (by simp [standardTypes])]

theorem renamed_nameFunction (task : Task) (n : Node) :
    Renamed f (nameFunction task n s) (nameFunction task n s') := by
  obtain ⟨htype, hopen⟩ := renamed_openFunction hf h n (functionName n s).1
  have hset := hopen.setType n (openFunction n (functionName n s).1 s).1
  unfold nameFunction
  rw [functionName_eq h]
  dsimp only
  rw [htype]
  split
  · exact hset.bind hf _ none _ _
  · exact hset

theorem renamed_openParams (n : Node) : Renamed f (openParams n s) (openParams n s') := by
  obtain ⟨-, hscope⟩ := h.env.newScope hf none
  unfold openParams
  dsimp only
  split
  · exact h.withEnv hscope
  · exact (h.withEnv hscope).bind_standard hf _ (by simp [standardTypes]) _

theorem renamed_newObjectTypes (params : List Node) :
    (newObjectTypes params s').1 = (newObjectTypes params s).1.map (·.rename f) ∧
      Renamed f (newObjectTypes params s).2 (newObjectTypes params s').2 := by
  induction params generalizing s s' with
  | nil => exact ⟨rfl, h⟩
  | cons param params ih =>
    obtain ⟨hfst, hnew⟩ := h.newObjectType hf
    obtain ⟨hrest, hend⟩ := ih hnew
    exact ⟨congrArg₂ List.cons hfst hrest, hend⟩

theorem renamed_bindParams (params : List Node) (ts : List Ty) :
    Renamed f (bindParams params ts s) (bindParams params (ts.map (·.rename f)) s') := by
  induction params generalizing ts s s' with
  | nil => exact h
  | cons param params ih =>
    cases ts with
    | nil => exact h
    | cons t ts =>
      rw [List.map_cons, bindParams, bindParams]
      split
      · exact ih h ts
      · exact ih (h.bind hf _ none t _) ts

theorem renamed_enterFunction (hindex : task.index? = none) (n : Node) :
    (enterFunction task n s').1 = (enterFunction task n s).1 ∧
      Renamed f (enterFunction task n s).2 (enterFunction task n s').2 := by
  obtain ⟨htypes, hparams⟩ := renamed_newObjectTypes hf
    (renamed_openParams hf (renamed_nameFunction hf h task n) n) (n.list "params")
  rw [enterFunction_eq, enterFunction_eq, paramTypes_eq hindex, paramTypes_eq hindex]
  refine ⟨rfl, ?_⟩
  dsimp only
  rw [htypes]
  exact renamed_bindParams hf hparams _ _

omit hf in
theorem renamed_enterDeclarator (n : Node) : Renamed f (enterDeclarator n s) (enterDeclarator n s') := by
  unfold enterDeclarator
  dsimp only
  split
  · exact h
  · exact renamed_bindFunction (h.learn (n.get "id") (fun k => { k with isDefined := true })
      fun _ => rfl) _ _ _

omit hf in
theorem renamed_enterAssignment (n : Node) :
    Renamed f (enterAssignment n s) (enterAssignment n s') := by
  unfold enterAssignment
  dsimp only
  split
  · exact renamed_bindFunction h _ _ _
  · exact h

theorem renamed_enterCatch (n : Node) : Renamed f (enterCatch n s) (enterCatch n s') := by
  have hopen := renamed_openScope hf h n
  unfold enterCatch
  dsimp only
  split
  · exact hopen
  · exact (hopen.setType_standard hf _ (by simp [standardTypes])).bind_standard hf _ (by simp [standardTypes]) _

omit hf in
theorem renamed_enterMember (n : Node) : Renamed f (enterMember n s) (enterMember n s') := by
  unfold enterMember
  dsimp only
  split
  · exact h.learn (n.get "property") _ fun _ => rfl
  · exact h

omit hf in
theorem renamed_enterCall (n : Node) : Renamed f (enterCall n s) (enterCall n s') := by
  unfold enterCall
  dsimp only
  split
  · split
    · exact h.learn _ _ fun _ => rfl
    · exact h
  · exact h

theorem renamed_enterNode (hindex : task.index? = none) (n : Node) :
    (enterNode task n s').1 = (enterNode task n s).1 ∧
      Renamed f (enterNode task n s).2 (enterNode task n s').2 := by
  unfold enterNode
  split
  · exact ⟨rfl, renamed_enterProgram h n⟩
  · exact ⟨rfl, renamed_openScope hf h n⟩
  · exact ⟨rfl, renamed_literalType hf h n⟩
  · exact ⟨rfl, h.setType_standard hf n (by simp [standardTypes])⟩
  · exact ⟨rfl, renamed_enterObject hf h n⟩
  · exact renamed_enterFunction hf h hindex n
  · exact renamed_enterFunction hf h hindex n
  · exact renamed_enterFunction hf h hindex n
  · exact ⟨rfl, renamed_enterDeclarator h n⟩
  · exact ⟨rfl, renamed_enterAssignment h n⟩
  · exact ⟨rfl, renamed_enterCatch hf h n⟩
  · exact ⟨rfl, renamed_enterMember h n⟩
  · exact ⟨rfl, renamed_enterCall h n⟩
  · exact ⟨rfl, h⟩

/-- **The way down** from a renamed state wants the same and comes to the renamed state. -/
theorem renamed_enter (hindex : task.index? = none) (n : Node) :
    (enter task n s').1 = (enter task n s).1 ∧
      Renamed f (enter task n s).2 (enter task n s').2 := by
  obtain ⟨hresult, hnode⟩ := renamed_enterNode hf h hindex n
  rw [enter_eq, enter_eq]
  split
  · exact ⟨rfl, h⟩
  · rcases he : enterNode task n s with ⟨fault | _, s₁⟩ <;>
      rcases he' : enterNode task n s' with ⟨fault' | _, s₁'⟩ <;>
      rw [he, he'] at hresult hnode <;> cases hresult <;> exact ⟨rfl, hnode⟩

end Down

/-! ### The way up -/

/-- The outcome `o'` is `o` with all records renamed. -/
structure RenamedOutcome (f : String → String) (o o' : Outcome) : Prop where
  answer : o'.1 = o.1.map (·.map f)
  state : Renamed f o.2 o'.2

omit hf in
theorem RenamedOutcome.cases {o o' : Outcome} (h : RenamedOutcome f o o') :
    (∃ s s', o = (none, s) ∧ o' = (none, s') ∧ Renamed f s s') ∨
      ∃ a s s', o = (some a, s) ∧ o' = (some (a.map f), s') ∧ Renamed f s s' := by
  obtain ⟨answer, s⟩ := o
  obtain ⟨answer', s'⟩ := o'
  obtain ⟨hanswer, hstate⟩ := h
  cases answer with
  | none => exact Or.inl ⟨s, s', rfl, congrArg (·, s') hanswer, hstate⟩
  | some a => exact Or.inr ⟨a, s, s', rfl, congrArg (·, s') hanswer, hstate⟩

namespace Renamed

variable (h : Renamed f s s')
include h

omit hf in
theorem goOn : RenamedOutcome f (goOn s) (goOn s') := ⟨rfl, h⟩

omit hf in
theorem answer (scope : String) : RenamedOutcome f (answer scope s) (answer (f scope) s') := ⟨rfl, h⟩

theorem closeScope : RenamedOutcome f (closeScope s) (closeScope s') := by
  unfold Inference.closeScope
  cases hpop : s.env.popScope? with
  | none =>
    rw [h.env.popScope?_eq_none.2 hpop]
    exact ⟨rfl, h⟩
  | some popped =>
    cases hpop' : s'.env.popScope? with
    | none =>
      rw [h.env.popScope?_eq_none.1 hpop'] at hpop
      cases hpop
    | some popped' => exact (h.withEnv (h.env.popScope? hf hpop hpop')).goOn

end Renamed

section Up
variable (h : Renamed f s s')
include h

theorem renamed_leaveBlock (task : Task) (n : Node) :
    RenamedOutcome f (leaveBlock task n s) (leaveBlock task n s') := by
  unfold leaveBlock
  split
  · have hanswer := h.answer (s.env.scope none)
    rwa [← h.env.scope_eq hf none] at hanswer
  · exact h.closeScope hf

theorem renamed_setType_typeOf (n m : Node) :
    Renamed f (s.setType n (s.typeOf m)) (s'.setType n (s'.typeOf m)) := by
  rw [h.typeOf_eq hf]
  exact h.setType n _

theorem renamed_leaveMember (task : Task) (n : Node) :
    RenamedOutcome f (leaveMember task n s) (leaveMember task n s') := by
  unfold leaveMember
  dsimp only
  split
  · have hanswer := h.answer (s.env.scope (some (s.typeOf (n.get "object"))))
    rw [← h.env.scope_eq hf, Option.map_some, ← h.typeOf_eq hf] at hanswer
    exact hanswer
  · split
    · exact (h.setType_standard hf n (by simp [standardTypes])).goOn
    · split <;> exact (renamed_setType_typeOf hf h n _).goOn

theorem renamed_leaveNew (n : Node) : Renamed f (leaveNew n s) (leaveNew n s') := by
  unfold leaveNew
  rw [h.typeOf_eq hf, Ty.result_rename]
  exact h.setType n _

theorem renamed_leaveCall (hindex : task.index? = none) (n : Node) :
    RenamedOutcome f (leaveCall task n s) (leaveCall task n s') := by
  unfold leaveCall requiredType
  rw [hindex]
  exact (renamed_leaveNew hf h n).goOn

theorem renamed_leaveProperty (object : Option Ty) (property : Node) :
    Renamed f (leaveProperty object s property)
      (leaveProperty (object.map (·.rename f)) s' property) := by
  unfold leaveProperty
  cases propertyName? property with
  | none => exact h
  | some name =>
    have hset := renamed_setType_typeOf hf h (property.get "key") (property.get "value")
    have hbind := hset.bind hf (some name) object (s.typeOf (property.get "value"))
      (property.get "key").span?
    rw [← h.typeOf_eq hf] at hbind
    exact hbind

theorem renamed_leaveObject (n : Node) : RenamedOutcome f (leaveObject n s) (leaveObject n s') := by
  have hproperties : ∀ (object : Option Ty) (ps : List Node) {s s' : State}, Renamed f s s' →
      Renamed f (ps.foldl (leaveProperty object) s)
        (ps.foldl (leaveProperty (object.map (·.rename f))) s') := by
    intro object ps
    induction ps with
    | nil => exact id
    | cons p ps ih => exact fun h => ih (renamed_leaveProperty hf h object p)
  have hall := hproperties (s.fact n).type (n.list "properties") h
  unfold leaveObject
  rw [h.fact_eq]
  exact hall.closeScope hf

omit h in
theorem rename_eq_string_iff {t : Ty} : t.rename f = .string ↔ t = .string := by
  have hstring : Ty.string.rename f = .string := hf.rename_standard (by simp [standardTypes])
  constructor
  · exact fun heq => Ty.rename_injective hf.injective (heq.trans hstring.symm)
  · rintro rfl
    exact hstring

omit h in
theorem binaryType_rename (op : String) (left right : Ty) :
    binaryType op (left.rename f) (right.rename f) = (binaryType op left right).rename f := by
  have hstandard : ∀ t ∈ standardTypes, t.rename f = t := fun _ ht => hf.rename_standard ht
  unfold binaryType
  simp only [rename_eq_string_iff hf]
  split
  · split <;> exact (hstandard _ (by simp [standardTypes])).symm
  · split
    · exact (hstandard _ (by simp [standardTypes])).symm
    · split
      · rfl
      · split <;> exact (hstandard _ (by simp [standardTypes])).symm

theorem renamed_leaveBinary (n : Node) : Renamed f (leaveBinary n s) (leaveBinary n s') := by
  unfold leaveBinary
  rw [h.typeOf_eq hf, h.typeOf_eq hf, binaryType_rename hf]
  exact h.setType n _

theorem renamed_leaveUnary (n : Node) : Renamed f (leaveUnary n s) (leaveUnary n s') := by
  unfold leaveUnary
  split <;> exact h.setType_standard hf n (by simp [standardTypes])

/-- A constructor is bound under a name that is not that of its object. -/
theorem renamed_leaveConstructor (n : Node) (type result : Ty)
    (hname : ∃ c, ∀ leaf : String,
      firstName [(n.get "id").identifier?, (s.fact n).boundName, some leaf] = some c) :
    RenamedOutcome f (leaveConstructor n type result s)
      (leaveConstructor n (type.rename f) (result.rename f) s') := by
  obtain ⟨c, hname⟩ := hname
  have hfacts := facts_closeScope s
  unfold leaveConstructor
  rcases (h.closeScope hf).cases with ⟨s₁, s₁', hs, hs', h₁⟩ | ⟨a, s₁, s₁', hs, hs', h₁⟩ <;> rw [hs, hs']
  · rw [hs] at hfacts
    have hfact : s₁.fact n = s.fact n := congrArg (Facts.at n.place) hfacts
    dsimp only
    rw [h₁.fact_eq, hfact, Fact.boundName_rename, hname, hname]
    exact (h₁.assign hf _ none type _).goOn
  · exact ⟨rfl, h₁⟩

theorem renamed_leavePlainFunction (n : Node) (type : Ty) :
    Renamed f (leavePlainFunction n type s) (leavePlainFunction n (type.rename f) s') := by
  unfold leavePlainFunction
  cases returned? n with
  | none => exact h
  | some r =>
    dsimp only
    rw [h.typeOf_eq hf, Ty.withResult_rename]
    have hset := h.setType n (type.withResult (s.typeOf r))
    cases (n.get "id").identifier? with
    | some name => exact hset.assign hf (some name) none _ _
    | none =>
      dsimp only
      rw [hset.fact_eq, Fact.boundName_rename, Fact.boundSpan_rename]
      cases ((s.setType n (type.withResult (s.typeOf r))).fact n).boundName with
      | none => exact hset
      | some name => exact hset.assign hf (some name) none _ _

/-- A function that is left as a constructor has a name. -/
theorem renamed_leaveFunction (n : Node)
    (hname : closesObject n s = true → ∃ c, ∀ leaf : String,
      firstName [(n.get "id").identifier?, (s.fact n).boundName, some leaf] = some c) :
    RenamedOutcome f (leaveFunction n s) (leaveFunction n s') := by
  have hfacts := facts_closeScope s
  unfold leaveFunction
  rcases (h.closeScope hf).cases with ⟨s₁, s₁', hs, hs', h₁⟩ | ⟨a, s₁, s₁', hs, hs', h₁⟩ <;> rw [hs, hs']
  · rw [hs] at hfacts
    have hfact : ∀ m : Node, s₁.fact m = s.fact m := fun m => congrArg (Facts.at m.place) hfacts
    dsimp only
    rw [h₁.fact_eq, h₁.fact_eq, Fact.type_rename, Fact.isConstructorBody_rename]
    cases htype : (s₁.fact n).type with
    | none => exact h₁.goOn
    | some t =>
      cases t with
      | named name => exact h₁.goOn
      | function result params =>
        rw [Option.map_some, Ty.rename_function]
        cases hobject : (n.get "body").isObject with
        | false => exact h₁.goOn
        | true =>
          dsimp only
          by_cases hbody : (s₁.fact (n.get "body")).isConstructorBody = true
          · rw [if_pos hbody, if_pos hbody]
            refine renamed_leaveConstructor hf h₁ n (.function result params) result ?_
            rw [hfact]
            refine hname ?_
            unfold closesObject
            rw [← hfact, ← hfact, htype, hobject, hbody]
            rfl
          · rw [if_neg hbody, if_neg hbody]
            exact (renamed_leavePlainFunction hf h₁ n (.function result params)).goOn
  · exact ⟨rfl, h₁⟩

theorem renamed_leaveDeclarator (n : Node) : Renamed f (leaveDeclarator n s) (leaveDeclarator n s') := by
  have hset := renamed_setType_typeOf hf h n (n.get "init")
  unfold leaveDeclarator
  dsimp only
  split
  · exact hset
  · rw [h.typeOf_eq hf] at hset ⊢
    exact (hset.setType (n.get "id") _).bind hf _ none _ _

theorem assignmentType_eq (n : Node) : assignmentType n s' = (assignmentType n s).rename f := by
  unfold assignmentType
  rw [h.typeOf_eq hf, h.typeOf_eq hf]
  simp only [rename_eq_string_iff hf]
  split
  · rfl
  · split <;> exact (hf.rename_standard (by simp [standardTypes])).symm

theorem renamed_leaveAssignment (n : Node) :
    Renamed f (leaveAssignment n s) (leaveAssignment n s') := by
  unfold leaveAssignment
  rw [assignmentType_eq hf h]
  dsimp only
  have hset := h.setType n (assignmentType n s)
  cases (n.get "left").rightMost? with
  | none => exact hset
  | some id =>
    have hid := hset.setType id (assignmentType n s)
    dsimp only
    rw [hid.targetType_eq]
    exact hid.assign hf id.name _ _ id.span?

theorem renamed_leaveIdentifier (task : Task) (n : Node) :
    RenamedOutcome f (leaveIdentifier task n s) (leaveIdentifier task n s') := by
  unfold leaveIdentifier
  rw [h.targetType_eq, h.fact_eq]
  dsimp only
  split
  · have hanswer := h.answer (s.env.scope (s.targetType n))
    rwa [← h.env.scope_eq hf] at hanswer
  · rw [h.env.lookup?_eq hf]
    cases s.env.lookup? n.name (s.targetType n) with
    | some t => exact (h.setType n t).goOn
    | none =>
      dsimp only [Option.map_none]
      rw [Fact.target_rename, Fact.isDefined_rename]
      by_cases hnew : (s.fact n).target.isNone ∧ !(s.fact n).isDefined ∧ task.cursor.isAfter n.span?
      · rw [if_pos hnew, if_pos hnew]
        have hglobal : (some Ty.global).map (·.rename f) = some .global :=
          congrArg some (hf.rename_standard (by simp [standardTypes]))
        obtain ⟨htype, henv⟩ := h.env.addOrSet_none hf n.name (some .global)
          (by rintro r params ⟨⟩) n.span?
        rw [hglobal] at htype henv
        have hset := (h.withEnv henv).setType n (s.env.addOrSet n.name (some .global) none n.span?).1
        rw [← htype] at hset
        exact hset.goOn
      · rw [if_neg hnew, if_neg hnew]
        exact h.goOn

theorem renamed_leaveThis (n : Node) : Renamed f (leaveThis n s) (leaveThis n s') := by
  unfold leaveThis
  rw [show s'.env.lookup? (some "this") none = _ from h.env.lookup?_eq hf (some "this") none]
  exact h.retype n _

theorem renamed_leaveReturn (n : Node) : Renamed f (leaveReturn n s) (leaveReturn n s') := by
  unfold leaveReturn
  dsimp only
  split
  · exact h
  · exact renamed_setType_typeOf hf h n _

theorem renamed_leaveNode (hindex : task.index? = none) (n : Node)
    (hname : n.kind.isFunction = true → closesObject n s = true → ∃ c, ∀ leaf : String,
      firstName [(n.get "id").identifier?, (s.fact n).boundName, some leaf] = some c) :
    RenamedOutcome f (leaveNode task n s) (leaveNode task n s') := by
  unfold leaveNode
  split
  case h_1 =>
    have hanswer := h.answer (s.env.scope none)
    rwa [← h.env.scope_eq hf none] at hanswer
  case h_2 | h_3 => exact renamed_leaveBlock hf h task n
  case h_4 => exact renamed_leaveMember hf h task n
  case h_5 => exact renamed_leaveCall hf h hindex n
  case h_6 => exact (renamed_leaveNew hf h n).goOn
  case h_7 => exact renamed_leaveObject hf h n
  case h_8 | h_9 => exact (renamed_leaveBinary hf h n).goOn
  case h_10 | h_11 => exact (renamed_leaveUnary hf h n).goOn
  case h_12 hk | h_13 hk | h_14 hk =>
    exact renamed_leaveFunction hf h n (hname (by rw [hk]; rfl))
  case h_15 => exact (renamed_leaveDeclarator hf h n).goOn
  case h_16 => exact (renamed_leaveAssignment hf h n).goOn
  case h_17 => exact renamed_leaveIdentifier hf h task n
  case h_18 => exact (renamed_leaveThis hf h n).goOn
  case h_19 => exact (renamed_leaveReturn hf h n).goOn
  case h_20 => exact h.goOn

theorem renamed_settle (n : Node) : Renamed f (settle n s) (settle n s') := by
  unfold settle
  rw [h.fact_eq, Fact.type_rename, Option.isNone_map]
  split
  · exact h.setType_standard hf n (by simp [standardTypes])
  · exact h

end Up

end ContentAssist.Inference
