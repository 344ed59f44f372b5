import ContentAssist.Proofs.Inference.Scopes

/-! # The scopes that a node opens

On the way down a block, a catch clause and an object open one scope each, and a function one for its
parameters and, if it is a constructor, one more for its object. `depth` counts the scopes that the
way up will close: it reads off a remark about the body whether the function is a constructor.

* `opens_enterNode`: the way down opens at least as many scopes as the way up will close, and exactly
  as many if the body of a function is an object or missing;
* `askedFault_enterNode`: it fails only where the index does. -/

namespace ContentAssist.Inference

variable {task : Task} {n : Node} {s s' : State}

/-- The scopes `extra` were opened on top of the ones that there were. -/
structure Opens (extra : List String) (s s' : State) : Prop where
  outermost : s'.env.scopes.outermost = s.env.scopes.outermost
  inner : s'.env.scopes.inner = extra ++ s.env.scopes.inner

theorem Opens.of_eq (h : s'.env.scopes = s.env.scopes) : Opens [] s s' :=
  ⟨by rw [h], by rw [h]; rfl⟩

theorem Opens.of_push {name : String} (h : s'.env.scopes = s.env.scopes.push name) :
    Opens [name] s s' := ⟨by rw [h]; rfl, by rw [h]; rfl⟩

theorem Opens.trans {s₁ s₂ s₃ : State} {e e' : List String} (h : Opens e s₁ s₂)
    (h' : Opens e' s₂ s₃) : Opens (e' ++ e) s₁ s₃ :=
  ⟨h'.outermost.trans h.outermost, by rw [h'.inner, h.inner, List.append_assoc]⟩

/-- Whether the function `n` is entered as a constructor, as the way up sees it. -/
def closesObject (n : Node) (s : State) : Bool :=
  ((s.fact n).type.map Ty.isFunction).getD false && (n.get "body").isObject &&
    (s.fact (n.get "body")).isConstructorBody

/-- The number of scopes that the way up closes. -/
def depth (n : Node) (s : State) : Nat :=
  match n.kind with
  | .blockStatement | .catchClause | .objectExpression => 1
  | .functionDeclaration | .functionExpression | .arrowFunctionExpression =>
    if closesObject n s then 2 else 1
  | _ => 0

/-- The body of a function is an object or missing. -/
def HasProperBody (n : Node) : Prop :=
  n.kind.isFunction = true → (n.get "body").isObject = true ∨ (n.get "body").isNull = true

instance (n : Node) : Decidable (HasProperBody n) :=
  inferInstanceAs (Decidable (_ → _))

theorem depth_of_isFunction (h : n.kind.isFunction = true) :
    depth n s = if closesObject n s then 2 else 1 := by
  unfold depth
  cases hk : n.kind <;> simp_all [Kind.isFunction]

/-- The scopes of a function after it was named: one for the object of a constructor. -/
theorem opens_nameFunction (task : Task) (n : Node) (s : State) :
    ∃ extra, Opens extra s (nameFunction task n s) ∧
      extra.length = if isConstructor n (functionName n s).1 then 1 else 0 := by
  have hname : (nameFunction task n s).env.scopes =
      ((openFunction n (functionName n s).1 s).2).env.scopes := by
    unfold nameFunction
    dsimp only
    split <;> rfl
  rw [openFunction_eq] at hname
  split at hname
  · rename_i hc
    rw [if_pos hc]
    refine ⟨[Ty.generatedName s.env.uid s.env.count], .of_push (hname.trans ?_), rfl⟩
    simp [State.withEnv, constructed]
  · rename_i hc
    rw [if_neg hc]
    exact ⟨[], .of_eq (hname.trans (by rw [markBody_env])), rfl⟩

theorem scopes_openParams (n : Node) (s : State) : (openParams n s).env.scopes =
    s.env.scopes.push (Ty.generatedName s.env.uid s.env.count) := by
  unfold openParams
  dsimp only
  split <;> rfl

theorem at_of_changes (h : ∀ at_, Changes task at_ s s') (place : Place) :
    s'.facts.at place = s.facts.at place := by
  refine (h (.item 0 :: place)).framed.elsewhere place fun hsuffix => ?_
  have := hsuffix.length_le
  simp only [List.length_cons] at this
  omega

theorem get_place_ne (n : Node) (key : String) : n.place ≠ (n.get key).place := by
  intro h
  have := congrArg List.length h
  simp only [Node.get, List.length_cons] at this
  omega

/-- A function that was named has a function type, and its body tells whether it is a constructor.
-/
theorem fact_nameFunction (task : Task) (n : Node) (s : State) :
    (((nameFunction task n s).fact n).type.map Ty.isFunction).getD false = true ∧
      ((n.get "body").isObject = true →
        ((nameFunction task n s).fact (n.get "body")).isConstructorBody =
          isConstructor n (functionName n s).1) := by
  have hfacts : (nameFunction task n s).facts =
      ((openFunction n (functionName n s).1 s).2.setType n
        (openFunction n (functionName n s).1 s).1).facts := by
    unfold nameFunction
    dsimp only
    split <;> rfl
  have hbody : ∀ b s', (n.get "body").isObject = true → (∃ env, s' = (markBody n b s).withEnv env) →
      (s'.facts.at (n.get "body").place).isConstructorBody = b := by
    rintro b s' hobj ⟨env, rfl⟩
    rw [markBody, if_pos hobj]
    exact congrArg Fact.isConstructorBody
      (at_learn_self s (n.get "body") fun k => { k with isConstructorBody := b })
  unfold State.fact
  rw [hfacts]
  constructor
  · rw [State.setType, at_learn_self, openFunction_eq]
    split <;> rfl
  · intro hobj
    rw [State.setType, at_learn, if_neg (get_place_ne n "body"), openFunction_eq]
    split
    · rename_i hc
      rw [hc]
      exact hbody true _ hobj ⟨_, rfl⟩
    · rename_i hc
      rw [Bool.not_eq_true] at hc
      rw [hc]
      exact hbody false _ hobj ⟨_, rfl⟩

theorem fact_enterFunction (task : Task) (n m : Node) (s : State) :
    (enterFunction task n s).2.fact m = (nameFunction task n s).fact m := by
  have hsame : ∀ place, (paramTypes task n (openParams n (nameFunction task n s))).2.facts.at place =
      (nameFunction task n s).facts.at place :=
    at_of_changes fun at_ => (changes_openParams.trans (@changes_paramTypes task at_ n _).1)
  rw [enterFunction_eq]
  rcases hp : paramTypes task n (openParams n (nameFunction task n s)) with ⟨fault | ts, s₁⟩ <;>
    rw [hp] at hsame
  · exact hsame m.place
  · refine (?_ : _ = s₁.facts.at m.place).trans (hsame m.place)
    unfold State.fact
    rw [facts_bindParams]

/-- A function that was entered closes the scope of an object if it is a constructor. -/
theorem closesObject_enterFunction (task : Task) (n : Node) (s : State) :
    closesObject n (enterFunction task n s).2 =
      (isConstructor n (functionName n s).1 && (n.get "body").isObject) := by
  obtain ⟨htype, hbody⟩ := fact_nameFunction task n s
  unfold closesObject
  rw [fact_enterFunction, fact_enterFunction, htype]
  cases hobj : (n.get "body").isObject with
  | false => simp
  | true => simp [hbody hobj]

/-- The scopes that entering a function opens: those that leaving it closes, if its body is an
object or missing; otherwise it may be one more. -/
theorem opens_enterFunction (task : Task) (n : Node) (s : State) (h : n.kind.isFunction = true) :
    ∃ extra, Opens extra s (enterFunction task n s).2 ∧
      ((enterFunction task n s).1 = .ok () → depth n (enterFunction task n s).2 ≤ extra.length ∧
        (HasProperBody n → extra.length = depth n (enterFunction task n s).2)) := by
  obtain ⟨extra, hopens, hlength⟩ := opens_nameFunction task n s
  have hclose := closesObject_enterFunction task n s
  rw [enterFunction_eq] at hclose ⊢
  have hparams := hopens.trans (.of_push (scopes_openParams n (nameFunction task n s)))
  have htypes := scopes_paramTypes task n (openParams n (nameFunction task n s))
  rcases hp : paramTypes task n (openParams n (nameFunction task n s)) with ⟨fault | ts, s₁⟩ <;>
    rw [hp] at htypes hclose
  · exact ⟨_, hparams.trans (.of_eq htypes), by simp⟩
  · have hbind := scopes_bindParams (n.list "params") ts s₁
    refine ⟨_, hparams.trans (.of_eq (hbind.trans htypes)), fun _ => ?_⟩
    dsimp only at hclose
    rw [depth_of_isFunction h, hclose]
    simp only [List.nil_append, List.length_append, List.length_singleton, hlength]
    refine ⟨?_, fun hproper => ?_⟩
    · split <;> simp_all
    · cases hc : isConstructor n (functionName n s).1 with
      | false => simp
      | true =>
        have hnull : (n.get "body").isNull = false := by
          simp only [isConstructor, Bool.and_eq_true, Bool.not_eq_true'] at hc
          exact hc.1.1
        rcases hproper h with hobj | hnull'
        · simp [hobj]
        · rw [hnull] at hnull'
          cases hnull'

/-- Where a fault comes from: the index was asked for a module last, and answered with it. -/
def AskedFault (task : Task) (fault : Fault) (s : State) : Prop :=
  ∃ index name, task.index? = some index ∧ index.summary? name = .error fault ∧
    s.events.getLast? = some (.askedModule name)

/-- The scopes that the way down opens: at least those that the way up closes, and exactly those if
the body of a function is an object or missing. -/
theorem opens_enterNode (task : Task) (n : Node) (s : State) :
    ∃ extra, Opens extra s (enterNode task n s).2 ∧
      ((enterNode task n s).1 = .ok () → depth n (enterNode task n s).2 ≤ extra.length ∧
        (HasProperBody n → extra.length = depth n (enterNode task n s).2)) := by
  unfold enterNode
  split
  case h_1 h => exact ⟨[], .of_eq (by simp), by simp [depth, h]⟩
  case h_2 h =>
    exact ⟨[Ty.generatedName s.env.uid s.env.count], .of_push rfl, by simp [depth, h]⟩
  case h_3 h => exact ⟨[], .of_eq rfl, by simp [depth, h]⟩
  case h_4 h => exact ⟨[], .of_eq rfl, by simp [depth, h]⟩
  case h_5 h =>
    refine ⟨[Ty.generatedName s.env.uid s.env.count], .of_push ?_, by simp [depth, h]⟩
    exact (scopes_foldl (scopes_enterProperty _) _ _).trans (s.env.newObject_scopes none n.span?)
  case h_6 h => exact opens_enterFunction task n s (by rw [h]; rfl)
  case h_7 h => exact opens_enterFunction task n s (by rw [h]; rfl)
  case h_8 h => exact opens_enterFunction task n s (by rw [h]; rfl)
  case h_9 h => exact ⟨[], .of_eq (by simp), by simp [depth, h]⟩
  case h_10 h => exact ⟨[], .of_eq (by simp), by simp [depth, h]⟩
  case h_11 h =>
    refine ⟨[Ty.generatedName s.env.uid s.env.count], .of_push ?_, by simp [depth, h]⟩
    unfold enterCatch
    dsimp only
    split <;> rfl
  case h_12 h => exact ⟨[], .of_eq (by simp), by simp [depth, h]⟩
  case h_13 h => exact ⟨[], .of_eq (by simp), by simp [depth, h]⟩
  case h_14 =>
    refine ⟨[], .of_eq rfl, ?_⟩
    unfold depth
    cases hk : n.kind <;> simp_all

/-- A fault of a required module is one of the index. -/
theorem askedFault_loadModule {index : Index} (hindex : task.index? = some index) {name : String}
    {fault : Fault} (h : (loadModule index name s).1 = .error fault) :
    AskedFault task fault (loadModule index name s).2 := by
  unfold loadModule at h ⊢
  dsimp only at h ⊢
  cases hsum : index.summary? name with
  | error fault' =>
    rw [hsum] at h
    cases h
    exact ⟨index, name, hindex, hsum, by simp [State.happened]⟩
  | ok o => cases o <;> simp [hsum] at h

theorem askedFault_dependencyType {index : Index} (hindex : task.index? = some index)
    {dependency : Option Node} {fault : Fault}
    (h : (dependencyType index dependency s).1 = .error fault) :
    AskedFault task fault (dependencyType index dependency s).2 := by
  unfold dependencyType at h ⊢
  split at h
  · cases h
  · rename_i name _
    have hasked := @askedFault_loadModule task s index hindex name fault
    rcases hl : loadModule index name s with ⟨fault' | (_ | t), s'⟩ <;> rw [hl] at h hasked
    · cases h
      exact hasked rfl
    · cases h
    · cases h

theorem askedFault_dependencyTypes {index : Index} (hindex : task.index? = some index)
    {params names : List Node} {fault : Fault}
    (h : (dependencyTypes index params names s).1 = .error fault) :
    AskedFault task fault (dependencyTypes index params names s).2 := by
  induction params generalizing names s with
  | nil => cases h
  | cons param params ih =>
    rw [dependencyTypes] at h ⊢
    rcases hd : dependencyType index names.head? s with ⟨fault' | t, s₁⟩ <;> rw [hd] at h
    · cases h
      have hasked := @askedFault_dependencyType task s index hindex names.head? fault (by rw [hd])
      rwa [hd] at hasked
    · have hrest := @ih s₁ names.tail
      dsimp only at h ⊢
      rcases hr : dependencyTypes index params names.tail s₁ with ⟨fault' | ts, s₂⟩ <;>
        rw [hr] at h hrest
      · exact hrest h
      · cases h

theorem askedFault_paramTypes (task : Task) (n : Node) (s : State) (fault : Fault)
    (h : (paramTypes task n s).1 = .error fault) :
    AskedFault task fault (paramTypes task n s).2 := by
  unfold paramTypes at h ⊢
  dsimp only at h ⊢
  split at h
  · rename_i hd
    exact askedFault_dependencyTypes (index?_of_dependencies? hd) h
  · cases h

theorem askedFault_enterNode (task : Task) (n : Node) (s : State) (fault : Fault)
    (h : (enterNode task n s).1 = .error fault) : AskedFault task fault (enterNode task n s).2 := by
  have hfunction : ∀ fault, (enterFunction task n s).1 = .error fault →
      AskedFault task fault (enterFunction task n s).2 := by
    intro fault h
    rw [enterFunction_eq] at h ⊢
    have hasked := askedFault_paramTypes task n (openParams n (nameFunction task n s))
    rcases hp : paramTypes task n (openParams n (nameFunction task n s)) with ⟨fault' | ts, s₁⟩ <;>
      rw [hp] at h hasked
    · cases h
      exact hasked fault rfl
    · cases h
  unfold enterNode at h ⊢
  split at h
  case h_6 | h_7 | h_8 => exact hfunction fault h
  all_goals cases h

end ContentAssist.Inference
