import ContentAssist.Inference.Run
import ContentAssist.Proofs.Inference.Leave
import ContentAssist.Proofs.Tree.FieldOrder
import ContentAssist.Proofs.Tree.Returns

/-! # Inference and the order of fields

No rule reads a node otherwise than by the names of its fields. So each one goes from the normal form of a
node, in the normal form of a state, to the normal form of what it goes to from the node; and an inference
of a tree in normal form does the same as one of the tree.

* `State.normal`: the state with the nodes that it remembers in normal form;
* `lastReturn?_normal`, `rightMost?_normal`, `paramName_normal`: what is found below a node;
* `enter_normal`, `leave_normal`: the rules;
* `run_normal`: the inference. -/

namespace ContentAssist

/-! ### What is found below a node -/

theorem findSome?_map_of_comm {α α' β β' : Type} {f : α → Option β} {f' : α' → Option β'} {g : α → α'}
    {h : β → β'} {as : List α} (hf : ∀ a ∈ as, f' (g a) = (f a).map h) :
    (as.map g).findSome? f' = (as.findSome? f).map h := by
  induction as with
  | nil => rfl
  | cons a as ih =>
    rw [List.map_cons, List.findSome?_cons, List.findSome?_cons, hf a List.mem_cons_self]
    cases f a with
    | none => exact ih fun b hb => hf b (List.mem_cons_of_mem _ hb)
    | some b => rfl

namespace Node

theorem handlers_normal (n : Node) : n.normal.handlers = n.handlers.map normal := by
  unfold handlers
  rw [get_normal, isObject_normal, list_normal]
  split <;> rfl

theorem endingParts_normal (n : Node) : n.normal.endingParts = n.endingParts.map normal := by
  unfold endingParts
  rw [kind_normal]
  split <;> simp [handlers_normal, List.getLast?_map, Option.toList_map]

theorem lastReturn?_normal (n : Node) : n.normal.lastReturn? = n.lastReturn?.map normal := by
  induction n using endingInduct with
  | step n ih =>
    rw [lastReturn?_eq, lastReturn?_eq n, kind_normal, endingParts_normal]
    split
    · rfl
    · rw [← List.map_reverse]
      exact findSome?_map_of_comm fun p hp => ih p (List.mem_reverse.1 hp)

theorem rightMost?_normal (n : Node) : n.normal.rightMost? = n.rightMost?.map normal := by
  fun_induction rightMost? n with
  | case1 n h => rw [rightMost?.eq_def]; split <;> simp_all
  | case2 n h ih => rw [rightMost?.eq_def]; split <;> simp_all
  | case3 n h h' => rw [rightMost?.eq_def]; split <;> simp_all

end Node

namespace Inference

theorem paramName_normal (n : Node) : paramName n.normal = paramName n := by
  fun_induction paramName n with
  | case1 n h ih => rw [paramName.eq_def]; split <;> simp_all
  | case2 n h ih => rw [paramName.eq_def]; split <;> simp_all
  | case3 n h h' => rw [paramName.eq_def]; split <;> simp_all

/-! ### States -/

/-- The fact with the node that it refers to in normal form. -/
def Fact.normal (k : Fact) : Fact := { k with loader := k.loader.map Node.normal }

section
variable (k : Fact)

@[simp] theorem Fact.type_normal : k.normal.type = k.type := rfl

@[simp] theorem Fact.target_normal : k.normal.target = k.target := rfl

@[simp] theorem Fact.isDefined_normal : k.normal.isDefined = k.isDefined := rfl

@[simp] theorem Fact.boundName_normal : k.normal.boundName = k.boundName := rfl

@[simp] theorem Fact.boundSpan_normal : k.normal.boundSpan = k.boundSpan := rfl

@[simp] theorem Fact.isConstructorBody_normal : k.normal.isConstructorBody = k.isConstructorBody := rfl

end

/-- The state with the nodes that it refers to in normal form. -/
def State.normal (s : State) : State :=
  { s with
    facts := s.facts.map fun e => (e.1, e.2.normal)
    amdModule := s.amdModule.map Node.normal
    wrappedModule := s.wrappedModule.map Node.normal }

theorem at_normal (place : Place) (ks : Facts) :
    Facts.at place (ks.map fun e => (e.1, e.2.normal)) = (ks.at place).normal := by
  induction ks with
  | nil => rfl
  | cons e ks ih =>
    rw [List.map_cons, Facts.at, Facts.at, ih]
    split <;> rfl

namespace State

variable (s : State) (n : Node)

@[simp] theorem env_normal : s.normal.env = s.env := rfl

@[simp] theorem events_normal : s.normal.events = s.events := rfl

@[simp] theorem amdModule_normal : s.normal.amdModule = s.amdModule.map Node.normal := rfl

@[simp] theorem wrappedModule_normal : s.normal.wrappedModule = s.wrappedModule.map Node.normal := rfl

@[simp] theorem fact_normal : s.normal.fact n.normal = (s.fact n).normal := at_normal n.place s.facts

@[simp] theorem typeOf_normal : s.normal.typeOf n.normal = s.typeOf n := by
  rw [typeOf, fact_normal]
  rfl

@[simp] theorem targetType_normal : s.normal.targetType n.normal = s.targetType n := by
  have hat : ∀ place, (s.normal.facts.at place).type = (s.facts.at place).type := fun place =>
    (congrArg Fact.type (at_normal place s.facts)).trans rfl
  simp only [targetType, fact_normal, hat]
  rfl

variable {n} in
theorem learn_normal {f g : Fact → Fact} (h : ∀ k, f k.normal = (g k).normal) :
    s.normal.learn n.normal f = (s.learn n g).normal := by
  unfold learn
  rw [fact_normal, h]
  rfl

@[simp] theorem setType_normal (t : Ty) : s.normal.setType n.normal t = (s.setType n t).normal :=
  s.learn_normal fun _ => rfl

@[simp] theorem withEnv_normal (env : Environment) : s.normal.withEnv env = (s.withEnv env).normal := rfl

@[simp] theorem happened_normal (e : Event) : s.normal.happened e = (s.happened e).normal := rfl

@[simp] theorem bind_normal (name : Name) (target : Option Ty) (t : Ty) (span : Option Span) :
    s.normal.bind name target t span = (s.bind name target t span).normal := rfl

@[simp] theorem assign_normal (name : Name) (target : Option Ty) (t : Ty) (span : Option Span) :
    s.normal.assign name target t span = (s.assign name target t span).normal := rfl

@[simp] theorem newObjectType_normal :
    s.normal.newObjectType = (s.newObjectType.1, s.newObjectType.2.normal) := rfl

end State

theorem foldl_normal {f g : State → Node → State}
    (h : ∀ (s : State) (n : Node), f s.normal n.normal = (g s n).normal) (ns : List Node) (s : State) :
    (ns.map Node.normal).foldl f s.normal = (ns.foldl g s).normal := by
  induction ns generalizing s with
  | nil => rfl
  | cons n ns ih => rw [List.map_cons, List.foldl_cons, h, ih, List.foldl_cons]

/-! ### Modules and dependencies -/

section Modules
variable (task : Task) (n : Node) (s : State)

theorem defineCall?_normal : defineCall? n.normal = (defineCall? n).map Node.normal := by
  unfold defineCall?
  simp only [Node.get_normal, Node.kind_normal, Node.identifier?_normal]
  split <;> rfl

theorem amdModule?_normal : amdModule? n.normal = (amdModule? n).map Node.normal := by
  unfold amdModule?
  rw [Node.list_normal, List.head?_map]
  cases (n.list "body").head? with
  | none => rfl
  | some statement => exact defineCall?_normal statement

theorem wrapperCall?_normal : wrapperCall? n.normal = (wrapperCall? n).map Node.normal := by
  unfold wrapperCall?
  rw [Node.list_normal]
  rcases n.list "arguments" with _ | ⟨callback, _ | _⟩
  · rfl
  · simp only [List.map_cons, List.map_nil, Node.kind_normal, Node.list_normal,
      Node.map_map_normal Node.identifier?_normal]
    split <;> rfl
  · rfl

theorem wrappedModule?_normal : wrappedModule? n.normal = (wrappedModule? n).map Node.normal := by
  unfold wrappedModule?
  rw [Node.list_normal]
  refine findSome?_map_of_comm fun statement _ => ?_
  rw [defineCall?_normal]
  cases defineCall? statement with
  | none => rfl
  | some call => exact wrapperCall?_normal call

theorem applySummary_normal (summary : Summary) : applySummary s.normal summary =
    ((applySummary s summary).1, (applySummary s summary).2.normal) := by
  unfold applySummary
  split <;> rfl

theorem literalText?_normal : literalText? n.normal = literalText? n := by
  simp [literalText?]

theorem loadModule_normal (index : Index) (name : String) : loadModule index name s.normal =
    ((loadModule index name s).1, (loadModule index name s).2.normal) := by
  unfold loadModule
  simp only [State.happened_normal, applySummary_normal]
  split <;> rfl

theorem requiredModule?_normal : requiredModule? n.normal = requiredModule? n := by
  unfold requiredModule?
  rw [Node.get_normal, Node.identifier?_normal, Node.list_normal]
  rcases n.list "arguments" with _ | ⟨argument, _ | _⟩ <;> simp [literalText?_normal]

theorem requiredType_normal : requiredType task n.normal s.normal =
    ((requiredType task n s).1, (requiredType task n s).2.normal) := by
  unfold requiredType
  rw [requiredModule?_normal]
  split
  · exact loadModule_normal s _ _
  · rfl

theorem dependencyList?_normal (arguments : List Node) :
    dependencyList? (arguments.map Node.normal) = (dependencyList? arguments).map (List.map Node.normal) := by
  unfold dependencyList?
  rcases arguments with _ | ⟨a, _ | ⟨b, _ | ⟨c, _ | _⟩⟩⟩ <;>
    simp only [List.map_cons, List.map_nil, Node.kind_normal, Node.list_normal] <;>
    first
      | rfl
      | (split <;> rfl)

theorem dependencies?_normal : dependencies? task n.normal s.normal =
    (dependencies? task n s).map fun d => (d.1, d.2.map Node.normal) := by
  unfold dependencies?
  rw [State.fact_normal]
  cases task.index? with
  | none => rfl
  | some index =>
    simp only [Fact.normal]
    cases (s.fact n).loader with
    | none => rfl
    | some loader =>
      have hlast : ((loader.list "arguments").map Node.normal).getLast?.map (·.place) =
          (loader.list "arguments").getLast?.map (·.place) := by
        rw [List.getLast?_map, Option.map_map]
        rfl
      simp only [Option.map_some, Node.list_normal, List.length_map, hlast, dependencyList?_normal,
        Node.place_normal]
      split
      · cases dependencyList? (loader.list "arguments") <;> rfl
      · rfl

theorem dependencyType_normal (index : Index) (dependency : Option Node) :
    dependencyType index (dependency.map Node.normal) s.normal =
      ((dependencyType index dependency s).1, (dependencyType index dependency s).2.normal) := by
  have htext : (dependency.map Node.normal).bind literalText? = dependency.bind literalText? := by
    cases dependency with
    | none => rfl
    | some d => exact literalText?_normal d
  unfold dependencyType
  rw [htext]
  split
  · rfl
  · rename_i name _
    rw [loadModule_normal]
    rcases loadModule index name s with ⟨_ | _ | t, s'⟩ <;> rfl

theorem dependencyTypes_normal (index : Index) (params names : List Node) :
    dependencyTypes index (params.map Node.normal) (names.map Node.normal) s.normal =
      ((dependencyTypes index params names s).1, (dependencyTypes index params names s).2.normal) := by
  induction params generalizing names s with
  | nil => rfl
  | cons param params ih =>
    rw [List.map_cons, dependencyTypes, dependencyTypes, List.head?_map, dependencyType_normal]
    rcases dependencyType index names.head? s with ⟨fault | t, s'⟩
    · rfl
    · simp only [← List.map_tail, ih]
      rcases dependencyTypes index params names.tail s' with ⟨fault | ts, s''⟩ <;> rfl

theorem newObjectTypes_normal (params : List Node) : newObjectTypes (params.map Node.normal) s.normal =
    ((newObjectTypes params s).1, (newObjectTypes params s).2.normal) := by
  induction params generalizing s with
  | nil => rfl
  | cons param params ih => simp only [List.map_cons, newObjectTypes, State.newObjectType_normal, ih]

theorem paramTypes_normal : paramTypes task n.normal s.normal =
    ((paramTypes task n s).1, (paramTypes task n s).2.normal) := by
  unfold paramTypes
  simp only [dependencies?_normal, Node.list_normal, newObjectTypes_normal]
  rcases dependencies? task n s with _ | ⟨index, names⟩
  · rfl
  · exact dependencyTypes_normal s index _ names

theorem declaredGlobals?_normal : declaredGlobals? n.normal = declaredGlobals? n := by
  simp [declaredGlobals?]

theorem addDeclaredGlobals_normal (env : Environment) :
    addDeclaredGlobals n.normal env = addDeclaredGlobals n env := by
  have hfound : ((n.list "comments").map Node.normal).findSome?
        (fun c => (declaredGlobals? c).map fun names => (c, names)) =
      ((n.list "comments").findSome? fun c => (declaredGlobals? c).map fun names => (c, names)).map
        fun d => (d.1.normal, d.2) := by
    refine findSome?_map_of_comm fun c _ => ?_
    rw [declaredGlobals?_normal]
    cases declaredGlobals? c <;> rfl
  unfold addDeclaredGlobals
  rw [Node.list_normal, hfound]
  rcases (n.list "comments").findSome? fun c => (declaredGlobals? c).map fun names => (c, names) with
    _ | ⟨comment, names⟩
  · rfl
  · simp

end Modules

/-! ### The way down -/

section Down
variable (task : Task) (n : Node) (s : State)

theorem literalType_normal : literalType n.normal = literalType n := by
  unfold literalType
  rw [Node.get_normal, Node.isNull_normal, Node.value_normal, Json.get_normal]
  cases n.value.get "value" <;> rfl

theorem openScope_normal : openScope n.normal s.normal = (openScope n s).normal := by
  simp [openScope]

theorem bindFunction_normal (name : Name) (span : Option Span) :
    bindFunction n.normal name span s.normal = (bindFunction n name span s).normal := by
  unfold bindFunction
  rw [Node.kind_normal]
  split
  · exact s.learn_normal fun _ => rfl
  · rfl

theorem enterProgram_normal : enterProgram n.normal s.normal = (enterProgram n s).normal := by
  unfold enterProgram
  simp only [wrappedModule?_normal, amdModule?_normal, Option.isSome_map, State.amdModule_normal]
  cases (wrappedModule? n).isSome with
  | true => rfl
  | false =>
    simp only [Bool.false_eq_true, if_false, Option.isSome_map]
    split <;> rfl

theorem propertyName?_normal : propertyName? n.normal = propertyName? n := by
  simp [propertyName?]

theorem enterProperty_normal (object : Ty) :
    enterProperty object s.normal n.normal = (enterProperty object s n).normal := by
  unfold enterProperty
  rw [propertyName?_normal]
  cases propertyName? n with
  | none => rfl
  | some name =>
    simp only [Node.get_normal, Node.span?_normal, State.bind_normal]
    rw [State.learn_normal _ (fun k => ?_), bindFunction_normal]
    rfl

theorem enterObject_normal : enterObject n.normal s.normal = (enterObject n s).normal := by
  unfold enterObject
  simp only [State.env_normal, Node.span?_normal, State.withEnv_normal, State.setType_normal,
    Node.list_normal]
  exact foldl_normal (fun s p => enterProperty_normal p s _) _ _

theorem functionName_normal : functionName n.normal s.normal = functionName n s := by
  unfold functionName
  simp only [Node.get_normal, Node.identifier?_normal, State.fact_normal, Fact.boundName_normal,
    Fact.boundSpan_normal, Node.span?_normal]

theorem isConstructor_normal (name : Name) : isConstructor n.normal name = isConstructor n name := by
  simp [isConstructor]

theorem markBody_normal (b : Bool) : markBody n.normal b s.normal = (markBody n b s).normal := by
  unfold markBody
  rw [Node.get_normal, Node.isObject_normal]
  split
  · exact s.learn_normal fun _ => rfl
  · rfl

theorem openFunction_normal (name : Name) : openFunction n.normal name s.normal =
    ((openFunction n name s).1, (openFunction n name s).2.normal) := by
  rw [openFunction_eq, openFunction_eq, isConstructor_normal]
  simp only [Node.list_normal, Node.map_map_normal paramName_normal, markBody_normal, Node.span?_normal,
    State.env_normal]
  split <;> rfl

theorem nameFunction_normal : nameFunction task n.normal s.normal = (nameFunction task n s).normal := by
  unfold nameFunction
  simp only [functionName_normal, openFunction_normal, Node.span?_normal, State.setType_normal,
    State.bind_normal]
  split <;> rfl

theorem openParams_normal : openParams n.normal s.normal = (openParams n s).normal := by
  unfold openParams
  simp only [Node.kind_normal, Node.span?_normal, State.env_normal, State.withEnv_normal,
    State.bind_normal]
  split <;> rfl

theorem bindParams_normal (params : List Node) (ts : List Ty) :
    bindParams (params.map Node.normal) ts s.normal = (bindParams params ts s).normal := by
  induction params generalizing ts s with
  | nil => rfl
  | cons param params ih =>
    cases ts with
    | nil => rfl
    | cons t ts =>
      rw [List.map_cons, bindParams, bindParams, paramName_normal, Node.span?_normal]
      split
      · exact ih s ts
      · exact ih (s.bind (some (paramName param)) none t param.span?) ts

theorem enterFunction_normal : enterFunction task n.normal s.normal =
    ((enterFunction task n s).1, (enterFunction task n s).2.normal) := by
  rw [enterFunction_eq, enterFunction_eq, nameFunction_normal, openParams_normal, paramTypes_normal]
  rcases paramTypes task n (openParams n (nameFunction task n s)) with ⟨fault | types, s'⟩
  · rfl
  · simp only [Node.list_normal, bindParams_normal]

theorem enterDeclarator_normal : enterDeclarator n.normal s.normal = (enterDeclarator n s).normal := by
  unfold enterDeclarator
  simp only [Node.get_normal, Node.identifier?_normal, Node.span?_normal]
  split
  · rfl
  · rw [State.learn_normal _ (fun k => ?_), bindFunction_normal]
    rfl

theorem enterAssignment_normal : enterAssignment n.normal s.normal = (enterAssignment n s).normal := by
  unfold enterAssignment
  simp only [Node.get_normal, Node.kind_normal, Node.name_normal, Node.span?_normal, bindFunction_normal]
  split <;> rfl

theorem enterCatch_normal : enterCatch n.normal s.normal = (enterCatch n s).normal := by
  unfold enterCatch
  simp only [openScope_normal, Node.get_normal, Node.identifier?_normal, Node.span?_normal,
    State.setType_normal, State.bind_normal]
  split <;> rfl

theorem enterMember_normal : enterMember n.normal s.normal = (enterMember n s).normal := by
  unfold enterMember
  simp only [Node.get_normal, Node.isObject_normal, Node.flag_normal, Node.isNull_normal,
    Node.place_normal]
  split
  · exact s.learn_normal fun _ => rfl
  · rfl

theorem loaderCallback?_normal : loaderCallback? n.normal = (loaderCallback? n).map Node.normal := by
  unfold loaderCallback?
  rw [Node.list_normal, ← List.map_reverse]
  rcases (n.list "arguments").reverse with _ | ⟨callback, _ | ⟨names, _⟩⟩
  · rfl
  · rfl
  · simp only [List.map_cons, Node.kind_normal]
    split <;> rfl

theorem enterCall_normal : enterCall n.normal s.normal = (enterCall n s).normal := by
  unfold enterCall
  simp only [Node.get_normal, Node.identifier?_normal, loaderCallback?_normal]
  split
  · cases loaderCallback? n with
    | none => rfl
    | some callback => exact s.learn_normal fun _ => rfl
  · rfl

theorem enterNode_normal : enterNode task n.normal s.normal =
    ((enterNode task n s).1, (enterNode task n s).2.normal) := by
  unfold enterNode
  rw [Node.kind_normal]
  split
  · rw [enterProgram_normal]
  · rw [openScope_normal]
  · rw [literalType_normal, State.setType_normal]
  · rw [State.setType_normal]
  · rw [enterObject_normal]
  · exact enterFunction_normal task n s
  · exact enterFunction_normal task n s
  · exact enterFunction_normal task n s
  · rw [enterDeclarator_normal]
  · rw [enterAssignment_normal]
  · rw [enterCatch_normal]
  · rw [enterMember_normal]
  · rw [enterCall_normal]
  · rfl

/-- **The way down** does not depend on the order of fields. -/
theorem enter_normal : enter task n.normal s.normal =
    ((enter task n s).1, (enter task n s).2.normal) := by
  rw [enter_eq, enter_eq, Node.kind_normal, Node.span?_normal, enterNode_normal]
  split
  · rfl
  · rcases enterNode task n s with ⟨fault | _, s'⟩ <;> rfl

end Down

/-! ### The way up -/

section Up
variable (task : Task) (n : Node) (s : State)

theorem afterDot_normal (cursor : Cursor) (source : String) :
    afterDot cursor n.normal source = afterDot cursor n source := by
  simp [afterDot]

theorem closeScope_normal : closeScope s.normal = ((closeScope s).1, (closeScope s).2.normal) := by
  unfold closeScope
  rw [State.env_normal]
  split <;> rfl

theorem leaveBlock_normal : leaveBlock task n.normal s.normal =
    ((leaveBlock task n s).1, (leaveBlock task n s).2.normal) := by
  unfold leaveBlock
  rw [Node.span?_normal, closeScope_normal]
  split <;> rfl

theorem leaveMember_normal : leaveMember task n.normal s.normal =
    ((leaveMember task n s).1, (leaveMember task n s).2.normal) := by
  unfold leaveMember
  simp only [Node.get_normal, afterDot_normal, State.env_normal, State.typeOf_normal, Node.flag_normal,
    State.setType_normal, Node.isObject_normal]
  split
  · rfl
  · split
    · rfl
    · split <;> rfl

theorem leaveCall_normal : leaveCall task n.normal s.normal =
    ((leaveCall task n s).1, (leaveCall task n s).2.normal) := by
  unfold leaveCall
  rw [requiredType_normal]
  rcases requiredType task n s with ⟨_ | _ | t, s'⟩ <;> simp [goOn]

theorem leaveNew_normal : leaveNew n.normal s.normal = (leaveNew n s).normal := by
  simp [leaveNew]

theorem leaveProperty_normal (object : Option Ty) :
    leaveProperty object s.normal n.normal = (leaveProperty object s n).normal := by
  unfold leaveProperty
  simp only [propertyName?_normal, Node.get_normal, State.typeOf_normal, Node.span?_normal,
    State.setType_normal, State.bind_normal]
  split <;> rfl

theorem leaveObject_normal : leaveObject n.normal s.normal =
    ((leaveObject n s).1, (leaveObject n s).2.normal) := by
  unfold leaveObject
  rw [Node.list_normal, State.fact_normal, Fact.type_normal,
    foldl_normal (fun s p => leaveProperty_normal p s _), closeScope_normal]

theorem operator_normal : operator n.normal = operator n := by
  simp [operator]

theorem leaveBinary_normal : leaveBinary n.normal s.normal = (leaveBinary n s).normal := by
  simp [leaveBinary, operator_normal]

theorem leaveUnary_normal : leaveUnary n.normal s.normal = (leaveUnary n s).normal := by
  simp [leaveUnary, operator_normal]

theorem leaveConstructor_normal (type result : Ty) : leaveConstructor n.normal type result s.normal =
    ((leaveConstructor n type result s).1, (leaveConstructor n type result s).2.normal) := by
  unfold leaveConstructor
  rw [closeScope_normal]
  rcases closeScope s with ⟨_ | e, s'⟩
  · simp only [Node.get_normal, Node.identifier?_normal, State.fact_normal, Node.isNull_normal,
      Node.span?_normal, Fact.boundName_normal, State.assign_normal, goOn]
  · rfl

theorem returned?_normal : returned? n.normal = (returned? n).map Node.normal := by
  unfold returned?
  simp only [Node.kind_normal, Node.get_normal, Node.lastReturn?_normal]
  split <;> rfl

theorem leavePlainFunction_normal (type : Ty) :
    leavePlainFunction n.normal type s.normal = (leavePlainFunction n type s).normal := by
  unfold leavePlainFunction
  rw [returned?_normal]
  cases returned? n with
  | none => rfl
  | some r =>
    simp only [Option.map_some, State.typeOf_normal, State.setType_normal, Node.get_normal,
      Node.identifier?_normal, State.assign_normal, Node.span?_normal, State.fact_normal,
      Fact.boundName_normal, Fact.boundSpan_normal]
    split
    · rfl
    · split <;> rfl

theorem leaveFunction_normal : leaveFunction n.normal s.normal =
    ((leaveFunction n s).1, (leaveFunction n s).2.normal) := by
  unfold leaveFunction
  rw [closeScope_normal]
  rcases closeScope s with ⟨_ | e, s'⟩
  · simp only [State.fact_normal, Fact.type_normal, Node.get_normal, Node.isObject_normal,
      Fact.isConstructorBody_normal, leaveConstructor_normal, leavePlainFunction_normal]
    split
    · split <;> rfl
    · rfl
  · rfl

theorem leaveDeclarator_normal : leaveDeclarator n.normal s.normal = (leaveDeclarator n s).normal := by
  unfold leaveDeclarator
  simp only [Node.get_normal, State.typeOf_normal, State.setType_normal, Node.identifier?_normal,
    State.bind_normal, Node.span?_normal]
  split <;> rfl

theorem assignmentType_normal : assignmentType n.normal s.normal = assignmentType n s := by
  simp [assignmentType, operator_normal]

theorem leaveAssignment_normal : leaveAssignment n.normal s.normal = (leaveAssignment n s).normal := by
  unfold leaveAssignment
  simp only [assignmentType_normal, State.setType_normal, Node.get_normal, Node.rightMost?_normal]
  cases (n.get "left").rightMost? with
  | none => rfl
  | some id => simp

theorem leaveIdentifier_normal : leaveIdentifier task n.normal s.normal =
    ((leaveIdentifier task n s).1, (leaveIdentifier task n s).2.normal) := by
  unfold leaveIdentifier
  simp only [State.targetType_normal, Node.span?_normal, State.env_normal, Node.name_normal,
    State.setType_normal, State.fact_normal, Fact.target_normal, Fact.isDefined_normal,
    State.withEnv_normal]
  split
  · rfl
  · split
    · rfl
    · split <;> rfl

theorem leaveThis_normal : leaveThis n.normal s.normal = (leaveThis n s).normal :=
  s.learn_normal fun _ => rfl

theorem leaveReturn_normal : leaveReturn n.normal s.normal = (leaveReturn n s).normal := by
  unfold leaveReturn
  simp only [Node.get_normal, Node.isNull_normal, State.typeOf_normal, State.setType_normal]
  split <;> rfl

theorem leaveNode_normal : leaveNode task n.normal s.normal =
    ((leaveNode task n s).1, (leaveNode task n s).2.normal) := by
  unfold leaveNode
  rw [Node.kind_normal]
  split
  · rfl
  · exact leaveBlock_normal task n s
  · exact leaveBlock_normal task n s
  · exact leaveMember_normal task n s
  · exact leaveCall_normal task n s
  · rw [leaveNew_normal]; rfl
  · exact leaveObject_normal n s
  · rw [leaveBinary_normal]; rfl
  · rw [leaveBinary_normal]; rfl
  · rw [leaveUnary_normal]; rfl
  · rw [leaveUnary_normal]; rfl
  · exact leaveFunction_normal n s
  · exact leaveFunction_normal n s
  · exact leaveFunction_normal n s
  · rw [leaveDeclarator_normal]; rfl
  · rw [leaveAssignment_normal]; rfl
  · exact leaveIdentifier_normal task n s
  · rw [leaveThis_normal]; rfl
  · rw [leaveReturn_normal]; rfl
  · rfl

theorem settle_normal : settle n.normal s.normal = (settle n s).normal := by
  unfold settle
  rw [State.fact_normal, State.setType_normal, Fact.type_normal]
  split <;> rfl

/-- **The way up** does not depend on the order of fields. -/
theorem leave_normal : leave task n.normal s.normal =
    ((leave task n s).1, (leave task n s).2.normal) := by
  rw [leave_eq, leave_eq, leaveNode_normal]
  rcases leaveNode task n s with ⟨_ | a, s'⟩
  · simp only [settle_normal]
  · rfl

end Up

/-! ### Inferences -/

section Runs
variable {root : Node} (task : Task)

theorem addIndexedGlobals_normal (s : State) : addIndexedGlobals task s.normal =
    ((addIndexedGlobals task s).1, (addIndexedGlobals task s).2.normal) := by
  unfold addIndexedGlobals
  simp only [State.happened_normal]
  split
  · rfl
  · split <;> rfl

theorem walk_normal (hstarts : root.DistinctStarts) (s : State) : walk task root.normal s.normal =
    ((walk task root s).1, (walk task root s).2.normal) := by
  have hvisit := (Node.visit_normal_of_same (v := visitor task) (w := visitor task) (f := State.normal)
    hstarts (fun m _ => enter_normal task m) (fun m _ => leave_normal task m) s).1
  unfold walk
  rw [hvisit]
  rcases root.visit (visitor task) s with ⟨_ | a, s'⟩ <;> rfl

/-- **An inference** does the same with a tree in normal form. -/
theorem run_normal (hstarts : root.DistinctStarts) (env : Environment) : run task root.normal env =
    ((run task root env).1, (run task root env).2.normal) := by
  have hglobals := addIndexedGlobals_normal task { env := addDeclaredGlobals root env }
  unfold run
  rw [addDeclaredGlobals_normal]
  rcases hs : addIndexedGlobals task { env := addDeclaredGlobals root env } with ⟨outcome, s⟩
  -- no node is remembered before the walk
  have hself : s.normal = s := by
    rw [show addIndexedGlobals task (State.normal { env := addDeclaredGlobals root env }) = _ from hs, hs]
      at hglobals
    exact (congrArg Prod.snd hglobals).symm
  cases outcome with
  | error fault => exact congrArg (Prod.mk _) hself.symm
  | ok _ =>
    have hwalk := walk_normal task hstarts s
    rw [hself] at hwalk
    exact hwalk

end Runs

end Inference

end ContentAssist
