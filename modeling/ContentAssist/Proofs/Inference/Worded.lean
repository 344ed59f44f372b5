import ContentAssist.Proofs.Environment.Worded
import ContentAssist.Proofs.Inference.BoundName
import ContentAssist.Proofs.Inference.FreshNames
import ContentAssist.Proofs.Tree.Identifiers

/-! # The words of an inference

Every rule binds and looks up names that it reads off identifiers of its node, or names of its own, and
gives types that end in names at hand. So what an inference knows consists of words of the catalog, of
the program and of the files that it depends on, and of the names that it makes up for records. Derived
names come into types of members by one way only, the lookup of `prototype`.

* `Knows`: all words that the rule for a node can come across are known;
* `Worded`: the invariant of a state;
* `worded_enterNode`, `worded_leaveNode`: the rules;
* `Reached.worded`: the states of a run. -/

namespace ContentAssist.Inference

variable {K : String → Prop} {L : Prop} {task : Task} {root n m : Node} {s s' : State} {t : Ty}
  {name : Name} {uid : String}

/-- The words of the catalog, the identifiers of the node and what other files offer are known, and
links may be read as values if there is an identifier for that. -/
structure Knows (K : String → Prop) (L : Prop) (task : Task) (n : Node) : Prop where
  catalog : ∀ x ∈ Catalog.words, K x
  identifiers : ∀ x ∈ n.identifiers, K x
  prototype : "prototype" ∈ n.identifiers → L
  offered : ∀ m, task.Offered m → m.Worded K L

namespace Knows

theorem of_subset (h : Knows K L task n) (hsub : m.identifiers ⊆ n.identifiers) : Knows K L task m :=
  ⟨h.catalog, fun x hx => h.identifiers x (hsub hx), fun hx => h.prototype (hsub hx), h.offered⟩

variable (h : Knows K L task n)
include h

theorem list {key : String} (hm : m ∈ n.list key) : Knows K L task m :=
  h.of_subset (Node.identifiers_list hm)

theorem identifier? {key : String} (x : String) (hx : (n.get key).identifier? = some x) : K x :=
  h.identifiers x (n.identifiers_get key (Node.identifier?_mem hx))

theorem own (x : String) (hx : some "arguments" = some x ∨ some "this" = some x ∨ some "" = some x) :
    K x := by
  refine h.catalog x ?_
  rcases hx with ⟨⟨⟩⟩ | ⟨⟨⟩⟩ | ⟨⟨⟩⟩ <;> simp [Catalog.words]

theorem builtin {x : String} (hx : x ∈ Catalog.table.keys) : (Ty.named x).Worded K L :=
  Environment.worded_builtin h.catalog hx

theorem object : Ty.object.Worded K L := Environment.worded_object h.catalog

theorem paramName (hm : m ∈ n.list "params") : K (paramName m) := by
  rcases paramName_mem m with hname | hname
  · exact h.own _ (Or.inr (Or.inr (congrArg some hname.symm)))
  · exact (h.list hm).identifiers _ hname

end Knows

/-! ### States -/

/-- The environment is worded, and so are the types of nodes and the names that functions are told. -/
structure Worded (K : String → Prop) (L : Prop) (s : State) : Prop where
  env : s.env.Worded K L
  type : ∀ place t, (s.facts.at place).type = some t → t.Worded K L
  boundName : ∀ place x, (s.facts.at place).boundName = some x → K x

namespace Worded

variable (h : Worded K L s)
include h

theorem withEnv {env : Environment} (henv : env.Worded K L) : Worded K L (s.withEnv env) :=
  ⟨henv, h.type, h.boundName⟩

theorem happened (e : Event) : Worded K L (s.happened e) := ⟨h.env, h.type, h.boundName⟩

theorem learn (n : Node) (f : Fact → Fact) (htype : ∀ t, (f (s.fact n)).type = some t → t.Worded K L)
    (hname : ∀ x, (f (s.fact n)).boundName = some x → K x) : Worded K L (s.learn n f) := by
  refine ⟨h.env, fun place t ht => ?_, fun place x hx => ?_⟩
  · rw [at_learn] at ht
    split at ht
    · exact htype t ht
    · exact h.type place t ht
  · rw [at_learn] at hx
    split at hx
    · exact hname x hx
    · exact h.boundName place x hx

theorem setType (n : Node) (ht : t.Worded K L) : Worded K L (s.setType n t) :=
  h.learn n _ (by rintro _ ⟨⟩; exact ht) (h.boundName n.place)

theorem typeOf (hK : Knows K L task n) (m : Node) : (s.typeOf m).Worded K L := by
  unfold State.typeOf
  cases ht : (s.fact m).type with
  | none => exact hK.object
  | some t => exact h.type m.place t ht

theorem bind (hname : ∀ x, name = some x → K x) (ht : t.Worded K L) (target : Option Ty)
    (span : Option Span) : Worded K L (s.bind name target t span) :=
  h.withEnv (h.env.addVariable hname ht target span)

theorem assign (hname : ∀ x, name = some x → K x) (ht : t.Worded K L) (target : Option Ty)
    (span : Option Span) : Worded K L (s.assign name target t span) :=
  h.withEnv (h.env.addOrSet hname ht target span)

theorem newObjectType (hK : Knows K L task n) :
    s.newObjectType.1.Worded K L ∧ Worded K L s.newObjectType.2 :=
  ⟨ending_generatedName _ _, h.withEnv (h.env.newFleetingObject hK.catalog none none)⟩

end Worded

/-! ### The way down -/

section
variable (h : Worded K L s)
include h

theorem worded_openScope (n : Node) : Worded K L (openScope n s) :=
  (h.withEnv (h.env.newScope none)).setType n (t := .named _) (ending_generatedName _ _)

theorem worded_bindFunction (value : Node) (hname : ∀ x, name = some x → K x) (span : Option Span) :
    Worded K L (bindFunction value name span s) := by
  unfold bindFunction
  split
  · exact h.learn value _ (h.type value.place) hname
  · exact h

theorem worded_enterProgram (n : Node) : Worded K L (enterProgram n s) := by
  unfold enterProgram
  dsimp only
  split
  · exact ⟨h.env, h.type, h.boundName⟩
  · split <;> exact ⟨h.env, h.type, h.boundName⟩

theorem worded_enterMember (n : Node) : Worded K L (enterMember n s) := by
  unfold enterMember
  dsimp only
  split
  · exact h.learn _ _ (h.type _) (h.boundName _)
  · exact h

theorem worded_enterCall (n : Node) : Worded K L (enterCall n s) := by
  unfold enterCall
  dsimp only
  split
  · split
    · exact h.learn _ _ (h.type _) (h.boundName _)
    · exact h
  · exact h

theorem worded_markBody (n : Node) (b : Bool) : Worded K L (markBody n b s) := by
  unfold markBody
  split
  · exact h.learn _ _ (h.type _) (h.boundName _)
  · exact h

end

section
variable (hK : Knows K L task n)
include hK

theorem literalType_worded : (literalType n).Worded K L := by
  unfold literalType
  split
  · exact hK.builtin (by decide +kernel)
  · split <;> exact hK.builtin (by decide +kernel)

variable (h : Worded K L s)
include h

theorem worded_enterProperty {object : String} (hm : m ∈ n.list "properties") :
    Worded K L (enterProperty (.named object) s m) := by
  unfold enterProperty
  split
  · exact h
  · rename_i name hname
    have hknown : ∀ x, some name = some x → K x := by
      rintro x ⟨⟩
      exact (hK.list hm).identifiers _ (propertyName?_mem hname)
    have hbound := h.bind hknown hK.object (some (.named object)) (m.get "key").span?
    exact worded_bindFunction (hbound.learn _ _ (hbound.type _) (hbound.boundName _)) _ hknown _

theorem worded_enterObject : Worded K L (enterObject n s) := by
  have hproperties : ∀ (ps : List Node), (∀ p ∈ ps, p ∈ n.list "properties") → ∀ s object,
      Worded K L s → Worded K L (ps.foldl (enterProperty (.named object)) s) := by
    intro ps
    induction ps with
    | nil => exact fun _ _ _ h => h
    | cons p ps ih =>
      intro hps s object h
      exact ih (fun q hq => hps q (List.mem_cons_of_mem _ hq)) _ _
        (worded_enterProperty hK h (hps p List.mem_cons_self))
  have hnone : ∀ x, (none : Option String) = some x → K x := by
    rintro x ⟨⟩
  unfold enterObject
  dsimp only
  exact hproperties _ (fun _ hp => hp) _ _ ((h.withEnv (h.env.newObject hK.catalog hnone _)).setType n
    (t := .named _) (Environment.ending_newObject s.env hnone _))

/-- A function has its own name or the one that it was told. -/
theorem functionName_known (x : String) (hx : (functionName n s).1 = some x) : K x := by
  unfold functionName at hx
  dsimp only at hx
  split at hx
  · rename_i hname
    exact h.boundName _ _ (hname.trans hx)
  · exact hK.identifier? x hx

theorem worded_openFunction (hname : ∀ x, name = some x → K x) :
    (openFunction n name s).1.Worded K L ∧ Worded K L (openFunction n name s).2 := by
  have hparams : ∀ p ∈ (n.list "params").map paramName, K p := by
    intro p hp
    obtain ⟨m, hm, rfl⟩ := List.mem_map.1 hp
    exact hK.paramName hm
  rw [openFunction_eq]
  split
  · have hobject := h.env.newObject hK.catalog hname n.span?
    refine ⟨⟨Environment.ending_newObject s.env hname n.span?, hparams⟩, ?_⟩
    exact (worded_markBody h n true).withEnv (hobject.createConstructor hK.catalog _ _)
  · exact ⟨⟨hK.object, hparams⟩, worded_markBody h n false⟩

theorem worded_nameFunction : Worded K L (nameFunction task n s) := by
  obtain ⟨htype, hopened⟩ := worded_openFunction hK h (functionName_known hK h)
  unfold nameFunction
  dsimp only
  split
  · exact (hopened.setType n htype).bind (functionName_known hK h) htype _ _
  · exact hopened.setType n htype

theorem worded_openParams : Worded K L (openParams n s) := by
  have hscope := h.withEnv (h.env.newScope none)
  unfold openParams
  dsimp only
  split
  · exact hscope
  · exact hscope.bind (fun x hx => hK.own x (Or.inl hx)) (hK.builtin (by decide +kernel)) _ _

theorem worded_applySummary {summary : Summary} (hm : summary.Worded K L) :
    (applySummary s summary).1.Worded K L ∧ Worded K L (applySummary s summary).2 := by
  unfold applySummary
  split
  · exact ⟨ending_generatedName _ _,
      h.withEnv ((h.env.newFleetingObject hK.catalog none none).mergeSummary hm _)⟩
  · rename_i t hprovided
    exact ⟨hm.type t hprovided, h.withEnv (h.env.mergeSummary hm _)⟩

theorem worded_loadModule {index : Index} (hindex : task.index? = some index) (name : String) :
    (∀ t, (loadModule index name s).1 = .ok (some t) → t.Worded K L) ∧
      Worded K L (loadModule index name s).2 := by
  have hasked := h.happened (.askedModule name)
  unfold loadModule
  dsimp only
  split
  · exact ⟨by simp, hasked⟩
  · exact ⟨by simp, hasked⟩
  · rename_i summary hsummary
    obtain ⟨htype, hstate⟩ := worded_applySummary hK hasked (hK.offered _ (.module hindex hsummary))
    refine ⟨?_, hstate⟩
    rintro t ⟨⟩
    exact htype

theorem worded_dependencyType {index : Index} (hindex : task.index? = some index)
    (dependency : Option Node) :
    (∀ t, (dependencyType index dependency s).1 = .ok t → t.Worded K L) ∧
      Worded K L (dependencyType index dependency s).2 := by
  unfold dependencyType
  split
  · refine ⟨?_, h⟩
    rintro t ⟨⟩
    exact hK.object
  · rename_i name _
    obtain ⟨htype, hload⟩ := worded_loadModule hK h hindex name
    rcases hl : loadModule index name s with ⟨fault | (_ | t), s₁⟩ <;> rw [hl] at htype hload
    · exact ⟨by simp, hload⟩
    · obtain ⟨hnew, hstate⟩ := hload.newObjectType hK
      refine ⟨?_, hstate⟩
      rintro t ⟨⟩
      exact hnew
    · refine ⟨?_, hload⟩
      rintro u ⟨⟩
      exact htype _ rfl

theorem worded_dependencyTypes {index : Index} (hindex : task.index? = some index)
    (params names : List Node) :
    (∀ ts, (dependencyTypes index params names s).1 = .ok ts → ∀ t ∈ ts, t.Worded K L) ∧
      Worded K L (dependencyTypes index params names s).2 := by
  induction params generalizing names s with
  | nil =>
    refine ⟨?_, h⟩
    rintro ts ⟨⟩ t ht
    cases ht
  | cons param params ih =>
    rw [dependencyTypes]
    obtain ⟨hfirst, hstate⟩ := worded_dependencyType hK h hindex names.head?
    rcases hd : dependencyType index names.head? s with ⟨fault | t, s₁⟩ <;> rw [hd] at hfirst hstate
    · exact ⟨by simp, hstate⟩
    · obtain ⟨hrest, hend⟩ := ih hstate names.tail
      dsimp only at hrest hend ⊢
      rcases hr : dependencyTypes index params names.tail s₁ with ⟨fault | ts, s₂⟩ <;>
        rw [hr] at hrest hend
      · exact ⟨by simp, hend⟩
      · refine ⟨?_, hend⟩
        rintro us ⟨⟩ u hu
        rcases List.mem_cons.1 hu with rfl | hu
        · exact hfirst _ rfl
        · exact hrest _ rfl u hu

theorem worded_newObjectTypes (params : List Node) :
    (∀ t ∈ (newObjectTypes params s).1, t.Worded K L) ∧ Worded K L (newObjectTypes params s).2 := by
  induction params generalizing s with
  | nil => exact ⟨fun t ht => absurd ht List.not_mem_nil, h⟩
  | cons param params ih =>
    obtain ⟨hnew, hstate⟩ := h.newObjectType hK
    obtain ⟨hrest, hend⟩ := ih hstate
    refine ⟨fun t ht => ?_, hend⟩
    rcases List.mem_cons.1 ht with rfl | ht
    · exact hnew
    · exact hrest t ht

theorem worded_paramTypes :
    (∀ ts, (paramTypes task n s).1 = .ok ts → ∀ t ∈ ts, t.Worded K L) ∧
      Worded K L (paramTypes task n s).2 := by
  unfold paramTypes
  dsimp only
  split
  · rename_i index names hdependencies
    exact worded_dependencyTypes hK h (index?_of_dependencies? hdependencies) _ _
  · obtain ⟨htypes, hstate⟩ := worded_newObjectTypes hK h (n.list "params")
    refine ⟨?_, hstate⟩
    rintro ts ⟨⟩
    exact htypes

theorem worded_bindParams {params : List Node} (hparams : ∀ p ∈ params, p ∈ n.list "params")
    {ts : List Ty} (hts : ∀ t ∈ ts, t.Worded K L) : Worded K L (bindParams params ts s) := by
  induction params generalizing ts s with
  | nil => exact h
  | cons param params ih =>
    cases ts with
    | nil => exact h
    | cons t ts =>
      have hrest : ∀ {s}, Worded K L s → Worded K L (bindParams params ts s) := fun h =>
        ih h (fun p hp => hparams p (List.mem_cons_of_mem _ hp))
          fun t ht => hts t (List.mem_cons_of_mem _ ht)
      rw [bindParams]
      split
      · exact hrest h
      · refine hrest (h.bind ?_ (hts t List.mem_cons_self) none _)
        rintro x ⟨⟩
        exact hK.paramName (hparams param List.mem_cons_self)

theorem worded_enterFunction : Worded K L (enterFunction task n s).2 := by
  have hopened := worded_openParams hK (worded_nameFunction hK h)
  obtain ⟨htypes, hstate⟩ := worded_paramTypes hK hopened
  rw [enterFunction_eq]
  rcases hp : paramTypes task n (openParams n (nameFunction task n s)) with ⟨fault | ts, s₁⟩ <;>
    rw [hp] at htypes hstate
  · exact hstate
  · exact worded_bindParams hK hstate (fun _ hp => hp) (htypes ts rfl)

theorem worded_enterDeclarator : Worded K L (enterDeclarator n s) := by
  unfold enterDeclarator
  dsimp only
  split
  · exact h
  · rename_i name hid
    exact worded_bindFunction (h.learn _ _ (h.type _) (h.boundName _)) _
      (fun x hx => hK.identifier? x (hid.trans hx)) _

theorem worded_enterAssignment : Worded K L (enterAssignment n s) := by
  unfold enterAssignment
  dsimp only
  split
  · rename_i hkind
    exact worded_bindFunction h _
      (fun x hx => hK.identifier? x ((Node.identifier?_of_kind hkind).trans hx)) _
  · exact h

theorem worded_enterCatch : Worded K L (enterCatch n s) := by
  unfold enterCatch
  dsimp only
  split
  · exact worded_openScope h n
  · rename_i name hid
    have herror : Ty.error.Worded K L := hK.builtin (by decide +kernel)
    exact ((worded_openScope h n).setType _ herror).bind
      (fun x hx => hK.identifier? x (hid.trans hx)) herror _ _

/-- **The way down** keeps a state worded. -/
theorem worded_enterNode : Worded K L (enterNode task n s).2 := by
  unfold enterNode
  split
  · exact worded_enterProgram h n
  · exact worded_openScope h n
  · exact h.setType n (literalType_worded hK)
  · exact h.setType n (hK.builtin (by decide +kernel))
  · exact worded_enterObject hK h
  · exact worded_enterFunction hK h
  · exact worded_enterFunction hK h
  · exact worded_enterFunction hK h
  · exact worded_enterDeclarator hK h
  · exact worded_enterAssignment hK h
  · exact worded_enterCatch hK h
  · exact worded_enterMember h n
  · exact worded_enterCall h n
  · exact h

theorem worded_enter : Worded K L (enter task n s).2 := by
  have hnode := worded_enterNode hK h
  rw [enter_eq]
  split
  · exact h
  · rcases he : enterNode task n s with ⟨fault | _, s₁⟩ <;> rw [he] at hnode <;> exact hnode

end

/-! ### The way up -/

theorem worded_closeScope (h : Worded K L s) : Worded K L (closeScope s).2 := by
  unfold closeScope
  split
  · exact h
  · rename_i hpop
    exact h.withEnv (h.env.popScope? hpop)

theorem worded_leaveBlock (h : Worded K L s) : Worded K L (leaveBlock task n s).2 := by
  unfold leaveBlock
  split
  · exact h
  · exact worded_closeScope h

section
variable (hK : Knows K L task n) (h : Worded K L s)
include hK h

theorem worded_leaveMember : Worded K L (leaveMember task n s).2 := by
  unfold leaveMember
  dsimp only
  split
  · exact h
  · split
    · exact h.setType n hK.object
    · split <;> exact h.setType n (h.typeOf hK _)

theorem worded_leaveCall : Worded K L (leaveCall task n s).2 := by
  have hload : (∀ t, (requiredType task n s).1 = .ok (some t) → t.Worded K L) ∧
      Worded K L (requiredType task n s).2 := by
    unfold requiredType
    split
    · rename_i index name hindex _
      exact worded_loadModule hK h hindex name
    · exact ⟨by simp, h⟩
  unfold leaveCall
  rcases hr : requiredType task n s with ⟨fault | (_ | t), s₁⟩ <;> rw [hr] at hload
  · exact hload.2
  · exact hload.2.setType n (hload.2.typeOf hK _).result
  · exact hload.2.setType n (hload.1 t rfl)

theorem worded_leaveNew : Worded K L (leaveNew n s) := h.setType n (h.typeOf hK _).result

theorem worded_leaveProperty (object : Option Ty) (hm : m ∈ n.list "properties") :
    Worded K L (leaveProperty object s m) := by
  unfold leaveProperty
  split
  · exact h
  · rename_i name hname
    refine (h.setType _ (h.typeOf hK _)).bind ?_ (h.typeOf hK _) _ _
    rintro x ⟨⟩
    exact (hK.list hm).identifiers _ (propertyName?_mem hname)

theorem worded_leaveObject : Worded K L (leaveObject n s).2 := by
  have hproperties : ∀ (ps : List Node), (∀ p ∈ ps, p ∈ n.list "properties") → ∀ s object,
      Worded K L s → Worded K L (ps.foldl (leaveProperty object) s) := by
    intro ps
    induction ps with
    | nil => exact fun _ _ _ h => h
    | cons p ps ih =>
      intro hps s object h
      exact ih (fun q hq => hps q (List.mem_cons_of_mem _ hq)) _ _
        (worded_leaveProperty hK h object (hps p List.mem_cons_self))
  exact worded_closeScope (hproperties _ (fun _ hp => hp) _ _ h)

theorem worded_leaveBinary : Worded K L (leaveBinary n s) := by
  have hbuiltin : ∀ x ∈ ["String", "Number", "Boolean"], (Ty.named x).Worded K L := by
    intro x hx
    refine hK.builtin ?_
    revert x
    decide +kernel
  refine h.setType n ?_
  unfold binaryType
  split
  · split <;> exact hbuiltin _ (by decide)
  · split
    · exact hbuiltin _ (by decide)
    · split
      · exact h.typeOf hK _
      · split
        · exact hbuiltin _ (by decide)
        · exact hK.object

theorem worded_leaveUnary : Worded K L (leaveUnary n s) := by
  refine h.setType n ?_
  split <;> exact hK.builtin (by decide +kernel)

/-- A constructor is bound under a known name, because it has a name of its own or was told one. -/
theorem worded_leaveConstructor (ht : t.Worded K L) (result : Ty)
    (hfirst : ∃ c, (n.get "id").identifier?.or (s.fact n).boundName = some c ∧
      ∀ name, firstName [(n.get "id").identifier?, (s.fact n).boundName, name] = some c) :
    Worded K L (leaveConstructor n t result s).2 := by
  obtain ⟨c, hc, hfirst⟩ := hfirst
  have hknown : ∀ x, some c = some x → K x := by
    rintro x ⟨⟩
    rcases Option.or_eq_some_iff.1 hc with hc | ⟨-, hc⟩
    · exact hK.identifier? _ hc
    · exact h.boundName _ _ hc
  have hclose := worded_closeScope h
  have hfacts := facts_closeScope s
  unfold leaveConstructor
  rcases hs : closeScope s with ⟨_ | e, s'⟩ <;> rw [hs] at hclose hfacts
  · have hfact : s'.fact n = s.fact n := congrArg (Facts.at n.place) hfacts
    dsimp only
    rw [hfact, hfirst]
    exact hclose.assign hknown ht _ _
  · exact hclose

theorem worded_leavePlainFunction (ht : t.Worded K L) : Worded K L (leavePlainFunction n t s) := by
  unfold leavePlainFunction
  split
  · exact h
  · rename_i r _
    have htype := ht.withResult (h.typeOf hK r)
    have hset := h.setType n htype
    dsimp only
    split
    · rename_i name hid
      exact hset.assign (fun x hx => hK.identifier? x (hid.trans hx)) htype _ _
    · split
      · rename_i name hname
        exact hset.assign (fun x hx => hset.boundName _ _ (hname.trans hx)) htype _ _
      · exact hset

theorem worded_leaveFunction (hfirst : closesObject n s = true →
    ∃ c, (n.get "id").identifier?.or (s.fact n).boundName = some c ∧
      ∀ name, firstName [(n.get "id").identifier?, (s.fact n).boundName, name] = some c) :
    Worded K L (leaveFunction n s).2 := by
  have hclose := worded_closeScope h
  have hfacts := facts_closeScope s
  unfold leaveFunction
  rcases hs : closeScope s with ⟨_ | e, s'⟩ <;> rw [hs] at hclose hfacts
  · have hfact : ∀ m, s'.fact m = s.fact m := fun m => congrArg (Facts.at m.place) hfacts
    dsimp only
    split
    · rename_i result params htype hbody
      have ht := hclose.type _ _ htype
      split
      · rename_i hmark
        refine worded_leaveConstructor hK hclose ht result ?_
        rw [hfact]
        refine hfirst ?_
        unfold closesObject
        rw [← hfact, ← hfact, htype, hbody, hmark]
        rfl
      · exact worded_leavePlainFunction hK hclose ht
    · exact hclose
  · exact hclose

theorem worded_leaveDeclarator : Worded K L (leaveDeclarator n s) := by
  have ht := h.typeOf hK (n.get "init")
  have hset := h.setType n ht
  unfold leaveDeclarator
  dsimp only
  split
  · exact hset
  · rename_i name hid
    exact (hset.setType _ ht).bind (fun x hx => hK.identifier? x (hid.trans hx)) ht _ _

theorem worded_leaveAssignment : Worded K L (leaveAssignment n s) := by
  have ht : (assignmentType n s).Worded K L := by
    unfold assignmentType
    split
    · exact h.typeOf hK _
    · split <;> exact hK.builtin (by decide +kernel)
  have hset := h.setType n ht
  unfold leaveAssignment
  dsimp only
  split
  · exact hset
  · rename_i id hid
    exact (hset.setType id ht).assign
      (fun x hx => hK.identifiers x (n.identifiers_get _ (Node.rightMost?_mem hid hx))) ht _ _

theorem worded_leaveIdentifier (hkind : n.kind = .identifier) :
    Worded K L (leaveIdentifier task n s).2 := by
  unfold leaveIdentifier
  dsimp only
  split
  · exact h
  · split
    · rename_i t ht
      exact h.setType n (h.env.type_of_lookup?
        (fun hname => hK.prototype (Node.name_mem hkind hname)) ht)
    · split
      · have hnew := h.env.addOrSet_none hK.catalog
          (fun x hx => hK.identifiers x (Node.name_mem hkind hx))
          (show ∀ r params, some Ty.global ≠ some (.function r params) by simp [Ty.global]) n.span?
        refine (h.withEnv hnew).setType n ?_
        rw [Environment.addOrSet_none _ _ _ _ (by simp [Ty.global])]
        exact ending_generatedName _ _
      · exact h

theorem worded_leaveReturn : Worded K L (leaveReturn n s) := by
  unfold leaveReturn
  dsimp only
  split
  · exact h
  · exact h.setType n (h.typeOf hK _)

theorem worded_settle : Worded K L (settle n s) := by
  unfold settle
  split
  · exact h.setType n hK.object
  · exact h

end

theorem worded_leaveThis (h : Worded K L s) : Worded K L (leaveThis n s) :=
  h.learn n _ (fun t ht => h.env.type_of_lookup? (by simp) ht) (h.boundName n.place)

/-- **The way up** keeps a state worded, if the node was entered before. -/
theorem worded_leaveNode (hK : Knows K L task n) (h : Worded K L s)
    (hdown : ∃ s₀, Node.Descended (visitor task) n s₀ s) : Worded K L (leaveNode task n s).2 := by
  obtain ⟨s₀, hdown⟩ := hdown
  have hfunction : n.kind.isFunction = true → Worded K L (leaveFunction n s).2 := fun hkind =>
    worded_leaveFunction hK h fun hclose => firstName_of_descended hkind hdown hclose
  unfold leaveNode
  split
  case h_2 => exact worded_leaveBlock h
  case h_3 => exact worded_leaveBlock h
  case h_4 => exact worded_leaveMember hK h
  case h_5 => exact worded_leaveCall hK h
  case h_6 => exact worded_leaveNew hK h
  case h_7 => exact worded_leaveObject hK h
  case h_8 => exact worded_leaveBinary hK h
  case h_9 => exact worded_leaveBinary hK h
  case h_10 => exact worded_leaveUnary hK h
  case h_11 => exact worded_leaveUnary hK h
  case h_12 hkind => exact hfunction (by rw [hkind]; rfl)
  case h_13 hkind => exact hfunction (by rw [hkind]; rfl)
  case h_14 hkind => exact hfunction (by rw [hkind]; rfl)
  case h_15 => exact worded_leaveDeclarator hK h
  case h_16 => exact worded_leaveAssignment hK h
  case h_17 hkind => exact worded_leaveIdentifier hK h hkind
  case h_18 => exact worded_leaveThis h
  case h_19 => exact worded_leaveReturn hK h
  all_goals exact h

theorem worded_leave (hK : Knows K L task n) (h : Worded K L s)
    (hdown : ∃ s₀, Node.Descended (visitor task) n s₀ s) : Worded K L (leave task n s).2 := by
  have hnode := worded_leaveNode hK h hdown
  rw [leave_eq]
  rcases hs : leaveNode task n s with ⟨_ | a, s'⟩ <;> rw [hs] at hnode
  · exact worded_settle hK hnode
  · exact hnode

/-! ### Runs -/

theorem worded_of_env {env : Environment} (h : env.Worded K L) : Worded K L { env := env } where
  env := h
  type := by
    intro place t ht
    cases ht
  boundName := by
    intro place x hx
    cases hx

theorem worded_addDeclaredGlobals (hK : ∀ x ∈ Catalog.words, K x)
    (hnames : ∀ x ∈ declaredNames root, K x) {env : Environment} (h : env.Worded K L) :
    (addDeclaredGlobals root env).Worded K L := by
  refine addDeclaredGlobals_induction root h fun env name span hname he => ?_
  refine he.addOrSet_none hK ?_ (by simp) span
  rintro x ⟨⟩
  exact hnames _ hname

theorem worded_mergeSummaries {summaries : List Summary} (hworded : ∀ m ∈ summaries, m.Worded K L)
    (target : String) {env : Environment} (h : env.Worded K L) :
    (summaries.foldl (fun env m => env.mergeSummary m target) env).Worded K L := by
  induction summaries generalizing env with
  | nil => exact h
  | cons m summaries ih =>
    exact ih (fun k hk => hworded k (List.mem_cons_of_mem _ hk))
      (h.mergeSummary (hworded m List.mem_cons_self) target)

theorem worded_addIndexedGlobals (hoffered : ∀ m, task.Offered m → m.Worded K L) (h : Worded K L s) :
    Worded K L (addIndexedGlobals task s).2 := by
  have hasked := h.happened .askedGlobals
  unfold addIndexedGlobals
  split
  · exact h
  · rename_i index hindex
    dsimp only
    split
    · exact hasked
    · rename_i summaries hglobals
      exact hasked.withEnv (worded_mergeSummaries
        (fun m hm => hoffered m (.globals hindex hglobals hm)) _ h.env)

/-- **The states of a run are worded**, if the names that comments declare are known, too. -/
theorem Reached.worded (hK : Knows K L task root) (hnames : ∀ x ∈ declaredNames root, K x)
    (h : Reached task root uid s) : Worded K L s := by
  have hstart := Environment.worded_start (L := L) hK.catalog uid
  have hdeclared := worded_of_env (worded_addDeclaredGlobals hK.catalog hnames hstart)
  have hindexed := worded_addIndexedGlobals hK.offered hdeclared
  cases h with
  | fresh => exact worded_of_env hstart
  | declared => exact hdeclared
  | indexed => exact hindexed
  | walked hglobals hmoves hleads =>
    rw [hglobals] at hindexed
    refine hleads.invariant (fun m hm hbefore => ?_) hindexed
    have hmem := hmoves ▸ List.mem_append_left _ hm
    obtain ⟨hall, hmove⟩ := Node.isMove_of_mem_moves hmem
    have hnode := hK.of_subset (Node.identifiers_all hall)
    rcases Visitor.after_of_isMove hmove with ⟨-, hafter⟩ | ⟨hway, hafter⟩ <;> rw [hafter]
    · exact worded_enter hnode hbefore
    · obtain ⟨s₀, -, hdown⟩ := Node.exists_descent_of_mem_moves hmem hway
      exact worded_leave hnode hbefore ⟨s₀, hdown⟩

end ContentAssist.Inference
