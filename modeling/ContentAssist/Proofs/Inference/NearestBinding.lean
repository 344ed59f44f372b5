import ContentAssist.Proofs.Environment.Nearest
import ContentAssist.Proofs.Inference.ScopeBalance
import ContentAssist.Proofs.Inference.ScopeChain

/-! # The nearest binding under the rules

None of the rules binds a name in a scope that is nearer than the binding that the name has, with two
exceptions. A declaration does, and so does a function that is bound under the name without being
declared there: the function on the right of an assignment, or a function expression of that name, is
bound in the innermost scope when it is entered. `Declares` says of a move that it is of this kind.

* `Declares`: the moves that bind the name in one of the given scopes;
* `nearest_enterNode`, `nearest_leaveNode`: all other steps leave the nearest binding where it is. -/

namespace ContentAssist.Inference

open Catalog (globalName)
open Environment (Nearest)

variable {task : Task} {n : Node} {s s' : State} {x : Name} {above below : List String} {owner : String}

/-! ### Scopes and objects on the way down -/

theorem nearest_openScope (h : Nearest x above owner below s.env) :
    Nearest x above owner below (openScope n s).env := h.newScope none

theorem nearest_enterProperty {object : String} (hobject : object ∉ above) (property : Node)
    (h : Nearest x above owner below s.env) :
    Nearest x above owner below (enterProperty (.named object) s property).env := by
  unfold enterProperty
  split
  · exact h
  · rw [env_bindFunction]
    exact h.addVariable _ _ fun _ => hobject

theorem newObject_not_mem (h : Nearest x above owner below s.env) (name : Option String)
    (span : Option Span) : (s.env.newObject name span).1 ∉ above := fun hmem => by
  have hscope := (h.newObject name span).contains_of_mem (List.mem_append_left _ hmem)
  rw [h.linked.newObject_not_scope name span] at hscope
  cases hscope

theorem nearest_enterObject (h : Nearest x above owner below s.env) :
    Nearest x above owner below (enterObject n s).env := by
  have hproperties : ∀ (ps : List Node) (s : State), Nearest x above owner below s.env → ∀ object,
      object ∉ above → Nearest x above owner below (ps.foldl (enterProperty (.named object)) s).env := by
    intro ps
    induction ps with
    | nil => exact fun _ h _ _ => h
    | cons p ps ih => exact fun s h object hobject => ih _ (nearest_enterProperty hobject p h) _ hobject
  unfold enterObject
  dsimp only
  exact hproperties _ _ (h.newObject none n.span?) _ (newObject_not_mem h none n.span?)

theorem nearest_enterCatch (h : Nearest x above owner below s.env) :
    Nearest x above owner below (enterCatch n s).env := by
  unfold enterCatch
  dsimp only
  split
  · exact nearest_openScope h
  · exact (h.newScope none).addVariable _ _ fun _ hmem =>
      h.newScope_current_not_mem none (List.mem_append_left _ hmem)

/-! ### What dependencies provide -/

theorem nearest_applySummary (h : Nearest x above owner below s.env) (summary : Summary) :
    Nearest x above owner below (applySummary s summary).2.env := by
  unfold applySummary
  split
  · refine (h.newFleetingObject none none).mergeSummary summary fun _ _ => ?_
    rw [Environment.newFleetingObject_scopes]
    exact h.linked.objectName_not_scope none
  · rename_i t hprovided
    refine h.mergeSummary summary fun r hr => ?_
    rw [hprovided] at hr
    cases hr

theorem nearest_loadModule (h : Nearest x above owner below s.env) (index : Index) (name : String) :
    Nearest x above owner below (loadModule index name s).2.env := by
  unfold loadModule
  dsimp only
  split
  · exact h
  · exact h
  · exact nearest_applySummary (s := s.happened (.askedModule name)) h _

theorem nearest_dependencyType (h : Nearest x above owner below s.env) (index : Index)
    (dependency : Option Node) :
    Nearest x above owner below (dependencyType index dependency s).2.env := by
  unfold dependencyType
  split
  · exact h
  · rename_i name _
    have hload := nearest_loadModule h index name
    rcases hl : loadModule index name s with ⟨fault | (_ | t), s₁⟩ <;> rw [hl] at hload
    · exact hload
    · exact hload.newFleetingObject none none
    · exact hload

theorem nearest_dependencyTypes (h : Nearest x above owner below s.env) (index : Index)
    (params names : List Node) :
    Nearest x above owner below (dependencyTypes index params names s).2.env := by
  induction params generalizing names s with
  | nil => exact h
  | cons param params ih =>
    rw [dependencyTypes]
    have hfirst := nearest_dependencyType h index names.head?
    rcases hd : dependencyType index names.head? s with ⟨fault | t, s₁⟩ <;> rw [hd] at hfirst
    · exact hfirst
    · have hrest := ih hfirst names.tail
      dsimp only at hrest ⊢
      rcases hr : dependencyTypes index params names.tail s₁ with ⟨fault | ts, s₂⟩ <;> rw [hr] at hrest <;>
        exact hrest

theorem nearest_newObjectTypes (h : Nearest x above owner below s.env) (params : List Node) :
    Nearest x above owner below (newObjectTypes params s).2.env := by
  induction params generalizing s with
  | nil => exact h
  | cons param params ih => exact ih (s := s.newObjectType.2) (h.newFleetingObject none none)

theorem nearest_paramTypes (h : Nearest x above owner below s.env) (task : Task) (n : Node) :
    Nearest x above owner below (paramTypes task n s).2.env := by
  unfold paramTypes
  dsimp only
  split
  · exact nearest_dependencyTypes h _ _ _
  · exact nearest_newObjectTypes h _

theorem nearest_leaveCall (h : Nearest x above owner below s.env) (task : Task) (n : Node) :
    Nearest x above owner below (leaveCall task n s).2.env := by
  have hload : Nearest x above owner below (requiredType task n s).2.env := by
    unfold requiredType
    split
    · exact nearest_loadModule h _ _
    · exact h
  unfold leaveCall
  rcases hr : requiredType task n s with ⟨fault | (_ | t), s₁⟩ <;> rw [hr] at hload <;> exact hload

/-! ### Functions on the way down -/

/-- The move binds the name in the innermost scope, and that is one of the given ones: a function that is
no constructor is entered under the name, or a variable is declared. -/
inductive Declares (task : Task) (x : Name) (scopes : List String) (m : Move State) : Prop
  | function (hway : m.way = .down) (hkind : m.node.kind.isFunction = true)
      (hname : (functionName m.node m.before).1 = x) (hplain : isConstructor m.node x = false)
      (hcursor : task.cursor.isBefore m.node.span? = false)
      (hscope : m.before.env.scopes.current ∈ scopes)
  | declarator (hway : m.way = .up) (hkind : m.node.kind = .variableDeclarator)
      (hname : (m.node.get "id").identifier? = x) (hscope : m.before.env.scopes.current ∈ scopes)

theorem nearest_nameFunction (h : Nearest x above owner below s.env)
    (hquiet : (functionName n s).1 = x → isConstructor n x = false →
      task.cursor.isBefore n.span? = false → s.env.scopes.current ∉ above) :
    Nearest x above owner below (nameFunction task n s).env := by
  have hobject : ∀ name span, Nearest x above owner below (constructed s.env name span).2 :=
    fun name span => (h.newObject name span).createConstructor _
      (h.linked.newObject_not_scope name span) (Environment.newObject_not_builtin h.linked.intact name span)
  unfold nameFunction
  dsimp only
  rw [openFunction_eq]
  cases hc : isConstructor n (functionName n s).1 with
  | true =>
    rw [if_pos rfl]
    split
    · -- a constructor is bound in the scope of its object
      refine (hobject _ n.span?).addVariable _ _ fun _ hmem => ?_
      refine h.newScope_current_not_mem n.span? (List.mem_append_left _ ?_)
      simpa [Environment.scope, State.withEnv, State.setType, State.learn, constructed] using hmem
    · exact hobject _ n.span?
  | false =>
    rw [if_neg Bool.false_ne_true]
    have hmark : ∀ t, Nearest x above owner below ((markBody n false s).setType n t).env := fun t => by
      show Nearest x above owner below (markBody n false s).env
      rw [markBody_env]
      exact h
    split
    · rename_i hbound
      refine (hmark _).addVariable _ _ fun hx => ?_
      show (markBody n false s).env.scopes.current ∉ above
      rw [markBody_env]
      exact hquiet hx (hx ▸ hc) (by simpa using hbound.2)
    · exact hmark _

theorem nearest_openParams (h : Nearest x above owner below s.env) :
    Nearest x above owner below (openParams n s).env := by
  unfold openParams
  dsimp only
  split
  · exact h.newScope none
  · exact (h.newScope none).addVariable _ _ fun _ hmem =>
      h.newScope_current_not_mem none (List.mem_append_left _ hmem)

theorem nearest_bindParams (params : List Node) (ts : List Ty)
    (hcurrent : s.env.scopes.current ∉ above) (h : Nearest x above owner below s.env) :
    Nearest x above owner below (bindParams params ts s).env := by
  induction params generalizing ts s with
  | nil => exact h
  | cons param params ih =>
    cases ts with
    | nil => exact h
    | cons t ts =>
      rw [bindParams]
      split
      · exact ih ts hcurrent h
      · exact ih ts hcurrent (h.addVariable _ _ fun _ => hcurrent)

theorem nearest_enterFunction (h : Nearest x above owner below s.env)
    (hquiet : (functionName n s).1 = x → isConstructor n x = false →
      task.cursor.isBefore n.span? = false → s.env.scopes.current ∉ above) :
    Nearest x above owner below (enterFunction task n s).2.env := by
  have hnamed := nearest_nameFunction h hquiet
  have hparams := nearest_paramTypes (nearest_openParams (n := n) hnamed) task n
  have hscopes := scopes_paramTypes task n (openParams n (nameFunction task n s))
  rw [enterFunction_eq]
  rcases hp : paramTypes task n (openParams n (nameFunction task n s)) with ⟨fault | ts, s₁⟩ <;>
    rw [hp] at hparams hscopes
  · exact hparams
  · refine nearest_bindParams _ ts ?_ hparams
    rw [hscopes, scopes_openParams]
    exact fun hmem => hnamed.newScope_current_not_mem none (List.mem_append_left _ hmem)

/-- **The way down** leaves the nearest binding where it is, unless it binds the name above it. -/
theorem nearest_enterNode (h : Nearest x above owner below s.env)
    (hquiet : ¬ Declares task x above ((visitor task).move .down n s)) :
    Nearest x above owner below (enterNode task n s).2.env := by
  have hfunction : n.kind.isFunction = true → Nearest x above owner below (enterFunction task n s).2.env :=
    fun hkind => nearest_enterFunction h fun hname hplain hcursor hscope =>
      hquiet (.function rfl hkind hname hplain hcursor hscope)
  unfold enterNode
  split
  case h_1 => exact (env_enterProgram n s).symm ▸ h
  case h_2 => exact nearest_openScope h
  case h_5 => exact nearest_enterObject h
  case h_6 hkind => exact hfunction (by rw [hkind]; rfl)
  case h_7 hkind => exact hfunction (by rw [hkind]; rfl)
  case h_8 hkind => exact hfunction (by rw [hkind]; rfl)
  case h_9 => exact (env_enterDeclarator n s).symm ▸ h
  case h_10 => exact (env_enterAssignment n s).symm ▸ h
  case h_11 => exact nearest_enterCatch h
  case h_12 => exact (env_enterMember n s).symm ▸ h
  case h_13 => exact (env_enterCall n s).symm ▸ h
  all_goals exact h

/-! ### The way up -/

theorem nearest_closeScope (h : Nearest x above owner below s.env)
    (htail : above ++ owner :: below <:+ s.env.scopes.inner.tail ++ [globalName]) :
    Nearest x above owner below (closeScope s).2.env := by
  unfold closeScope
  split
  · exact h
  · rename_i hpop
    exact h.popScope? htail hpop

theorem nearest_leaveBlock (h : Nearest x above owner below s.env)
    (htail : above ++ owner :: below <:+ s.env.scopes.inner.tail ++ [globalName]) :
    Nearest x above owner below (leaveBlock task n s).2.env := by
  unfold leaveBlock
  split
  · exact h
  · exact nearest_closeScope h htail

/-- The object of a node, if its type is known, is none of the scopes. -/
def ObjectApart (above : List String) (n : Node) (s : State) : Prop :=
  ∃ object, (s.fact n).type = some (.named object) ∧ object ∉ above

theorem nearest_leaveObject (h : Nearest x above owner below s.env) (hobject : ObjectApart above n s)
    (htail : above ++ owner :: below <:+ s.env.scopes.inner.tail ++ [globalName]) :
    Nearest x above owner below (leaveObject n s).2.env := by
  obtain ⟨object, htype, hapart⟩ := hobject
  have hproperties : ∀ (ps : List Node) (s : State), Nearest x above owner below s.env →
      Nearest x above owner below (ps.foldl (leaveProperty (some (.named object))) s).env := by
    intro ps
    induction ps with
    | nil => exact fun _ h => h
    | cons p ps ih =>
      intro s h
      refine ih _ ?_
      unfold leaveProperty
      split
      · exact h
      · exact h.addVariable _ _ fun _ => hapart
  have hscopes := scopes_foldl (scopes_leaveProperty (some (.named object))) (n.list "properties") s
  unfold leaveObject
  rw [htype]
  exact nearest_closeScope (hproperties _ s h) (by rw [hscopes]; exact htail)

theorem nearest_assign (h : Nearest x above owner below s.env) {name : Name}
    (hname : name ≠ some "prototype") (target : Option Ty) (type : Ty) (span : Option Span) :
    Nearest x above owner below (s.assign name target type span).env :=
  h.addOrSet (fun he => absurd he hname) type span

theorem inner_closeScope (hc : closeScope s = (none, s')) :
    s'.env.scopes.inner = s.env.scopes.inner.tail := by
  unfold closeScope at hc
  split at hc
  · cases hc
  · rename_i hpop
    cases hc
    exact congrArg Scopes.inner (Environment.scopes_of_popScope? hpop)

theorem nearest_leaveConstructor (h : Nearest x above owner below s.env)
    (htail : above ++ owner :: below <:+ s.env.scopes.inner.tail ++ [globalName]) (type result : Ty)
    (hname : firstName [(n.get "id").identifier?, (s.fact n).boundName, some result.leaf] ≠
      some "prototype") : Nearest x above owner below (leaveConstructor n type result s).2.env := by
  have hclose := nearest_closeScope h htail
  have hfacts := facts_closeScope s
  unfold leaveConstructor
  rcases hc : closeScope s with ⟨_ | e, s'⟩ <;> rw [hc] at hclose hfacts
  · refine nearest_assign hclose ?_ _ _ _
    rwa [State.fact, hfacts]
  · exact hclose

theorem nearest_leavePlainFunction (h : Nearest x above owner below s.env) (type : Ty)
    (hname : ((returned? n).bind fun _ => (n.get "id").identifier?.or (s.fact n).boundName) ≠
      some "prototype") : Nearest x above owner below (leavePlainFunction n type s).env := by
  unfold leavePlainFunction
  split
  · exact h
  · rename_i r hr
    rw [hr, Option.bind_some] at hname
    dsimp only
    have hbound : ∀ t, ((s.setType n t).fact n).boundName = (s.fact n).boundName := fun t => by
      unfold State.fact State.setType
      rw [at_learn_self]
      rfl
    split
    · rename_i name hid
      rw [hid, Option.some_or] at hname
      exact nearest_assign (s := s.setType n _) h hname _ _ _
    · rename_i hid
      rw [hid, Option.none_or] at hname
      split
      · rename_i name hb
        rw [hbound] at hb
        rw [hb] at hname
        exact nearest_assign (s := s.setType n _) h hname _ _ _
      · exact h

theorem nearest_leaveFunction (h : Nearest x above owner below s.env) (hkind : n.kind.isFunction = true)
    (hdepth : above ++ owner :: below <:+ s.env.scopes.inner.drop (depth n s) ++ [globalName])
    (hname : finalName n s ≠ some "prototype") :
    Nearest x above owner below (leaveFunction n s).2.env := by
  rw [depth_of_isFunction hkind] at hdepth
  have htail : above ++ owner :: below <:+ s.env.scopes.inner.tail ++ [globalName] := by
    refine hdepth.trans ?_
    rw [← List.drop_one]
    split
    · exact ⟨(s.env.scopes.inner.drop 1).take 1, by
        rw [← List.append_assoc, show List.drop 2 s.env.scopes.inner =
          List.drop 1 (List.drop 1 s.env.scopes.inner) by rw [List.drop_drop], List.take_append_drop]⟩
    · exact List.suffix_rfl
  have hclose := nearest_closeScope h htail
  have hfacts := facts_closeScope s
  unfold leaveFunction
  rcases hc : closeScope s with ⟨_ | e, s'⟩ <;> rw [hc] at hclose hfacts
  · have hfact : ∀ m, s'.fact m = s.fact m := fun m => congrArg (Facts.at m.place) hfacts
    dsimp only
    unfold finalName at hname
    split
    · rename_i result params htype hbody
      rw [hfact n] at htype
      rw [htype, hbody] at hname
      dsimp only at hname
      rw [hfact (n.get "body")]
      split
      · rename_i hconstructs
        rw [if_pos hconstructs, ← hfact n] at hname
        have hobject : closesObject n s = true := by
          unfold closesObject
          rw [htype, hbody, hconstructs]
          rfl
        rw [hobject, if_pos rfl] at hdepth
        refine nearest_leaveConstructor hclose ?_ _ _ hname
        rwa [inner_closeScope hc, ← List.drop_one, ← List.drop_one, List.drop_drop]
      · rename_i hconstructs
        rw [if_neg hconstructs, ← hfact n] at hname
        exact nearest_leavePlainFunction hclose _ hname
    · exact hclose
  · exact hclose

theorem nearest_leaveDeclarator (h : Nearest x above owner below s.env)
    (hquiet : (n.get "id").identifier? = x → s.env.scopes.current ∉ above) :
    Nearest x above owner below (leaveDeclarator n s).env := by
  unfold leaveDeclarator
  dsimp only
  split
  · exact h
  · rename_i name hid
    exact h.addVariable _ _ fun hx => hquiet (hid.trans hx)

theorem nearest_leaveAssignment (h : Nearest x above owner below s.env)
    (hkind : n.kind = .assignmentExpression) (hn : ¬ Relinks n s) :
    Nearest x above owner below (leaveAssignment n s).env := by
  unfold leaveAssignment
  dsimp only
  split
  · exact h
  · rename_i id hid
    refine @Nearest.addOrSet x above below owner s.env h _ _ (fun hname => ?_) _ _
    exact Bool.not_eq_true _ ▸ fun hscope => hn (.assignment hkind hid hname hscope)

theorem nearest_leaveIdentifier (h : Nearest x above owner below s.env) :
    Nearest x above owner below (leaveIdentifier task n s).2.env := by
  unfold leaveIdentifier
  dsimp only
  split
  · exact h
  · split
    · exact h
    · rename_i hlookup
      split
      · rename_i hfresh
        have htarget : s.targetType n = none := by
          unfold State.targetType
          rw [Option.isNone_iff_eq_none.1 hfresh.1]
          rfl
        rw [Environment.addOrSet_none _ _ _ _ (by simp [Ty.global])]
        refine (h.newFleetingObject none n.span?).addOrSet (fun hname => ?_) _ _
        rw [hname, htarget] at hlookup
        exact absurd hlookup h.linked.lookup_prototype
      · exact h

/-- **The way up** leaves the nearest binding where it is, unless it declares the name above it or sets
the link of a scope. -/
theorem nearest_leaveNode (h : Nearest x above owner below s.env)
    (hdepth : above ++ owner :: below <:+ s.env.scopes.inner.drop (depth n s) ++ [globalName])
    (hobject : n.kind = .objectExpression → ObjectApart above n s)
    (hquiet : ¬ Declares task x above ((visitor task).move .up n s)) (hn : ¬ Relinks n s) :
    Nearest x above owner below (leaveNode task n s).2.env := by
  have hfunction : n.kind.isFunction = true → Nearest x above owner below (leaveFunction n s).2.env :=
    fun hkind => nearest_leaveFunction h hkind hdepth fun hname => hn (.function hkind hname)
  have htail : depth n s = 1 →
      above ++ owner :: below <:+ s.env.scopes.inner.tail ++ [globalName] := fun hd => by
    rwa [hd, List.drop_one] at hdepth
  unfold leaveNode
  split
  case h_2 hkind => exact nearest_leaveBlock h (htail (by simp [depth, hkind]))
  case h_3 hkind => exact nearest_leaveBlock h (htail (by simp [depth, hkind]))
  case h_4 => exact (env_leaveMember task n s).symm ▸ h
  case h_5 => exact nearest_leaveCall h task n
  case h_7 hkind => exact nearest_leaveObject h (hobject hkind) (htail (by simp [depth, hkind]))
  case h_12 hkind => exact hfunction (by rw [hkind]; rfl)
  case h_13 hkind => exact hfunction (by rw [hkind]; rfl)
  case h_14 hkind => exact hfunction (by rw [hkind]; rfl)
  case h_15 hkind =>
    exact nearest_leaveDeclarator h fun hname hscope => hquiet (.declarator rfl hkind hname hscope)
  case h_16 hkind => exact nearest_leaveAssignment h hkind hn
  case h_17 => exact nearest_leaveIdentifier h
  case h_19 => exact (env_leaveReturn n s).symm ▸ h
  all_goals exact h

end ContentAssist.Inference
