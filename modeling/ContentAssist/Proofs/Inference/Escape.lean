import ContentAssist.Proofs.Environment.GlobalLacks
import ContentAssist.Proofs.Inference.Overwrite

/-! # How a name gets into the global scope

Inside other scopes nothing is bound in the global one by itself: what is declared is bound in the
innermost scope. A name that the global scope lacks gets there in five ways only: a function is bound
under it outside of all other scopes, when it is entered or when it is left; a variable is declared there;
it is assigned to the global record; or an identifier is found nowhere and becomes a global.

* `Escapes`: the moves of these kinds;
* `globalLacks_enter`, `globalLacks_leave`: every other step leaves the global scope without the name. -/

namespace ContentAssist.Inference

open Catalog (globalName)
open Environment

variable {task : Task} {n : Node} {s s' : State} {x name : Name}

/-- The move may bind the name in the global scope. -/
inductive Escapes (x : Name) (m : Move State) : Prop
  | entered (hway : m.way = .down) (hkind : m.node.kind.isFunction = true)
      (hname : (functionName m.node m.before).1 = x) (hscope : m.before.env.scopes.inner = [])
  | left (hway : m.way = .up) (hkind : m.node.kind.isFunction = true)
      (hname : finalName m.node m.before = x)
      (hscope : m.before.env.scopes.inner.drop (depth m.node m.before) = [])
  | declarator (hway : m.way = .up) (hkind : m.node.kind = .variableDeclarator)
      (hname : (m.node.get "id").identifier? = x) (hscope : m.before.env.scopes.inner = [])
  | assignment {id : Node} (hway : m.way = .up) (hkind : m.node.kind = .assignmentExpression)
      (hid : (m.node.get "left").rightMost? = some id) (hname : id.name = x)
      (hscope : assignedRecord m.node id m.before = globalName)
  | identifier (hway : m.way = .up) (hkind : m.node.kind = .identifier) (hname : m.node.name = x)
      (hlookup : m.before.env.lookup? x none = none)
      (hdefined : (m.before.fact m.node).isDefined = false)

/-! ### The way down -/

section

variable (hlinked : s.env.Linked) (h : s.env.GlobalLacks x)
include hlinked h

theorem globalLacks_openScope (n : Node) : (openScope n s).env.GlobalLacks x :=
  globalLacks_newScope hlinked h none

theorem globalLacks_enterObject (n : Node) : (enterObject n s).env.GlobalLacks x := by
  have hproperties : ∀ (ps : List Node) (s : State) (object : String), s.env.GlobalLacks x →
      object ≠ globalName → (ps.foldl (enterProperty (.named object)) s).env.GlobalLacks x := by
    intro ps
    induction ps with
    | nil => exact fun _ _ h _ => h
    | cons p ps ih =>
      intro s object h hobject
      refine ih _ _ ?_ hobject
      unfold enterProperty
      split
      · exact h
      · rw [env_bindFunction]
        exact globalLacks_addVariable h _ _ fun _ => hobject
  unfold enterObject
  dsimp only
  refine hproperties _ _ _ (globalLacks_newObject hlinked h none n.span?) ?_
  exact ne_of_not_scope (hlinked.newObject_not_scope none n.span?)
    (linked_newObject hlinked none n.span?).contains_globalName

theorem globalLacks_enterCatch (n : Node) : (enterCatch n s).env.GlobalLacks x := by
  unfold enterCatch
  dsimp only
  split
  · exact globalLacks_openScope hlinked h n
  · refine globalLacks_addVariable (globalLacks_newScope hlinked h none) _ _ fun _ => ?_
    exact (linked_newScope hlinked none).current_ne_global (List.cons_ne_nil _ _)

theorem globalLacks_nameFunction
    (hquiet : (functionName n s).1 = x → s.env.scopes.inner ≠ []) :
    (nameFunction task n s).env.GlobalLacks x := by
  have hobject : (constructed s.env (functionName n s).1 n.span?).2.GlobalLacks x :=
    globalLacks_createConstructor (linked_newObject hlinked _ _) (globalLacks_newObject hlinked h _ _) _
      (hlinked.newObject_not_scope _ _)
  have hconstructed := linked_constructed hlinked (functionName n s).1 n.span?
  unfold nameFunction
  dsimp only
  rw [openFunction_eq]
  cases isConstructor n (functionName n s).1 with
  | true =>
    rw [if_pos rfl]
    split
    · -- a constructor is bound in the scope of its object
      refine globalLacks_addVariable hobject _ _ fun _ => hconstructed.current_ne_global ?_
      simp [constructed, Scopes.push]
    · exact hobject
  | false =>
    rw [if_neg Bool.false_ne_true]
    have hmark : (markBody n false s).env = s.env := markBody_env n false s
    have hmarked : (markBody n false s).env.GlobalLacks x := hmark ▸ h
    split
    · refine Environment.globalLacks_addVariable hmarked _ _ fun hx => ?_
      rw [hmark]
      exact hlinked.current_ne_global (hquiet hx)
    · exact hmarked

theorem globalLacks_openParams (n : Node) : (openParams n s).env.GlobalLacks x := by
  have hscope := globalLacks_newScope hlinked h none
  unfold openParams
  dsimp only
  split
  · exact hscope
  · exact globalLacks_addVariable hscope _ _ fun _ =>
      (linked_newScope hlinked none).current_ne_global (List.cons_ne_nil _ _)

theorem globalLacks_newObjectTypes (params : List Node) :
    (newObjectTypes params s).2.env.GlobalLacks x := by
  induction params generalizing s with
  | nil => exact h
  | cons param params ih =>
    exact ih (s := s.newObjectType.2) (linked_newFleetingObject hlinked none none)
      (globalLacks_newFleetingObject hlinked h none none)

omit hlinked in
theorem globalLacks_bindParams (hcurrent : s.env.scopes.current ≠ globalName) (params : List Node)
    (ts : List Ty) : (bindParams params ts s).env.GlobalLacks x := by
  induction params generalizing ts s with
  | nil => exact h
  | cons param params ih =>
    cases ts with
    | nil => exact h
    | cons t ts =>
      rw [bindParams]
      split
      · exact ih h hcurrent ts
      · exact ih (s := s.bind _ none t _) (globalLacks_addVariable h _ _ fun _ => hcurrent) hcurrent ts

theorem globalLacks_enterFunction (hindex : task.index? = none)
    (hquiet : (functionName n s).1 = x → s.env.scopes.inner ≠ []) :
    (enterFunction task n s).2.env.GlobalLacks x := by
  have hnamed := linked_nameFunction (n := n) task hlinked
  have hopened := linked_openParams (n := n) hnamed
  have hparams := linked_newObjectTypes (n.list "params") hopened
  rw [enterFunction_eq, paramTypes_eq hindex]
  refine globalLacks_bindParams (globalLacks_newObjectTypes hopened
    (globalLacks_openParams hnamed (globalLacks_nameFunction hlinked h hquiet) n) _) ?_ _ _
  refine hparams.current_ne_global ?_
  rw [scopes_newObjectTypes, scopes_openParams]
  exact List.cons_ne_nil _ _

theorem globalLacks_enterNode (hindex : task.index? = none)
    (hquiet : ¬ Escapes x ((visitor task).move .down n s)) :
    (enterNode task n s).2.env.GlobalLacks x := by
  have hfunction : n.kind.isFunction = true → (enterFunction task n s).2.env.GlobalLacks x :=
    fun hkind => globalLacks_enterFunction hlinked h hindex fun hname hscope =>
      hquiet (.entered rfl hkind hname hscope)
  unfold enterNode
  split
  case h_1 => exact (env_enterProgram n s).symm ▸ h
  case h_2 => exact globalLacks_openScope hlinked h n
  case h_5 => exact globalLacks_enterObject hlinked h n
  case h_6 hkind => exact hfunction (by rw [hkind]; rfl)
  case h_7 hkind => exact hfunction (by rw [hkind]; rfl)
  case h_8 hkind => exact hfunction (by rw [hkind]; rfl)
  case h_9 => exact (env_enterDeclarator n s).symm ▸ h
  case h_10 => exact (env_enterAssignment n s).symm ▸ h
  case h_11 => exact globalLacks_enterCatch hlinked h n
  case h_12 => exact (env_enterMember n s).symm ▸ h
  case h_13 => exact (env_enterCall n s).symm ▸ h
  all_goals exact h

/-- **The way down** leaves the global scope without the name, unless the move may bind it there. -/
theorem globalLacks_enter (hindex : task.index? = none)
    (hquiet : ¬ Escapes x ((visitor task).move .down n s)) :
    (enter task n s).2.env.GlobalLacks x := by
  have hnode := globalLacks_enterNode hlinked h hindex hquiet
  rw [enter_eq]
  split
  · exact h
  · rcases he : enterNode task n s with ⟨fault | _, s'⟩ <;> rw [he] at hnode <;> exact hnode

end

/-! ### The way up -/

theorem globalLacks_closeScope (h : s.env.GlobalLacks x) : (closeScope s).2.env.GlobalLacks x := by
  unfold closeScope
  split
  · exact h
  · rename_i hpop
    exact globalLacks_popScope? h hpop

theorem globalLacks_leaveBlock (h : s.env.GlobalLacks x) :
    (leaveBlock task n s).2.env.GlobalLacks x := by
  unfold leaveBlock
  split
  · exact h
  · exact globalLacks_closeScope h

theorem globalLacks_leaveObject (h : s.env.GlobalLacks x)
    (hobject : ∃ object, (s.fact n).type = some (.named object) ∧ object ≠ globalName) :
    (leaveObject n s).2.env.GlobalLacks x := by
  obtain ⟨object, htype, hne⟩ := hobject
  have hproperties : ∀ (ps : List Node) (s : State), s.env.GlobalLacks x →
      (ps.foldl (leaveProperty (some (.named object))) s).env.GlobalLacks x := by
    intro ps
    induction ps with
    | nil => exact fun _ h => h
    | cons p ps ih =>
      intro s h
      refine ih _ ?_
      unfold leaveProperty
      split
      · exact h
      · exact globalLacks_addVariable h _ _ fun _ => hne
  unfold leaveObject
  rw [htype]
  exact globalLacks_closeScope (hproperties _ s h)

/-- Assigning to a name of the innermost scope. -/
theorem globalLacks_assign (h : s.env.GlobalLacks x) (type : Ty) (span : Option Span)
    (hcurrent : name = x → s.env.scopes.current ≠ globalName) :
    (s.assign name none type span).env.GlobalLacks x :=
  globalLacks_addOrSet h type span hcurrent

theorem globalLacks_leaveConstructor (hlinked : s.env.Linked) (h : s.env.GlobalLacks x) (type result : Ty)
    (hquiet : firstName [(n.get "id").identifier?, (s.fact n).boundName, some result.leaf] = x →
      s.env.scopes.inner.tail ≠ []) : (leaveConstructor n type result s).2.env.GlobalLacks x := by
  have hclose := globalLacks_closeScope h
  have hclosed := linked_closeScope hlinked
  have hfacts := facts_closeScope s
  unfold leaveConstructor
  rcases hc : closeScope s with ⟨_ | e, s'⟩ <;> rw [hc] at hclose hclosed hfacts
  · refine globalLacks_assign hclose _ _ fun hname => hclosed.current_ne_global ?_
    rw [inner_closeScope hc]
    refine hquiet ?_
    rwa [State.fact, hfacts] at hname
  · exact hclose

theorem globalLacks_leavePlainFunction (hlinked : s.env.Linked) (h : s.env.GlobalLacks x) (type : Ty)
    (hquiet : ((returned? n).bind fun _ => (n.get "id").identifier?.or (s.fact n).boundName) = x →
      s.env.scopes.inner ≠ []) : (leavePlainFunction n type s).env.GlobalLacks x := by
  unfold leavePlainFunction
  split
  · exact h
  · rename_i r hr
    rw [hr, Option.bind_some] at hquiet
    dsimp only
    have hbound : ∀ t, ((s.setType n t).fact n).boundName = (s.fact n).boundName := fun t =>
      Kept.setType (π := Fact.boundName) (fun _ _ => rfl) n t n.place
    split
    · rename_i name hid
      rw [hid, Option.some_or] at hquiet
      exact globalLacks_assign (s := s.setType n _) h _ _ fun hx => hlinked.current_ne_global (hquiet hx)
    · rename_i hid
      rw [hid, Option.none_or] at hquiet
      split
      · rename_i name hb
        rw [hbound] at hb
        rw [hb] at hquiet
        exact globalLacks_assign (s := s.setType n _) h _ _ fun hx => hlinked.current_ne_global (hquiet hx)
      · exact h

theorem globalLacks_leaveFunction (hlinked : s.env.Linked) (h : s.env.GlobalLacks x)
    (hkind : n.kind.isFunction = true)
    (hquiet : finalName n s = x → s.env.scopes.inner.drop (depth n s) ≠ []) :
    (leaveFunction n s).2.env.GlobalLacks x := by
  have hclose := globalLacks_closeScope h
  have hclosed := linked_closeScope hlinked
  have hfacts := facts_closeScope s
  rw [depth_of_isFunction hkind] at hquiet
  unfold leaveFunction
  rcases hc : closeScope s with ⟨_ | e, s'⟩ <;> rw [hc] at hclose hclosed hfacts
  · have hfact : ∀ m, s'.fact m = s.fact m := fun m => congrArg (Facts.at m.place) hfacts
    dsimp only
    unfold finalName at hquiet
    split
    · rename_i result params htype hbody
      rw [hfact n] at htype
      rw [htype, hbody] at hquiet
      dsimp only at hquiet
      rw [hfact (n.get "body")]
      split
      · rename_i hconstructs
        refine globalLacks_leaveConstructor hclosed hclose _ _ fun hname => ?_
        rw [hfact n] at hname
        have hobject : closesObject n s = true := by
          unfold closesObject
          rw [htype, hbody, hconstructs]
          rfl
        rw [if_pos hconstructs, hobject, if_pos rfl] at hquiet
        rw [inner_closeScope hc, ← List.drop_one, ← List.drop_one, List.drop_drop]
        exact hquiet hname
      · rename_i hconstructs
        refine globalLacks_leavePlainFunction hclosed hclose _ fun hname => ?_
        rw [hfact n] at hname
        rw [if_neg hconstructs, if_neg (by simp [closesObject, hconstructs])] at hquiet
        rw [inner_closeScope hc, ← List.drop_one]
        exact hquiet hname
    · exact hclose
  · exact hclose

theorem globalLacks_leaveDeclarator (hlinked : s.env.Linked) (h : s.env.GlobalLacks x)
    (hquiet : (n.get "id").identifier? = x → s.env.scopes.inner ≠ []) :
    (leaveDeclarator n s).env.GlobalLacks x := by
  unfold leaveDeclarator
  dsimp only
  split
  · exact h
  · rename_i name hid
    exact globalLacks_addVariable h _ _ fun hx => hlinked.current_ne_global (hquiet (hid.trans hx))

theorem globalLacks_leaveAssignment (h : s.env.GlobalLacks x)
    (hquiet : ∀ id, (n.get "left").rightMost? = some id → id.name = x →
      assignedRecord n id s ≠ globalName) : (leaveAssignment n s).env.GlobalLacks x := by
  unfold leaveAssignment
  dsimp only
  split
  · exact h
  · rename_i id hid
    exact Environment.globalLacks_addOrSet h _ _ (hquiet id hid)

theorem globalLacks_leaveIdentifier (hlinked : s.env.Linked) (h : s.env.GlobalLacks x)
    (hquiet : n.name = x → s.env.lookup? x none = none → (s.fact n).isDefined = true) :
    (leaveIdentifier task n s).2.env.GlobalLacks x := by
  unfold leaveIdentifier
  dsimp only
  split
  · exact h
  · split
    · exact h
    · rename_i hlookup
      split
      · rename_i hfresh
        have htarget : s.targetType n = none := by
          unfold State.targetType
          rw [Option.isNone_iff_eq_none.1 hfresh.1]
          rfl
        rw [addOrSet_none _ _ _ _ (by simp [Ty.global])]
        refine globalLacks_addOrSet (globalLacks_newFleetingObject hlinked h none n.span?) _ _ fun hx => ?_
        rw [hx, htarget] at hlookup
        have hdefined := hfresh.2.1
        rw [hquiet hx hlookup] at hdefined
        cases hdefined
      · exact h

theorem globalLacks_leaveNode (hlinked : s.env.Linked) (h : s.env.GlobalLacks x)
    (hindex : task.index? = none)
    (hobject : n.kind = .objectExpression →
      ∃ object, (s.fact n).type = some (.named object) ∧ object ≠ globalName)
    (hquiet : ¬ Escapes x ((visitor task).move .up n s)) :
    (leaveNode task n s).2.env.GlobalLacks x := by
  have hfunction : n.kind.isFunction = true → (leaveFunction n s).2.env.GlobalLacks x := fun hkind =>
    globalLacks_leaveFunction hlinked h hkind fun hname hscope => hquiet (.left rfl hkind hname hscope)
  unfold leaveNode
  split
  case h_2 | h_3 => exact globalLacks_leaveBlock h
  case h_4 => exact (env_leaveMember task n s).symm ▸ h
  case h_5 => exact (env_leaveCall hindex n s).symm ▸ h
  case h_7 hkind => exact globalLacks_leaveObject h (hobject hkind)
  case h_12 hkind => exact hfunction (by rw [hkind]; rfl)
  case h_13 hkind => exact hfunction (by rw [hkind]; rfl)
  case h_14 hkind => exact hfunction (by rw [hkind]; rfl)
  case h_15 hkind =>
    exact globalLacks_leaveDeclarator hlinked h fun hname hscope =>
      hquiet (.declarator rfl hkind hname hscope)
  case h_16 hkind =>
    exact globalLacks_leaveAssignment h fun id hid hname hscope =>
      hquiet (.assignment rfl hkind hid hname hscope)
  case h_17 hkind =>
    exact globalLacks_leaveIdentifier hlinked h fun hname hlookup =>
      Bool.not_eq_false _ ▸ fun hdefined => hquiet (.identifier rfl hkind hname hlookup hdefined)
  case h_19 => exact (env_leaveReturn n s).symm ▸ h
  all_goals exact h

/-- **The way up** leaves the global scope without the name, unless the move may bind it there. -/
theorem globalLacks_leave (hlinked : s.env.Linked) (h : s.env.GlobalLacks x)
    (hindex : task.index? = none)
    (hobject : n.kind = .objectExpression →
      ∃ object, (s.fact n).type = some (.named object) ∧ object ≠ globalName)
    (hquiet : ¬ Escapes x ((visitor task).move .up n s)) :
    (leave task n s).2.env.GlobalLacks x := by
  have hnode := globalLacks_leaveNode hlinked h hindex hobject hquiet
  rw [leave_eq]
  rcases hl : leaveNode task n s with ⟨_ | a, s'⟩ <;> rw [hl] at hnode
  · exact (env_settle n s').symm ▸ hnode
  · exact hnode

end ContentAssist.Inference
