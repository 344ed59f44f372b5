import ContentAssist.Proofs.Environment.Linked
import ContentAssist.Proofs.Inference.Scopes
import ContentAssist.Proofs.Tree.Moves

/-! # The chain of the scopes

A name is looked up along the chain of the innermost scope, and that is meant to be the stack of
scopes. It is, as long as nothing called `prototype` is assigned to a scope: an assignment to
`prototype` sets the link of the record it goes to, and scopes are records like any other. Without an
index no other step of an inference touches the link of a scope of the stack.

* `Relinks`: leaving a node sets the link of a scope;
* `linked_enter`, `linked_leave`: all other steps keep the scopes linked;
* `linked_addDeclaredGlobals`: the state in which a walk begins;
* `scope_chain_of_leads`: the states that it reaches. -/

namespace ContentAssist.Inference

open Catalog (globalName)

variable {task : Task} {n : Node} {s s' : State}

/-! ### Steps that keep the scopes linked -/

theorem env_leaveCall (hindex : task.index? = none) (n : Node) (s : State) :
    (leaveCall task n s).2.env = s.env := by
  have hnone : requiredType task n s = (.ok none, s) := by
    unfold requiredType
    rw [hindex]
  unfold leaveCall
  rw [hnone]
  rfl

theorem linked_bind (h : s.env.Linked) (name : Name) (target : Option Ty) (type : Ty)
    (span : Option Span) : (s.bind name target type span).env.Linked :=
  Environment.linked_addVariable h name target (some type) span

theorem linked_foldl {f : State → Node → State} (hf : ∀ s n, s.env.Linked → (f s n).env.Linked)
    (ns : List Node) (h : s.env.Linked) : (ns.foldl f s).env.Linked := by
  induction ns generalizing s with
  | nil => exact h
  | cons n ns ih => exact ih (hf s n h)

theorem linked_openScope (h : s.env.Linked) : (openScope n s).env.Linked :=
  Environment.linked_newScope h none

theorem linked_enterProperty (object : Ty) (property : Node) (h : s.env.Linked) :
    (enterProperty object s property).env.Linked := by
  unfold enterProperty
  split
  · exact h
  · rw [env_bindFunction]
    exact linked_bind h _ _ _ _

theorem linked_enterObject (h : s.env.Linked) : (enterObject n s).env.Linked := by
  unfold enterObject
  dsimp only
  exact linked_foldl (fun _ _ => linked_enterProperty _ _) _
    (Environment.linked_newObject h none n.span?)

theorem linked_enterCatch (h : s.env.Linked) : (enterCatch n s).env.Linked := by
  unfold enterCatch
  dsimp only
  split
  · exact linked_openScope h
  · exact linked_bind (s := (openScope n s).setType (n.get "param") .error)
      (linked_openScope (n := n) h) _ _ _ _

/-! ### Functions -/

theorem linked_constructed {env : Environment} (h : env.Linked) (name : Name)
    (span : Option Span) : (constructed env name span).2.Linked :=
  Environment.linked_createConstructor (Environment.linked_newObject h name span) _
    (h.newObject_not_scope name span) (Environment.newObject_not_builtin h.intact name span)

theorem linked_nameFunction (task : Task) (h : s.env.Linked) :
    (nameFunction task n s).env.Linked := by
  have hopen : (openFunction n (functionName n s).1 s).2.env.Linked := by
    rw [openFunction_eq]
    split
    · exact linked_constructed h _ _
    · rw [markBody_env]
      exact h
  unfold nameFunction
  dsimp only
  split
  · exact linked_bind (s := State.setType _ _ _) hopen _ _ _ _
  · exact hopen

theorem linked_openParams (h : s.env.Linked) : (openParams n s).env.Linked := by
  have hscope : (s.withEnv (s.env.newScope none).2).env.Linked :=
    Environment.linked_newScope h none
  unfold openParams
  dsimp only
  split
  · exact hscope
  · exact linked_bind hscope _ _ _ _

theorem linked_newObjectTypes (params : List Node) (h : s.env.Linked) :
    (newObjectTypes params s).2.env.Linked := by
  induction params generalizing s with
  | nil => exact h
  | cons param params ih =>
    exact ih (s := s.newObjectType.2) (Environment.linked_newFleetingObject h none none)

theorem linked_bindParams (params : List Node) (ts : List Ty) (h : s.env.Linked) :
    (bindParams params ts s).env.Linked := by
  induction params generalizing ts s with
  | nil => exact h
  | cons param params ih =>
    cases ts with
    | nil => exact h
    | cons t ts =>
      rw [bindParams]
      refine ih ts ?_
      split
      · exact h
      · exact linked_bind h _ _ _ _

theorem paramTypes_eq (hindex : task.index? = none) (n : Node) (s : State) :
    paramTypes task n s =
      (.ok (newObjectTypes (n.list "params") s).1, (newObjectTypes (n.list "params") s).2) := by
  unfold paramTypes dependencies?
  rw [hindex]

theorem linked_enterFunction (hindex : task.index? = none) (h : s.env.Linked) :
    (enterFunction task n s).2.env.Linked := by
  rw [enterFunction_eq, paramTypes_eq hindex]
  exact linked_bindParams _ _ (linked_newObjectTypes _ (linked_openParams (linked_nameFunction task h)))

/-! ### The way down -/

theorem linked_enterNode (hindex : task.index? = none) (h : s.env.Linked) :
    (enterNode task n s).2.env.Linked := by
  unfold enterNode
  split
  case h_1 => exact (env_enterProgram n s).symm ▸ h
  case h_2 => exact linked_openScope h
  case h_5 => exact linked_enterObject h
  case h_6 | h_7 | h_8 => exact linked_enterFunction hindex h
  case h_9 => exact (env_enterDeclarator n s).symm ▸ h
  case h_10 => exact (env_enterAssignment n s).symm ▸ h
  case h_11 => exact linked_enterCatch h
  case h_12 => exact (env_enterMember n s).symm ▸ h
  case h_13 => exact (env_enterCall n s).symm ▸ h
  all_goals exact h

/-- **The way down** keeps the scopes linked. -/
theorem linked_enter (hindex : task.index? = none) (h : s.env.Linked) :
    (enter task n s).2.env.Linked := by
  have hnode : (enterNode task n s).2.env.Linked := linked_enterNode hindex h
  rw [enter_eq]
  split
  · exact h
  · rcases he : enterNode task n s with ⟨fault | _, s'⟩ <;> rw [he] at hnode <;> exact hnode

/-! ### Links that are set -/

/-- The name that a function gives its type to when it is left, if there is one. -/
def finalName (n : Node) (s : State) : Name :=
  match (s.fact n).type, (n.get "body").isObject with
  | some (.function result _), true =>
    if (s.fact (n.get "body")).isConstructorBody then
      firstName [(n.get "id").identifier?, (s.fact n).boundName, some result.leaf]
    else (returned? n).bind fun _ => (n.get "id").identifier?.or (s.fact n).boundName
  | _, _ => none

/-- The record that an assignment to the identifier `id` goes to. -/
def assignedRecord (n id : Node) (s : State) : String :=
  let t := assignmentType n s
  let s := (s.setType n t).setType id t
  s.env.scope (s.targetType id)

/-- Leaving the node sets the link of a scope of the stack: a function is named `prototype`, or
`prototype` is assigned to a scope. -/
inductive Relinks (n : Node) (s : State) : Prop
  | function (hkind : n.kind.isFunction = true) (hname : finalName n s = some "prototype")
  | assignment {id : Node} (hkind : n.kind = .assignmentExpression)
      (hid : (n.get "left").rightMost? = some id) (hname : id.name = some "prototype")
      (hscope : s.env.scopes.contains (assignedRecord n id s) = true)

/-! ### The way up -/

theorem linked_closeScope (h : s.env.Linked) : (closeScope s).2.env.Linked := by
  unfold closeScope
  split
  · exact h
  · rename_i hpop
    exact Environment.linked_popScope? h hpop

theorem linked_leaveBlock (h : s.env.Linked) : (leaveBlock task n s).2.env.Linked := by
  unfold leaveBlock
  split
  · exact h
  · exact linked_closeScope h

theorem linked_leaveProperty (object : Option Ty) (property : Node) (h : s.env.Linked) :
    (leaveProperty object s property).env.Linked := by
  unfold leaveProperty
  split
  · exact h
  · exact linked_bind (s := s.setType _ _) h _ _ _ _

theorem linked_leaveObject (h : s.env.Linked) : (leaveObject n s).2.env.Linked := by
  unfold leaveObject
  exact linked_closeScope (linked_foldl (fun _ _ => linked_leaveProperty _ _) _ h)

theorem linked_assign (h : s.env.Linked) {name : Name} (hname : name ≠ some "prototype")
    (target : Option Ty) (type : Ty) (span : Option Span) :
    (s.assign name target type span).env.Linked :=
  Environment.linked_addOrSet h (fun he => absurd he hname) type span

theorem linked_leaveConstructor (h : s.env.Linked) (type result : Ty)
    (hname : firstName [(n.get "id").identifier?, (s.fact n).boundName, some result.leaf] ≠
      some "prototype") : (leaveConstructor n type result s).2.env.Linked := by
  have hclose := linked_closeScope h
  have hfacts := facts_closeScope s
  unfold leaveConstructor
  rcases hc : closeScope s with ⟨_ | e, s'⟩ <;> rw [hc] at hclose hfacts
  · refine linked_assign hclose ?_ _ _ _
    rwa [State.fact, hfacts]
  · exact hclose

theorem linked_leavePlainFunction (h : s.env.Linked) (type : Ty)
    (hname : ((returned? n).bind fun _ => (n.get "id").identifier?.or (s.fact n).boundName) ≠
      some "prototype") : (leavePlainFunction n type s).env.Linked := by
  unfold leavePlainFunction
  split
  · exact h
  · rename_i r hr
    rw [hr, Option.bind_some] at hname
    dsimp only
    -- the name under which the function is bound does not depend on its type
    have hbound : ∀ t, ((s.setType n t).fact n).boundName = (s.fact n).boundName := fun t => by
      unfold State.fact State.setType
      rw [at_learn_self]
      rfl
    split
    · rename_i name hid
      rw [hid, Option.some_or] at hname
      exact linked_assign (s := s.setType n _) h hname _ _ _
    · rename_i hid
      rw [hid, Option.none_or] at hname
      split
      · rename_i name hb
        rw [hbound] at hb
        rw [hb] at hname
        exact linked_assign (s := s.setType n _) h hname _ _ _
      · exact h

theorem linked_leaveFunction (h : s.env.Linked) (hname : finalName n s ≠ some "prototype") :
    (leaveFunction n s).2.env.Linked := by
  have hclose := linked_closeScope h
  have hfacts := facts_closeScope s
  unfold leaveFunction
  rcases hc : closeScope s with ⟨_ | e, s'⟩ <;> rw [hc] at hclose hfacts
  · have hfact : ∀ m, s'.fact m = s.fact m := fun m => congrArg (Facts.at m.place) hfacts
    dsimp only
    unfold finalName at hname
    split
    · rename_i result params htype hbody
      rw [hfact n] at htype
      rw [htype, hbody] at hname
      dsimp only at hname
      rw [hfact (n.get "body")]
      split
      · rename_i hconstructs
        rw [if_pos hconstructs, ← hfact n] at hname
        exact linked_leaveConstructor hclose _ _ hname
      · rename_i hconstructs
        rw [if_neg hconstructs, ← hfact n] at hname
        exact linked_leavePlainFunction hclose _ hname
    · exact hclose
  · exact hclose

theorem linked_leaveDeclarator (h : s.env.Linked) : (leaveDeclarator n s).env.Linked := by
  unfold leaveDeclarator
  dsimp only
  split
  · exact h
  · exact linked_bind
      (s := (s.setType n (s.typeOf (n.get "init"))).setType (n.get "id") (s.typeOf (n.get "init")))
      h _ _ _ _

theorem linked_leaveAssignment (h : s.env.Linked) (hkind : n.kind = .assignmentExpression)
    (hn : ¬ Relinks n s) : (leaveAssignment n s).env.Linked := by
  unfold leaveAssignment
  dsimp only
  split
  · exact h
  · rename_i id hid
    refine @Environment.linked_addOrSet s.env h _ _ (fun hname => ?_) _ _
    exact Bool.not_eq_true _ ▸ fun hscope => hn (.assignment hkind hid hname hscope)

/-- A variable that is found nowhere is not called `prototype`. -/
theorem linked_leaveIdentifier (h : s.env.Linked) : (leaveIdentifier task n s).2.env.Linked := by
  unfold leaveIdentifier
  dsimp only
  split
  · exact h
  · split
    · exact h
    · rename_i hlookup
      split
      · rename_i hfresh
        have htarget : s.targetType n = none := by
          unfold State.targetType
          rw [Option.isNone_iff_eq_none.1 hfresh.1]
          rfl
        have hname : n.name ≠ some "prototype" := by
          intro hname
          rw [hname, htarget] at hlookup
          exact h.lookup_prototype hlookup
        rw [Environment.addOrSet_none _ _ _ _ (by simp [Ty.global])]
        exact Environment.linked_addOrSet (Environment.linked_newFleetingObject h none n.span?)
          (fun he => absurd he hname) _ _
      · exact h

theorem linked_leaveNode (hindex : task.index? = none) (h : s.env.Linked) (hn : ¬ Relinks n s) :
    (leaveNode task n s).2.env.Linked := by
  have hfunction : n.kind.isFunction = true → (leaveFunction n s).2.env.Linked := fun hkind =>
    linked_leaveFunction h fun hname => hn (.function hkind hname)
  unfold leaveNode
  split
  case h_2 | h_3 => exact linked_leaveBlock h
  case h_4 => exact (env_leaveMember task n s).symm ▸ h
  case h_5 => exact (env_leaveCall hindex n s).symm ▸ h
  case h_7 => exact linked_leaveObject h
  case h_12 hkind => exact hfunction (by rw [hkind]; rfl)
  case h_13 hkind => exact hfunction (by rw [hkind]; rfl)
  case h_14 hkind => exact hfunction (by rw [hkind]; rfl)
  case h_15 => exact linked_leaveDeclarator h
  case h_16 hkind => exact linked_leaveAssignment h hkind hn
  case h_17 => exact linked_leaveIdentifier h
  case h_19 => exact (env_leaveReturn n s).symm ▸ h
  all_goals exact h

/-- **The way up** keeps the scopes linked, unless it sets the link of one. -/
theorem linked_leave (hindex : task.index? = none) (h : s.env.Linked) (hn : ¬ Relinks n s) :
    (leave task n s).2.env.Linked := by
  have hnode : (leaveNode task n s).2.env.Linked := linked_leaveNode hindex h hn
  rw [leave_eq]
  rcases hl : leaveNode task n s with ⟨_ | a, s'⟩ <;> rw [hl] at hnode
  · exact (env_settle n s').symm ▸ hnode
  · exact hnode

/-! ### Walks -/

theorem linked_addDeclaredGlobals {root : Node} (hnames : "prototype" ∉ declaredNames root)
    {env : Environment} (h : env.Linked) : (addDeclaredGlobals root env).Linked := by
  refine addDeclaredGlobals_induction root h fun env name span hname h => ?_
  rw [Environment.addOrSet_none _ _ _ _ (by simp)]
  refine Environment.linked_addOrSet (Environment.linked_newFleetingObject h none span)
    (fun he => ?_) _ _
  cases he
  exact absurd hname hnames

/-- **The chain of the scopes is their stack.** Without an index, as long as an inference has left no
node that sets the link of a scope, each scope on the stack links to the one below it, and the chain of
the innermost scope is the stack down to the global scope, with `Object` behind it. -/
theorem scope_chain_of_leads (hindex : task.index? = none) (uid : String) {root : Node}
    (hnames : "prototype" ∉ declaredNames root) {done todo : List (Move State)}
    (hmoves : root.moves (visitor task) { env := addDeclaredGlobals root (.start uid) } =
      done ++ todo)
    (hleads : Leads { env := addDeclaredGlobals root (.start uid) } done s)
    (hrelinks : ∀ m ∈ done, m.way = .up → ¬ Relinks m.node m.before) :
    s.env.scopes.outermost = globalName ∧
      (∀ above n below, s.env.scopes.inner = above ++ n :: below →
        s.env.types.link? n = some (.named (below.headD globalName))) ∧
      (s.env.types.chain s.env.scopes.current).map (·.1) =
        s.env.scopes.inner ++ [globalName, "Object"] := by
  have hmove : ∀ m ∈ done, m.before.env.Linked → m.after.env.Linked := by
    intro m hm h
    obtain ⟨-, hstep⟩ := Node.isMove_of_mem_moves (hmoves ▸ List.mem_append_left todo hm)
    have hafter : m.after = (visitor task).next m.node m.before m.way := congrArg Move.after hstep
    rw [hafter]
    cases hway : m.way with
    | down => exact linked_enter hindex h
    | up => exact linked_leave hindex h (hrelinks m hm hway)
  have h : s.env.Linked := hleads.invariant (I := fun s => s.env.Linked) hmove
    (linked_addDeclaredGlobals hnames (Environment.linked_start uid))
  refine ⟨h.outermost, fun above n below hinner => ?_, h.map_chain⟩
  have hlinks := h.links
  rw [hinner, List.append_assoc] at hlinks
  rw [Table.Links.link? hlinks]
  cases below <;> rfl

/-- The tree of `{⟨name⟩=1;parseInt}` for a name of nine letters. -/
def blockProgram (name : String) : Node :=
  let node (type : String) (start stop : Int) (fields : List (String × Json)) : Json :=
    .obj (("type", .str type) :: ("range", .arr [.int start, .int stop]) :: fields)
  .root (node "Program" 0 22 [("body", .arr [node "BlockStatement" 0 22 [("body", .arr [
    node "ExpressionStatement" 1 13 [("expression", node "AssignmentExpression" 1 12 [
      ("operator", .str "="),
      ("left", node "Identifier" 1 10 [("name", .str name)]),
      ("right", node "Literal" 11 12 [("value", .int 1)])])],
    node "ExpressionStatement" 13 21 [
      ("expression", node "Identifier" 13 21 [("name", .str "parseInt")])]])]])])

/-- At the cursor behind `parseInt` the scope of the block is followed by the global one. -/
theorem scope_chain_of_leads_block :
    let s := ((blockProgram "protoType").visit (visitor ⟨"{protoType=1;parseInt}", some 21, none⟩)
      { env := addDeclaredGlobals (blockProgram "protoType") (.start "file") }).2
    (s.env.types.chain s.env.scopes.current).map (·.1) = ["gen~file~0", "Global", "Object"] := by
  intro s
  have hfunction : ∀ m ∈ (blockProgram "protoType").all, m.kind.isFunction = false := by
    decide +kernel
  have hname : ∀ m ∈ (blockProgram "protoType").all,
      (m.get "left").rightMost?.bind (·.name) ≠ some "prototype" := by decide +kernel
  have hnames : "prototype" ∉ declaredNames (blockProgram "protoType") := by decide +kernel
  have hrelinks : ∀ m ∈ (blockProgram "protoType").moves
      (visitor ⟨"{protoType=1;parseInt}", some 21, none⟩)
      { env := addDeclaredGlobals (blockProgram "protoType") (.start "file") },
      m.way = .up → ¬ Relinks m.node m.before := by
    rintro m hm - hrelinks
    obtain ⟨hall, -⟩ := Node.isMove_of_mem_moves hm
    cases hrelinks with
    | function hkind _ => exact absurd hkind (by rw [hfunction _ hall]; decide)
    | assignment _ hid hn _ => exact hname _ hall (by rw [hid]; exact hn)
  obtain ⟨-, -, hchain⟩ := scope_chain_of_leads (by rfl) "file" hnames (List.append_nil _).symm
    (Node.leads_moves _ _ _) hrelinks
  have hinner : s.env.scopes.inner = ["gen~file~0"] := by decide +kernel
  rw [hchain, hinner]
  rfl

/-- Assigned to in a block, `prototype` is the link of the block's scope: the chain of this scope leads
past the global one, which is still the scope below it. -/
theorem scope_chain_cut :
    let s := (run ⟨"{prototype=1;parseInt}", some 21, none⟩ (blockProgram "prototype")
      (.start "file")).2
    s.env.scopes.toList = ["Global", "gen~file~0"] ∧
      s.env.types.link? "gen~file~0" = some .number ∧
      (s.env.types.chain s.env.scopes.current).map (·.1) = ["gen~file~0", "Number", "Object"] := by
  decide +kernel

end ContentAssist.Inference
