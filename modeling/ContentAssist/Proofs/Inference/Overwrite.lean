import ContentAssist.Proofs.Inference.AssignmentFrame
import ContentAssist.Proofs.Inference.Descent
import ContentAssist.Proofs.Inference.NearestBinding

/-! # What an assignment overwrites

An assignment to a variable gives its nearest binding a new type, and what is evaluated on the right does
not come in between: no step of the walk binds the name in a nearer scope, unless it declares the name
there (`Declares`) or cuts the chain of the scopes (`Relinks`). The first happens without a declaration
in the source too: a function that is assigned to the variable of an outer scope is bound in the
innermost one when it is entered (`hidden_by_function`).

* `Quiet`: the moves that do neither;
* `stack_of_descended`, `objectApart_of_descended`: the scopes that a node finds when it is left;
* `nearest_visit`: a walk of such moves leaves the nearest binding where it is;
* `assignment_overwrites_nearest`: the binding after an assignment. -/

namespace ContentAssist.Inference

open Catalog (globalName)
open Environment (Nearest)

variable {task : Task} {n : Node} {s s' : State} {x : Name} {above below : List String} {owner : String}

/-! ### Walks -/

/-- The move neither binds the name in one of the scopes nor sets the link of a scope. -/
structure Quiet (task : Task) (x : Name) (scopes : List String) (m : Move State) : Prop where
  declares : ¬ Declares task x scopes m
  relinks : m.way = .up → ¬ Relinks m.node m.before

theorem nearest_enter (h : Nearest x above owner below s.env)
    (hquiet : Quiet task x above ((visitor task).move .down n s)) :
    Nearest x above owner below (enter task n s).2.env := by
  have hnode := nearest_enterNode h hquiet.declares
  rw [enter_eq]
  split
  · exact h
  · rcases he : enterNode task n s with ⟨fault | _, s'⟩ <;> rw [he] at hnode <;> exact hnode

theorem nearest_leave (h : Nearest x above owner below s.env)
    (hdepth : above ++ owner :: below <:+ s.env.scopes.inner.drop (depth n s) ++ [globalName])
    (hobject : n.kind = .objectExpression → ObjectApart above n s)
    (hquiet : Quiet task x above ((visitor task).move .up n s)) :
    Nearest x above owner below (leave task n s).2.env := by
  have hnode := nearest_leaveNode h hdepth hobject hquiet.declares (hquiet.relinks rfl)
  rw [leave_eq]
  rcases hl : leaveNode task n s with ⟨_ | a, s'⟩ <;> rw [hl] at hnode
  · exact (env_settle n s').symm ▸ hnode
  · exact hnode

/-- When a node is left, the scopes are there that there were when it was entered, below those that it
closes. -/
theorem stack_of_descended (hdown : Node.Descended (visitor task) n s s')
    (h : above ++ owner :: below <:+ s.env.scopes.inner ++ [globalName]) :
    above ++ owner :: below <:+ s'.env.scopes.inner.drop (depth n s') ++ [globalName] := by
  obtain ⟨top, htop⟩ := inner_of_descended hdown
  rw [← htop, List.append_assoc]
  exact h.trans (List.suffix_append _ _)

/-- When an object expression is left, its object is none of the scopes that there were. -/
theorem objectApart_of_descended (hkind : n.kind = .objectExpression)
    (hdown : Node.Descended (visitor task) n s s') (h : Nearest x above owner below s.env) :
    ObjectApart above n s' :=
  ⟨_, type_of_descended hkind hdown, newObject_not_mem h none n.span?⟩

theorem nearest_visitEach {cs : List Node}
    (ih : ∀ c ∈ cs, ∀ s, Nearest x above owner below s.env →
      (∀ m ∈ c.moves (visitor task) s, Quiet task x above m) →
      Nearest x above owner below (c.visit (visitor task) s).2.env) (s : State)
    (h : Nearest x above owner below s.env)
    (hquiet : ∀ m ∈ Node.movesEach (visitor task) cs s, Quiet task x above m) :
    Nearest x above owner below (Node.visitEach (visitor task) cs s).2.env :=
  Node.of_visitEach (P := fun s => Nearest x above owner below s.env) ih h hquiet

/-- **A walk leaves the nearest binding where it is**, if no move binds the name in a nearer scope or sets
the link of a scope. -/
theorem nearest_visit (n : Node) (s : State) (h : Nearest x above owner below s.env)
    (hquiet : ∀ m ∈ n.moves (visitor task) s, Quiet task x above m) :
    Nearest x above owner below (n.visit (visitor task) s).2.env := by
  induction n using Node.induct generalizing s with
  | step n ih =>
    have hdown := nearest_enter h (hquiet _ (by rw [Node.moves_eq]; exact List.mem_cons_self))
    change Nearest x above owner below ((visitor task).enter n s).2.env at hdown
    rw [Node.visit_eq]
    rcases henter : (visitor task).enter n s with ⟨_ | _ | a, s₁⟩ <;> rw [henter] at hdown
    · have heach := nearest_visitEach ih s₁ hdown fun m hm =>
        hquiet m (Node.mem_moves_of_mem_movesEach henter hm)
      dsimp only
      rcases hv : Node.visitEach (visitor task) n.children s₁ with ⟨_ | a, s₂⟩ <;> rw [hv] at heach
      · have hdescended : Node.Descended (visitor task) n s s₂ := ⟨s₁, henter, hv⟩
        exact nearest_leave heach (stack_of_descended hdescended h.stack)
          (fun hkind => objectApart_of_descended hkind hdescended h) (hquiet _ hdescended.up_mem_moves)
      · exact heach
    · exact hdown
    · exact hdown

/-! ### Assignments to variables -/

/-- What the chain of the innermost scope says about the name, as an invariant of walks. -/
theorem nearest_of_chain (hlinked : s.env.Linked) {above below : List (String × Record)} {r : Record}
    (hchain : s.env.types.chain s.env.scopes.current = above ++ (owner, r) :: below)
    (hfree : ∀ e ∈ above, e.2.member? x = none) (hbound : (r.member? x).isSome = true)
    (hb : r.builtin = false) :
    ∃ below, Nearest x (above.map (·.1)) owner below s.env ∧
      above.map (·.1) ++ owner :: below = s.env.scopes.inner ++ [globalName] := by
  have hfind : ∀ e ∈ above ++ (owner, r) :: below, s.env.types.find? e.1 = some e.2 := fun e he =>
    Table.find?_of_mem_chainFrom (hchain ▸ he)
  have howner : s.env.types.find? owner = some r :=
    hfind (owner, r) (List.mem_append_right _ List.mem_cons_self)
  have hnames := hlinked.map_chain
  rw [hchain, List.map_append, List.map_cons,
    show s.env.scopes.inner ++ [globalName, "Object"] =
      s.env.scopes.inner ++ [globalName] ++ ["Object"] by simp] at hnames
  have hobject : owner ≠ "Object" := by
    rintro rfl
    obtain ⟨r', hr', hb'⟩ := hlinked.intact.exists_builtin (n := "Object") (by decide +kernel)
    cases howner.symm.trans hr'
    rw [hb] at hb'
    cases hb'
  have hstack : ∃ below', above.map (·.1) ++ owner :: below' = s.env.scopes.inner ++ [globalName] := by
    rcases List.eq_nil_or_concat (below.map (·.1)) with hnil | ⟨below', last, hlast⟩
    · rw [hnil] at hnames
      exact absurd (List.head_eq_of_cons_eq (List.append_inj' hnames rfl).2) hobject
    · rw [hlast, List.concat_eq_append, ← List.cons_append, ← List.append_assoc] at hnames
      exact ⟨below', (List.append_inj' hnames rfl).1⟩
  obtain ⟨below', hstack⟩ := hstack
  refine ⟨below', ⟨hlinked, hstack ▸ List.suffix_rfl, fun k hk => ?_, r, howner, hb, hbound⟩, hstack⟩
  obtain ⟨e, he, rfl⟩ := List.mem_map.1 hk
  rw [Table.binding?_of_find? (hfind e (List.mem_append_left _ he))]
  exact hfree e he

/-- Leaving an assignment to a variable sets the binding that is found from the innermost scope. -/
theorem leaveAssignment_variable (hleft : (n.get "left").kind = .identifier)
    (hname : (n.get "left").name ≠ some "prototype") (hpointed : Pointed s) :
    leaveAssignment n s =
      ((s.setType n (assignmentType n s)).setType (n.get "left") (assignmentType n s)).withEnv
        (s.env.setBinding s.env.scopes.current (n.get "left").name (assignmentType n s)
          (n.get "left").span?) := by
  have hid : assignee? (n.get "left") = some (n.get "left") := if_pos hleft
  have hright : (n.get "left").rightMost? = some (n.get "left") := by
    rw [rightMost?_eq_assignee? (by simp [hleft]) (by simp [hleft]), hid]
  have htarget : assigneeTarget (n.get "left") s = none := if_neg (by rw [hleft]; decide)
  unfold leaveAssignment
  dsimp only
  rw [hright]
  dsimp only
  rw [targetType_assignee hid hpointed (by simp [hleft]), htarget]
  unfold State.assign
  rw [Environment.addOrSet_some, if_neg hname]
  rfl

theorem typeOf_settle_assignment (t : Ty) (env : Environment) :
    (settle n (((s.setType n t).setType (n.get "left") t).withEnv env)).typeOf n = t := by
  have htype : ((((s.setType n t).setType (n.get "left") t).withEnv env).fact n).type = some t := by
    show (((s.setType n t).setType (n.get "left") t).facts.at n.place).type = some t
    rw [State.setType, at_learn, if_neg (get_place_ne n "left").symm, State.setType, at_learn_self]
  unfold settle
  rw [htype, Option.isNone_some, if_neg Bool.false_ne_true]
  unfold State.typeOf
  rw [htype]
  rfl

/-- An assignment that was walked without an answer was left after its children, and their walks closed
the scopes that they opened. -/
theorem exists_descended_assignment (hkind : n.kind = .assignmentExpression)
    (hproper : ∀ m ∈ n.all, HasProperBody m) (hvisit : n.visit (visitor task) s = (none, s')) :
    ∃ s₂, Node.Descended (visitor task) n s s₂ ∧ s₂.env.scopes.inner = s.env.scopes.inner ∧
      settle n (leaveAssignment n s₂) = s' := by
  have henter : (visitor task).enter n s = (.descend, enterAssignment n s) := by
    show enter task n s = _
    rw [enter_eq, if_neg (by simp [hkind])]
    simp only [enterNode, hkind]
  obtain ⟨⟨extra, hopens, hnone⟩, -⟩ := balanced_children task n (enterAssignment n s)
  rw [Node.visit_eq, henter] at hvisit
  dsimp only at hvisit
  rcases hv : Node.visitEach (visitor task) n.children (enterAssignment n s) with ⟨_ | a, s₂⟩ <;>
    rw [hv] at hvisit hopens hnone
  · refine ⟨s₂, ⟨_, henter, hv⟩, ?_, ?_⟩
    · rw [hopens.inner, hnone rfl fun c hc m hm => hproper m (Node.mem_all_of_child hc hm),
        env_enterAssignment]
      rfl
    · change leave task n s₂ = (none, s') at hvisit
      rw [leave_eq] at hvisit
      simp only [leaveNode, hkind, goOn] at hvisit
      exact congrArg Prod.snd hvisit
  · cases hvisit

/-- **An assignment overwrites the nearest binding.** If the name on the left, other than `prototype`, is
bound along the chain of the innermost scope and first in a record that is not builtin, then after the
walk of the assignment that binding has the type of the assignment, and no scope nearer than it has got
one, whatever is assigned. No move of the walk may bind the name in a nearer scope or set the link of a
scope. -/
theorem assignment_overwrites_nearest (hkind : n.kind = .assignmentExpression)
    (hleft : (n.get "left").kind = .identifier) (hname : (n.get "left").name ≠ some "prototype")
    (hproper : ∀ m ∈ n.all, HasProperBody m) (hlinked : s.env.Linked) (hpointed : Pointed s)
    {above below : List (String × Record)} {r : Record}
    (hchain : s.env.types.chain s.env.scopes.current = above ++ (owner, r) :: below)
    (hfree : ∀ e ∈ above, e.2.member? (n.get "left").name = none)
    (hbound : (r.member? (n.get "left").name).isSome = true) (hb : r.builtin = false)
    (hquiet : ∀ m ∈ n.moves (visitor task) s, Quiet task (n.get "left").name (above.map (·.1)) m)
    (hvisit : n.visit (visitor task) s = (none, s')) :
    (s'.env.types.binding? owner (n.get "left").name).map (·.type) = some (s'.typeOf n) ∧
      ∀ e ∈ above, s'.env.types.binding? e.1 (n.get "left").name = none := by
  obtain ⟨below', hnearest, hstack⟩ := nearest_of_chain hlinked hchain hfree hbound hb
  obtain ⟨s₂, hdescended, hinner, rfl⟩ := exists_descended_assignment hkind hproper hvisit
  have hpointed' : Pointed s₂ := pointed_of_mem_moves hpointed hdescended.up_mem_moves
  have hchildren : Nearest (n.get "left").name (above.map (·.1)) owner below' s₂.env := by
    obtain ⟨s₁, henter, hv⟩ := hdescended
    have hentered := nearest_enter hnearest (hquiet _ (by rw [Node.moves_eq]; exact List.mem_cons_self))
    rw [show enter task n s = (.descend, s₁) from henter] at hentered
    have heach := nearest_visitEach (fun c _ s => nearest_visit c s) s₁ hentered fun m hm =>
      hquiet m (Node.mem_moves_of_mem_movesEach henter hm)
    rw [hv] at heach
    exact heach
  refine ⟨?_, fun e he => ?_⟩
  · -- the name is looked up from the scope in which the assignment began
    obtain ⟨rest, hrest⟩ : ∃ rest, above.map (·.1) ++ owner :: below' = s₂.env.scopes.current :: rest := by
      rw [hstack, hchildren.linked.current_eq, hinner]
      cases s.env.scopes.inner <;> exact ⟨_, rfl⟩
    obtain ⟨r', hfound, hb'⟩ := hchildren.firstOnChain? List.suffix_rfl hrest
    rw [env_settle, leaveAssignment_variable hleft hname hpointed', typeOf_settle_assignment]
    exact Environment.type_setBinding hfound hb'
  · have hafter := nearest_visit n s hnearest hquiet
    rw [hvisit] at hafter
    exact hafter.free e.1 (List.mem_map_of_mem he)

/-- The tree of `x=function ⟨id⟩(){}`. -/
def functionAssignment (id : Json) : Node :=
  let node (type : String) (fields : List (String × Json)) : Json := .obj (("type", .str type) :: fields)
  .root (node "AssignmentExpression" [("operator", .str "="),
    ("left", node "Identifier" [("name", .str "x")]),
    ("right", node "FunctionExpression" [("id", id), ("params", .arr []),
      ("body", node "BlockStatement" [("body", .arr [])])])])

/-- A state inside a scope, with a global `x` that holds a number. -/
def scopeBelowNumber : State :=
  { env := (((Environment.start "file").addVariable (some "x") none (some .number) none).newScope
      none).2 }

theorem linked_scopeBelowNumber : scopeBelowNumber.env.Linked :=
  Environment.linked_newScope (Environment.linked_addVariable (Environment.linked_start "file") _ _ _ _) none

/-- The name is free in the innermost scope of that state, and bound in the global one. -/
theorem chain_scopeBelowNumber : ∃ inner global below,
    scopeBelowNumber.env.types.chain scopeBelowNumber.env.scopes.current =
      [("gen~file~0", inner)] ++ ("Global", global) :: below ∧
    inner.member? (some "x") = none ∧ (global.member? (some "x")).isSome = true ∧
    global.builtin = false := by
  refine ⟨(scopeBelowNumber.env.types.find? "gen~file~0").getD {},
    (scopeBelowNumber.env.types.find? "Global").getD {},
    (scopeBelowNumber.env.types.chain "gen~file~0").drop 2, ?_⟩
  decide +kernel

/-- A move is quiet if it is about no declarator and neither binds the name for a function nor sets a
prototype. -/
theorem quiet_of_names {m : Move State} {scopes : List String}
    (hfunction : m.node.kind.isFunction = true →
      (functionName m.node m.before).1 ≠ x ∧ finalName m.node m.before ≠ some "prototype")
    (hvariable : m.node.kind ≠ .variableDeclarator)
    (hprototype : (m.node.get "left").rightMost?.bind (·.name) ≠ some "prototype") :
    Quiet task x scopes m where
  declares := by
    rintro (⟨_, hkind, hname⟩ | ⟨_, hkind⟩)
    · exact (hfunction hkind).1 hname
    · exact hvariable hkind
  relinks _ := by
    rintro (⟨hkind, hname⟩ | ⟨_, hid, hname⟩)
    · exact (hfunction hkind).2 hname
    · exact hprototype (by rw [hid]; exact hname)

/-- The tree of `x=function y(){}`. -/
def namedAssignment : Node :=
  functionAssignment (.obj [("type", .str "Identifier"), ("name", .str "y")])

/-- The walk of `x=function y(){}` neither binds `x` for the function nor sets a prototype. -/
theorem quiet_namedAssignment : ∀ m ∈ namedAssignment.moves (visitor ⟨"", none, none⟩) scopeBelowNumber,
    ∀ scopes, Quiet ⟨"", none, none⟩ (some "x") scopes m := by
  have hnames : ∀ m ∈ namedAssignment.moves (visitor ⟨"", none, none⟩) scopeBelowNumber,
      (m.node.kind.isFunction = true → (functionName m.node m.before).1 ≠ some "x" ∧
        finalName m.node m.before ≠ some "prototype") ∧
      m.node.kind ≠ .variableDeclarator ∧
      (m.node.get "left").rightMost?.bind (·.name) ≠ some "prototype" := by decide +kernel
  exact fun m hm _ => quiet_of_names (hnames m hm).1 (hnames m hm).2.1 (hnames m hm).2.2

/-- A function of another name is assigned to the global `x`. -/
theorem assignment_overwrites_nearest_named :
    ((namedAssignment.visit (visitor ⟨"", none, none⟩) scopeBelowNumber).2.env.types.binding? "Global"
        (some "x")).map (·.type) = some (.function .object []) ∧
      (namedAssignment.visit (visitor ⟨"", none, none⟩) scopeBelowNumber).2.env.types.binding?
        "gen~file~0" (some "x") = none := by
  have hname : (namedAssignment.get "left").name = some "x" := by decide +kernel
  have hvisit : namedAssignment.visit (visitor ⟨"", none, none⟩) scopeBelowNumber =
      (none, (namedAssignment.visit (visitor ⟨"", none, none⟩) scopeBelowNumber).2) :=
    Prod.ext (Option.isNone_iff_eq_none.1 (by decide +kernel)) rfl
  have htype : (namedAssignment.visit (visitor ⟨"", none, none⟩) scopeBelowNumber).2.typeOf
      namedAssignment = .function .object [] := by decide +kernel
  obtain ⟨inner, global, below, hchain, hfree, hbound, hbuiltin⟩ := chain_scopeBelowNumber
  have hafter := assignment_overwrites_nearest (n := namedAssignment) (by decide +kernel)
    (by decide +kernel) (by rw [hname]; decide) (by decide +kernel) linked_scopeBelowNumber
    (pointed_of_env _) hchain (by simpa [hname] using hfree) (by rw [hname]; exact hbound) hbuiltin
    (fun m hm => hname ▸ quiet_namedAssignment m hm _) hvisit
  rw [hname, htype] at hafter
  exact ⟨hafter.1, hafter.2 _ (List.mem_singleton.2 rfl)⟩

/-- A function without a name is bound as `x` in the inner scope, and the global `x` stays a number. -/
theorem hidden_by_function :
    let n := functionAssignment .null
    let s' := (n.visit (visitor ⟨"", none, none⟩) scopeBelowNumber).2
    (n.visit (visitor ⟨"", none, none⟩) scopeBelowNumber).1.isNone = true ∧
      (scopeBelowNumber.env.types.chain scopeBelowNumber.env.scopes.current).map (·.1) =
        ["gen~file~0", "Global", "Object"] ∧
      scopeBelowNumber.env.types.binding? "gen~file~0" (some "x") = none ∧
      (scopeBelowNumber.env.types.binding? "Global" (some "x")).map (·.type) = some .number ∧
      s'.typeOf n = .function .object [] ∧
      (s'.env.types.binding? "Global" (some "x")).map (·.type) = some .number ∧
      (s'.env.types.binding? "gen~file~0" (some "x")).map (·.type) = some (.function .object []) := by
  decide +kernel

end ContentAssist.Inference
