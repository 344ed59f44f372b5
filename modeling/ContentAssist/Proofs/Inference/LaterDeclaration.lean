import ContentAssist.Proofs.Environment.Binding
import ContentAssist.Proofs.Inference.Descent

/-! # Declarations behind the cursor

A declaration of variables behind the cursor is skipped, and a function declared there is not bound when
it is entered. When it is left, though, nobody looks at the cursor again: what the function returns
becomes its result, and the function is assigned to its name, and so is a constructor
(`later_function_bound`). A function that returns nothing and is no constructor binds nothing at all.

* `LaterFunction`, `LaterPart`: the declarations behind the cursor, and the nodes that make them up;
* `lacks_enterFunction_later`, `lacks_leaveFunction_later`: entering and leaving such a function;
* `lacks_of_laterPart`: no step at such a node binds the name;
* `later_declaration_binds_nothing`: if no one else binds the name, no record in sight does. -/

namespace ContentAssist.Inference

variable {task : Task} {n d : Node} {s s' : State} {x : String} {name : Name}

/-! ### What dependencies bring -/

/-- No module that was asked for binds the name. -/
def NotLoaded (task : Task) (name : Name) (events : List Event) : Prop :=
  ∀ index module summary, task.index? = some index → .askedModule module ∈ events →
    index.summary? module = .ok (some summary) → summary.Lacks name

theorem NotLoaded.mono {events events' : List Event} (hsub : events ⊆ events')
    (h : NotLoaded task name events') : NotLoaded task name events :=
  fun index module summary hindex hasked => h index module summary hindex (hsub hasked)

theorem lacks_applySummary (h : s.env.types.Lacks name) {m : Summary} (hm : m.Lacks name) :
    (applySummary s m).2.env.types.Lacks name := by
  unfold applySummary
  split
  · exact Environment.lacks_mergeSummary (Environment.lacks_newFleetingObject h none none) hm _
  · exact Environment.lacks_mergeSummary h hm _

theorem lacks_loadModule (h : s.env.types.Lacks name) {index : Index}
    (hindex : task.index? = some index) {module : String}
    (hloaded : NotLoaded task name (loadModule index module s).2.events) :
    (loadModule index module s).2.env.types.Lacks name := by
  have hasked : .askedModule module ∈ (loadModule index module s).2.events := by
    have honward : (s.happened (.askedModule module)).events <+:
        (loadModule index module s).2.events := by
      unfold loadModule
      dsimp only
      split
      · exact List.prefix_rfl
      · exact List.prefix_rfl
      · exact (onward_applySummary _ _).events
    exact honward.subset (List.mem_append_right _ List.mem_cons_self)
  unfold loadModule at hloaded hasked ⊢
  dsimp only at hloaded hasked ⊢
  split
  · exact h
  · exact h
  · rename_i summary hsummary
    rw [hsummary] at hloaded hasked
    exact lacks_applySummary (s := s.happened _) h (hloaded index module summary hindex hasked hsummary)

theorem lacks_newObjectTypes (params : List Node) (h : s.env.types.Lacks name) :
    (newObjectTypes params s).2.env.types.Lacks name := by
  induction params generalizing s with
  | nil => exact h
  | cons param params ih =>
    exact ih (s := s.newObjectType.2) (Environment.lacks_newFleetingObject h none none)

theorem lacks_dependencyType (h : s.env.types.Lacks name) {index : Index}
    (hindex : task.index? = some index) (dependency : Option Node)
    (hloaded : NotLoaded task name (dependencyType index dependency s).2.events) :
    (dependencyType index dependency s).2.env.types.Lacks name := by
  unfold dependencyType at hloaded ⊢
  split at hloaded
  · exact h
  · rename_i module _
    have hload := @lacks_loadModule task s name h index hindex module
    rcases hl : loadModule index module s with ⟨fault | (_ | t), s₁⟩ <;> rw [hl] at hload hloaded
    · exact hload hloaded
    · exact Environment.lacks_newFleetingObject (hload hloaded) none none
    · exact hload hloaded

theorem lacks_dependencyTypes (h : s.env.types.Lacks name) {index : Index}
    (hindex : task.index? = some index) (params names : List Node)
    (hloaded : NotLoaded task name (dependencyTypes index params names s).2.events) :
    (dependencyTypes index params names s).2.env.types.Lacks name := by
  induction params generalizing names s with
  | nil => exact h
  | cons param params ih =>
    rw [dependencyTypes] at hloaded ⊢
    have hfirst := @lacks_dependencyType task s name h index hindex names.head?
    rcases hd : dependencyType index names.head? s with ⟨fault | t, s₁⟩ <;> rw [hd] at hloaded hfirst
    · exact hfirst hloaded
    · have honward := (@changes_dependencyTypes task [] index hindex params names.tail s₁).1.onward
      have hrest := fun h => @ih s₁ h names.tail
      dsimp only at hloaded hfirst ⊢
      rcases hr : dependencyTypes index params names.tail s₁ with ⟨fault | ts, s₂⟩ <;>
        rw [hr] at hloaded honward hrest <;>
        exact hrest (hfirst (hloaded.mono honward.events.subset)) hloaded

theorem lacks_paramTypes (h : s.env.types.Lacks name)
    (hloaded : NotLoaded task name (paramTypes task n s).2.events) :
    (paramTypes task n s).2.env.types.Lacks name := by
  unfold paramTypes at hloaded ⊢
  dsimp only at hloaded ⊢
  split at hloaded
  · rename_i hd
    exact lacks_dependencyTypes h (index?_of_dependencies? hd) _ _ hloaded
  · exact lacks_newObjectTypes _ h

/-! ### Functions behind the cursor -/

/-- A function declared behind the cursor that returns nothing and is no constructor. Its name stands
behind the cursor too, and none of its parameters has it. -/
structure LaterFunction (task : Task) (x : String) (d : Node) : Prop where
  kind : d.kind = .functionDeclaration
  later : task.cursor.isBefore d.span? = true
  name : (d.get "id").identifier? = some x
  nameLater : task.cursor.isAfter (d.get "id").span? = false
  params : x ∉ "arguments" :: (d.list "params").map paramName
  plain : isConstructor d (some x) = false
  void : returned? d = none

theorem LaterFunction.functionName_eq (hd : LaterFunction task x d) (s : State) :
    (functionName d s).1 = some x := by
  unfold functionName
  dsimp only
  rw [hd.name]

theorem lacks_bindParams (params : List Node) (hx : x ∉ params.map paramName) (ts : List Ty)
    (h : s.env.types.Lacks (some x)) : (bindParams params ts s).env.types.Lacks (some x) := by
  induction params generalizing ts s with
  | nil => exact h
  | cons param params ih =>
    cases ts with
    | nil => exact h
    | cons t ts =>
      rw [List.map_cons, List.mem_cons, not_or] at hx
      rw [bindParams]
      refine ih hx.2 ts ?_
      split
      · exact h
      · exact Environment.lacks_addVariable h (fun he => hx.1 (Option.some.inj he).symm) _ _ _

/-- **Entering a function behind the cursor** binds it nowhere. -/
theorem lacks_enterFunction_later (hd : LaterFunction task x d) (h : s.env.types.Lacks (some x))
    (hloaded : NotLoaded task (some x) (enterFunction task d s).2.events) :
    (enterFunction task d s).2.env.types.Lacks (some x) := by
  have hnamed : (nameFunction task d s).env = s.env := by
    unfold nameFunction
    dsimp only
    rw [hd.functionName_eq s, openFunction_eq, hd.plain, if_neg Bool.false_ne_true,
      if_neg (by simp [hd.later])]
    exact markBody_env d false s
  have hopened : (openParams d (nameFunction task d s)).env.types.Lacks (some x) := by
    unfold openParams
    dsimp only
    rw [hnamed]
    have hscope := Environment.lacks_newScope h none
    split
    · exact hscope
    · exact Environment.lacks_addVariable hscope
        (fun he => hd.params (Option.some.inj he ▸ List.mem_cons_self)) _ _ _
  have hparams := @lacks_paramTypes task d (openParams d (nameFunction task d s)) (some x) hopened
  rw [enterFunction_eq] at hloaded ⊢
  rcases hp : paramTypes task d (openParams d (nameFunction task d s)) with ⟨fault | ts, s₁⟩ <;>
    rw [hp] at hloaded hparams
  · exact hparams hloaded
  · dsimp only at hloaded ⊢
    rw [events_bindParams] at hloaded
    exact lacks_bindParams _ (fun hx => hd.params (List.mem_cons_of_mem _ hx)) ts (hparams hloaded)

theorem lacks_closeScope (h : s.env.types.Lacks name) : (closeScope s).2.env.types.Lacks name := by
  unfold closeScope
  split
  · exact h
  · rename_i hpop
    exact Environment.lacks_popScope? h hpop

/-- **Leaving a function** that returns nothing and is no constructor assigns nothing. -/
theorem lacks_leaveFunction_later (hvoid : returned? d = none) (hclose : closesObject d s = false)
    (h : s.env.types.Lacks name) : (leaveFunction d s).2.env.types.Lacks name := by
  have hclosed := lacks_closeScope h
  have hfacts := facts_closeScope s
  unfold leaveFunction
  rcases hc : closeScope s with ⟨_ | e, s₁⟩ <;> rw [hc] at hclosed hfacts
  · have hfact : ∀ m, s₁.fact m = s.fact m := fun m => congrArg (Facts.at m.place) hfacts
    unfold closesObject at hclose
    dsimp only
    rw [hfact d, hfact (d.get "body")]
    split
    · rename_i result params htype hbody
      rw [htype, hbody] at hclose
      rw [if_neg (by simpa [Ty.isFunction] using hclose)]
      unfold leavePlainFunction
      rw [hvoid]
      exact hclosed
    · exact hclosed
  · exact hclosed

theorem LaterFunction.closesObject_eq (hd : LaterFunction task x d) {s₀ : State}
    (h : Node.Descended (visitor task) d s₀ s) : closesObject d s = false := by
  rw [closesObject_of_descended (by rw [hd.kind]; rfl) h, hd.functionName_eq s₀, hd.plain,
    Bool.false_and]

/-! ### The steps of a later declaration -/

/-- A binding of the name is made in a record that had none. -/
def Binds (name : Name) (m : Move State) : Prop :=
  ∃ n, m.before.env.types.binding? n name = none ∧ m.after.env.types.binding? n name ≠ none

theorem not_binds {m : Move State} (h : m.after.env.types.Lacks name) : ¬ Binds name m :=
  fun ⟨n, _, hn⟩ => hn (h n)

/-- The node belongs to a declaration `d` behind the cursor: it is in a declaration of variables, or it
is a function that declares the name, or the identifier that does so. -/
inductive LaterPart (task : Task) (x : String) (d n : Node) : Prop
  | skipped (hkind : d.kind = .variableDeclaration) (hlater : task.cursor.isBefore d.span? = true)
      (hn : n ∈ d.all)
  | function (hd : LaterFunction task x d) (hn : n = d)
  | name (hd : LaterFunction task x d) (hn : n = d.get "id")

/-- An identifier that is not in front of the cursor becomes no global. -/
theorem env_leaveIdentifier (h : task.cursor.isAfter n.span? = false) (s : State) :
    (leaveIdentifier task n s).2.env = s.env := by
  unfold leaveIdentifier
  dsimp only
  split
  · rfl
  · split
    · rfl
    · rw [if_neg (by simp [h])]
      rfl

theorem env_next_identifier (hkind : n.kind = .identifier) (h : task.cursor.isAfter n.span? = false)
    (way : Way) (s : State) : ((visitor task).next n s way).env = s.env := by
  cases way with
  | down =>
    show (enter task n s).2.env = s.env
    rw [enter_eq, if_neg (by simp [hkind])]
    simp only [enterNode, hkind]
  | up =>
    have hleft := env_leaveIdentifier h s
    show (leave task n s).2.env = s.env
    rw [leave_eq]
    simp only [leaveNode, hkind]
    rcases hl : leaveIdentifier task n s with ⟨_ | a, s'⟩ <;> rw [hl] at hleft
    · exact (env_settle n s').trans hleft
    · exact hleft

/-- Of a node that is skipped there is no move but the one that skips it. -/
theorem move_eq_of_skipped {v : Visitor State (Except Fault String)} {root d : Node}
    (hkeys : root.KeysDistinct) (hd : d ∈ root.all) (hskip : ∀ s, v.enter d s = (.skip, s)) {s : State}
    {m : Move State} (hm : m ∈ root.moves v s) (hn : m.node ∈ d.all) : m.after.env = m.before.env := by
  obtain ⟨s₀, hm, -⟩ := Node.exists_moves_of_mem_all hkeys hd hm hn
  rw [Node.moves_eq, hskip] at hm
  obtain rfl := List.mem_singleton.1 hm
  show ((v.enter d s₀).2).env = s₀.env
  rw [hskip]

/-- **No step of a later declaration binds the name** where no record has it. -/
theorem lacks_of_laterPart {root : Node} (hkeys : root.KeysDistinct) (hd : d ∈ root.all) {s₀ : State}
    {m : Move State} (hm : m ∈ root.moves (visitor task) s₀) (hpart : LaterPart task x d m.node)
    (hloaded : NotLoaded task (some x) m.after.events) (h : m.before.env.types.Lacks (some x)) :
    m.after.env.types.Lacks (some x) := by
  obtain ⟨-, hmove⟩ := Node.isMove_of_mem_moves hm
  have hafter : m.after = (visitor task).next m.node m.before m.way := congrArg Move.after hmove
  cases hpart with
  | skipped hkind hlater hn =>
    rw [move_eq_of_skipped hkeys hd (fun s => ?_) hm hn]
    · exact h
    · show enter task d s = (.skip, s)
      rw [enter_eq, if_pos ⟨hkind, hlater⟩]
  | function hf hn =>
    cases hway : m.way with
    | down =>
      rw [hafter, hway, hn] at hloaded ⊢
      change NotLoaded task (some x) (enter task d m.before).2.events at hloaded
      show (enter task d m.before).2.env.types.Lacks (some x)
      have hentered := @lacks_enterFunction_later task d m.before x hf h
      rw [enter_eq, if_neg (by simp [hf.kind])] at hloaded ⊢
      simp only [enterNode, hf.kind] at hloaded ⊢
      rcases he : enterFunction task d m.before with ⟨fault | _, s₁⟩ <;> rw [he] at hloaded hentered <;>
        exact hentered hloaded
    | up =>
      obtain ⟨s₁, -, hdown⟩ := Node.exists_descent_of_mem_moves hm hway
      rw [hn] at hdown
      have hleft := lacks_leaveFunction_later hf.void (hf.closesObject_eq hdown) h
      rw [hafter, hway, hn]
      show (leave task d m.before).2.env.types.Lacks (some x)
      rw [leave_eq]
      simp only [leaveNode, hf.kind]
      rcases hl : leaveFunction d m.before with ⟨_ | a, s₂⟩ <;> rw [hl] at hleft
      · rw [env_settle]
        exact hleft
      · exact hleft
  | name hf hn =>
    rw [hafter, hn, env_next_identifier (Node.kind_of_identifier? hf.name) hf.nameLater]
    exact h

/-! ### Runs -/

theorem lacks_addDeclaredGlobals {root : Node} (hnames : x ∉ declaredNames root) {env : Environment}
    (h : env.types.Lacks (some x)) : (addDeclaredGlobals root env).types.Lacks (some x) := by
  refine addDeclaredGlobals_induction (P := fun env => env.types.Lacks (some x)) root h
    fun env name span hname h => ?_
  rw [Environment.addOrSet_none _ _ _ _ (by simp)]
  refine Environment.lacks_addOrSet (Environment.lacks_newFleetingObject h none span) (fun he => ?_) _ _ _
  cases he
  exact hnames hname

/-- No file whose globals are visible everywhere binds the name. -/
def NotIndexed (task : Task) (name : Name) : Prop :=
  ∀ index summaries, task.index? = some index → index.globals = .ok summaries →
    ∀ m ∈ summaries, m.Lacks name

theorem lacks_addIndexedGlobals (hindexed : NotIndexed task name) (h : s.env.types.Lacks name) :
    (addIndexedGlobals task s).2.env.types.Lacks name := by
  have hmerged : ∀ (summaries : List Summary) (env : Environment), (∀ m ∈ summaries, m.Lacks name) →
      env.types.Lacks name →
      (summaries.foldl (fun env m => env.mergeSummary m Catalog.globalName) env).types.Lacks name := by
    intro summaries
    induction summaries with
    | nil => exact fun _ _ h => h
    | cons m summaries ih =>
      exact fun env hm h => ih _ (fun k hk => hm k (List.mem_cons_of_mem _ hk))
        (Environment.lacks_mergeSummary h (hm m List.mem_cons_self) _)
  unfold addIndexedGlobals
  split
  · exact h
  · rename_i index hindex
    dsimp only
    split
    · exact h
    · rename_i summaries hsummaries
      exact hmerged summaries _ (hindexed index summaries hindex hsummaries) h

theorem onward_of_isMove {m : Move State} (h : m = (visitor task).move m.way m.node m.before) :
    Onward m.before m.after := by
  rcases Visitor.after_of_isMove h with ⟨-, hafter⟩ | ⟨-, hafter⟩ <;> rw [hafter]
  · exact (changes_enter task m.node m.before).onward
  · exact (changes_leave task m.node m.before).onward

/-- What has happened after a move of a walk has happened at its end. -/
theorem events_subset_of_mem_moves {root : Node} {m : Move State}
    (hm : m ∈ root.moves (visitor task) s) :
    m.after.events ⊆ (root.visit (visitor task) s).2.events := by
  obtain ⟨rest, hsub, hrest⟩ := (Node.leads_moves root (visitor task) s).rest hm
  refine hrest.invariant (I := fun s' => m.after.events ⊆ s'.events) (fun k hk h => ?_)
    (List.Subset.refl _)
  obtain ⟨-, hmove⟩ := Node.isMove_of_mem_moves (hsub hk)
  exact List.Subset.trans h (onward_of_isMove hmove).events.subset

/-- The state in which a run begins to walk its tree. -/
def walkStart (task : Task) (root : Node) (uid : String) : State :=
  (addIndexedGlobals task { env := addDeclaredGlobals root (.start uid) }).2

theorem run_ok {root : Node} {uid scope : String} (h : run task root (.start uid) = (.ok scope, s)) :
    (root.visit (visitor task) (walkStart task root uid)).2 = s := by
  unfold run at h
  unfold walkStart
  rcases hg : addIndexedGlobals task { env := addDeclaredGlobals root (.start uid) } with
    ⟨fault | _, s₀⟩ <;> rw [hg] at h
  · cases h
  · dsimp only at h ⊢
    unfold walk at h
    rcases hv : root.visit (visitor task) s₀ with ⟨_ | a, s₁⟩ <;> rw [hv] at h <;> cases h
    rfl

/-- **A declaration behind the cursor binds nothing.** If neither the catalog nor a dependency nor a
directive binds the name, and no node of the program binds it that is not part of such a declaration,
then no record on the chain of the answered scope has a member of that name. The declaration may be one
of variables, or of a function that returns nothing and is no constructor. -/
theorem later_declaration_binds_nothing {root : Node} (hkeys : root.KeysDistinct) {uid scope : String}
    (hrun : run task root (.start uid) = (.ok scope, s)) (hcatalog : Catalog.table.Lacks (some x))
    (hdirective : x ∉ declaredNames root) (hindexed : NotIndexed task (some x))
    (hloaded : NotLoaded task (some x) s.events)
    (hother : ∀ m ∈ root.moves (visitor task) (walkStart task root uid), Binds (some x) m →
      ∃ d ∈ root.all, LaterPart task x d m.node) :
    ∀ e ∈ s.env.types.chain scope, e.2.member? (some x) = none := by
  have hstart : (walkStart task root uid).env.types.Lacks (some x) :=
    lacks_addIndexedGlobals hindexed (lacks_addDeclaredGlobals hdirective hcatalog)
  have hlacks : s.env.types.Lacks (some x) := by
    rw [← run_ok hrun] at hloaded ⊢
    refine (Node.leads_moves root (visitor task) (walkStart task root uid)).invariant
      (I := fun s => s.env.types.Lacks (some x)) (fun m hm h => ?_) hstart
    by_cases hbinds : Binds (some x) m
    · obtain ⟨d, hd, hpart⟩ := hother m hm hbinds
      exact lacks_of_laterPart hkeys hd hm hpart (hloaded.mono (events_subset_of_mem_moves hm)) h
    · intro n
      by_contra hne
      exact hbinds ⟨n, h n, hne⟩
  exact fun e he => hlacks.member? (Table.find?_of_mem_chainFrom he)

/-- The tree of `;function later(){⟨body⟩}`. -/
def laterProgram (body : List Json) : Node :=
  let node (type : String) (start stop : Int) (fields : List (String × Json)) : Json :=
    .obj (("type", .str type) :: ("range", .arr [.int start, .int stop]) :: fields)
  .root (node "Program" 0 30 [("body", .arr [
    node "EmptyStatement" 0 1 [],
    node "FunctionDeclaration" 1 30 [("id", node "Identifier" 10 15 [("name", .str "later")]),
      ("params", .arr []), ("body", node "BlockStatement" 17 30 [("body", .arr body)])]])])

/-- With the cursor in front of it, a function without a return leaves its name unbound. -/
theorem later_declaration_binds_nothing_empty :
    let s := (run ⟨";function later(){}", some 0, none⟩ (laterProgram []) (.start "file")).2
    ∀ e ∈ s.env.types.chain "Global", e.2.member? (some "later") = none := by
  have hkeys : ∀ m ∈ (laterProgram []).all, (m.value.fields.map (·.1)).Nodup := by decide +kernel
  have hfunction : ∀ d ∈ (laterProgram []).all, d.kind = .functionDeclaration →
      (Cursor.isBefore (some 0) d.span? = true ∧ (d.get "id").identifier? = some "later" ∧
        Cursor.isAfter (some 0) (d.get "id").span? = false) ∧
      "later" ∉ "arguments" :: (d.list "params").map paramName ∧
      isConstructor d (some "later") = false ∧ (returned? d).isNone = true := by decide +kernel
  have hmoves : ∀ m ∈ (laterProgram []).moves (visitor ⟨";function later(){}", some 0, none⟩)
      (walkStart ⟨";function later(){}", some 0, none⟩ (laterProgram []) "file"),
      m.node.kind = .functionDeclaration ∨ m.after.env.types.Lacks (some "later") := by
    decide +kernel
  refine @later_declaration_binds_nothing ⟨";function later(){}", some 0, none⟩ _ _ _ hkeys "file" _
    (Prod.ext ?_ rfl) (by decide +kernel) (by decide +kernel) (fun _ _ h => by cases h)
    (fun _ _ _ h => by cases h) fun m hm hbinds => ?_
  · show (run ⟨";function later(){}", some 0, none⟩ (laterProgram []) (.start "file")).1 = .ok "Global"
    decide +kernel
  · obtain ⟨hall, -⟩ := Node.isMove_of_mem_moves hm
    rcases hmoves m hm with hkind | hlacks
    · obtain ⟨⟨hlater, hname, hnameLater⟩, hparams, hplain, hvoid⟩ := hfunction m.node hall hkind
      exact ⟨m.node, hall, .function
        ⟨hkind, hlater, hname, hnameLater, hparams, hplain, Option.isNone_iff_eq_none.1 hvoid⟩ rfl⟩
    · exact absurd hbinds (not_binds hlacks)

/-- With the cursor in front of it, a function with a return is bound in the global scope, and nothing
else could have bound its name: no other node of the program has it. -/
theorem later_function_bound :
    let task : Task := ⟨";function later(){return 1}", some 0, none⟩
    let root := laterProgram [.obj [("type", .str "ReturnStatement"),
      ("range", .arr [.int 18, .int 26]), ("argument", .obj [("type", .str "Literal"),
        ("range", .arr [.int 25, .int 26]), ("value", .int 1)])]]
    let s := (run task root (.start "file")).2
    (∀ d ∈ root.all, d.kind = .functionDeclaration →
      task.cursor.isBefore d.span? = true ∧ (d.get "id").identifier? = some "later") ∧
    (root.all.filter fun n => n.name = some "later").map (·.span?) = [some ⟨10, 15⟩] ∧
    Catalog.table.Lacks (some "later") ∧ "later" ∉ declaredNames root ∧
    (run task root (.start "file")).1 = .ok "Global" ∧
    (s.env.types.chain "Global").filterMap (fun e => (e.2.member? (some "later")).map (e.1, ·)) =
      [("Global", { type := .function .number [], span := some ⟨10, 15⟩ })] := by decide +kernel

end ContentAssist.Inference
