import ContentAssist.Proofs.Inference.Declared
import ContentAssist.Proofs.Inference.Home
import ContentAssist.Proofs.Inference.LaterDeclaration

/-! # Local names

A parameter is bound in the scope of its function before anything in the function is walked, and a
variable in the innermost block around its declaration when that is left. If all identifiers of the name
stand below the function, or in the block behind the declaration, then each of them finds that binding,
and the global scope never gets the name. Three things are kept apart from that. The link of a scope may
be cut (`Relinks`), and a member of the name may be assigned to the global record (`StoresGlobally`). And
a pattern binds nothing: the names in it are looked up like any others (`local_becomes_global`).

* `IsParam`, `IsVar`: the declarations;
* `inner_of_mem_movesEach`: inside a scope no step is taken in the global one;
* `IsParam.resolved`, `IsVar.resolved`: every identifier of the name is found, or is being defined;
* `local_not_global`: the global scope does not get the name. -/

namespace ContentAssist.Inference

open Catalog (globalName)
open Environment (Nearest)

variable {task : Task} {root n d f b : Node} {s s' : State} {x : String} {m : Move State}

/-! ### Declarations -/

/-- The name is that of a parameter of the function, with a default value perhaps, or the rest one, and
all identifiers of it stand below the function. -/
structure IsParam (root f : Node) (x : String) : Prop extends Home root f x where
  function : f.kind.isFunction = true
  param : x ∈ (f.list "params").map paramName
  nonempty : x ≠ ""

/-- The name is that of a variable `d` that is declared in the block, in no scope inside it, and all
identifiers of it stand in the block behind the declaration. -/
structure IsVar (root b d : Node) (x : String) : Prop extends Home root b x where
  block : b.kind = .blockStatement
  declarator : d.kind = .variableDeclarator
  name : (d.get "id").identifier? = some x
  declared : d ∈ b.all
  innermost : ∀ c ∈ b.all, c.kind.opensScope = true → c.place <:+ d.place → c.place = b.place
  behind : ∀ m ∈ b.upTo d, m.identifier? ≠ some x
  inside : ∀ m ∈ d.all, m.identifier? = some x → m.place = (d.get "id").place

/-- Leaving the assignment binds a member of the name in the global record. -/
def StoresGlobally (x : String) (n : Node) (s : State) : Prop :=
  n.kind = .assignmentExpression ∧ ∃ id, (n.get "left").rightMost? = some id ∧ id.name = some x ∧
    (s.fact id).target ≠ none ∧ assignedRecord n id s = globalName

/-! ### The scopes at a move -/

theorem inner_enter (task : Task) (n : Node) (s : State) :
    s.env.scopes.inner <:+ (enter task n s).2.env.scopes.inner := by
  obtain ⟨opened, hopens, -⟩ := opens_enterNode task n s
  rw [enter_eq]
  split
  · exact List.suffix_rfl
  · rcases he : enterNode task n s with ⟨fault | _, s'⟩ <;> rw [he] at hopens <;>
      exact ⟨opened, hopens.inner.symm⟩

/-- The scopes in which the walks of nodes begin are there at every move, and a node that is left closes
none of them. -/
theorem inner_of_mem_movesEach {cs : List Node} (hm : m ∈ Node.movesEach (visitor task) cs s) :
    s.env.scopes.inner <:+ m.before.env.scopes.inner ∧
      (m.way = .up → s.env.scopes.inner <:+ m.before.env.scopes.inner.drop (depth m.node m.before)) := by
  have hbefore : ∀ k ∈ Node.movesEach (visitor task) cs s,
      s.env.scopes.inner <:+ k.before.env.scopes.inner := fun k hk => by
    refine Node.before_of_mem_movesEach (P := fun s₁ => s.env.scopes.inner <:+ s₁.env.scopes.inner)
      (Q := fun _ => True) (fun n s₁ hs _ => hs.trans (inner_enter task n s₁)) (fun n s₁ hs _ => ?_)
      List.suffix_rfl (fun _ _ => trivial) hk
    obtain ⟨⟨further, hopens, -⟩, -⟩ := balanced_visit task n s₁
    exact hs.trans ⟨further, hopens.inner.symm⟩
  refine ⟨hbefore m hm, fun hup => ?_⟩
  obtain ⟨s₀, hdown, hdescended⟩ := Node.exists_descent_of_mem_movesEach
    (fun n _ s h => Node.exists_descent_of_mem_moves h hup) hm
  exact (hbefore _ hdown).trans (inner_of_descended hdescended)

/-- Inside another scope than the global one the name does not escape, if its identifiers are found and it
is not stored in the global record. -/
theorem Resolved.not_escapes (h : Resolved x m) (hlinked : m.before.env.Linked)
    (hinner : m.before.env.scopes.inner ≠ [])
    (hdrop : m.way = .up → m.before.env.scopes.inner.drop (depth m.node m.before) ≠ [])
    (hstores : m.way = .up → ¬ StoresGlobally x m.node m.before) : ¬ Escapes (some x) m := by
  intro hescapes
  cases hescapes with
  | entered _ _ _ hscope => exact hinner hscope
  | left hway _ _ hscope => exact hdrop hway hscope
  | declarator _ _ _ hscope => exact hinner hscope
  | @assignment id hway hkind hid hname hscope =>
    refine hstores hway ⟨hkind, id, hid, hname, fun htarget => ?_, hscope⟩
    -- what is no member is assigned to the innermost scope
    have hkept := ((Kept.setType (s := m.before) typeless_target m.node
      (assignmentType m.node m.before)).trans
        (Kept.setType typeless_target id (assignmentType m.node m.before))) id.place
    refine hlinked.current_ne_global hinner (Eq.trans ?_ hscope)
    unfold assignedRecord State.targetType State.fact
    dsimp only
    rw [hkept, show (m.before.facts.at id.place).target = none from htarget]
    rfl
  | identifier hway hkind hname hlookup hdefined =>
    rcases h hway ((Node.identifier?_of_kind hkind).trans hname) with hd | hfound
    · rw [hdefined] at hd
      cases hd
    · exact hfound hlookup

/-! ### Parameters -/

theorem owns_of_bindParams {owner : String} (params : List Node) (ts : List Ty)
    (h : s.env.types.Owns owner (some x)) :
    (bindParams params ts s).env.types.Owns owner (some x) := by
  induction params generalizing ts s with
  | nil => exact h
  | cons param params ih =>
    cases ts with
    | nil => exact h
    | cons t ts =>
      rw [bindParams]
      split
      · exact ih ts h
      · exact ih ts (Table.Owns.define h _ _ _)

/-- Each parameter with a name is bound in the innermost scope. -/
theorem owns_bindParams (hne : x ≠ "") (params : List Node) (hx : x ∈ params.map paramName) (ts : List Ty)
    (hlength : params.length ≤ ts.length)
    (hrecord : ∃ r, s.env.types.find? s.env.scopes.current = some r ∧ r.builtin = false) :
    (bindParams params ts s).env.types.Owns s.env.scopes.current (some x) := by
  induction params generalizing ts s with
  | nil => cases hx
  | cons param params ih =>
    cases ts with
    | nil => simp at hlength
    | cons t ts =>
      rw [List.length_cons, List.length_cons, Nat.add_le_add_iff_right] at hlength
      obtain ⟨r, hr, hb⟩ := hrecord
      rw [bindParams]
      rcases List.mem_cons.1 hx with rfl | hx
      · rw [if_neg hne]
        exact owns_of_bindParams _ _ (Table.Owns.of_define hr hb _ _)
      · split
        · exact ih hx ts hlength ⟨r, hr, hb⟩
        · obtain ⟨r', hr', hb', -⟩ := Table.Owns.of_define hr hb (some (paramName param))
            { type := t, span := param.span? }
          exact ih (s := s.bind _ none t _) hx ts hlength ⟨r', hr', hb'⟩

theorem length_newObjectTypes (params : List Node) (s : State) :
    (newObjectTypes params s).1.length = params.length := by
  induction params generalizing s with
  | nil => rfl
  | cons param params ih => exact congrArg (· + 1) (ih s.newObjectType.2)

/-- A function that was entered binds its parameters in the innermost scope. -/
theorem nearest_of_param (hindex : task.index? = none) (hlinked : s.env.Linked) (hsound : Sound s)
    (hx : x ∈ (f.list "params").map paramName) (hne : x ≠ "") :
    ∃ owner below, Nearest (some x) [] owner below (enterFunction task f s).2.env := by
  let opened := newObjectTypes (f.list "params") (openParams f (nameFunction task f s))
  have hopened : opened.2.env.Linked :=
    linked_newObjectTypes _ (linked_openParams (linked_nameFunction task hlinked))
  have hchanges : Changes task f.place s opened.2 :=
    ((changes_nameFunction List.suffix_rfl).trans changes_openParams).trans
      (changes_newObjectTypes _ _).1
  have hentered : (enterFunction task f s).2 = bindParams (f.list "params") opened.1 opened.2 := by
    rw [enterFunction_eq, paramTypes_eq hindex]
  have hrecord := hopened.exists_record (hchanges.sound hindex hsound).env
    hopened.contains_current
  have howns := owns_bindParams hne _ hx opened.1 (Nat.le_of_eq (length_newObjectTypes _ _).symm) hrecord
  rw [hentered]
  obtain ⟨below, hnearest⟩ := Nearest.of_current
    (linked_bindParams (f.list "params") opened.1 hopened) (by rw [scopes_bindParams]; exact howns)
  exact ⟨_, below, hnearest⟩

/-! ### Runs -/

section

variable {uid : String} (hindex : task.index? = none) (hprototype : "prototype" ∉ declaredNames root)
  (hrelinks : ∀ m ∈ root.moves (visitor task) { env := addDeclaredGlobals root (.start uid) },
    m.way = .up → ¬ Relinks m.node m.before)
include hindex hprototype hrelinks

theorem regular_of_mem_moves
    (hm : m ∈ root.moves (visitor task) { env := addDeclaredGlobals root (.start uid) }) : Regular m := by
  have hinvariant := (Node.leads_moves root (visitor task) _).invariant_before
    (I := fun s => s.env.Linked ∧ Sound s) (fun k hk ⟨hlinked, hsound⟩ => ?_)
    ⟨linked_addDeclaredGlobals hprototype (Environment.linked_start uid),
      sound_addDeclaredGlobals root (Environment.sound_start uid), fun _ _ h => by cases h⟩ hm
  · exact ⟨hinvariant.1, hinvariant.2, hrelinks m hm⟩
  · obtain ⟨-, hmove⟩ := Node.isMove_of_mem_moves hk
    rcases Visitor.after_of_isMove hmove with ⟨-, hafter⟩ | ⟨hway, hafter⟩ <;> rw [hafter]
    · exact ⟨linked_enter hindex hlinked, (changes_enter task k.node k.before).sound hindex hsound⟩
    · exact ⟨linked_leave hindex hlinked (hrelinks k hk hway),
        (changes_leave task k.node k.before).sound hindex hsound⟩

theorem globalLacks_of_mem_moves
    (hm : m ∈ root.moves (visitor task) { env := addDeclaredGlobals root (.start uid) })
    (hquiet : ¬ Escapes (some x) m) (h : m.before.env.GlobalLacks (some x)) :
    m.after.env.Linked ∧ m.after.env.GlobalLacks (some x) := by
  obtain ⟨hall, hmove⟩ := Node.isMove_of_mem_moves hm
  have hregular := regular_of_mem_moves hindex hprototype hrelinks hm
  rw [hmove] at hquiet
  rcases Visitor.after_of_isMove hmove with ⟨hway, hafter⟩ | ⟨hway, hafter⟩ <;>
    rw [hafter] <;> rw [hway] at hquiet
  · exact ⟨linked_enter hindex hregular.linked, globalLacks_enter hregular.linked h hindex hquiet⟩
  · refine ⟨linked_leave hindex hregular.linked (hregular.relinks hway),
      globalLacks_leave hregular.linked h hindex (fun hkind => ?_) hquiet⟩
    obtain ⟨s₀, hdown, hdescended⟩ := Node.exists_descent_of_mem_moves hm hway
    have hlinked : s₀.env.Linked := (regular_of_mem_moves hindex hprototype hrelinks hdown).linked
    refine ⟨_, type_of_descended hkind hdescended, ?_⟩
    exact Environment.ne_of_not_scope (hlinked.newObject_not_scope none m.node.span?)
      (Environment.linked_newObject hlinked none m.node.span?).contains_globalName

/-- **In a function with the parameter** every identifier of the name is found. -/
theorem IsParam.resolved (h : IsParam root f x) {s s₁ : State}
    (hsub : f.moves (visitor task) s ⊆
      root.moves (visitor task) { env := addDeclaredGlobals root (.start uid) })
    (henter : (visitor task).enter f s = (.descend, s₁))
    (hm : m ∈ Node.movesEach (visitor task) f.children s₁) : Resolved x m := by
  have hregular : ∀ k ∈ f.moves (visitor task) s, Regular k := fun k hk =>
    regular_of_mem_moves hindex hprototype hrelinks (hsub hk)
  have hfirst := hregular ((visitor task).move .down f s) (by
    rw [Node.moves_eq]
    exact List.mem_cons_self)
  obtain ⟨owner, below, hnearest⟩ :=
    nearest_of_param (s := s) hindex hfirst.linked hfirst.sound h.param h.nonempty
  rw [enterFunction_of_descend h.function henter] at hnearest
  exact resolved_of_nearest hnearest
    (fun k hk => hregular k (Node.mem_moves_of_mem_movesEach henter hk)) hm

/-- **In a block with the variable** every identifier of the name is found or is being defined. -/
theorem IsVar.resolved (hkeys : root.KeysDistinct) (hcursor : task.cursor = none) (h : IsVar root b d x)
    {s s₁ : State}
    (hsub : b.moves (visitor task) s ⊆
      root.moves (visitor task) { env := addDeclaredGlobals root (.start uid) })
    (henter : (visitor task).enter b s = (.descend, s₁))
    (hm : m ∈ Node.movesEach (visitor task) b.children s₁) : Resolved x m := by
  have hkeys : b.KeysDistinct := fun k hk => hkeys k (Node.mem_all_trans h.mem hk)
  obtain ⟨c, hc, hdc⟩ : ∃ c ∈ b.children, d ∈ c.all := by
    rcases Node.mem_all_iff.1 h.declared with rfl | hd
    · exact absurd (h.block.symm.trans h.declarator) (by decide)
    · exact hd
  have hfront := h.behind
  rw [Node.upTo_eq fun heq => Node.place_ne_of_mem_child hc hdc heq.symm] at hfront
  refine (declared_visitEach (fun c hc hdc hfront s hregular => ?_)
    (fun c hc m hm hplace => Node.eq_of_place hkeys (Node.mem_all_of_child hc hm) h.declared hplace)
    ⟨c, hc, hdc⟩ (fun m hm => hfront m (List.mem_cons_of_mem _ hm)) s₁ fun m hm =>
      regular_of_mem_moves hindex hprototype hrelinks
        (hsub (Node.mem_moves_of_mem_movesEach henter hm))).resolved m hm
  refine declared_visit hcursor h.declarator h.name h.inside (hkeys.of_child hc) hdc
    (fun k hk hopens hplace => ?_) hfront s hregular
  exact Node.place_ne_of_mem_child hc hk (h.innermost k (Node.mem_all_of_child hc hk) hopens hplace)

end

theorem inner_ne_nil_of_home (h : Home root n x) {s₁ : State}
    (henter : (visitor task).enter n s = (.descend, s₁)) : s₁.env.scopes.inner ≠ [] := by
  obtain ⟨opened, hopens, hdepth⟩ := opens_enterNode task n s
  change enter task n s = (.descend, s₁) at henter
  rw [enterNode_of_descend henter] at hopens hdepth
  have hpositive : 1 ≤ depth n s₁ := by
    rcases h.kind with hkind | hkind
    · simp [depth, hkind]
    · rw [depth_of_isFunction hkind]
      split <;> decide
  have hlength : 1 ≤ opened.length := Nat.le_trans hpositive (hdepth rfl).1
  rw [hopens.inner]
  intro hnil
  rw [(List.append_eq_nil_iff.1 hnil).1] at hlength
  exact absurd hlength (by decide)

theorem globalLacks_addDeclaredGlobals (hprototype : "prototype" ∉ declaredNames root)
    (hdeclared : x ∉ declaredNames root) {env : Environment} (hlinked : env.Linked)
    (h : env.GlobalLacks (some x)) : (addDeclaredGlobals root env).GlobalLacks (some x) := by
  refine (addDeclaredGlobals_induction (P := fun env => env.Linked ∧ env.GlobalLacks (some x)) root
    ⟨hlinked, h⟩ fun env name span hname ⟨hlinked, h⟩ => ?_).2
  have hnew := Environment.linked_newFleetingObject hlinked none span
  rw [Environment.addOrSet_none _ _ _ _ (by simp)]
  refine ⟨Environment.linked_addOrSet hnew (fun he => ?_) _ _,
    Environment.globalLacks_addOrSet (Environment.globalLacks_newFleetingObject hlinked h none span) _ _
      fun he => ?_⟩
  · cases he
    exact absurd hname hprototype
  · cases he
    exact absurd hname hdeclared

/-- **Local names do not get into the global scope.** A program without a cursor and without an index is
analysed. If a name that neither the catalog nor a directive has is a parameter of a function, or a
variable of a block, and all other identifiers of it stand inside of that, behind the declaration, then
the global scope has no member of the name in the end. No step may set the link of a scope or store a
member of the name in the global record. -/
theorem local_not_global (hcursor : task.cursor = none) (hindex : task.index? = none) {uid : String}
    (hkeys : root.KeysDistinct) (hprogram : root.kind = .program)
    (hcatalog : Catalog.table.binding? globalName (some x) = none)
    (hdeclared : x ∉ declaredNames root) (hprototype : "prototype" ∉ declaredNames root)
    (hlocal : (∃ f, IsParam root f x) ∨ ∃ b d, IsVar root b d x)
    (hrelinks : ∀ m ∈ root.moves (visitor task) { env := addDeclaredGlobals root (.start uid) },
      m.way = .up → ¬ Relinks m.node m.before)
    (hstores : ∀ m ∈ root.moves (visitor task) { env := addDeclaredGlobals root (.start uid) },
      m.way = .up → ¬ StoresGlobally x m.node m.before) :
    ∃ scope s, run task root (.start uid) = (.ok scope, s) ∧
      ∃ r, s.env.types.find? globalName = some r ∧ r.member? (some x) = none := by
  obtain ⟨k, hhome, hresolved⟩ : ∃ k, Home root k x ∧ ∀ {s s₁ : State},
      k.moves (visitor task) s ⊆ root.moves (visitor task) { env := addDeclaredGlobals root (.start uid) } →
      (visitor task).enter k s = (.descend, s₁) →
      ∀ m ∈ Node.movesEach (visitor task) k.children s₁, Resolved x m := by
    rcases hlocal with ⟨f, hf⟩ | ⟨b, d, hb⟩
    · exact ⟨f, hf.toHome, fun hsub henter m =>
        IsParam.resolved hindex hprototype hrelinks hf hsub henter⟩
    · exact ⟨b, hb.toHome, fun hsub henter m =>
        IsVar.resolved hindex hprototype hrelinks hkeys hcursor hb hsub henter⟩
  have hquiet : ∀ m ∈ root.moves (visitor task) { env := addDeclaredGlobals root (.start uid) },
      ¬ Escapes (some x) m := by
    intro m hm
    by_cases hout : m.node ∈ k.all → m.node = k
    · exact hhome.not_escapes hkeys hm hout
    · obtain ⟨hbelow, hne⟩ := Classical.not_imp.1 hout
      obtain ⟨s₀, hmk, hsub⟩ := Node.exists_moves_of_mem_all hkeys hhome.mem hm hbelow
      obtain ⟨s₁, henter, hmeach⟩ := Node.exists_enter_of_mem_moves hmk hne
      obtain ⟨hinner, hdrop⟩ := inner_of_mem_movesEach hmeach
      have hnil := inner_ne_nil_of_home hhome henter
      refine (hresolved hsub henter m hmeach).not_escapes
        (regular_of_mem_moves hindex hprototype hrelinks hm).linked
        (fun h => hnil (List.suffix_nil.1 (h ▸ hinner)))
        (fun hup h => hnil (List.suffix_nil.1 (h ▸ hdrop hup))) (hstores m hm)
  have hlinked := linked_addDeclaredGlobals hprototype (Environment.linked_start uid)
  obtain ⟨hend, hlacks⟩ := (Node.leads_moves root (visitor task) _).invariant
    (I := fun s => s.env.Linked ∧ s.env.GlobalLacks (some x))
    (fun m hm h => globalLacks_of_mem_moves hindex hprototype hrelinks hm (hquiet m hm) h.2)
    ⟨hlinked, globalLacks_addDeclaredGlobals hprototype hdeclared (Environment.linked_start uid) hcatalog⟩
  obtain ⟨scope, s, hrun⟩ := exists_run_ok hprogram task hindex (.start uid)
  have hstart : walkStart task root uid = { env := addDeclaredGlobals root (.start uid) } := by
    unfold walkStart addIndexedGlobals
    rw [hindex]
  have hs := run_ok hrun
  rw [hstart] at hs
  rw [hs] at hend hlacks
  obtain ⟨r, hr⟩ := hend.exists_global
  exact ⟨scope, s, hrun, r, hr, (Table.binding?_of_find? hr).symm.trans hlacks⟩

/-- The tree of `function f(⟨params⟩){⟨body⟩}`, with comments in front. -/
def functionProgram (comments params body : List Json) : Node :=
  let node (type : String) (fields : List (String × Json)) : Json := .obj (("type", .str type) :: fields)
  .root (node "Program" [("body", .arr [node "FunctionDeclaration" [
    ("id", node "Identifier" [("name", .str "f")]), ("params", .arr params),
    ("body", node "BlockStatement" [("body", .arr body)])]]), ("comments", .arr comments)])

/-- The tree of the name `n`. -/
def nameTree : Json := .obj [("type", .str "Identifier"), ("name", .str "n")]

/-- The tree of the statement `⟨expression⟩`. -/
def statementTree (expression : Json) : Json :=
  .obj [("type", .str "ExpressionStatement"), ("expression", expression)]

/-- The tree of `var ⟨id⟩`. -/
def variableTree (id : Json) : Json :=
  .obj [("type", .str "VariableDeclaration"), ("declarations", .arr [
    .obj [("type", .str "VariableDeclarator"), ("id", id), ("init", .null)]])]

/-- The tree of `function f(n){n}`. -/
def paramProgram : Node := functionProgram [] [nameTree] [statementTree nameTree]

/-- The tree of `function f(){var n;n}`. -/
def varProgram : Node := functionProgram [] [] [variableTree nameTree, statementTree nameTree]

theorem isParam_paramProgram : ∃ f, IsParam paramProgram f "n" := by
  obtain ⟨f, hf, hfunction, hbelow, hown, hparam⟩ :
      ∃ f ∈ paramProgram.all, f.kind.isFunction = true ∧
        (∀ m ∈ paramProgram.all, m.identifier? = some "n" → f.place <:+ m.place) ∧
        (f.get "id").identifier? ≠ some "n" ∧ "n" ∈ (f.list "params").map paramName := by
    decide +kernel
  exact ⟨f, ⟨hf, Or.inr hfunction, hbelow, fun _ => hown⟩, hfunction, hparam, by decide⟩

theorem isVar_varProgram : ∃ b d, IsVar varProgram b d "n" := by
  obtain ⟨b, hb, d, hd, hblock, hbelow, hdeclarator, hname, hinnermost, hbehind, hinside⟩ :
      ∃ b ∈ varProgram.all, ∃ d ∈ b.all, b.kind = .blockStatement ∧
        (∀ m ∈ varProgram.all, m.identifier? = some "n" → b.place <:+ m.place) ∧
        d.kind = .variableDeclarator ∧ (d.get "id").identifier? = some "n" ∧
        (∀ c ∈ b.all, c.kind.opensScope = true → c.place <:+ d.place → c.place = b.place) ∧
        (∀ m ∈ b.upTo d, m.identifier? ≠ some "n") ∧
        ∀ m ∈ d.all, m.identifier? = some "n" → m.place = (d.get "id").place := by decide +kernel
  exact ⟨b, d, ⟨hb, Or.inl hblock, hbelow, fun h => by rw [hblock] at h; cases h⟩, hblock,
    hdeclarator, hname, hd, hinnermost, hbehind, hinside⟩

/-- After `function f(n){n}`, and after `function f(){var n;n}`, the global scope has no `n`. -/
theorem local_not_global_functionProgram :
    (∃ scope s, run ⟨"", none, none⟩ paramProgram (.start "file") = (.ok scope, s) ∧
      ∃ r, s.env.types.find? globalName = some r ∧ r.member? (some "n") = none) ∧
    ∃ scope s, run ⟨"", none, none⟩ varProgram (.start "file") = (.ok scope, s) ∧
      ∃ r, s.env.types.find? globalName = some r ∧ r.member? (some "n") = none := by
  have hcatalog : Catalog.table.binding? globalName (some "n") = none := by decide +kernel
  have hprogram : ∀ root ∈ [paramProgram, varProgram],
      (∀ m ∈ root.all, (m.value.fields.map (·.1)).Nodup) ∧ root.kind = .program ∧
        declaredNames root = [] := by decide +kernel
  have hquiet : ∀ root ∈ [paramProgram, varProgram],
      ∀ m ∈ root.moves (visitor ⟨"", none, none⟩) { env := addDeclaredGlobals root (.start "file") },
        m.node.kind ≠ .assignmentExpression ∧ finalName m.node m.before ≠ some "prototype" := by
    decide +kernel
  have happlied : ∀ root ∈ [paramProgram, varProgram],
      ((∃ f, IsParam root f "n") ∨ ∃ b d, IsVar root b d "n") →
      ∃ scope s, run ⟨"", none, none⟩ root (.start "file") = (.ok scope, s) ∧
        ∃ r, s.env.types.find? globalName = some r ∧ r.member? (some "n") = none := by
    intro root hroot hlocal
    obtain ⟨hkeys, hkind, hnames⟩ := hprogram root hroot
    refine @local_not_global ⟨"", none, none⟩ root "n" rfl rfl "file" hkeys hkind hcatalog
      (by rw [hnames]; exact List.not_mem_nil) (by rw [hnames]; exact List.not_mem_nil) hlocal
      (fun m hm _ hrelinks => ?_) fun m hm _ hstores => ?_
    · cases hrelinks with
      | function _ hname => exact (hquiet root hroot m hm).2 hname
      | assignment hkind => exact (hquiet root hroot m hm).1 hkind
    · exact (hquiet root hroot m hm).1 hstores.1
  exact ⟨happlied _ List.mem_cons_self (Or.inl isParam_paramProgram),
    happlied _ (List.mem_cons_of_mem _ List.mem_cons_self) (Or.inr isVar_varProgram)⟩

/-- All names `n` of the program stand in its function, and yet the global scope has an `n` in the end. -/
def NameEscapes (root : Node) : Prop :=
  (∃ f ∈ root.all, f.kind = .functionDeclaration ∧ (f.get "id").identifier? = some "f" ∧
    (∃ m ∈ root.all, m.identifier? = some "n") ∧
    ∀ m ∈ root.all, m.identifier? = some "n" → f.place <:+ m.place) ∧
  Catalog.table.binding? globalName (some "n") = none ∧
  (run ⟨"", none, none⟩ root (.start "file")).1 = .ok globalName ∧
  (run ⟨"", none, none⟩ root (.start "file")).2.env.types.binding? globalName (some "n") ≠ none

instance : DecidablePred NameEscapes := fun _ => inferInstanceAs (Decidable (_ ∧ _))

/-- In a pattern a name is looked up like any other, be that a parameter (`function f({n}){}`) or a
variable (`function f(){var {n};n}`). A variable is out of reach outside of its block
(`function f(){{var n}n}`). In a function `this` is the global record (`function f(n){this.n=n}`). A
directive declares globals (`/*globals n*/`). And behind a link that is set no scope is reached
(`function f(n){{prototype=1;n}}`). -/
theorem local_becomes_global :
    let pattern : Json := .obj [("type", .str "ObjectPattern"), ("properties", .arr [.obj [
      ("type", .str "Property"), ("key", nameTree), ("computed", .bool false), ("value", nameTree),
      ("method", .bool false), ("shorthand", .bool true)]])]
    let block (body : List Json) : Json := .obj [("type", .str "BlockStatement"), ("body", .arr body)]
    let assignment (left right : Json) : Json := .obj [("type", .str "AssignmentExpression"),
      ("operator", .str "="), ("left", left), ("right", right)]
    let thisMember : Json := .obj [("type", .str "MemberExpression"), ("computed", .bool false),
      ("object", .obj [("type", .str "ThisExpression")]), ("property", nameTree)]
    let prototype : Json := .obj [("type", .str "Identifier"), ("name", .str "prototype")]
    let one : Json := .obj [("type", .str "Literal"), ("value", .int 1)]
    let directive : Json := .obj [("type", .str "Block"), ("value", .str "globals n")]
    NameEscapes (functionProgram [] [pattern] []) ∧
      NameEscapes (functionProgram [] [] [variableTree pattern, statementTree nameTree]) ∧
      NameEscapes (functionProgram [] [] [block [variableTree nameTree], statementTree nameTree]) ∧
      NameEscapes (functionProgram [] [nameTree] [statementTree (assignment thisMember nameTree)]) ∧
      NameEscapes (functionProgram [directive] [nameTree] []) ∧
      NameEscapes (functionProgram [] [nameTree]
        [block [statementTree (assignment prototype one), statementTree nameTree]]) := by
  decide +kernel

end ContentAssist.Inference
