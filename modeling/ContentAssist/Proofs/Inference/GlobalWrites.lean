import ContentAssist.Proofs.Environment.GlobalRecord
import ContentAssist.Proofs.Inference.LaterDeclaration

/-! # What a program writes in the global record

In a run without an index the global record changes where the directive of the program declares a name,
and where a step of the walk declares a name in the global scope or assigns to a binding of it. Bindings
stay, so a name that the catalog does not have is bound in the end if and only if the program has written
it.

* `Writes`: the changes that bind a name in the global record, `Changes.touches`: there are no others;
* `touches_addDeclaredGlobals`, `owns_addDeclaredGlobals`: the directive;
* `WritesGlobally`: the program writes the name;
* `binding?_of_run`, `owns_of_run`: what is bound in the end. -/

namespace ContentAssist.Inference

open Catalog (globalName)
open Environment (Grounded Touches)

variable {task : Task} {at_ : Place} {root : Node} {uid : String} {s s' : State} {x : Name}

/-! ### Changes -/

/-- The name is declared in the global scope, or it is assigned to and its nearest binding is that of the
global scope. -/
inductive Writes (x : Name) : State → State → Prop
  | declare (s : State) {target : Option Ty} (t : Ty) (span : Option Span)
      (hscope : s.env.scope target = globalName) : Writes x s (s.bind x target t span)
  | assign (s : State) {target : Option Ty} (t : Ty) (span : Option Span) (hname : x ≠ some "prototype")
      (howner : s.env.ownerOf (s.env.scope target) x = globalName) : Writes x s (s.assign x target t span)

theorem Writes.owns (h : Writes x s s') (hg : s.env.Grounded) : s'.env.types.Owns globalName x := by
  cases h with
  | declare t span hscope => exact Environment.owns_addVariable hg _ span hscope
  | assign t span hname howner => exact Environment.owns_addOrSet hg t span hname howner

theorem touches_loadModule {W : Name → Prop} (hg : s.env.Grounded) (hw : ∀ x, W x) (index : Index)
    (name : String) : Touches W s.env (loadModule index name s).2.env := by
  have hmerge : ∀ {env : Environment}, env.Grounded → ∀ m target,
      Touches W env (env.mergeSummary m target) := fun h m target =>
    (Environment.touches_mergeSummary h m target).mono fun x _ => hw x
  unfold loadModule
  dsimp only
  split
  · exact .refl hg
  · exact .refl hg
  · unfold applySummary
    split
    · have hnew := Environment.touches_newFleetingObject (W := W) hg none none
      exact hnew.trans (hmerge hnew.grounded _ _)
    · exact hmerge hg _ _

/-- **One change** of the global record is a write, or another file brings it. -/
theorem Change.touches (hg : s.env.Grounded) (hc : Change task at_ s s') :
    Touches (fun x => Writes x s s' ∨ task.index? ≠ none) s.env s'.env := by
  cases hc with
  | report henv hfacts hevents =>
    rw [henv]
    exact .refl hg
  | remark n f hn htype hbody => exact .refl hg
  | markBody n b hn => exact .refl hg
  | retype n o hn ho => exact .refl hg
  | @bind name target t span ht =>
    refine (Environment.touches_addVariable hg name target (some t) span).mono ?_
    rintro x ⟨rfl, hscope⟩
    exact Or.inl (.declare s t span hscope)
  | @assign name target t span ht =>
    refine (Environment.touches_addOrSet hg name target t span).mono ?_
    rintro x ⟨rfl, hname, howner⟩
    exact Or.inl (.assign s t span hname howner)
  | enterScope => exact Environment.touches_newScope hg none
  | enterObject span => exact Environment.touches_newObject hg none span
  | @construct n name span params hn hname =>
    refine .trans (Environment.touches_newObject hg (some name) span)
      (Environment.touches_createConstructor ?_ _ _)
    exact (Environment.touches_newObject (W := fun _ => True) hg (some name) span).grounded
  | create span => exact Environment.touches_newFleetingObject hg none span
  | leaveScope hpop => exact Environment.touches_popScope? hg hpop
  | load hindex name =>
    exact touches_loadModule hg (fun _ => Or.inr (by simp [hindex])) _ _

/-- **Changes** of the global record consist of writes, or another file brings them. -/
theorem Changes.touches (hg : s.env.Grounded) (hc : Changes task at_ s s') :
    Touches (fun x => (∃ s₁ s₂, Changes task at_ s s₁ ∧ Writes x s₁ s₂ ∧ Changes task at_ s₂ s') ∨
      task.index? ≠ none) s.env s'.env := by
  induction hc with
  | refl => exact .refl hg
  | @tail s₁ s₂ hbefore hc ih =>
    refine (ih.mono ?_).trans ((hc.touches ih.grounded).mono ?_)
    · rintro x (⟨s₃, s₄, h, hwrites, h'⟩ | hindex)
      · exact Or.inl ⟨s₃, s₄, h, hwrites, h'.tail hc⟩
      · exact Or.inr hindex
    · rintro x (hwrites | hindex)
      · exact Or.inl ⟨s₁, s₂, hbefore, hwrites, .refl⟩
      · exact Or.inr hindex

/-! ### The directive -/

/-- The names of the directive are assigned one after the other. -/
theorem exists_addDeclaredGlobals_eq (root : Node) : ∃ span, ∀ env, addDeclaredGlobals root env =
    (declaredNames root).foldl
      (fun env name => (env.addOrSet (some name) none none span).2) env := by
  unfold addDeclaredGlobals declaredNames
  generalize root.list "comments" = comments
  induction comments with
  | nil => exact ⟨none, fun _ => rfl⟩
  | cons c comments ih =>
    rw [List.findSome?_cons, List.findSome?_cons]
    cases hc : declaredGlobals? c with
    | none => exact ih
    | some names => exact ⟨c.span?, fun _ => rfl⟩

theorem touches_addOrSet_none {env : Environment} (hg : env.Grounded) (name : String)
    (span : Option Span) :
    Touches (fun x => x = some name ∧ name ≠ "prototype") env
      (env.addOrSet (some name) none none span).2 := by
  rw [Environment.addOrSet_none _ _ _ _ (by simp)]
  have hnew := Environment.touches_newFleetingObject
    (W := fun x => x = some name ∧ name ≠ "prototype") hg none span
  refine hnew.trans ((Environment.touches_addOrSet hnew.grounded _ _ _ _).mono ?_)
  rintro x ⟨rfl, hname, -⟩
  exact ⟨rfl, fun h => hname (congrArg some h)⟩

theorem touches_addDeclaredGlobals (root : Node) {env : Environment} (hg : env.Grounded) :
    Touches (fun x => ∃ name ∈ declaredNames root, x = some name ∧ name ≠ "prototype") env
      (addDeclaredGlobals root env) := by
  refine addDeclaredGlobals_induction (P := Touches _ env) root (.refl hg) fun env' name span hname h => ?_
  exact h.trans ((touches_addOrSet_none h.grounded name span).mono fun x hx => ⟨name, hname, hx⟩)

/-- No scope is open, the builtin records are those of the catalog, and apart from them only the global
record has members. -/
structure Bare (env : Environment) : Prop where
  grounded : env.Grounded
  inner : env.scopes.inner = []
  intact : env.types.Intact
  members : ∀ n x, n ∉ builtinNames → n ≠ globalName → env.types.binding? n x = none

theorem bare_start (uid : String) : Bare (.start uid) where
  grounded := Environment.grounded_start uid
  inner := rfl
  intact := Table.intact_catalog
  members := by
    intro n x hbuiltin hglobal
    have hkey : n ∉ Catalog.table.keys := fun hn =>
      (mem_catalog_keys_iff.1 hn).elim hglobal hbuiltin
    show Catalog.table.binding? n x = none
    rw [Table.binding?, Catalog.table.find?_eq_none_iff.2 hkey, Option.bind_none]

theorem Bare.ownerOf {env : Environment} (h : Bare env) (x : Name) :
    env.ownerOf (env.scope none) x = globalName := by
  have hscope : env.scope none = globalName := by
    rw [Environment.scope, Scopes.current, h.inner]
    exact h.grounded.outermost
  rw [hscope]
  unfold Environment.ownerOf
  cases hfound : env.firstOnChain? globalName fun r => (r.member? x).isSome with
  | none => rfl
  | some e =>
    dsimp only
    split
    · rfl
    · rename_i hb
      have hr := Table.find?_of_mem_chainFrom (List.mem_of_find?_eq_some hfound)
      have hmember : (e.2.member? x).isSome = true := by simpa using List.find?_some hfound
      by_contra hne
      have hbuiltin : e.1 ∉ builtinNames := by
        intro hn
        obtain ⟨r, hr', hb'⟩ := h.intact.exists_builtin hn
        cases hr.symm.trans hr'
        exact hb hb'
      rw [← Table.binding?_of_find? hr, h.members e.1 x hbuiltin hne] at hmember
      cases hmember

theorem Bare.newFleetingObject {env : Environment} (h : Bare env) (span : Option Span) :
    Bare (env.newFleetingObject none span).2 where
  grounded := (Environment.touches_newFleetingObject (W := fun _ => True) h.grounded none span).grounded
  inner := h.inner
  intact := Environment.intact_newFleetingObject h.intact none span
  members := by
    intro n x hbuiltin hglobal
    refine (Table.binding?_insert _ _ _ _ _).trans ?_
    split
    · rfl
    · exact h.members n x hbuiltin hglobal

theorem Bare.addOrSet {env : Environment} (h : Bare env) (name : String) (span : Option Span) :
    Bare (env.addOrSet (some name) none none span).2 := by
  have hnew := h.newFleetingObject span
  refine ⟨(touches_addOrSet_none h.grounded name span).grounded, ?_,
    Environment.intact_addOrSet_none h.intact _ _, fun n x hbuiltin hglobal => ?_⟩
  · rw [Environment.addOrSet_none _ _ _ _ (by simp), Environment.addOrSet_some_scopes]
    exact hnew.inner
  · rw [Environment.addOrSet_none _ _ _ _ (by simp)]
    refine Eq.trans ?_ (hnew.members n x hbuiltin hglobal)
    by_contra hne
    obtain ⟨-, -, howner⟩ := (Environment.assigns_addOrSet _ _ _ _ _).binding n x hne
    exact hglobal (howner.trans (hnew.ownerOf _))

theorem Bare.owns {env : Environment} (h : Bare env) {name : String} (hname : name ≠ "prototype")
    (span : Option Span) :
    (env.addOrSet (some name) none none span).2.types.Owns globalName (some name) := by
  have hnew := h.newFleetingObject span
  rw [Environment.addOrSet_none _ _ _ _ (by simp)]
  exact Environment.owns_addOrSet hnew.grounded _ _ (by simpa using hname) (hnew.ownerOf _)

/-- **Each name of the directive is bound** in the global record; only `prototype` stands for the link. -/
theorem owns_addDeclaredGlobals {env : Environment} (h : Bare env) {name : String}
    (hname : name ∈ declaredNames root) (hprototype : name ≠ "prototype") :
    (addDeclaredGlobals root env).types.Owns globalName (some name) := by
  obtain ⟨span, heq⟩ := exists_addDeclaredGlobals_eq root
  have hfold : ∀ (names : List String) (env : Environment), Bare env →
      (name ∈ names ∨ env.types.Owns globalName (some name)) →
      (names.foldl (fun env name => (env.addOrSet (some name) none none span).2) env).types.Owns
        globalName (some name) := by
    intro names
    induction names with
    | nil => exact fun _ _ howns => howns.resolve_left List.not_mem_nil
    | cons k names ih =>
      intro env h howns
      refine ih _ (h.addOrSet k span) ?_
      rcases howns with hmem | howns
      · rcases List.mem_cons.1 hmem with rfl | hmem
        · exact Or.inr (h.owns hprototype span)
        · exact Or.inl hmem
      · exact Or.inr ((touches_addOrSet_none h.grounded k span).owned _ howns)
  rw [heq]
  exact hfold _ _ h (Or.inl hname)

/-! ### Runs -/

/-- The program writes the name in the global record: its directive declares it, or a step of its walk
changes what is bound to it. -/
def WritesGlobally (task : Task) (root : Node) (uid : String) (x : Name) : Prop :=
  (∃ name ∈ declaredNames root, x = some name ∧ name ≠ "prototype") ∨
    ∃ m ∈ root.moves (visitor task) (walkStart task root uid),
      m.after.env.types.binding? globalName x ≠ m.before.env.types.binding? globalName x

/-- **A move that changes the global record** consists of changes one of which writes there, or another
file brings the change. -/
theorem touches_of_mem_moves {m : Move State} (hm : m ∈ root.moves (visitor task) s)
    (hg : m.before.env.Grounded) :
    Touches (fun x => (∃ s₁ s₂, Changes task m.node.place m.before s₁ ∧ Writes x s₁ s₂ ∧
      Changes task m.node.place s₂ m.after) ∨ task.index? ≠ none) m.before.env m.after.env := by
  obtain ⟨-, hmove⟩ := Node.isMove_of_mem_moves hm
  have hchanges : Changes task m.node.place m.before m.after := by
    rcases Visitor.after_of_isMove hmove with ⟨-, hafter⟩ | ⟨-, hafter⟩ <;> rw [hafter]
    · exact changes_enter task m.node m.before
    · exact changes_leave task m.node m.before
  exact hchanges.touches hg

theorem touches_addIndexedGlobals (task : Task) (hg : s.env.Grounded) :
    Touches (fun _ => task.index? ≠ none) s.env (addIndexedGlobals task s).2.env := by
  unfold addIndexedGlobals
  split
  · exact .refl hg
  · rename_i index hindex
    have hmerge : ∀ (summaries : List Summary) (env : Environment), env.Grounded →
        Touches (fun _ => task.index? ≠ none) env
          (summaries.foldl (fun env m => env.mergeSummary m globalName) env) := by
      intro summaries
      induction summaries with
      | nil => exact fun env h => .refl h
      | cons m summaries ih =>
        intro env h
        have hm := (Environment.touches_mergeSummary h m globalName).mono (V := fun _ =>
          task.index? ≠ none) fun _ _ => by simp [hindex]
        exact hm.trans (ih _ hm.grounded)
    dsimp only
    split
    · exact .refl hg
    · exact hmerge _ _ hg

theorem grounded_walkStart (task : Task) (root : Node) (uid : String) :
    (walkStart task root uid).env.Grounded :=
  (touches_addIndexedGlobals task (s := { env := addDeclaredGlobals root (.start uid) })
    (touches_addDeclaredGlobals root (Environment.grounded_start uid)).grounded).grounded

theorem grounded_of_run {scope : String} (hrun : run task root (.start uid) = (.ok scope, s)) :
    s.env.Grounded := by
  rw [← run_ok hrun]
  exact ((changes_visit task root (walkStart task root uid)).touches
    (grounded_walkStart task root uid)).grounded

section
variable (hindex : task.index? = none)
include hindex

theorem env_walkStart : (walkStart task root uid).env = addDeclaredGlobals root (.start uid) := by
  unfold walkStart addIndexedGlobals
  rw [hindex]

variable {scope : String} (hrun : run task root (.start uid) = (.ok scope, s))
include hrun

theorem binding?_of_run (hx : ¬ WritesGlobally task root uid x) :
    s.env.types.binding? globalName x = Catalog.table.binding? globalName x := by
  rw [← run_ok hrun]
  have hdeclared := touches_addDeclaredGlobals root (Environment.grounded_start uid)
  refine (Node.leads_moves root (visitor task) (walkStart task root uid)).invariant
    (I := fun s => s.env.types.binding? globalName x = Catalog.table.binding? globalName x)
    (fun m hm hbefore => ?_) ?_
  · by_contra hne
    exact hx (Or.inr ⟨m, hm, fun heq => hne (heq.trans hbefore)⟩)
  · by_contra hne
    rw [env_walkStart hindex] at hne
    exact hx (Or.inl (hdeclared.binding x hne))

theorem owns_of_run (hx : WritesGlobally task root uid x) : s.env.types.Owns globalName x := by
  have hgrounded := grounded_walkStart task root uid
  have hmove : ∀ m ∈ root.moves (visitor task) (walkStart task root uid),
      m.before.env.Grounded → m.after.env.Grounded := fun m hm h => (touches_of_mem_moves hm h).grounded
  have hleads := Node.leads_moves root (visitor task) (walkStart task root uid)
  rw [← run_ok hrun]
  rcases hx with ⟨name, hname, rfl, hprototype⟩ | ⟨m, hm, hne⟩
  · have howns := owns_addDeclaredGlobals (bare_start uid) hname hprototype
    rw [← env_walkStart hindex] at howns
    exact ((changes_visit task root (walkStart task root uid)).touches hgrounded).owned _ howns
  · have hbefore := hleads.invariant_before (I := fun s => s.env.Grounded) hmove hgrounded hm
    have htouches := touches_of_mem_moves hm hbefore
    have hafter : m.after.env.types.Owns globalName x := by
      rw [htouches.grounded.owns_iff]
      intro hnone
      -- a binding that was there would still be there
      have hbound : m.before.env.types.Owns globalName x :=
        hbefore.owns_iff.2 fun hnone' => hne (hnone.trans hnone'.symm)
      exact htouches.grounded.owns_iff.1 (htouches.owned x hbound) hnone
    obtain ⟨rest, hsub, hrest⟩ := hleads.rest hm
    refine (hrest.invariant (I := fun s => s.env.Grounded ∧ s.env.types.Owns globalName x)
      (fun k hk ⟨hg, howns⟩ => ?_) ⟨htouches.grounded, hafter⟩).2
    have hstep := touches_of_mem_moves (hsub hk) hg
    exact ⟨hstep.grounded, hstep.owned x howns⟩

end

end ContentAssist.Inference
