import ContentAssist.Proofs.Environment.Closed
import ContentAssist.Proofs.Inference.Leave
import ContentAssist.Proofs.Tree.Moves

/-! # No dangling names

In every state that an inference reaches, the types of the table and of the nodes end in names of
records, or in `boolean`, if the same holds of the summaries of other files. A type that a module
provides is bound when the module is loaded, maybe long after it was asked for, so the invariant also
says that the records of all modules asked for are there.

* `Closed`: the invariant of a state;
* `covers_of_offers`: the types at hand;
* `Change.closed`: one change;
* `Reached`: the states of a run, `no_dangling_names`: they are closed. -/

namespace ContentAssist

/-- All that other files offer is closed. -/
structure Index.Closed (index : Index) : Prop where
  globals : ∀ summaries, index.globals = .ok summaries → ∀ m ∈ summaries, m.Closed
  modules : ∀ name m, index.summary? name = .ok (some m) → m.Closed

namespace Inference

open Environment (Grown)
open Table (Covers covers_named)

variable {task : Task} {at_ : Place} {root : Node} {uid : String} {s s' : State}

/-- What the index offers, if there is one, is closed. -/
def Task.Closed (task : Task) : Prop := ∀ index, task.index? = some index → index.Closed

/-! ### Changes -/

/-- The environment is closed, the types of nodes are covered, and the records of the modules asked
for are there. -/
structure Closed (task : Task) (s : State) : Prop where
  env : s.env.Closed
  fact : ∀ place type, (s.facts.at place).type = some type → s.env.types.Covers type
  asked : ∀ index name m, task.index? = some index → .askedModule name ∈ s.events →
    index.summary? name = .ok (some m) → m.types.keys ⊆ s.env.types.keys

theorem Closed.withEnv (h : Closed task s) {env : Environment} (hgrown : Grown s.env env) :
    Closed task (s.withEnv env) where
  env := hgrown.closed
  fact := fun place type ht => (h.fact place type ht).mono hgrown.subset
  asked := fun index name m hindex hasked hm _ hn =>
    hgrown.subset (h.asked index name m hindex hasked hm hn)

theorem Closed.learn (h : Closed task s) (n : Node) (f : Fact → Fact)
    (hf : ∀ type, (f (s.fact n)).type = some type → s.env.types.Covers type) :
    Closed task (s.learn n f) := by
  refine ⟨h.env, fun place type ht => ?_, h.asked⟩
  rw [at_learn] at ht
  split at ht
  · exact hf type ht
  · exact h.fact place type ht

theorem Closed.covers_of_offers (htask : task.Closed) (h : Closed task s) {type : Ty} (ht : Offers task s type) :
    s.env.types.Covers type := by
  induction ht with
  | lasting ht =>
    cases ht with
    | builtin hn => exact h.env.covers_builtin hn
    | generated hk => exact covers_named (h.env.generated _ hk)
    | provided hsome hasked hm ht =>
      exact (((htask _ hsome).modules _ _ hm).type _ ht).table h.env.catalog
        (h.asked _ _ _ hsome hasked hm)
  | fact ht => exact h.fact _ _ ht
  | member ht => exact h.env.covers_of_lookup? ht
  | result _ ih => exact ih.result
  | function _ ih => exact ih

theorem grown_applySummary (h : s.env.Closed) {m : Summary} (hm : m.Closed) :
    Grown s.env (applySummary s m).2.env ∧ m.types.keys ⊆ (applySummary s m).2.env.types.keys := by
  unfold applySummary
  split
  · obtain ⟨hnew, -, -⟩ := Environment.grown_newFleetingObject h none none
    obtain ⟨hmerged, hkeys⟩ := Environment.grown_mergeSummary hnew.closed hm
      (s.env.newFleetingObject none none).1
    exact ⟨hnew.trans hmerged, hkeys⟩
  · exact Environment.grown_mergeSummary h hm _

theorem applySummary_events (s : State) (m : Summary) : (applySummary s m).2.events = s.events := by
  unfold applySummary
  split <;> rfl

theorem Closed.loadModule (htask : task.Closed) (h : Closed task s) {index : Index}
    (hsome : task.index? = some index) (name : String) : Closed task (loadModule index name s).2 := by
  -- of the modules asked for before, the records are there
  have hbefore : ∀ {index' : Index} {name' : String} {m : Summary}, task.index? = some index' →
      .askedModule name' ∈ (s.happened (.askedModule name)).events →
      index'.summary? name' = .ok (some m) →
      m.types.keys ⊆ s.env.types.keys ∨ index.summary? name = .ok (some m) := by
    intro index' name' m hindex' hasked hm
    rcases List.mem_append.1 hasked with hasked | hasked
    · exact Or.inl (h.asked _ _ _ hindex' hasked hm)
    · cases List.mem_singleton.1 hasked
      cases hsome.symm.trans hindex'
      exact Or.inr hm
  have hnothing : (∀ m, index.summary? name ≠ .ok (some m)) →
      Closed task (s.happened (.askedModule name)) := fun hnone =>
    ⟨h.env, h.fact, fun _ _ m hindex' hasked hm =>
      (hbefore hindex' hasked hm).resolve_right (hnone m)⟩
  unfold Inference.loadModule
  dsimp only
  cases hsum : index.summary? name with
  | error fault => exact hnothing (by simp [hsum])
  | ok found =>
    cases found with
    | none => exact hnothing (by simp [hsum])
    | some m =>
      obtain ⟨hgrown, hkeys⟩ := grown_applySummary (s := s.happened (.askedModule name)) h.env
        ((htask index hsome).modules name m hsum)
      have hfacts : (applySummary (s.happened (.askedModule name)) m).2.facts = s.facts := by
        have hload := loadModule_facts index name s
        unfold Inference.loadModule at hload
        rwa [hsum] at hload
      refine ⟨hgrown.closed, fun place type ht => ?_, fun _ _ m' hindex' hasked hm' => ?_⟩
      · exact (h.fact place type (hfacts ▸ ht)).mono hgrown.subset
      · rw [applySummary_events] at hasked
        rcases hbefore hindex' hasked hm' with hsub | heq
        · exact fun n hn => hgrown.subset (hsub hn)
        · cases hsum.symm.trans heq
          exact hkeys

/-- **One change** keeps a state closed. -/
theorem Change.closed (htask : task.Closed) (h : Closed task s) (hc : Change task at_ s s') :
    Closed task s' := by
  cases hc with
  | report henv hfacts hevents =>
    refine ⟨henv ▸ h.env, fun place type ht => ?_, fun index name m hsome hasked hm => ?_⟩
    · rw [henv]
      exact h.fact place type (hfacts ▸ ht)
    · rw [henv]
      refine h.asked index name m hsome ?_ hm
      rcases hevents with heq | ⟨e, heq⟩
      · exact heq ▸ hasked
      · rw [heq] at hasked
        rcases List.mem_append.1 hasked with hasked | hasked
        · exact hasked
        · cases List.mem_singleton.1 hasked
  | remark n f hn htype hbody =>
    exact h.learn n f fun type ht => h.fact n.place type ((htype _).symm.trans ht)
  | markBody n b hn =>
    exact h.learn (n.get "body") _ fun type ht => h.fact (n.get "body").place type ht
  | retype n o hn ho =>
    exact h.learn n _ fun type ht => h.covers_of_offers htask (ho type ht)
  | bind name target span ht =>
    exact h.withEnv (Environment.grown_addVariable h.env _ _ (h.covers_of_offers htask ht) _)
  | assign name target span ht =>
    exact h.withEnv (Environment.grown_addOrSet h.env _ _ (h.covers_of_offers htask ht) _)
  | enterScope => exact h.withEnv (Environment.grown_newScope h.env none)
  | enterObject span => exact h.withEnv (Environment.grown_newObject h.env none span).1
  | @construct n name span params hn hname =>
    obtain ⟨hobject, hkey⟩ := Environment.grown_newObject h.env (some name) span
    have hconstructor := Environment.grown_createConstructor hobject.closed
      (.named (s.env.newObject (some name) span).1) (s.env.newObject (some name) span).1
    refine (h.withEnv (hobject.trans hconstructor)).learn n _ fun type ht => ?_
    cases ht
    exact covers_named (hconstructor.subset hkey)
  | create span => exact h.withEnv (Environment.grown_newFleetingObject h.env none span).1
  | leaveScope hpop => exact h.withEnv (Environment.grown_popScope? h.env hpop)
  | load hsome name => exact h.loadModule htask hsome name

theorem Changes.closed (htask : task.Closed) (h : Closed task s) (hc : Changes task at_ s s') :
    Closed task s' := by
  induction hc with
  | refl => exact h
  | tail _ hc ih => exact hc.closed htask ih

/-- A move of the inference keeps a state closed. -/
theorem closed_of_move (htask : task.Closed) {m : Move State}
    (hm : m = (visitor task).move m.way m.node m.before) (h : Closed task m.before) :
    Closed task m.after := by
  rcases Visitor.after_of_isMove hm with ⟨-, hafter⟩ | ⟨-, hafter⟩ <;> rw [hafter]
  · exact (changes_enter task m.node m.before).closed htask h
  · exact (changes_leave task m.node m.before).closed htask h

/-! ### Runs -/

theorem closed_of_env {env : Environment} (h : env.Closed) : Closed task { env := env } where
  env := h
  fact := by
    intro place type ht
    cases ht
  asked := by
    intro index name m _ hasked
    cases hasked

theorem closed_addDeclaredGlobals (root : Node) {env : Environment} (h : env.Closed) :
    (addDeclaredGlobals root env).Closed :=
  addDeclaredGlobals_induction root h fun _ _ _ _ he => (Environment.grown_addOrSet_none he _ _).closed

theorem grown_mergeSummaries {summaries : List Summary} (hclosed : ∀ m ∈ summaries, m.Closed)
    (target : String) {env : Environment} (h : env.Closed) :
    Grown env (summaries.foldl (fun env m => env.mergeSummary m target) env) := by
  induction summaries generalizing env with
  | nil => exact ⟨h, List.Subset.refl _⟩
  | cons m summaries ih =>
    have hmerged := (Environment.grown_mergeSummary h (hclosed m List.mem_cons_self) target).1
    exact hmerged.trans (ih (fun k hk => hclosed k (List.mem_cons_of_mem _ hk)) hmerged.closed)

theorem closed_addIndexedGlobals (htask : task.Closed) {env : Environment} (h : env.Closed) :
    Closed task (addIndexedGlobals task { env := env }).2 := by
  have hstart : Closed task (State.happened { env := env } .askedGlobals) := by
    have hfacts : Closed task { env := env } := closed_of_env h
    refine ⟨h, hfacts.fact, fun index name m _ hasked => ?_⟩
    cases List.mem_singleton.1 hasked
  unfold addIndexedGlobals
  split
  · exact closed_of_env h
  · rename_i index hsome
    dsimp only
    split
    · exact hstart
    · rename_i summaries hglobals
      exact hstart.withEnv
        (grown_mergeSummaries ((htask index hsome).globals summaries hglobals) _ h)

/-- The states of a run in a fresh environment: those in which it takes over globals, and those
between the moves of its walk. -/
inductive Reached (task : Task) (root : Node) (uid : String) : State → Prop
  | fresh : Reached task root uid { env := .start uid }
  | declared : Reached task root uid { env := addDeclaredGlobals root (.start uid) }
  | indexed :
      Reached task root uid (addIndexedGlobals task { env := addDeclaredGlobals root (.start uid) }).2
  | walked {start s : State} {done todo : List (Move State)}
      (hstart : addIndexedGlobals task { env := addDeclaredGlobals root (.start uid) } =
        (.ok (), start))
      (hmoves : root.moves (visitor task) start = done ++ todo) (hleads : Leads start done s) :
      Reached task root uid s

theorem reached_run (task : Task) (root : Node) (uid : String) :
    Reached task root uid (run task root (.start uid)).2 := by
  have hindexed := @Reached.indexed task root uid
  unfold run
  rcases hg : addIndexedGlobals task { env := addDeclaredGlobals root (.start uid) } with
    ⟨fault | _, start⟩
  · rw [hg] at hindexed
    exact hindexed
  · have hend := Reached.walked hg (List.append_nil _).symm
      (Node.leads_moves root (visitor task) start)
    dsimp only [walk]
    rcases hv : root.visit (visitor task) start with ⟨_ | a, s⟩ <;> rw [hv] at hend <;> exact hend

theorem Reached.closed (htask : task.Closed) (h : Reached task root uid s) : Closed task s := by
  have hdeclared := closed_addDeclaredGlobals root (Environment.closed_start uid)
  have hindexed := closed_addIndexedGlobals htask hdeclared
  cases h with
  | fresh => exact closed_of_env (Environment.closed_start uid)
  | declared => exact closed_of_env hdeclared
  | indexed => exact hindexed
  | walked hstart hmoves hleads =>
    rw [hstart] at hindexed
    refine hleads.invariant (fun m hm => ?_) hindexed
    exact closed_of_move htask (Node.isMove_of_mem_moves (hmoves ▸ List.mem_append_left _ hm)).2

/-- **No dangling names.** If the summaries that the index offers are closed, then in every state of a
run in a fresh environment the types of all members and links and of all nodes end in names of records
or in `boolean`, and all scopes of the stack are records. -/
theorem no_dangling_names (htask : task.Closed) (h : Reached task root uid s) :
    (∀ r ∈ s.env.types.values, ∀ d ∈ r.definitions, s.env.types.Covers d.type) ∧
      (∀ place type, (s.facts.at place).type = some type → s.env.types.Covers type) ∧
      ∀ n ∈ s.env.scopes.toList, n ∈ s.env.types.keys :=
  have hclosed := h.closed htask
  ⟨hclosed.env.table, hclosed.fact, hclosed.env.scopes⟩

/-- The tree of `function Foo() { this.a = require("m"); }`. -/
def requiringProgram : Node :=
  let node (type : String) (fields : List (String × Json)) : Json := .obj (("type", .str type) :: fields)
  let identifier (name : String) : Json := node "Identifier" [("name", .str name)]
  .root (node "Program" [("body", .arr [
    node "FunctionDeclaration" [("id", identifier "Foo"), ("params", .arr []),
      ("body", node "BlockStatement" [("body", .arr [
        node "ExpressionStatement" [("expression", node "AssignmentExpression" [
          ("operator", .str "="),
          ("left", node "MemberExpression" [("object", node "ThisExpression" []),
            ("property", identifier "a")]),
          ("right", node "CallExpression" [("callee", identifier "require"),
            ("arguments", .arr [node "Literal" [("value", .str "m")]])])])]])])]])])

/-- A module that provides a function whose result is a record of the module. -/
def functionModule : Summary where
  provided := .type (.function (.named "gen~m~0") [])
  types := ⟨[("gen~m~0", { members := ⟨[(some "b", { type := .number })]⟩
                           proto := some { type := .object } })]⟩
  kind := .amd

/-- After the walk the member `a` of `Foo` has the type that the module provides, and its result is a
record of the table, as are those of all other types. -/
theorem no_dangling_names_requiring :
    let s := (run ⟨"", none, some ⟨.ok [], fun _ => .ok (some functionModule)⟩⟩ requiringProgram
      (.start "file")).2
    s.env.lookup? (some "a") (some (.named "Foo")) = some (.function (.named "gen~m~0") []) ∧
      (∀ r ∈ s.env.types.values, ∀ d ∈ r.definitions, s.env.types.Covers d.type) ∧
      (∀ place type, (s.facts.at place).type = some type → s.env.types.Covers type) ∧
      ∀ n ∈ s.env.scopes.toList, n ∈ s.env.types.keys := by
  have hmodule : functionModule.Closed := by
    refine ⟨?_, ?_, ?_⟩
    · rintro t ⟨⟩
      exact Or.inl (by decide +kernel)
    · rintro r ⟨⟩
    · have htypes : ∀ r ∈ functionModule.types.values, ∀ d ∈ r.definitions,
          d.type.leaf ∈ Catalog.table.keys := by decide +kernel
      exact fun r hr d hd => Or.inr (Or.inl (htypes r hr d hd))
  refine ⟨by decide +kernel, no_dangling_names ?_ (reached_run _ _ _)⟩
  rintro index ⟨⟩
  refine ⟨?_, ?_⟩
  · rintro summaries ⟨⟩ m hm
    cases hm
  · rintro name m ⟨⟩
    exact hmodule

end Inference

end ContentAssist
