import ContentAssist.Proofs.Environment.Intact
import ContentAssist.Proofs.Inference.Leave

/-! # An inference leaves builtin records alone

Each kind of change keeps the builtin records, so whatever a program declares or assigns and whatever
an index offers, a run ends with the builtin records of the catalog, also where a fault ends it.

* `Change.intact`: one change;
* `builtin_find?_run`: a run. -/

namespace ContentAssist.Inference

variable {task : Task} {at_ : Place} {s s' : State}

/-! ### Changes -/

theorem intact_applySummary (h : s.env.types.Intact) (summary : Summary) :
    (applySummary s summary).2.env.types.Intact := by
  unfold applySummary
  split
  · exact Environment.intact_mergeSummary (Environment.intact_newFleetingObject h none none) _ _
  · exact Environment.intact_mergeSummary h _ _

theorem intact_loadModule (h : s.env.types.Intact) (index : Index) (name : String) :
    (loadModule index name s).2.env.types.Intact := by
  unfold loadModule
  dsimp only
  split
  · exact h
  · exact h
  · exact intact_applySummary (s := s.happened (.askedModule name)) h _

theorem intact_constructed {env : Environment} (h : env.types.Intact) (name : Name)
    (span : Option Span) : (constructed env name span).2.types.Intact :=
  Environment.intact_createConstructor (Environment.intact_newObject h name span) _
    (Environment.newObject_not_builtin h name span)

/-- **One change** keeps the builtin records. -/
theorem Change.intact (h : s.env.types.Intact) (hc : Change task at_ s s') :
    s'.env.types.Intact := by
  cases hc with
  | report henv hfacts hevents => exact henv ▸ h
  | remark n f hn htype hbody => exact h
  | markBody n b hn => exact h
  | retype n o hn ho => exact h
  | bind name target span ht => exact Environment.intact_addVariable h name target _ span
  | assign name target span ht => exact Environment.intact_addOrSet h name target _ span
  | enterScope => exact Environment.intact_newScope h none
  | enterObject span => exact Environment.intact_newObject h none span
  | @construct n name span params hn hname => exact intact_constructed h (some name) span
  | create span => exact Environment.intact_newFleetingObject h none span
  | leaveScope hpop => exact Environment.intact_popScope? h hpop
  | load hindex name => exact intact_loadModule h _ _

theorem Changes.intact (h : s.env.types.Intact) (hc : Changes task at_ s s') :
    s'.env.types.Intact := by
  induction hc with
  | refl => exact h
  | tail _ hc ih => exact hc.intact ih

/-! ### Runs -/

theorem intact_addDeclaredGlobals (root : Node) {env : Environment} (h : env.types.Intact) :
    (addDeclaredGlobals root env).types.Intact :=
  addDeclaredGlobals_induction (P := fun env => env.types.Intact) root h
    fun _ _ _ _ he => Environment.intact_addOrSet_none he _ _

theorem intact_mergeSummaries (summaries : List Summary) (target : String) {env : Environment}
    (h : env.types.Intact) :
    (summaries.foldl (fun env m => env.mergeSummary m target) env).types.Intact := by
  induction summaries generalizing env with
  | nil => exact h
  | cons m summaries ih => exact ih (Environment.intact_mergeSummary h m target)

theorem intact_addIndexedGlobals (task : Task) (h : s.env.types.Intact) :
    (addIndexedGlobals task s).2.env.types.Intact := by
  unfold addIndexedGlobals
  split
  · exact h
  · dsimp only
    split
    · exact h
    · exact intact_mergeSummaries _ _ h

theorem intact_walk (task : Task) (root : Node) (h : s.env.types.Intact) :
    (walk task root s).2.env.types.Intact := by
  have hwalk := (changes_visit task root s).intact h
  unfold walk
  rcases hv : root.visit (visitor task) s with ⟨_ | a, s'⟩ <;> rw [hv] at hwalk <;> exact hwalk

theorem intact_run (task : Task) (root : Node) {env : Environment} (h : env.types.Intact) :
    (run task root env).2.env.types.Intact := by
  have hglobals := intact_addIndexedGlobals (s := { env := addDeclaredGlobals root env }) task
    (intact_addDeclaredGlobals root h)
  unfold run
  rcases hg : addIndexedGlobals task { env := addDeclaredGlobals root env } with ⟨fault | _, s⟩ <;>
    rw [hg] at hglobals
  · exact hglobals
  · exact intact_walk task root hglobals

/-- **Builtin records are never changed.** However an inference in a fresh environment ends, the
builtin records are found in it as the catalog has them. -/
theorem builtin_find?_run (task : Task) (root : Node) (uid : String) {n : String} {r : Record}
    (hr : Catalog.table.find? n = some r) (hb : r.builtin = true) :
    (run task root (.start uid)).2.env.types.find? n = some r := by
  have hintact : (run task root (.start uid)).2.env.types.Intact :=
    intact_run task root Table.intact_catalog
  rw [hintact n ((Table.mem_builtinNames_iff hr).2 hb), hr]

/-- The tree of `function Error() {} Error.prototype = {};`. -/
def replacingProgram : Node :=
  let identifier (name : String) : Json := .obj [("type", .str "Identifier"), ("name", .str name)]
  .root (.obj [("type", .str "Program"), ("body", .arr [
    .obj [("type", .str "FunctionDeclaration"), ("id", identifier "Error"), ("params", .arr []),
      ("body", .obj [("type", .str "BlockStatement"), ("body", .arr [])])],
    .obj [("type", .str "ExpressionStatement"), ("expression", .obj [
      ("type", .str "AssignmentExpression"), ("operator", .str "="),
      ("left", .obj [("type", .str "MemberExpression"), ("object", identifier "Error"),
        ("property", identifier "prototype")]),
      ("right", .obj [("type", .str "ObjectExpression"), ("properties", .arr [])])])]])])

/-- Another file whose globals bring an empty record of errors, in place of the builtin one. -/
def replacingIndex : Index where
  globals := .ok [{ provided := .record {}, types := ⟨[("Error", {})]⟩ }]
  summary? _ := .ok none

/-- Neither the program nor the other file replaces the builtin record of errors. -/
theorem builtin_find?_run_replacing :
    (run ⟨"", none, some replacingIndex⟩ replacingProgram (.start "file")).2.env.types.find? "Error" =
      some (Catalog.builtinRecord "Error"
        [("name", "String"), ("message", "String"), ("stack", "String")]) := by
  have hr : Catalog.table.find? "Error" = some (Catalog.builtinRecord "Error"
      [("name", "String"), ("message", "String"), ("stack", "String")]) := by decide +kernel
  exact builtin_find?_run _ _ _ hr rfl

end ContentAssist.Inference
