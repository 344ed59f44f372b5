import ContentAssist.Proofs.Inference.Intact
import ContentAssist.Proofs.Inference.MemberStop
import ContentAssist.Proofs.Inference.Renaming
import ContentAssist.Proofs.Inference.Sound
import ContentAssist.Proofs.Record.FileNames

/-! # The same program in another file

An inference that consults no other file depends on how its own file is called in one thing: what it
generates is named after the file. Each step goes with a renaming of records, so a run does that starts
in the fresh environment of another file. The renaming exchanges the names of the two files; as the first
run comes by no name of the other file, nothing but its own names is renamed.

* `renamed_visit`, `renamed_run`: walks and runs;
* `Renamed.congr`: of a sound state only known names matter;
* `run_renameFile`: a program in another file. -/

namespace ContentAssist

open Inference
open Ty (generatedName)

/-! ### Names that a sound environment knows -/

namespace Environment

variable {f : String → String} {env : Environment}

theorem renamed_start (hf : Renames f) {u v : String}
    (hgenerated : ∀ k, f (generatedName u k) = generatedName v k) :
    Renamed f (start u) (start v) where
  generated := hgenerated
  types := (Table.rename_catalog hf).symm
  scopes := by
    have hglobal : Ty.global.rename f = .global := hf.rename_standard (by simp [standardTypes])
    exact congrArg (Scopes.mk · []) (Ty.named.inj hglobal).symm
  count := rfl
  plain := Table.plain_catalog

theorem Sound.known_scope (h : env.Sound) {target : Option Ty}
    (ht : ∀ t, target = some t → env.types.Covers t) : Known env.uid (env.scope target) := by
  match target with
  | none => exact h.table.known_of_key h.current_mem_keys
  | some (.named n) => exact h.table.known_leaf (ht _ rfl)
  | some (.function r params) =>
    dsimp only [scope]
    split
    · rename_i hkey
      exact h.table.known_of_key (env.types.contains_iff.1 hkey)
    · exact Or.inr (leaf_mem_catalogNames (.named "Function") (by simp [standardTypes]))

end Environment

namespace Inference

variable {f g : String → String} {task : Task} {n m root : Node} {s s' s₀ : State} {scope : String}
  {env env' : Environment}

/-! ### Walks -/

section Walk
variable (hf : Renames f) (hindex : task.index? = none)
include hf hindex

/-- **The way up** from a renamed state comes to the renamed outcome. -/
theorem renamed_leave (hdown : Node.Descended (visitor task) n s₀ s) (h : Renamed f s s') :
    RenamedOutcome f (leave task n s) (leave task n s') := by
  have hnode := renamed_leaveNode hf h hindex n fun hkind hclose =>
    (firstName_of_descended hkind hdown hclose).imp fun _ hc leaf => hc.2 (some leaf)
  unfold leave
  rcases hnode.cases with ⟨s₁, s₁', hs, hs', h₁⟩ | ⟨a, s₁, s₁', hs, hs', h₁⟩ <;> rw [hs, hs']
  · exact ⟨rfl, renamed_settle hf h₁ n⟩
  · exact ⟨rfl, h₁⟩

omit hf hindex in
theorem renamed_visitEach {cs : List Node}
    (ih : ∀ c ∈ cs, ∀ {s s'}, Renamed f s s' →
      RenamedOutcome f (c.visit (visitor task) s) (c.visit (visitor task) s'))
    (h : Renamed f s s') :
    RenamedOutcome f (Node.visitEach (visitor task) cs s) (Node.visitEach (visitor task) cs s') := by
  induction cs generalizing s s' with
  | nil => exact ⟨rfl, h⟩
  | cons c cs ihc =>
    have hc := ih c List.mem_cons_self h
    rw [Node.visitEach, Node.visitEach]
    rcases hc.cases with ⟨s₁, s₁', hs, hs', h₁⟩ | ⟨a, s₁, s₁', hs, hs', h₁⟩ <;> rw [hs, hs']
    · exact ihc (fun k hk => ih k (List.mem_cons_of_mem _ hk)) h₁
    · exact ⟨rfl, h₁⟩

/-- **A walk** from a renamed state comes to the renamed outcome. -/
theorem renamed_visit (n : Node) (h : Renamed f s s') :
    RenamedOutcome f (n.visit (visitor task) s) (n.visit (visitor task) s') := by
  induction n using Node.induct generalizing s s' with
  | step n ih =>
    obtain ⟨hresult, henter⟩ := renamed_enter hf h hindex n
    rw [Node.visit_eq, Node.visit_eq, show (visitor task).enter n s = enter task n s from rfl,
      show (visitor task).enter n s' = enter task n s' from rfl]
    rcases he : enter task n s with ⟨result, s₁⟩
    rcases he' : enter task n s' with ⟨result', s₁'⟩
    rw [he, he'] at hresult henter
    obtain rfl : result' = result := hresult
    cases result' with
    | found a =>
      -- the way down only finds faults
      cases a with
      | error fault => exact ⟨rfl, henter⟩
      | ok scope => exact absurd he enter_ne_found_ok
    | skip => exact ⟨rfl, henter⟩
    | descend =>
      have heach := renamed_visitEach ih henter
      dsimp only at heach ⊢
      rcases heach.cases with ⟨s₂, s₂', hs, hs', h₂⟩ | ⟨a, s₂, s₂', hs, hs', h₂⟩ <;> rw [hs, hs']
      · exact renamed_leave hf hindex ⟨s₁, he, hs⟩ h₂
      · exact ⟨rfl, h₂⟩

/-! ### Runs -/

omit hindex in
theorem renamed_addDeclaredGlobals (root : Node) (h : env.Renamed f env') :
    (addDeclaredGlobals root env).Renamed f (addDeclaredGlobals root env') := by
  have hnames : ∀ (names : List String) (span : Option Span) {env env' : Environment},
      env.Renamed f env' →
        Environment.Renamed f
          (names.foldl (fun env name => (env.addOrSet (some name) none none span).2) env)
          (names.foldl (fun env name => (env.addOrSet (some name) none none span).2) env') := by
    intro names span
    induction names with
    | nil => exact id
    | cons name names ih => exact fun h => ih (h.addOrSet_none hf (some name) none (by simp) span).2
  unfold addDeclaredGlobals
  split
  · exact h
  · exact hnames _ _ h

/-- **A run** from a renamed environment comes to the renamed answer and state. -/
theorem renamed_run (root : Node) (h : env.Renamed f env') :
    (run task root env').1 = (run task root env).1.map f ∧
      Renamed f (run task root env).2 (run task root env').2 := by
  have hstart : Renamed f { env := addDeclaredGlobals root env }
      { env := addDeclaredGlobals root env' } :=
    ⟨renamed_addDeclaredGlobals hf root h, fun _ => rfl, rfl, rfl, rfl⟩
  have hwalk := renamed_visit hf hindex root hstart
  unfold run addIndexedGlobals walk
  rw [hindex]
  dsimp only
  rcases hwalk.cases with ⟨s, s', hs, hs', h⟩ | ⟨a, s, s', hs, hs', h⟩ <;> rw [hs, hs'] <;>
    exact ⟨rfl, h⟩

end Walk

/-! ### Known names -/

/-- A sound state is renamed alike by maps that agree on the names that its file knows. -/
theorem Renamed.congr (h : Renamed f s s') (hs : Sound s) (hfg : ∀ n, Known s.env.uid n → f n = g n) :
    Renamed g s s' where
  env := by
    have hkey : ∀ n ∈ s.env.types.keys, f n = g n := fun n hn =>
      hfg n (hs.env.table.known_of_key hn)
    refine ⟨fun k => ?_, ?_, ?_, h.env.count, h.env.plain⟩
    · rw [← hfg _ (Or.inl (own_generatedName s.env.uid k)), h.env.generated]
    · rw [h.env.types]
      refine Table.rename_congr hs.env.table.keys fun n r hr =>
        ⟨hkey n (s.env.types.mem_keys_of_find? hr), fun d hd => ?_⟩
      exact hfg _ (hs.env.table.known_leaf (hs.env.table.definitions hr hd).type)
    · rw [h.env.scopes]
      refine congrArg₂ Scopes.mk ?_ (List.map_congr_left fun n hn => hkey n (hs.env.inner n hn))
      rw [hs.env.outermost]
      exact hkey _ hs.env.table.globals
  facts := by
    intro place
    rw [h.facts]
    refine congrArg (fun t => { s.facts.at place with type := t }) (Option.map_congr fun t ht => ?_)
    exact t.rename_congr f (hfg _ (hs.env.table.known_leaf (hs.fact place t ht)))
  amdModule := h.amdModule
  wrappedModule := h.wrappedModule
  events := h.events

theorem Sound.known_answer (hs : Sound s) (h : Answers task n s scope) : Known s.env.uid scope := by
  have htype : ∀ place t, (s.facts.at place).type = some t → s.env.types.Covers t := hs.fact
  cases h with
  | program => exact hs.env.known_scope (by simp)
  | block => exact hs.env.known_scope (by simp)
  | member =>
    refine hs.env.known_scope fun t ht => ?_
    cases ht
    unfold State.typeOf
    cases hf : (s.fact (n.get "object")).type with
    | none => exact hs.env.covers_object
    | some t => exact htype _ t hf
  | identifier =>
    refine hs.env.known_scope fun t ht => ?_
    obtain ⟨place, -, ht⟩ := Option.bind_eq_some_iff.1 ht
    exact htype place t ht

theorem StopsAt.answers (h : StopsAt task root env m scope s) : Answers task m s scope := by
  obtain ⟨s₀, -, hv⟩ := h
  exact answers_of_visit hv

/-! ### Another file -/

/-- **A program in another file.** The inference of a program that consults no other file does not depend
on how its own file is called. For two files it stops at the same node, and the answered record, the
scopes, the table in its order and the types of all nodes are the same but for the names that were
generated for the file and those derived from them. -/
theorem run_renameFile (hprogram : root.kind = .program) (source : String) (cursor : Cursor)
    (u v : String) :
    ∃ m scope s s', run ⟨source, cursor, none⟩ root (.start u) = (.ok scope, s) ∧
      run ⟨source, cursor, none⟩ root (.start v) = (.ok (renameFile u v scope), s') ∧
      StopsAt ⟨source, cursor, none⟩ root (.start u) m scope s ∧
      StopsAt ⟨source, cursor, none⟩ root (.start v) m (renameFile u v scope) s' ∧
      Renamed (renameFile u v) s s' := by
  let task : Task := ⟨source, cursor, none⟩
  have hindex : task.index? = none := rfl
  have hswap := renames_swapFiles u v
  obtain ⟨hanswer, hstate⟩ := renamed_run hswap hindex root
    (Environment.renamed_start hswap (swapFiles_generatedName u v))
  obtain ⟨scope, s, hrun⟩ := exists_run_ok hprogram task hindex (.start u)
  obtain ⟨scope', s', hrun'⟩ := exists_run_ok hprogram task hindex (.start v)
  have hsound := sound_run hindex root (Environment.sound_start u)
  have huid : (run task root (.start u)).2.env.uid = u := uid_run hindex root (.start u)
  rw [hrun] at hanswer hstate hsound huid
  rw [hrun'] at hanswer hstate
  -- only the names of the first file occur in its run, so nothing was exchanged
  have hknown : ∀ n, Known s.env.uid n → swapFiles u v n = renameFile u v n := by
    rw [show s.env.uid = u from huid]
    exact fun n => swapFiles_of_known v
  obtain ⟨m, hstop⟩ := exists_stopsAt_of_run hrun
  obtain ⟨m', hstop'⟩ := exists_stopsAt_of_run hrun'
  obtain rfl : m = m' := Option.some.inj (hstop.halt?.symm.trans hstop'.halt?)
  have hscope : scope' = swapFiles u v scope := Except.ok.inj hanswer
  rw [hscope, hknown scope (hsound.known_answer hstop.answers)] at hrun' hstop'
  exact ⟨m, scope, s, s', hrun, hrun', hstop, hstop', hstate.congr hsound hknown⟩

/-- The objects of `function Error() {}` have a generated name, as that of the function is taken. So the
names of the records of the constructor and of its prototype are derived from a generated one, here in a
file whose own name ends like such a name. -/
theorem run_renameFile_replacing :
    (run ⟨"", none, none⟩ replacingProgram (.start "b~1")).2.env.types.keys.filter
      (Text.startsWith "?gen") = ["?gen~b~1~1:", "?gen~b~1~1:~proto"] := by
  obtain ⟨-, scope, s, s', hrun, hrun', -, -, hrenamed⟩ :=
    @run_renameFile replacingProgram (by decide +kernel) "" none "a" "b~1"
  have hkeys : ((run ⟨"", none, none⟩ replacingProgram (.start "a")).2.env.types.keys.map
      (renameFile "a" "b~1")).filter (Text.startsWith "?gen") =
        ["?gen~b~1~1:", "?gen~b~1~1:~proto"] := by
    decide +kernel
  rw [hrun] at hkeys
  rw [hrun', hrenamed.env.types]
  exact (congrArg (List.filter (Text.startsWith "?gen")) (OrderedMap.keys_relabel _ _ _)).trans hkeys

end Inference

end ContentAssist
