import ContentAssist.Proofs.Environment.Sound
import ContentAssist.Proofs.Inference.Leave

/-! # Sound inferences

An inference without an index keeps its environment sound, and the types that nodes get end in names
of records. Each kind of change keeps this, so a walk does, and a run begins with it.

* `Sound`: the invariant of a state;
* `covers_of_offers`: the types at hand;
* `Change.sound`: one change, `sound_of_run`: a run. -/

namespace ContentAssist.Inference

open Table (Covers covers_named)

variable {task : Task} {at_ : Place} {s s' : State} {n : Node}

/-- The environment is sound, and the types of nodes are covered. -/
structure Sound (s : State) : Prop where
  env : s.env.Sound
  fact : ∀ place type, (s.facts.at place).type = some type → s.env.types.Covers type

theorem Sound.withEnv (h : Sound s) {env : Environment} (hkeeps : Environment.Keeps s.env env) :
    Sound (s.withEnv env) :=
  ⟨hkeeps.sound, fun place type ht => (h.fact place type ht).mono hkeeps.subset⟩

theorem covers_of_offers (h : Sound s) (hindex : task.index? = none) {type : Ty}
    (ht : Offers task s type) : s.env.types.Covers type := by
  induction ht with
  | lasting ht =>
    cases ht with
    | builtin hn => exact covers_named (h.env.table.mem_keys_of_builtin hn)
    | generated hk => exact covers_named (h.env.generated _ hk)
    | provided hsome => cases hindex.symm.trans hsome
  | fact ht => exact h.fact _ _ ht
  | member ht => exact h.env.covers_of_lookup? ht
  | result _ ih => exact ih.result
  | function _ ih => exact ih

theorem Sound.learn (h : Sound s) (n : Node) (f : Fact → Fact)
    (hf : ∀ type, (f (s.fact n)).type = some type → s.env.types.Covers type) : Sound (s.learn n f) := by
  refine ⟨h.env, fun place type ht => ?_⟩
  rw [at_learn] at ht
  split at ht
  · exact hf type ht
  · exact h.fact place type ht

theorem keeps_constructed {env : Environment} (h : env.Sound) {name : String} (span : Option Span)
    (hname : isConstructorName name = true) :
    Environment.Keeps env (constructed env (some name) span).2 ∧
      (constructed env (some name) span).1 ∈ (constructed env (some name) span).2.types.keys := by
  have hwant : ∀ n, some name = some n → Own env.uid n ∨ n ∈ Catalog.table.keys := by
    rintro n ⟨⟩
    by_cases hkey : name ∈ Catalog.table.keys
    · exact Or.inr hkey
    · exact Or.inl (Or.inr ⟨name, hname, hkey, List.mem_cons_self⟩)
  obtain ⟨hobj, hkey⟩ := Environment.keeps_newObject h (some name) span hwant
  have huid := env.newObject_uid (some name) span
  have hbase : ∀ n ∈ derivedNames (env.newObject (some name) span).1,
      Own (env.newObject (some name) span).2.uid n := by
    rw [huid]
    intro n hn
    have hscope := Environment.keeps_newScope h span
    rcases hscope.sound.objectName_cases (some name) hwant with ⟨he, -⟩ | ⟨m, hm, he, hown⟩
    · have hfst : (env.newObject (some name) span).1 = Ty.generatedName env.uid (env.count + 1) :=
        congrArg Prod.fst he
      exact own_of_generated (hfst ▸ hn)
    · have hfst : (env.newObject (some name) span).1 = m := congrArg Prod.fst he
      cases hm
      rw [hfst] at hn
      exact Or.inr ⟨name, hname, own_not_key hown, hn⟩
  have hcon := Environment.keeps_createConstructor hobj.sound hbase
  exact ⟨hobj.trans hcon, hcon.subset hkey⟩

/-- **One change** keeps a state sound. -/
theorem Change.sound (hindex : task.index? = none) (h : Sound s) (hc : Change task at_ s s') :
    Sound s' := by
  cases hc with
  | report henv hfacts hevents =>
    refine ⟨henv ▸ h.env, fun place type ht => ?_⟩
    rw [henv]
    exact h.fact place type (hfacts ▸ ht)
  | remark n f hn htype hbody =>
    exact h.learn n f fun type ht => h.fact n.place type ((htype _).symm.trans ht)
  | markBody n b hn =>
    exact h.learn (n.get "body") _ fun type ht => h.fact (n.get "body").place type ht
  | retype n o hn ho =>
    exact h.learn n _ fun type ht => covers_of_offers h hindex (ho type ht)
  | bind name target span ht =>
    exact h.withEnv (Environment.keeps_addVariable h.env _ _ (covers_of_offers h hindex ht) _)
  | assign name target span ht =>
    exact h.withEnv (Environment.keeps_addOrSet h.env _ _ (covers_of_offers h hindex ht) _)
  | enterScope => exact h.withEnv (Environment.keeps_newScope h.env none)
  | enterObject span => exact h.withEnv (Environment.keeps_newObject h.env none span (by simp)).1
  | construct n span params hn hname =>
    obtain ⟨hkeeps, hkey⟩ := keeps_constructed h.env span hname
    refine (h.withEnv hkeeps).learn n _ fun type ht => ?_
    cases ht
    exact covers_named hkey
  | create span => exact h.withEnv (Environment.keeps_newFleetingObject h.env none span (by simp)).1
  | leaveScope hpop => exact h.withEnv (Environment.keeps_popScope? h.env hpop)
  | load hsome name => cases hindex.symm.trans hsome

theorem Changes.sound (hindex : task.index? = none) (h : Sound s) (hc : Changes task at_ s s') :
    Sound s' := by
  induction hc with
  | refl => exact h
  | tail _ hc ih => exact hc.sound hindex ih

/-! ### Runs -/

theorem sound_addDeclaredGlobals (root : Node) {env : Environment} (h : env.Sound) :
    (addDeclaredGlobals root env).Sound :=
  addDeclaredGlobals_induction root h fun _ _ _ _ he => (Environment.keeps_addOrSet_none he _ _).sound

/-- **A run** without an index ends in a sound state. -/
theorem sound_run (hindex : task.index? = none) (root : Node) {env : Environment} (h : env.Sound) :
    Sound (run task root env).2 := by
  have hstart : Sound { env := addDeclaredGlobals root env } :=
    ⟨sound_addDeclaredGlobals root h, by
      intro place type ht
      cases ht⟩
  have hwalk := Changes.sound hindex hstart (changes_visit task root _)
  unfold run addIndexedGlobals walk
  rw [hindex]
  dsimp only
  rcases hv : root.visit (visitor task) { env := addDeclaredGlobals root env } with ⟨_ | a, s⟩ <;>
    rw [hv] at hwalk <;> exact hwalk

theorem uid_addDeclaredGlobals (root : Node) (env : Environment) :
    (addDeclaredGlobals root env).uid = env.uid := by
  refine addDeclaredGlobals_induction (P := fun e => e.uid = env.uid) root rfl ?_
  intro e name span _ he
  rw [Environment.addOrSet_none _ _ _ _ (by simp)]
  simpa using he

theorem uid_run (hindex : task.index? = none) (root : Node) (env : Environment) :
    (run task root env).2.env.uid = env.uid := by
  have hwalk := (changes_visit task root { env := addDeclaredGlobals root env }).onward.uid
  have hglobals := uid_addDeclaredGlobals root env
  unfold run addIndexedGlobals walk
  rw [hindex]
  dsimp only
  rcases hv : root.visit (visitor task) { env := addDeclaredGlobals root env } with ⟨_ | a, s⟩ <;>
    rw [hv] at hwalk <;> exact hwalk.trans hglobals

/-- The state in which an inference of the file alone ends, with the table of that file. -/
theorem sound_of_run {source file : String} {root : Node} {answer : Except Fault String}
    (h : run ⟨source, none, none⟩ root (.start file) = (answer, s)) :
    Sound s ∧ Table.Sound file s.env.types := by
  have hsound := @sound_run ⟨source, none, none⟩ rfl root _ (Environment.sound_start file)
  have huid := @uid_run ⟨source, none, none⟩ rfl root (.start file)
  rw [h] at hsound huid
  have hfile : s.env.uid = file := huid
  exact ⟨hsound, hfile ▸ hsound.env.table⟩

end ContentAssist.Inference
