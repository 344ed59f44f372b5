import ContentAssist.Environment.Lemmas
import ContentAssist.Inference.Run
import ContentAssist.Proofs.Tree.Visit
import Mathlib.Logic.Relation

/-! # What an inference can do to its state

Every rule of the inference is a sequence of a few kinds of change: facts about the node at hand and
the values in its fields, bindings and assignments of types that the state offers, new records,
entering and leaving scopes, and taking over summaries. `Change` lists them with what is known of
their arguments. What each kind of change keeps, a walk keeps.

* `Offers`: the types that a rule can have at hand in a state;
* `Change`: one change, its facts at or below a given place;
* `Onward`: what only grows;
* `Framed`: what is left alone, the facts elsewhere in the tree. -/

namespace ContentAssist.Inference

open Relation

/-! ### Types at hand -/

/-- The types that stay at hand whatever happens: builtin ones, those of the records that were made,
and those that dependencies provide. -/
inductive Lasting (task : Task) (s : State) : Ty → Prop
  | builtin {name : String} (h : name ∈ Catalog.builtinMembers.map (·.1)) :
      Lasting task s (.named name)
  | generated {k : Nat} (h : k < s.env.count) :
      Lasting task s (.named (Ty.generatedName s.env.uid k))
  | provided {index : Index} {name : String} {summary : Summary} {t : Ty}
      (hindex : task.index? = some index) (hasked : .askedModule name ∈ s.events)
      (hsummary : index.summary? name = .ok (some summary)) (ht : summary.provided = .type t) :
      Lasting task s t

/-- The types that a rule can have at hand in a state. -/
inductive Offers (task : Task) (s : State) : Ty → Prop
  | lasting {t : Ty} (h : Lasting task s t) : Offers task s t
  | fact {place : Place} {t : Ty} (h : (s.facts.at place).type = some t) : Offers task s t
  | member {name : Name} {target : Option Ty} {t : Ty} (h : s.env.lookup? name target = some t) :
      Offers task s t
  | result {t : Ty} (h : Offers task s t) : Offers task s t.result
  | function {t : Ty} {params : List String} (h : Offers task s t) :
      Offers task s (.function t params)

/-- A new object named as a constructor, with the constructor's records. -/
def constructed (env : Environment) (name : Name) (span : Option Span) : String × Environment :=
  let (object, env) := env.newObject name span
  (object, env.createConstructor (.named object) object)

/-- One change of a state. Facts change at or below the place `at_` only. -/
inductive Change (task : Task) (at_ : Place) : State → State → Prop
  /-- A remark for the log, or a finding about the module. -/
  | report {s s' : State} (henv : s'.env = s.env) (hfacts : s'.facts = s.facts)
      (hevents : s'.events = s.events ∨ ∃ e, s'.events = s.events ++ [.logged e]) :
      Change task at_ s s'
  /-- Something is learnt about a node other than its type. -/
  | remark (s : State) (n : Node) (f : Fact → Fact) (hn : at_ <:+ n.place)
      (htype : ∀ k, (f k).type = k.type)
      (hbody : ∀ k, (f k).isConstructorBody = k.isConstructorBody) :
      Change task at_ s (s.learn n f)
  /-- The body of a function learns whether the function is a constructor. -/
  | markBody (s : State) (n : Node) (b : Bool) (hn : at_ <:+ n.place) :
      Change task at_ s (s.learn (n.get "body") fun k => { k with isConstructorBody := b })
  /-- A node gets a type, or loses it. -/
  | retype (s : State) (n : Node) (o : Option Ty) (hn : at_ <:+ n.place)
      (ho : ∀ t, o = some t → Offers task s t) :
      Change task at_ s (s.learn n fun k => { k with type := o })
  | bind (s : State) (name : Name) (target : Option Ty) {t : Ty} (span : Option Span)
      (ht : Offers task s t) : Change task at_ s (s.bind name target t span)
  | assign (s : State) (name : Name) (target : Option Ty) {t : Ty} (span : Option Span)
      (ht : Offers task s t) : Change task at_ s (s.assign name target t span)
  | enterScope (s : State) : Change task at_ s (s.withEnv (s.env.newScope none).2)
  | enterObject (s : State) (span : Option Span) :
      Change task at_ s (s.withEnv (s.env.newObject none span).2)
  /-- A constructor gets its records and its type. -/
  | construct (s : State) (n : Node) {name : String} (span : Option Span) (params : List String)
      (hn : at_ <:+ n.place) (hname : isConstructorName name = true) :
      Change task at_ s ((s.withEnv (constructed s.env (some name) span).2).setType n
        (.function (.named (constructed s.env (some name) span).1) params))
  | create (s : State) (span : Option Span) :
      Change task at_ s (s.withEnv (s.env.newFleetingObject none span).2)
  | leaveScope {s : State} {name : String} {env : Environment}
      (h : s.env.popScope? = some (name, env)) : Change task at_ s (s.withEnv env)
  /-- The index is asked for a module, and its summary is taken over. -/
  | load (s : State) {index : Index} (hindex : task.index? = some index) (name : String) :
      Change task at_ s (loadModule index name s).2

/-- Changes one after the other. -/
abbrev Changes (task : Task) (at_ : Place) : State → State → Prop :=
  ReflTransGen (Change task at_)

variable {task : Task} {at_ : Place} {s s' : State} {n : Node}

/-- Changes below a place are changes below any place above it. -/
theorem Change.mono {at' : Place} (hat : at' <:+ at_) (h : Change task at_ s s') :
    Change task at' s s' := by
  cases h with
  | report henv hfacts hevents => exact .report henv hfacts hevents
  | remark n f hn htype hbody => exact .remark _ n f (hat.trans hn) htype hbody
  | markBody n b hn => exact .markBody _ n b (hat.trans hn)
  | retype n o hn ho => exact .retype _ n o (hat.trans hn) ho
  | bind name target span ht => exact .bind _ name target span ht
  | assign name target span ht => exact .assign _ name target span ht
  | enterScope => exact .enterScope _
  | enterObject span => exact .enterObject _ span
  | construct n span params hn hname => exact .construct _ n span params (hat.trans hn) hname
  | create span => exact .create _ span
  | leaveScope h => exact .leaveScope h
  | load hindex name => exact .load _ hindex name

theorem Changes.mono {at' : Place} (hat : at' <:+ at_) (h : Changes task at_ s s') :
    Changes task at' s s' :=
  ReflTransGen.mono (fun _ _ hc => Change.mono hat hc) _ _ h

/-! ### What goes on -/

/-- The file stays, names count up, and events are added. -/
structure Onward (s s' : State) : Prop where
  uid : s'.env.uid = s.env.uid
  count : s.env.count ≤ s'.env.count
  events : s.events <+: s'.events

theorem Onward.refl (s : State) : Onward s s := ⟨rfl, Nat.le_refl _, List.prefix_rfl⟩

theorem Onward.trans {s₁ s₂ s₃ : State} (h : Onward s₁ s₂) (h' : Onward s₂ s₃) : Onward s₁ s₃ :=
  ⟨h'.uid.trans h.uid, Nat.le_trans h.count h'.count, h.events.trans h'.events⟩

theorem onward_withEnv {s : State} {env : Environment} (huid : env.uid = s.env.uid)
    (hcount : s.env.count ≤ env.count) : Onward s (s.withEnv env) :=
  ⟨huid, hcount, List.prefix_rfl⟩

theorem onward_learn (s : State) (n : Node) (f : Fact → Fact) : Onward s (s.learn n f) :=
  ⟨rfl, Nat.le_refl _, List.prefix_rfl⟩

theorem onward_applySummary (s : State) (summary : Summary) :
    Onward s (applySummary s summary).2 := by
  unfold applySummary
  split
  · exact onward_withEnv (by simp) (by simp)
  · exact onward_withEnv (by simp) (by simp)

theorem onward_loadModule (index : Index) (name : String) (s : State) :
    Onward s (loadModule index name s).2 := by
  have hask : Onward s (s.happened (.askedModule name)) :=
    ⟨rfl, Nat.le_refl _, List.prefix_append _ _⟩
  unfold loadModule
  dsimp only
  split
  · exact hask
  · exact hask
  · exact hask.trans (onward_applySummary _ _)

theorem constructed_uid (env : Environment) (name : Name) (span : Option Span) :
    (constructed env name span).2.uid = env.uid := by
  simp [constructed]

theorem le_constructed_count (env : Environment) (name : Name) (span : Option Span) :
    env.count ≤ (constructed env name span).2.count := by
  exact Nat.le_trans (env.le_newObject_count name span)
    ((env.newObject name span).2.le_createConstructor_count _ _)

theorem Change.onward (h : Change task at_ s s') : Onward s s' := by
  cases h with
  | report henv hfacts hevents =>
    refine ⟨by rw [henv], Nat.le_of_eq (by rw [henv]), ?_⟩
    rcases hevents with h | ⟨e, h⟩
    · exact h ▸ List.prefix_rfl
    · exact h ▸ List.prefix_append _ _
  | remark n f hn htype hbody => exact onward_learn _ _ _
  | markBody n b hn => exact onward_learn _ _ _
  | retype n o hn ho => exact onward_learn _ _ _
  | bind name target span ht => exact ⟨rfl, Nat.le_refl _, List.prefix_rfl⟩
  | assign name target span ht =>
    exact onward_withEnv (s.env.addOrSet_some_uid _ _ _ _)
      (Nat.le_of_eq (s.env.addOrSet_some_count _ _ _ _).symm)
  | enterScope => exact onward_withEnv rfl (Nat.le_succ _)
  | enterObject span =>
    exact onward_withEnv (Environment.newObject_uid _ _ _) (Environment.le_newObject_count _ _ _)
  | construct n span params hn hname =>
    exact (onward_withEnv (constructed_uid _ _ _) (le_constructed_count _ _ _)).trans
      (onward_learn _ _ _)
  | create span =>
    exact onward_withEnv (s.env.newFleetingObject_uid none span)
      (s.env.le_newFleetingObject_count none span)
  | leaveScope h =>
    exact onward_withEnv (Environment.uid_of_popScope? h)
      (Nat.le_of_eq (Environment.count_of_popScope? h).symm)
  | load hindex name => exact onward_loadModule _ _ _

theorem Changes.onward (h : Changes task at_ s s') : Onward s s' := by
  induction h with
  | refl => exact .refl _
  | tail _ hc ih => exact ih.trans hc.onward

/-! ### Offered types -/

theorem offers_builtin {name : String} (h : name ∈ Catalog.builtinMembers.map (·.1)) :
    Offers task s (.named name) := .lasting (.builtin h)

theorem offers_object : Offers task s .object := offers_builtin (by decide)

theorem offers_typeOf (task : Task) (s : State) (n : Node) : Offers task s (s.typeOf n) := by
  unfold State.typeOf State.fact
  cases h : (s.facts.at n.place).type with
  | none => exact offers_object
  | some t => exact .fact h

theorem at_learn (s : State) (n : Node) (f : Fact → Fact) (place : Place) :
    (s.learn n f).facts.at place = if n.place = place then f (s.fact n) else s.facts.at place := rfl

theorem at_learn_self (s : State) (n : Node) (f : Fact → Fact) :
    (s.learn n f).facts.at n.place = f (s.fact n) := by
  rw [at_learn, if_pos rfl]

theorem offers_setType (task : Task) (s : State) (n : Node) (t : Ty) :
    Offers task (s.setType n t) t :=
  .fact (congrArg Fact.type (at_learn_self s n fun k => { k with type := some t }))

theorem offers_literalType (n : Node) : Offers task s (literalType n) := by
  unfold literalType
  split
  · exact offers_builtin (by decide)
  · split <;> exact offers_builtin (by decide)

theorem Change.setType (hn : at_ <:+ n.place) {t : Ty} (ht : Offers task s t) :
    Change task at_ s (s.setType n t) :=
  .retype s n (some t) hn fun _ h => Option.some.inj h ▸ ht

theorem suffix_get (n : Node) (key : String) : n.place <:+ (n.get key).place :=
  List.suffix_cons _ _

/-! ### What is left alone -/

/-- The facts at places that are neither `at_` nor below it stay. Of the place itself it stays
whether it is that of a constructor's body. -/
structure Framed (at_ : Place) (s s' : State) : Prop where
  elsewhere : ∀ place, ¬ at_ <:+ place → s'.facts.at place = s.facts.at place
  body : (s'.facts.at at_).isConstructorBody = (s.facts.at at_).isConstructorBody

theorem Framed.of_facts_eq (h : s'.facts = s.facts) : Framed at_ s s' :=
  ⟨fun _ _ => by rw [h], by rw [h]⟩

theorem Framed.trans {s₁ s₂ s₃ : State} (h : Framed at_ s₁ s₂) (h' : Framed at_ s₂ s₃) :
    Framed at_ s₁ s₃ :=
  ⟨fun p hp => (h'.elsewhere p hp).trans (h.elsewhere p hp), h'.body.trans h.body⟩

theorem framed_learn (hn : at_ <:+ n.place) (f : Fact → Fact)
    (hbody : ∀ k, (f k).isConstructorBody = k.isConstructorBody) : Framed at_ s (s.learn n f) := by
  constructor
  · intro place hplace
    rw [at_learn, if_neg]
    rintro rfl
    exact hplace hn
  · rw [at_learn]
    split
    · rename_i h
      rw [hbody, State.fact, h]
    · rfl

theorem framed_learn_below {m : Node} {step : Step} (hm : m.place = step :: n.place)
    (hn : at_ <:+ n.place) (f : Fact → Fact) : Framed at_ s (s.learn m f) := by
  constructor
  · intro place hplace
    rw [at_learn, if_neg]
    rintro rfl
    exact hplace (hm ▸ hn.trans (List.suffix_cons _ _))
  · rw [at_learn, if_neg]
    intro h
    have := hn.length_le
    rw [← h, hm, List.length_cons] at this
    omega

theorem loadModule_facts (index : Index) (name : String) (s : State) :
    (loadModule index name s).2.facts = s.facts := by
  unfold loadModule applySummary
  dsimp only
  split
  · rfl
  · rfl
  · split <;> rfl

theorem Change.framed (h : Change task at_ s s') : Framed at_ s s' := by
  cases h with
  | report henv hfacts hevents => exact .of_facts_eq hfacts
  | remark n f hn htype hbody => exact framed_learn hn f hbody
  | markBody n b hn => exact framed_learn_below rfl hn _
  | retype n o hn ho => exact framed_learn hn _ fun _ => rfl
  | bind name target span ht => exact .of_facts_eq rfl
  | assign name target span ht => exact .of_facts_eq rfl
  | enterScope => exact .of_facts_eq rfl
  | enterObject span => exact .of_facts_eq rfl
  | @construct n name span params hn hname =>
    have henv : Framed at_ s (s.withEnv (constructed s.env (some name) span).2) := .of_facts_eq rfl
    exact henv.trans (framed_learn hn (fun k => { k with type := some _ }) fun _ => rfl)
  | create span => exact .of_facts_eq rfl
  | leaveScope h => exact .of_facts_eq rfl
  | load hindex name => exact .of_facts_eq (loadModule_facts _ _ _)

theorem Changes.framed (h : Changes task at_ s s') : Framed at_ s s' := by
  induction h with
  | refl => exact .of_facts_eq rfl
  | tail _ hc ih => exact ih.trans hc.framed

/-! ### Globals known beforehand -/

/-- The names that the comments of a program declare. -/
def declaredNames (root : Node) : List String :=
  ((root.list "comments").findSome? declaredGlobals?).getD []

/-- What assigning a new object to a declared name keeps, declaring globals keeps. -/
theorem addDeclaredGlobals_induction {P : Environment → Prop} (root : Node) {env : Environment}
    (h : P env) (hstep : ∀ env name span, name ∈ declaredNames root → P env →
      P (Environment.addOrSet env (some name) none none span).2) :
    P (addDeclaredGlobals root env) := by
  have hfold : ∀ (names : List String) (span : Option Span) (env : Environment),
      (∀ name ∈ names, name ∈ declaredNames root) → P env →
      P (names.foldl (fun env name => (env.addOrSet (some name) none none span).2) env) := by
    intro names span
    induction names with
    | nil => exact fun _ _ h => h
    | cons name names ih =>
      intro env hnames h
      exact ih _ (fun k hk => hnames k (List.mem_cons_of_mem _ hk))
        (hstep env name span (hnames name List.mem_cons_self) h)
  unfold addDeclaredGlobals
  split
  · exact h
  · rename_i comment names hfound
    refine hfold _ _ _ (fun name hname => ?_) h
    -- the comment that is found first declares the names
    obtain ⟨above, c, below, hlist, hc, habove⟩ := List.findSome?_eq_some_iff.1 hfound
    obtain ⟨ns, hns, heq⟩ := Option.map_eq_some_iff.1 hc
    cases heq
    have hnone : ∀ k ∈ above, declaredGlobals? k = none := fun k hk =>
      Option.map_eq_none_iff.1 (habove k hk)
    unfold declaredNames
    rw [hlist, List.findSome?_append, List.findSome?_eq_none_iff.2 hnone, Option.none_or,
      List.findSome?_cons, hns]
    exact hname

end ContentAssist.Inference
