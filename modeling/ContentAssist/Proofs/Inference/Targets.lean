import ContentAssist.Proofs.Inference.ScopeOpening
import ContentAssist.Proofs.Tree.Moves
import ContentAssist.Proofs.Tree.Place

/-! # Who is told to name a member

A node learns whose member it names at one time only: when a member access is entered, and then it is
the property of that access. No other step changes what is known of targets, so whatever stands
anywhere else names a variable. On the way up nothing is learnt but types, so whatever else is known of a
node is kept.

* `Kept`: something that is known of nodes was not learnt anew; `SameTargets`: no target was;
* `enter_of_kept`, `kept_leave`: what the way down keeps; the way up keeps all but the types;
* `target_enter`, `target_leave`: the two steps at a node;
* `target_visit`: a walk;
* `Pointed`, `pointed_of_mem_moves`: only properties have targets. -/

namespace ContentAssist.Inference

variable {task : Task} {n : Node} {s s' : State} {place : Place} {β : Type} {π : Fact → β}

/-- What `π` reads from the facts is the same for each place. -/
def Kept (π : Fact → β) (s s' : State) : Prop :=
  ∀ place, π (s'.facts.at place) = π (s.facts.at place)

/-- What `π` reads from a fact is not its type. -/
def Typeless (π : Fact → β) : Prop := ∀ k t, π { k with type := t } = π k

/-- The facts tell the same targets. -/
abbrev SameTargets : State → State → Prop := Kept Fact.target

namespace Kept

theorem of_facts (h : s'.facts = s.facts) : Kept π s s' := fun _ => by rw [h]

theorem refl (s : State) : Kept π s s := fun _ => rfl

theorem withEnv (h : Kept π s s') (env : Environment) : Kept π s (s'.withEnv env) := h

theorem trans {s₁ s₂ s₃ : State} (h : Kept π s₁ s₂) (h' : Kept π s₂ s₃) : Kept π s₁ s₃ :=
  fun place => (h' place).trans (h place)

theorem of_changes (h : ∀ at_, Changes task at_ s s') : Kept π s s' := fun place => by
  rw [at_of_changes h]

theorem learn (n : Node) {f : Fact → Fact} (hf : ∀ k, π (f k) = π k) : Kept π s (s.learn n f) := by
  intro place
  rw [at_learn]
  split
  · rename_i h
    rw [hf, State.fact, h]
  · rfl

theorem setType (hπ : Typeless π) (n : Node) (t : Ty) : Kept π s (s.setType n t) :=
  learn n fun k => hπ k (some t)

theorem foldl {f : State → Node → State} (hf : ∀ s m, Kept π s (f s m)) (ns : List Node)
    (s : State) : Kept π s (ns.foldl f s) := by
  induction ns generalizing s with
  | nil => exact refl s
  | cons m ns ih => exact (hf s m).trans (ih (f s m))

end Kept

open Kept

theorem typeless_target : Typeless Fact.target := fun _ _ => rfl

/-! ### The way down -/

theorem kept_enterProgram (n : Node) (s : State) : Kept π s (enterProgram n s) := by
  unfold enterProgram
  dsimp only
  split
  · exact .of_facts rfl
  · split <;> exact .of_facts rfl

theorem kept_openScope (hπ : Typeless π) (n : Node) (s : State) : Kept π s (openScope n s) :=
  ((Kept.refl s).withEnv (s.env.newScope none).2).trans (setType hπ n _)

theorem kept_enterCatch (hπ : Typeless π) (n : Node) (s : State) : Kept π s (enterCatch n s) := by
  have hopen : Kept π s (openScope n s) := kept_openScope hπ n s
  unfold enterCatch
  dsimp only
  split
  · exact hopen
  · exact hopen.trans (setType hπ (n.get "param") _)

theorem kept_markBody (hbody : ∀ k b, π { k with isConstructorBody := b } = π k) (n : Node) (b : Bool)
    (s : State) : Kept π s (markBody n b s) := by
  unfold markBody
  split
  · exact learn (n.get "body") fun k => hbody k b
  · exact .refl s

theorem kept_nameFunction (hπ : Typeless π) (hbody : ∀ k b, π { k with isConstructorBody := b } = π k)
    (task : Task) (n : Node) (s : State) : Kept π s (nameFunction task n s) := by
  have hopen : Kept π s (openFunction n (functionName n s).1 s).2 := by
    rw [openFunction_eq]
    split
    · exact (kept_markBody hbody n true s).withEnv _
    · exact kept_markBody hbody n false s
  unfold nameFunction
  dsimp only
  split <;> exact hopen.trans (setType hπ n _)

theorem kept_enterFunction (hπ : Typeless π) (hbody : ∀ k b, π { k with isConstructorBody := b } = π k)
    (task : Task) (n : Node) (s : State) : Kept π s (enterFunction task n s).2 := by
  have hparams : Kept π s (paramTypes task n (openParams n (nameFunction task n s))).2 :=
    (kept_nameFunction hπ hbody task n s).trans
      (.of_changes fun at_ => changes_openParams.trans (@changes_paramTypes task at_ n _).1)
  rw [enterFunction_eq]
  rcases hp : paramTypes task n (openParams n (nameFunction task n s)) with ⟨fault | ts, s₁⟩ <;>
    rw [hp] at hparams
  · exact hparams
  · exact hparams.trans (.of_facts (facts_bindParams _ _ _))

theorem kept_enterCall (hloader : ∀ k l, π { k with loader := l } = π k) (n : Node) (s : State) :
    Kept π s (enterCall n s) := by
  unfold enterCall
  dsimp only
  split
  · split
    · exact learn _ fun k => hloader k _
    · exact .refl s
  · exact .refl s

theorem kept_bindFunction
    (hbound : ∀ k name span, π { k with boundName := name, boundSpan := span } = π k) (value : Node)
    (name : Name) (span : Option Span) (s : State) : Kept π s (bindFunction value name span s) := by
  unfold bindFunction
  split
  · exact learn value fun k => hbound k name span
  · exact .refl s

theorem kept_enterAssignment
    (hbound : ∀ k name span, π { k with boundName := name, boundSpan := span } = π k) (n : Node)
    (s : State) : Kept π s (enterAssignment n s) := by
  unfold enterAssignment
  dsimp only
  split
  · exact kept_bindFunction hbound _ _ _ s
  · exact .refl s

theorem kept_enterMember (htarget : ∀ k t, π { k with target := t } = π k) (n : Node) (s : State) :
    Kept π s (enterMember n s) := by
  unfold enterMember
  dsimp only
  split
  · exact learn (n.get "property") fun k => htarget k _
  · exact .refl s

/-- **The way down** keeps what is said neither by a type nor at the entry of an object, a declaration, an
assignment or a member access. -/
theorem enter_of_kept {P : State → Prop} (hπ : Typeless π)
    (hbody : ∀ k b, π { k with isConstructorBody := b } = π k)
    (hloader : ∀ k l, π { k with loader := l } = π k) (hkept : ∀ s', Kept π s s' → P s')
    (hobject : P (enterObject n s)) (hdeclarator : P (enterDeclarator n s))
    (hassignment : P (enterAssignment n s)) (hmember : P (enterMember n s)) :
    P (enter task n s).2 := by
  have hnode : P (enterNode task n s).2 := by
    unfold enterNode
    split
    case h_1 => exact hkept _ (kept_enterProgram n s)
    case h_2 => exact hkept _ (kept_openScope hπ n s)
    case h_3 | h_4 => exact hkept _ (setType hπ n _)
    case h_5 => exact hobject
    case h_6 | h_7 | h_8 => exact hkept _ (kept_enterFunction hπ hbody task n s)
    case h_9 => exact hdeclarator
    case h_10 => exact hassignment
    case h_11 => exact hkept _ (kept_enterCatch hπ n s)
    case h_12 => exact hmember
    case h_13 => exact hkept _ (kept_enterCall hloader n s)
    all_goals exact hkept _ (.refl s)
  rw [enter_eq]
  split
  · exact hkept s (.refl s)
  · rcases he : enterNode task n s with ⟨fault | _, s'⟩ <;> rw [he] at hnode <;> exact hnode

section
variable (hπ : Typeless π) (hdefined : ∀ k b, π { k with isDefined := b } = π k)
  (hbound : ∀ k name span, π { k with boundName := name, boundSpan := span } = π k)
include hdefined hbound

theorem kept_enterProperty (object : Ty) (s : State) (property : Node) :
    Kept π s (enterProperty object s property) := by
  unfold enterProperty
  split
  · exact .refl s
  · rename_i name _
    have hbind : Kept π s (s.bind (some name) (some object) .object (property.get "key").span?) :=
      .of_facts rfl
    exact (hbind.trans (learn (property.get "key") fun k => hdefined k true)).trans
      (kept_bindFunction hbound _ _ _ _)

include hπ in
theorem kept_enterObject (n : Node) (s : State) : Kept π s (enterObject n s) := by
  unfold enterObject
  dsimp only
  exact (setType (s := s.withEnv (s.env.newObject none n.span?).2) hπ n _).trans
    (foldl (kept_enterProperty hdefined hbound _) _ _)

theorem kept_enterDeclarator (n : Node) (s : State) : Kept π s (enterDeclarator n s) := by
  unfold enterDeclarator
  dsimp only
  split
  · exact .refl s
  · exact (learn (n.get "id") fun k => hdefined k true).trans (kept_bindFunction hbound _ _ _ _)

end

theorem sameTargets_enterObject (n : Node) (s : State) : SameTargets s (enterObject n s) :=
  kept_enterObject typeless_target (fun _ _ => rfl) (fun _ _ _ => rfl) n s

theorem sameTargets_enterDeclarator (n : Node) (s : State) : SameTargets s (enterDeclarator n s) :=
  kept_enterDeclarator (fun _ _ => rfl) (fun _ _ _ => rfl) n s

theorem target_enterMember (h : place ≠ (n.get "property").place) (s : State) :
    ((enterMember n s).facts.at place).target = (s.facts.at place).target := by
  unfold enterMember
  dsimp only
  split
  · rw [at_learn, if_neg (Ne.symm h)]
  · rfl

/-- **The way down** tells nothing about targets but to the property of a member access. -/
theorem target_enter (task : Task) (h : place ≠ (n.get "property").place) (s : State) :
    ((enter task n s).2.facts.at place).target = (s.facts.at place).target :=
  enter_of_kept (P := fun s' => (s'.facts.at place).target = (s.facts.at place).target)
    typeless_target (fun _ _ => rfl) (fun _ _ => rfl) (fun _ hkept => hkept place)
    (sameTargets_enterObject n s place) (sameTargets_enterDeclarator n s place)
    (kept_enterAssignment (fun _ _ _ => rfl) n s place) (target_enterMember h s)

/-! ### The way up -/

theorem kept_closeScope (s : State) : Kept π s (closeScope s).2 :=
  .of_facts (facts_closeScope s)

theorem kept_leaveBlock (task : Task) (n : Node) (s : State) :
    Kept π s (leaveBlock task n s).2 := by
  unfold leaveBlock
  split
  · exact .refl s
  · exact kept_closeScope s

theorem kept_leaveMember (hπ : Typeless π) (task : Task) (n : Node) (s : State) :
    Kept π s (leaveMember task n s).2 := by
  unfold leaveMember
  dsimp only
  split
  · exact .refl s
  · split
    · exact setType hπ n _
    · split <;> exact setType hπ n _

theorem kept_leaveCall (hπ : Typeless π) (task : Task) (n : Node) (s : State) :
    Kept π s (leaveCall task n s).2 := by
  have hload : Kept π s (requiredType task n s).2 := by
    unfold requiredType
    split
    · exact .of_facts (loadModule_facts _ _ _)
    · exact .refl s
  unfold leaveCall
  rcases hr : requiredType task n s with ⟨fault | (_ | t), s'⟩ <;> rw [hr] at hload
  · exact hload
  · exact hload.trans (setType hπ n _)
  · exact hload.trans (setType hπ n _)

theorem kept_leaveProperty (hπ : Typeless π) (object : Option Ty) (s : State) (property : Node) :
    Kept π s (leaveProperty object s property) := by
  unfold leaveProperty
  split
  · exact .refl s
  · exact setType hπ (property.get "key") _

theorem kept_leaveObject (hπ : Typeless π) (n : Node) (s : State) : Kept π s (leaveObject n s).2 :=
  (foldl (kept_leaveProperty hπ _) _ s).trans (kept_closeScope _)

theorem kept_leaveConstructor (n : Node) (type result : Ty) (s : State) :
    Kept π s (leaveConstructor n type result s).2 := by
  have hclose : Kept π s (closeScope s).2 := kept_closeScope s
  unfold leaveConstructor
  rcases hc : closeScope s with ⟨_ | e, s'⟩ <;> rw [hc] at hclose <;> exact hclose

theorem kept_leavePlainFunction (hπ : Typeless π) (n : Node) (type : Ty) (s : State) :
    Kept π s (leavePlainFunction n type s) := by
  unfold leavePlainFunction
  split
  · exact .refl s
  · dsimp only
    split
    · exact setType hπ n _
    · split <;> exact setType hπ n _

theorem kept_leaveFunction (hπ : Typeless π) (n : Node) (s : State) : Kept π s (leaveFunction n s).2 := by
  have hclose : Kept π s (closeScope s).2 := kept_closeScope s
  unfold leaveFunction
  rcases hc : closeScope s with ⟨_ | e, s'⟩ <;> rw [hc] at hclose
  · dsimp only
    split
    · split
      · exact hclose.trans (kept_leaveConstructor _ _ _ _)
      · exact hclose.trans (kept_leavePlainFunction hπ _ _ _)
    · exact hclose
  · exact hclose

theorem kept_leaveDeclarator (hπ : Typeless π) (n : Node) (s : State) : Kept π s (leaveDeclarator n s) := by
  unfold leaveDeclarator
  dsimp only
  split
  · exact setType hπ n _
  · exact (setType hπ n _).trans (setType hπ (n.get "id") _)

theorem kept_leaveAssignment (hπ : Typeless π) (n : Node) (s : State) : Kept π s (leaveAssignment n s) := by
  unfold leaveAssignment
  dsimp only
  split
  · exact setType hπ n _
  · rename_i id _
    exact (setType hπ n _).trans (setType hπ id _)

theorem kept_leaveIdentifier (hπ : Typeless π) (task : Task) (n : Node) (s : State) :
    Kept π s (leaveIdentifier task n s).2 := by
  unfold leaveIdentifier
  dsimp only
  split
  · exact .refl s
  · split
    · exact setType hπ n _
    · split
      · exact setType hπ n _
      · exact .refl s

theorem kept_leaveReturn (hπ : Typeless π) (n : Node) (s : State) : Kept π s (leaveReturn n s) := by
  unfold leaveReturn
  dsimp only
  split
  · exact .refl s
  · exact setType hπ n _

theorem kept_leaveNode (hπ : Typeless π) (task : Task) (n : Node) (s : State) :
    Kept π s (leaveNode task n s).2 := by
  unfold leaveNode
  split
  case h_2 | h_3 => exact kept_leaveBlock task n s
  case h_4 => exact kept_leaveMember hπ task n s
  case h_5 => exact kept_leaveCall hπ task n s
  case h_6 => exact setType hπ n _
  case h_7 => exact kept_leaveObject hπ n s
  case h_8 | h_9 => exact setType hπ n _
  case h_10 | h_11 => exact setType hπ n _
  case h_12 | h_13 | h_14 => exact kept_leaveFunction hπ n s
  case h_15 => exact kept_leaveDeclarator hπ n s
  case h_16 => exact kept_leaveAssignment hπ n s
  case h_17 => exact kept_leaveIdentifier hπ task n s
  case h_18 => exact learn n fun k => hπ k _
  case h_19 => exact kept_leaveReturn hπ n s
  all_goals exact .refl s

theorem kept_settle (hπ : Typeless π) (n : Node) (s : State) : Kept π s (settle n s) := by
  unfold settle
  split
  · exact setType hπ n _
  · exact .refl s

/-- **The way up** changes nothing but types. -/
theorem kept_leave (hπ : Typeless π) (task : Task) (n : Node) (s : State) :
    Kept π s (leave task n s).2 := by
  have hnode : Kept π s (leaveNode task n s).2 := kept_leaveNode hπ task n s
  rw [leave_eq]
  rcases hl : leaveNode task n s with ⟨_ | a, s'⟩ <;> rw [hl] at hnode
  · exact hnode.trans (kept_settle hπ n s')
  · exact hnode

/-- The way up tells nothing about targets. -/
theorem target_leave (task : Task) (n : Node) (s : State) : SameTargets s (leave task n s).2 :=
  kept_leave typeless_target task n s

/-! ### Walks -/

/-- What a move tells about targets it tells the property of its node. -/
theorem target_of_isMove {m : Move State} (hm : m = (visitor task).move m.way m.node m.before)
    (h : place ≠ (m.node.get "property").place) :
    (m.after.facts.at place).target = (m.before.facts.at place).target := by
  rcases Visitor.after_of_isMove hm with ⟨-, hafter⟩ | ⟨-, hafter⟩ <;> rw [hafter]
  · exact target_enter task h m.before
  · exact target_leave task m.node m.before place

/-- **A walk** tells nothing about a place that is that of no property below it. -/
theorem target_visit (h : ∀ m ∈ n.all, place ≠ (m.get "property").place) (s : State) :
    ((n.visit (visitor task) s).2.facts.at place).target = (s.facts.at place).target := by
  refine (Node.leads_moves n (visitor task) s).invariant
    (I := fun s' => (s'.facts.at place).target = (s.facts.at place).target) (fun m hm hbefore => ?_) rfl
  obtain ⟨hall, hmove⟩ := Node.isMove_of_mem_moves hm
  exact (target_of_isMove hmove (h m.node hall)).trans hbefore

/-- Only properties have targets. -/
def Pointed (s : State) : Prop :=
  ∀ place, (s.facts.at place).target ≠ none → ∃ path, place = .field "property" :: path

theorem pointed_of_env (env : Environment) : Pointed { env := env } := fun _ h => absurd rfl h

theorem Pointed.target_get (h : Pointed s) {key : String} (hkey : key ≠ "property") (n : Node) :
    (s.fact (n.get key)).target = none := by
  by_contra htarget
  obtain ⟨path, hpath⟩ := h _ htarget
  cases hpath
  exact hkey rfl

/-- In a walk that starts so, only properties have targets. -/
theorem pointed_of_mem_moves {root : Node} {m : Move State} (hs : Pointed s)
    (hm : m ∈ root.moves (visitor task) s) : Pointed m.before := by
  refine (Node.leads_moves root (visitor task) s).invariant_before (fun k hk hbefore place hplace => ?_)
    hs hm
  obtain ⟨-, hmove⟩ := Node.isMove_of_mem_moves hk
  by_cases hproperty : place = (k.node.get "property").place
  · exact ⟨_, hproperty⟩
  · rw [target_of_isMove hmove hproperty] at hplace
    exact hbefore place hplace

end ContentAssist.Inference
