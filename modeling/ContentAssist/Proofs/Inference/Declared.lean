import ContentAssist.Proofs.Inference.Overwrite
import ContentAssist.Proofs.Inference.Sound

/-! # Identifiers that are found

In a scope that binds a name every identifier of the name is found. A declaration of a variable makes such
a scope when it is left: from then on the name is found, and at the identifier of the declaration itself
it is being defined. If no identifier of the name stands in front, then all of them are accounted for.

* `Resolved`: an identifier is found or being defined;
* `resolved_of_nearest`: inside a scope that binds the name;
* `isDefined_of_mem_movesEach`, `declared_declarator`: the declaration;
* `declared_visit`: a tree with the declaration in it, in front of which the name does not occur. -/

namespace ContentAssist

/-- Whether nodes of this kind open a scope. -/
def Kind.opensScope (kind : Kind) : Bool :=
  kind.isFunction || kind = .blockStatement || kind = .catchClause || kind = .objectExpression

/-- The nodes that a walk comes to before the node `d`. -/
def Node.upTo (n d : Node) : List Node := n.all.takeWhile fun m => m.place ≠ d.place

theorem Node.upTo_eq {n d : Node} (h : n.place ≠ d.place) :
    n.upTo d = n :: (n.children.flatMap Node.all).takeWhile fun m => m.place ≠ d.place := by
  rw [upTo, all_eq, List.takeWhile_cons_of_pos (by simpa using h)]

namespace Inference

open Environment (Nearest)

variable {task : Task} {n d : Node} {s s' : State} {x : String} {m : Move State}
  {owner : String} {below : List String}

/-! ### Identifiers that are found -/

/-- If the move leaves an identifier of the name, then the name is found or it is being defined. -/
def Resolved (x : String) (m : Move State) : Prop :=
  m.way = .up → m.node.identifier? = some x →
    (m.before.fact m.node).isDefined = true ∨ m.before.env.lookup? (some x) none ≠ none

/-- Before the move the scopes are linked and the state is sound, and the move sets the link of no scope.
-/
structure Regular (m : Move State) : Prop where
  linked : m.before.env.Linked
  sound : Sound m.before
  relinks : m.way = .up → ¬ Relinks m.node m.before

theorem Regular.quiet (h : Regular m) (name : Name) : Quiet task name [] m where
  declares := by
    intro hdeclares
    cases hdeclares with
    | function _ _ _ _ _ hscope => cases hscope
    | declarator _ _ _ hscope => cases hscope
  relinks := h.relinks

/-- Inside a scope that binds the name it is found. -/
theorem resolved_of_nearest {cs : List Node} (h : Nearest (some x) [] owner below s.env)
    (hregular : ∀ m ∈ Node.movesEach (visitor task) cs s, Regular m)
    (hm : m ∈ Node.movesEach (visitor task) cs s) : Resolved x m := by
  have hnearest : Nearest (some x) [] owner below m.before.env :=
    Node.before_of_mem_movesEach (P := fun s => Nearest (some x) [] owner below s.env)
      (Q := Quiet task (some x) []) (fun _ _ => nearest_enter) nearest_visit h
      (fun k hk => (hregular k hk).quiet _) hm
  exact fun _ _ => Or.inr hnearest.lookup_ne_none

/-! ### What is being defined -/

/-- What is being defined stays so. -/
def Defines (s s' : State) : Prop :=
  ∀ place, (s.facts.at place).isDefined = true → (s'.facts.at place).isDefined = true

theorem Defines.trans {s₁ s₂ s₃ : State} (h : Defines s₁ s₂) (h' : Defines s₂ s₃) : Defines s₁ s₃ :=
  fun place hp => h' place (h place hp)

theorem defines_of_kept (h : Kept Fact.isDefined s s') : Defines s s' := fun place hp =>
  (h place).trans hp

theorem defines_learn (n : Node) (s : State) :
    Defines s (s.learn n fun k => { k with isDefined := true }) := by
  intro place hp
  rw [at_learn]
  split
  · rfl
  · exact hp

theorem defines_enterObject (n : Node) (s : State) : Defines s (enterObject n s) := by
  have hproperty : ∀ t s p, Defines s (enterProperty t s p) := by
    intro t s p
    unfold enterProperty
    split
    · exact defines_of_kept (.refl s)
    · rename_i name _
      have hbind : Defines s (s.bind (some name) (some t) .object (p.get "key").span?) :=
        defines_of_kept (.of_facts rfl)
      exact (hbind.trans (defines_learn _ _)).trans
        (defines_of_kept (kept_bindFunction (fun _ _ _ => rfl) _ _ _ _))
  have hproperties : ∀ (ps : List Node) t s, Defines s (ps.foldl (enterProperty t) s) := by
    intro ps t
    induction ps with
    | nil => exact fun s => defines_of_kept (.refl s)
    | cons p ps ih => exact fun s => (hproperty t s p).trans (ih _)
  unfold enterObject
  dsimp only
  have hobject : Kept Fact.isDefined s ((s.withEnv (s.env.newObject none n.span?).2).setType n
      (.named (s.env.newObject none n.span?).1)) :=
    Kept.setType (s := s.withEnv (s.env.newObject none n.span?).2) (fun _ _ => rfl) n _
  exact (defines_of_kept hobject).trans (hproperties _ _ _)

theorem defines_enterDeclarator (n : Node) (s : State) : Defines s (enterDeclarator n s) := by
  unfold enterDeclarator
  dsimp only
  split
  · exact defines_of_kept (.refl s)
  · exact (defines_learn _ s).trans (defines_of_kept (kept_bindFunction (fun _ _ _ => rfl) _ _ _ _))

theorem defines_enter (task : Task) (n : Node) (s : State) : Defines s (enter task n s).2 :=
  enter_of_kept (P := Defines s) (fun _ _ => rfl) (fun _ _ => rfl) (fun _ _ => rfl)
    (fun _ => defines_of_kept) (defines_enterObject n s) (defines_enterDeclarator n s)
    (defines_of_kept (kept_enterAssignment (fun _ _ _ => rfl) n s))
    (defines_of_kept (kept_enterMember (fun _ _ => rfl) n s))

/-- Below a declared variable its name is being defined. -/
theorem isDefined_of_mem_movesEach (hid : (d.get "id").identifier? = some x) {cs : List Node}
    (hm : m ∈ Node.movesEach (visitor task) cs (enterDeclarator d s)) :
    (m.before.facts.at (d.get "id").place).isDefined = true := by
  refine (Node.leads_movesEach (fun n _ s => Node.leads_moves n (visitor task) s) _).invariant_before
    (I := fun s => (s.facts.at (d.get "id").place).isDefined = true) (fun k hk hbefore => ?_) ?_ hm
  · obtain ⟨-, hmove⟩ := Node.isMove_of_mem_movesEach (fun n _ s h => Node.isMove_of_mem_moves h) hk
    rcases Visitor.after_of_isMove hmove with ⟨-, hafter⟩ | ⟨-, hafter⟩ <;> rw [hafter]
    · exact defines_enter task k.node k.before _ hbefore
    · exact defines_of_kept (kept_leave (fun _ _ => rfl) task k.node k.before) _ hbefore
  · unfold enterDeclarator
    dsimp only
    rw [hid]
    refine defines_of_kept (kept_bindFunction (fun _ _ _ => rfl) _ _ _ _) _ ?_
    rw [at_learn_self]

/-! ### Variables -/

/-- The moves of a walk, and what it gives: every identifier of the name is found or is being defined, and
the walk ends inside a scope that binds the name. -/
structure Declared (x : String) (ms : List (Move State)) (o : Outcome) : Prop where
  resolved : ∀ m ∈ ms, Resolved x m
  bound : ∀ s, o = (none, s) → ∃ owner below, Nearest (some x) [] owner below s.env

/-- The declaration itself. -/
theorem declared_declarator (hkind : d.kind = .variableDeclarator)
    (hid : (d.get "id").identifier? = some x)
    (hinside : ∀ m ∈ d.all, m.identifier? = some x → m.place = (d.get "id").place)
    (hregular : ∀ m ∈ d.moves (visitor task) s, Regular m) :
    Declared x (d.moves (visitor task) s) (d.visit (visitor task) s) := by
  have henter : (visitor task).enter d s = (.descend, enterDeclarator d s) := by
    show enter task d s = _
    rw [enter_eq, if_neg (by simp [hkind])]
    simp only [enterNode, hkind]
  constructor
  · intro m hm hup hname
    have hplace := hinside m.node (Node.isMove_of_mem_moves hm).1 hname
    have hne : m.node ≠ d := fun h => get_place_ne d "id" ((congrArg Node.place h).symm.trans hplace)
    obtain ⟨s₁, hs₁, hm⟩ := Node.exists_enter_of_mem_moves hm hne
    cases henter.symm.trans hs₁
    left
    rw [State.fact, hplace]
    exact isDefined_of_mem_movesEach hid hm
  · intro s' hv
    rcases Node.left_of_visit hv with hskip | ⟨s₂, hdescended, hleave⟩
    · cases henter.symm.trans hskip
    · have hup := hregular _ hdescended.up_mem_moves
      have hlinked : s₂.env.Linked := hup.linked
      have hleft : s'.env = s₂.env.addVariable (some x) none (some (s₂.typeOf (d.get "init")))
          (d.get "id").span? := by
        change leave task d s₂ = (none, s') at hleave
        rw [leave_eq] at hleave
        simp only [leaveNode, hkind, goOn] at hleave
        cases hleave
        rw [env_settle]
        unfold leaveDeclarator
        dsimp only
        rw [hid]
        rfl
      obtain ⟨r, hr, hb⟩ := hlinked.exists_record hup.sound.env hlinked.contains_current
      obtain ⟨below, hnearest⟩ := Nearest.of_current
        (Environment.linked_addVariable hlinked (some x) none _ _) (Table.Owns.of_define hr hb (some x) _)
      exact ⟨_, below, hleft ▸ hnearest⟩

/-- Behind the tree with the declaration the name is found. -/
theorem Declared.cons {c : Node} {cs : List Node}
    (h : Declared x (c.moves (visitor task) s) (c.visit (visitor task) s))
    (hregular : ∀ m ∈ Node.movesEach (visitor task) (c :: cs) s, Regular m) :
    Declared x (Node.movesEach (visitor task) (c :: cs) s)
      (Node.visitEach (visitor task) (c :: cs) s) := by
  have hrest : ∀ s', c.visit (visitor task) s = (none, s') →
      ∀ m ∈ Node.movesEach (visitor task) cs s', Regular m := fun s' hv m hm => hregular m (by
    rw [Node.movesEach_cons hv]
    exact List.mem_append_right _ hm)
  refine ⟨fun m hm => ?_, fun s'' hend => ?_⟩
  · rcases Node.mem_movesEach_cons hm with hm | ⟨s', hv, hm⟩
    · exact h.resolved m hm
    · obtain ⟨owner, below, hnearest⟩ := h.bound s' hv
      exact resolved_of_nearest hnearest (hrest s' hv) hm
  · rw [Node.visitEach] at hend
    rcases hv : c.visit (visitor task) s with ⟨_ | a, s'⟩ <;> rw [hv] at hend
    · obtain ⟨owner, below, hnearest⟩ := h.bound s' hv
      have heach := nearest_visitEach (fun c _ s => nearest_visit c s) s' hnearest fun m hm =>
        (hrest s' hv m hm).quiet _
      dsimp only at hend
      rw [hend] at heach
      exact ⟨owner, below, heach⟩
    · cases hend

/-- In front of the tree with the declaration no identifier has the name. -/
theorem Declared.cons_of_front {c : Node} {cs : List Node}
    (hfront : ∀ m ∈ c.all, m.identifier? ≠ some x)
    (h : ∀ s', c.visit (visitor task) s = (none, s') →
      Declared x (Node.movesEach (visitor task) cs s') (Node.visitEach (visitor task) cs s')) :
    Declared x (Node.movesEach (visitor task) (c :: cs) s)
      (Node.visitEach (visitor task) (c :: cs) s) := by
  refine ⟨fun m hm => ?_, fun s'' hend => ?_⟩
  · rcases Node.mem_movesEach_cons hm with hm | ⟨s', hv, hm⟩
    · exact fun _ hname => absurd hname (hfront _ (Node.isMove_of_mem_moves hm).1)
    · exact (h s' hv).resolved m hm
  · rw [Node.visitEach] at hend
    rcases hv : c.visit (visitor task) s with ⟨_ | a, s'⟩ <;> rw [hv] at hend
    · exact (h s' hv).bound s'' hend
    · cases hend

/-- Of several trees one holds the declaration. -/
theorem declared_visitEach {cs : List Node}
    (ih : ∀ c ∈ cs, d ∈ c.all → (∀ m ∈ c.upTo d, m.identifier? ≠ some x) → ∀ s,
      (∀ m ∈ c.moves (visitor task) s, Regular m) →
      Declared x (c.moves (visitor task) s) (c.visit (visitor task) s))
    (hplace : ∀ c ∈ cs, ∀ m ∈ c.all, m.place = d.place → m = d) (hd : ∃ c ∈ cs, d ∈ c.all)
    (hfront : ∀ m ∈ (cs.flatMap Node.all).takeWhile fun m => m.place ≠ d.place, m.identifier? ≠ some x)
    (s : State) (hregular : ∀ m ∈ Node.movesEach (visitor task) cs s, Regular m) :
    Declared x (Node.movesEach (visitor task) cs s) (Node.visitEach (visitor task) cs s) := by
  induction cs generalizing s with
  | nil =>
    obtain ⟨c, hc, -⟩ := hd
    cases hc
  | cons c cs ihc =>
    rw [List.flatMap_cons] at hfront
    by_cases hdc : d ∈ c.all
    · refine Declared.cons (ih c List.mem_cons_self hdc (fun m hm => hfront m ?_) s
        fun m hm => hregular m ?_) hregular
      · rw [List.takeWhile_append]
        split
        · exact List.mem_append_left _ (List.takeWhile_subset _ hm)
        · exact hm
      · rw [Node.movesEach]
        exact List.mem_append_left _ hm
    · have hall : ∀ m ∈ c.all, m.place ≠ d.place := fun m hm h =>
        hdc (hplace c List.mem_cons_self m hm h ▸ hm)
      rw [List.takeWhile_append_of_pos (by simpa using hall)] at hfront
      have hd' : ∃ k ∈ cs, d ∈ k.all := by
        obtain ⟨k, hk, hdk⟩ := hd
        rcases List.mem_cons.1 hk with rfl | hk
        · exact absurd hdk hdc
        · exact ⟨k, hk, hdk⟩
      refine Declared.cons_of_front (fun m hm => hfront m (List.mem_append_left _ hm)) fun s' hv => ?_
      refine ihc (fun k hk => ih k (List.mem_cons_of_mem _ hk))
        (fun k hk => hplace k (List.mem_cons_of_mem _ hk)) hd'
        (fun m hm => hfront m (List.mem_append_right _ hm)) s' fun m hm => hregular m ?_
      rw [Node.movesEach_cons hv]
      exact List.mem_append_right _ hm

theorem depth_of_not_opensScope (h : n.kind.opensScope = false) (s : State) : depth n s = 0 := by
  unfold depth
  cases hk : n.kind <;> simp_all [Kind.opensScope, Kind.isFunction]

theorem enter_ne_skip (hcursor : task.cursor = none) (n : Node) (s s' : State) :
    enter task n s ≠ (.skip, s') := by
  rw [enter_eq, if_neg (by simp [hcursor, Cursor.isBefore])]
  rcases enterNode task n s with ⟨fault | _, s₁⟩ <;> simp

/-- **In a tree with the declaration of a variable**, where no scope is opened around it. -/
theorem declared_visit (hcursor : task.cursor = none) (hkind : d.kind = .variableDeclarator)
    (hid : (d.get "id").identifier? = some x)
    (hinside : ∀ m ∈ d.all, m.identifier? = some x → m.place = (d.get "id").place)
    (hkeys : n.KeysDistinct) (hd : d ∈ n.all)
    (hscope : ∀ c ∈ n.all, c.kind.opensScope = true → ¬ c.place <:+ d.place)
    (hfront : ∀ m ∈ n.upTo d, m.identifier? ≠ some x) (s : State)
    (hregular : ∀ m ∈ n.moves (visitor task) s, Regular m) :
    Declared x (n.moves (visitor task) s) (n.visit (visitor task) s) := by
  induction n using Node.induct generalizing s with
  | step n ih =>
    rcases Node.mem_all_iff.1 hd with rfl | ⟨c, hc, hdc⟩
    · exact declared_declarator hkind hid hinside hregular
    · have hne : n.place ≠ d.place := fun h => Node.place_ne_of_mem_child hc hdc h.symm
      rw [Node.upTo_eq hne] at hfront
      have hdepth : ∀ s, depth n s = 0 := depth_of_not_opensScope <| by
        rw [← Bool.not_eq_true]
        exact fun hopens => hscope n n.mem_all_self hopens (Node.suffix_of_mem_all hd)
      have heach := fun s₁ (henter : (visitor task).enter n s = (.descend, s₁)) =>
        declared_visitEach
          (fun c hc hdc hfront s hregular => ih c hc (hkeys.of_child hc) hdc
            (fun k hk => hscope k (Node.mem_all_of_child hc hk)) hfront s hregular)
          (fun c hc m hm hplace => Node.eq_of_place hkeys (Node.mem_all_of_child hc hm) hd hplace)
          ⟨c, hc, hdc⟩ (fun m hm => hfront m (List.mem_cons_of_mem _ hm)) s₁
          fun m hm => hregular m (Node.mem_moves_of_mem_movesEach henter hm)
      refine ⟨fun m hm => ?_, fun s' hv => ?_⟩
      · by_cases hself : m.node = n
        · exact fun _ hname => absurd (hself ▸ hname) (hfront n List.mem_cons_self)
        · obtain ⟨s₁, henter, hm⟩ := Node.exists_enter_of_mem_moves hm hself
          exact (heach s₁ henter).resolved m hm
      · rcases Node.left_of_visit hv with hskip | ⟨s₂, hdescended, hleave⟩
        · exact absurd hskip (enter_ne_skip hcursor n s s')
        · obtain ⟨s₁, henter, hchildren⟩ := id hdescended
          obtain ⟨owner, below, hnearest⟩ := (heach s₁ henter).bound s₂ hchildren
          have hleft : Nearest (some x) [] owner below (leave task n s₂).2.env := by
            refine nearest_leave hnearest ?_ (fun hobject => ?_)
              ((hregular _ hdescended.up_mem_moves).quiet _)
            · rw [hdepth]
              exact hnearest.stack
            · exact absurd (hdepth s₂) (by simp [depth, hobject])
          change leave task n s₂ = (none, s') at hleave
          rw [hleave] at hleft
          exact ⟨owner, below, hleft⟩

end Inference

end ContentAssist
