import ContentAssist.Proofs.Inference.Enter

/-! # What the rules on the way up do, and a whole walk

Each rule of the way up is a sequence of changes at or below its node, `changes_leave`. With the way
down this makes a whole walk a sequence of changes, `changes_visit`: what every kind of change
keeps, a walk keeps. -/

namespace ContentAssist.Inference

open Relation

variable {task : Task} {at_ : Place} {s s' : State} {n : Node}

/-! ### The rules on the way up -/

theorem changes_closeScope : Changes task at_ s (closeScope s).2 := by
  unfold closeScope
  split
  · exact .refl
  · rename_i h
    exact .single (.leaveScope h)

theorem facts_closeScope (s : State) : (closeScope s).2.facts = s.facts := by
  unfold closeScope
  split <;> rfl

theorem changes_leaveBlock : Changes task at_ s (leaveBlock task n s).2 := by
  unfold leaveBlock
  split
  · exact .refl
  · exact changes_closeScope

theorem changes_leaveMember (hn : at_ <:+ n.place) :
    Changes task at_ s (leaveMember task n s).2 := by
  unfold leaveMember
  dsimp only
  split
  · exact .refl
  · split
    · exact .single (.setType hn offers_object)
    · split <;> exact .single (.setType hn (offers_typeOf _ _ _))

theorem changes_leaveCall (hn : at_ <:+ n.place) : Changes task at_ s (leaveCall task n s).2 := by
  have hresult : ∀ s, Change task at_ s (s.setType n (s.typeOf (n.get "callee")).result) :=
    fun s => .setType hn (.result (offers_typeOf _ _ _))
  unfold leaveCall requiredType
  split
  · rename_i h
    split at h
    · rename_i index name hindex _
      have hload : Change task at_ s (loadModule index name s).2 := .load s hindex name
      rw [h] at hload
      exact .single hload
    · cases h
  · rename_i t s' h
    split at h
    · rename_i index name hindex _
      have hload : Change task at_ s (loadModule index name s).2 := .load s hindex name
      have ht : Lasting task (loadModule index name s).2 t := lasting_loadModule hindex (by rw [h])
      rw [h] at hload ht
      exact .tail (.single hload) (.setType hn (.lasting ht))
    · cases h
  · rename_i s' h
    split at h
    · rename_i index name hindex _
      have hload : Change task at_ s (loadModule index name s).2 := .load s hindex name
      rw [h] at hload
      exact .tail (.single hload) (hresult s')
    · cases h
      exact .single (hresult s)

theorem changes_leaveProperty {property : Node} (hn : at_ <:+ property.place) (object : Option Ty) :
    Changes task at_ s (leaveProperty object s property) := by
  unfold leaveProperty
  split
  · exact .refl
  · exact .tail (.single (.setType (hn.trans (suffix_get _ _)) (offers_typeOf _ _ _)))
      (.bind _ _ _ _ (offers_setType _ _ _ _))

theorem changes_leaveObject (hn : at_ <:+ n.place) : Changes task at_ s (leaveObject n s).2 := by
  unfold leaveObject
  exact .trans (changes_foldl (fun m hm _ =>
    changes_leaveProperty (hn.trans (suffix_of_mem_list hm)) _) _) changes_closeScope

theorem offers_binaryType (op : String) {left : Ty} (hl : Offers task s left) (right : Ty) :
    Offers task s (binaryType op left right) := by
  have hb : ∀ {name : String}, name ∈ Catalog.builtinMembers.map (·.1) →
    Offers task s (.named name) := offers_builtin
  unfold binaryType
  split
  · split <;> exact hb (by decide)
  · split
    · exact hb (by decide)
    · split
      · exact hl
      · split <;> exact hb (by decide)

theorem changes_leaveConstructor (type : Ty) (htype : ∀ s', Onward s s' → s'.facts = s.facts →
    Offers task s' type) (result : Ty) :
    Changes task at_ s (leaveConstructor n type result s).2 := by
  unfold leaveConstructor
  have hclose : Changes task at_ s (closeScope s).2 := changes_closeScope
  have hfacts := facts_closeScope s
  rcases h : closeScope s with ⟨_ | e, s'⟩
  · rw [h] at hclose hfacts
    exact hclose.tail (.assign _ _ _ _ (htype s' hclose.onward hfacts))
  · rw [h] at hclose
    exact hclose

theorem offers_withResult {t r : Ty} (ht : t.isFunction = true) (hr : Offers task s r) :
    Offers task s (t.withResult r) := by
  cases t with
  | named name => cases ht
  | function _ params => exact .function hr

theorem changes_leavePlainFunction (hn : at_ <:+ n.place) {type : Ty} (ht : type.isFunction = true) :
    Changes task at_ s (leavePlainFunction n type s) := by
  unfold leavePlainFunction
  split
  · exact .refl
  · rename_i r _
    have htype : Change task at_ s (s.setType n (type.withResult (s.typeOf r))) :=
      .setType hn (offers_withResult ht (offers_typeOf task s r))
    dsimp only
    split
    · exact .tail (.single htype) (.assign _ _ _ _ (offers_setType _ _ _ _))
    · split
      · exact .tail (.single htype) (.assign _ _ _ _ (offers_setType _ _ _ _))
      · exact .single htype

theorem changes_leaveFunction (hn : at_ <:+ n.place) :
    Changes task at_ s (leaveFunction n s).2 := by
  unfold leaveFunction
  have hclose : Changes task at_ s (closeScope s).2 := changes_closeScope
  rcases h : closeScope s with ⟨_ | e, s'⟩
  · rw [h] at hclose
    refine hclose.trans ?_
    dsimp only
    split
    · rename_i result params htype _
      split
      · refine changes_leaveConstructor _ (fun s'' _ hfacts => ?_) _
        have hfact : (s''.facts.at n.place).type = some (.function result params) := by
          rw [hfacts]
          exact htype
        exact .fact hfact
      · exact changes_leavePlainFunction hn rfl
    · exact .refl
  · rw [h] at hclose
    exact hclose

theorem changes_leaveDeclarator (hn : at_ <:+ n.place) :
    Changes task at_ s (leaveDeclarator n s) := by
  unfold leaveDeclarator
  dsimp only
  have htype : Change task at_ s (s.setType n (s.typeOf (n.get "init"))) :=
    .setType hn (offers_typeOf task s (n.get "init"))
  split
  · exact .single htype
  · refine .head htype (.tail (.single (.setType (hn.trans (suffix_get _ _)) ?_)) (.bind _ _ _ _ ?_))
    · exact offers_setType _ _ _ _
    · exact offers_setType _ _ _ _

theorem suffix_of_rightMost? {id : Node} (h : n.rightMost? = some id) : n.place <:+ id.place := by
  fun_induction Node.rightMost? n with
  | case1 n hk =>
    cases h
    exact List.suffix_rfl
  | case2 n hk ih => exact (suffix_get n "property").trans (ih h)
  | case3 => cases h

theorem offers_assignmentType (task : Task) (n : Node) (s : State) :
    Offers task s (assignmentType n s) := by
  unfold assignmentType
  split
  · exact offers_typeOf _ _ _
  · split <;> exact offers_builtin (by decide)

theorem changes_leaveAssignment (hn : at_ <:+ n.place) :
    Changes task at_ s (leaveAssignment n s) := by
  unfold leaveAssignment
  dsimp only
  have htype : Change task at_ s (s.setType n (assignmentType n s)) :=
    .setType hn (offers_assignmentType task n s)
  split
  · exact .single htype
  · rename_i id hid
    have hplace : at_ <:+ id.place :=
      (hn.trans (suffix_get n "left")).trans (suffix_of_rightMost? hid)
    refine .head htype (.tail (.single (.setType hplace ?_)) (.assign _ _ _ _ ?_))
    · exact offers_setType _ _ _ _
    · exact offers_setType _ _ _ _

theorem changes_leaveIdentifier (hn : at_ <:+ n.place) :
    Changes task at_ s (leaveIdentifier task n s).2 := by
  unfold leaveIdentifier
  dsimp only
  split
  · exact .refl
  · split
    · rename_i t ht
      exact .single (.setType hn (.member ht))
    · split
      · -- a new global: a new object, assigned to the name
        rw [Environment.addOrSet_none _ _ _ _ (by simp [Ty.global])]
        have hnew : ∀ s', Onward (s.withEnv (s.env.newFleetingObject none n.span?).2) s' →
            Offers task s' (.named (Ty.generatedName s.env.uid s.env.count)) :=
          fun s' hs => .lasting (Lasting.mono hs (.generated (k := s.env.count)
            (Nat.lt_succ_self _)))
        have hassign := @Change.assign task at_ _ n.name (some .global) _ n.span?
          (hnew _ (.refl _))
        exact .head (.create s n.span?) (.head hassign (.single (.setType hn
          (hnew _ hassign.onward))))
      · exact .refl

theorem changes_leaveReturn (hn : at_ <:+ n.place) : Changes task at_ s (leaveReturn n s) := by
  unfold leaveReturn
  dsimp only
  split
  · exact .refl
  · exact .single (.setType hn (offers_typeOf _ _ _))

theorem changes_leaveNode (hn : at_ <:+ n.place) :
    Changes task at_ s (leaveNode task n s).2 := by
  unfold leaveNode
  split
  · exact .refl
  · exact changes_leaveBlock
  · exact changes_leaveBlock
  · exact changes_leaveMember hn
  · exact changes_leaveCall hn
  · exact .single (.setType hn (.result (offers_typeOf _ _ _)))
  · exact changes_leaveObject hn
  · exact .single (.setType hn (offers_binaryType _ (offers_typeOf _ _ _) _))
  · exact .single (.setType hn (offers_binaryType _ (offers_typeOf _ _ _) _))
  · exact .single (.setType hn (by split <;> exact offers_builtin (by decide)))
  · exact .single (.setType hn (by split <;> exact offers_builtin (by decide)))
  · exact changes_leaveFunction hn
  · exact changes_leaveFunction hn
  · exact changes_leaveFunction hn
  · exact changes_leaveDeclarator hn
  · exact changes_leaveAssignment hn
  · exact changes_leaveIdentifier hn
  · exact .single (.retype s n _ hn fun _ h => .member h)
  · exact changes_leaveReturn hn
  · exact .refl

theorem changes_settle (hn : at_ <:+ n.place) : Changes task at_ s (settle n s) := by
  unfold settle
  split
  · exact .single (.setType hn offers_object)
  · exact .refl

/-- The way up follows the rule for the node and settles its type. -/
theorem leave_eq (task : Task) (n : Node) (s : State) : leave task n s =
    match leaveNode task n s with
    | (some a, s) => (some a, s)
    | (none, s) => (none, settle n s) := rfl

/-- **The way up** is made of changes at the node. -/
theorem changes_leave (task : Task) (n : Node) (s : State) :
    Changes task n.place s (leave task n s).2 := by
  rw [leave_eq]
  have h : Changes task n.place s (leaveNode task n s).2 := changes_leaveNode List.suffix_rfl
  rcases hs : leaveNode task n s with ⟨_ | a, s'⟩
  · rw [hs] at h
    exact h.trans (changes_settle List.suffix_rfl)
  · rw [hs] at h
    exact h

/-! ### Walks -/

theorem changes_visitEach {ns : List Node} (hns : ∀ n ∈ ns, at_ <:+ n.place)
    (ih : ∀ n ∈ ns, ∀ s, Changes task n.place s (n.visit (visitor task) s).2) (s : State) :
    Changes task at_ s (Node.visitEach (visitor task) ns s).2 := by
  induction ns generalizing s with
  | nil => exact .refl
  | cons n ns ihn =>
    have hn := (ih n List.mem_cons_self s).mono (hns n List.mem_cons_self)
    rw [Node.visitEach]
    rcases h : n.visit (visitor task) s with ⟨_ | a, s'⟩ <;> rw [h] at hn
    · exact hn.trans (ihn (fun m hm => hns m (List.mem_cons_of_mem _ hm))
        (fun m hm => ih m (List.mem_cons_of_mem _ hm)) s')
    · exact hn

/-- **A walk** is made of changes at or below its root. -/
theorem changes_visit (task : Task) (n : Node) (s : State) :
    Changes task n.place s (n.visit (visitor task) s).2 := by
  induction n using Node.induct generalizing s with
  | step n ih =>
    rw [Node.visit_eq, show (visitor task).enter n s = enter task n s from rfl]
    have hdown := changes_enter task n s
    rcases he : enter task n s with ⟨_ | _ | a, s₁⟩ <;> rw [he] at hdown
    · dsimp only at hdown ⊢
      have heach := changes_visitEach (fun c hc => Node.suffix_of_mem_children hc) ih s₁
      rcases hv : Node.visitEach (visitor task) n.children s₁ with ⟨_ | a, s₂⟩ <;> rw [hv] at heach
      · exact (hdown.trans heach).trans (changes_leave task n s₂)
      · exact hdown.trans heach
    · exact hdown
    · exact hdown

end ContentAssist.Inference
