import ContentAssist.Proofs.Inference.Halt
import ContentAssist.Proofs.Tree.Layout
import ContentAssist.Proofs.Tree.Place

/-! # The record behind a dot

An inference that stops at the property of a member access answers the record of the object's type.
On the way down the property is told where the object is; the object is walked before the property
and has a type from then on, and the walk of the object leaves alone what the property was told
(`targetType_of_stop`). -/

namespace ContentAssist

/-- A member access: its children are the object and the property, with something between them, and
the property is not empty. -/
structure IsAccess (n : Node) : Prop where
  object : n.get "object" ∈ n.children
  only : ∀ c ∈ n.children, c = n.get "object" ∨ c = n.get "property"
  property : (n.get "property").isNull = false → n.get "property" ∈ n.children ∧
    (n.get "object").stop < (n.get "property").start ∧
    (n.get "property").start < (n.get "property").stop

namespace Inference

variable {task : Task} {n m p : Node} {s s' : State} {scope : String}

theorem answers_of_visit (h : n.visit (visitor task).located s = (some (m, .ok scope), s')) :
    Answers task m s' scope := by
  obtain ⟨k, -, s₀, hk | hk⟩ := Node.exists_step_of_visit h
  · rw [located_enter] at hk
    rcases he : (visitor task).enter k s₀ with ⟨_ | _ | a, s₁⟩ <;> rw [he] at hk <;> cases hk
    exact absurd he enter_ne_found_ok
  · rw [located_leave] at hk
    rcases hl : (visitor task).leave k s₀ with ⟨_ | a, s₁⟩ <;> rw [hl] at hk <;> cases hk
    obtain ⟨rfl, ha⟩ := answer_of_leave hl
    exact ha

theorem exists_child_of_visitEach {cs : List Node} {a : Node × Except Fault String}
    (h : Node.visitEach (visitor task).located cs s = (some a, s')) :
    ∃ c ∈ cs, ∃ s₀, c.visit (visitor task).located s₀ = (some a, s') := by
  induction cs generalizing s with
  | nil => cases h
  | cons c cs ih =>
    rw [Node.visitEach] at h
    rcases hv : c.visit (visitor task).located s with ⟨_ | b, s₁⟩ <;> rw [hv] at h
    · obtain ⟨k, hk, hs⟩ := ih h
      exact ⟨k, List.mem_cons_of_mem _ hk, hs⟩
    · cases h
      exact ⟨c, List.mem_cons_self, s, hv⟩

/-- Before a walk stops below its root, it has entered the node above the stop. -/
theorem exists_parent_of_visit (h : n.visit (visitor task).located s = (some (m, .ok scope), s'))
    (hne : m ≠ n) : ∃ q ∈ n.all, m ∈ q.children ∧ ∃ s₁ s₂, enter task q s₁ = (.descend, s₂) ∧
      Node.visitEach (visitor task).located q.children s₂ = (some (m, .ok scope), s') := by
  induction n using Node.induct generalizing s with
  | step n ih =>
    rw [Node.visit_eq, located_enter, show (visitor task).enter n s = enter task n s from rfl] at h
    rcases he : enter task n s with ⟨_ | _ | a, s₁⟩ <;> rw [he] at h
    · dsimp only at h
      rcases hv : Node.visitEach (visitor task).located n.children s₁ with ⟨_ | b, s₂⟩ <;>
        rw [hv] at h
      · -- the step up of the root answers at the root
        dsimp only at h
        rw [located_leave] at h
        rcases hl : (visitor task).leave n s₂ with ⟨_ | a, s₃⟩ <;> rw [hl] at h <;> cases h
        exact absurd rfl hne
      · cases h
        obtain ⟨c, hc, s₀, hcv⟩ := exists_child_of_visitEach hv
        by_cases hmc : m = c
        · exact ⟨n, n.mem_all_self, hmc ▸ hc, s, s₁, he, hv⟩
        · obtain ⟨q, hq, hrest⟩ := ih c hc hcv hmc
          exact ⟨q, Node.mem_all_of_child hc hq, hrest⟩
    · cases h
    · cases h
      exact absurd rfl hne

/-- A node that was walked without an answer has a type. -/
theorem typed_of_visit (h : n.visit (visitor task) s = (none, s'))
    (hskip : ¬ (n.kind = .variableDeclaration ∧ task.cursor.isBefore n.span? = true)) :
    (s'.facts.at n.place).type.isSome = true := by
  rw [Node.visit_eq, show (visitor task).enter n s = enter task n s from rfl, enter_eq,
    if_neg hskip] at h
  rcases he : enterNode task n s with ⟨fault | _, s₁⟩ <;> rw [he] at h
  · cases h
  · dsimp only at h
    rcases hv : Node.visitEach (visitor task) n.children s₁ with ⟨_ | a, s₂⟩ <;> rw [hv] at h
    · dsimp only at h
      rw [show (visitor task).leave n s₂ = leave task n s₂ from rfl, leave_eq] at h
      rcases hl : leaveNode task n s₂ with ⟨_ | a, s₃⟩ <;> rw [hl] at h
      · cases h
        unfold settle
        cases ht : (s₃.fact n).type with
        | none =>
          rw [Option.isNone_none, if_pos rfl, State.setType, at_learn_self]
          rfl
        | some t =>
          rw [Option.isNone_some, if_neg Bool.false_ne_true]
          exact congrArg Option.isSome ht
      · cases h
    · cases h

theorem visit_located_snd (n : Node) (s : State) :
    (n.visit (visitor task).located s).2 = (n.visit (visitor task) s).2 := by
  rw [Node.visit_located (visitor task) n s]

theorem visit_identifier (hkind : m.kind = .identifier) (hchildren : m.children = [])
    (h : m.visit (visitor task).located s = (some (m, .ok scope), s')) : s' = s := by
  rw [Node.visit_eq, located_enter, show (visitor task).enter m s = enter task m s from rfl,
    enter_eq, if_neg (by simp [hkind])] at h
  simp only [enterNode, hkind, hchildren, Node.visitEach] at h
  rw [located_leave] at h
  rcases hl : (visitor task).leave m s with ⟨_ | a, s₁⟩ <;> rw [hl] at h <;> cases h
  exact (answer_of_leave hl).1

/-! ### The object and the property -/

/-- What a state in a walk of the children of a member access knows: the property where the object
is, and the object's type once it was walked. -/
structure Prepared (p : Node) (cs : List Node) (s : State) : Prop where
  target : (s.facts.at (p.get "property").place).target = some (p.get "object").place
  typed : p.get "object" ∈ cs ∨ (s.facts.at (p.get "object").place).type.isSome = true

theorem prepared_enter (hkind : p.kind = .memberExpression) (hcomputed : p.flag "computed" = false)
    (hobject : p.get "object" ∈ p.children) (hproperty : (p.get "property").isObject = true)
    (h : enter task p s = (.descend, s')) : Prepared p p.children s' := by
  rw [enter_eq, if_neg (by simp [hkind])] at h
  simp only [enterNode, hkind] at h
  cases h
  refine ⟨?_, Or.inl hobject⟩
  have hnull : (p.get "object").isNull = false := by
    obtain ⟨_, _, _, hnode, -⟩ := Node.exists_of_mem_children hobject
    unfold Node.isNull Json.isNull
    split
    · rename_i hv
      simp [hv, isNode, Json.field?] at hnode
    · rfl
  unfold enterMember
  rw [if_pos ⟨hproperty, by simp [hcomputed]⟩, at_learn_self, hnull]
  rfl

theorem not_object_suffix_property (p : Node) :
    ¬ (p.get "object").place <:+ (p.get "property").place := by
  intro h
  have := h.eq_of_length rfl
  simp [Node.get] at this

/-- In the walk of the children of a member access that stops at the property, the property knows
the object and the object has a type. -/
theorem prepared_of_visitEach {cs : List Node} (hcs : ∀ c ∈ cs, c ∈ p.children)
    (hlayout : Layout p) (haccess : IsAccess p)
    (hordered : cs.Pairwise fun a b => a.stop ≤ b.start) {offset : Int}
    (hcursor : task.cursor = some offset)
    (hkind : (p.get "property").kind = .identifier) (hchildren : (p.get "property").children = [])
    (hhalts : halts task.cursor task.source (p.get "property") = true)
    (hin : (p.get "property").start ≤ offset) (hprepared : Prepared p cs s)
    (h : Node.visitEach (visitor task).located cs s =
      (some (p.get "property", .ok scope), s')) : Prepared p [] s' := by
  have hnull : (p.get "property").isNull = false := by
    unfold Node.isNull Json.isNull
    split
    · rename_i hv
      simp [Node.kind, hv, Json.get, Json.field?, Json.str?] at hkind
    · rfl
  obtain ⟨hproperty, hbefore, hwidth⟩ := haccess.property hnull
  have hranged := hlayout.ranged _ (Node.mem_all_of_mem_children haccess.object)
  induction cs generalizing s with
  | nil => cases h
  | cons c cs ih =>
    rw [List.pairwise_cons] at hordered
    rw [Node.visitEach] at h
    have hframed := (changes_visit task c s).framed
    rcases hv : c.visit (visitor task).located s with ⟨_ | a, s₁⟩ <;> rw [hv] at h
    · -- nothing stops in `c`, so it is the object
      have hsnd : (c.visit (visitor task) s).2 = s₁ := by rw [← visit_located_snd, hv]
      have hfst : c.visit (visitor task) s = (none, s₁) := by rw [Node.visit_located, hv]; rfl
      rw [hsnd] at hframed
      rcases haccess.only c (hcs c List.mem_cons_self) with rfl | rfl
      · refine ih (fun k hk => hcs k (List.mem_cons_of_mem _ hk)) hordered.2 ⟨?_, Or.inr ?_⟩ h
        · rw [hframed.elsewhere _ (not_object_suffix_property p)]
          exact hprepared.target
        · refine typed_of_visit hfst ?_
          rintro ⟨-, hskip⟩
          rw [hcursor, isBefore_span_iff hranged.1] at hskip
          omega
      · -- the property itself does stop
        have hstops := halt?_of_visit task (p.get "property") s
        rw [hv, halt?_of_leaf (by simp [hkind]) hchildren hhalts] at hstops
        cases hstops
    · cases h
      rcases haccess.only c (hcs c List.mem_cons_self) with rfl | rfl
      · -- what stops in the object is no property
        have hstops := halt?_of_visit task (p.get "object") s
        rw [hv] at hstops
        exact absurd (Node.suffix_of_mem_all (mem_of_halt? hstops).1)
          (not_object_suffix_property p)
      · obtain rfl := visit_identifier hkind hchildren hv
        refine ⟨hprepared.target, Or.inr ?_⟩
        rcases hprepared.typed with hmem | htyped
        · rcases List.mem_cons.1 hmem with heq | hmem
          · exact absurd (heq ▸ List.suffix_rfl) (not_object_suffix_property p)
          · have := hordered.1 _ hmem
            omega
        · exact htyped

/-- **The record behind a dot**: at a property that is not computed the inference looks into the
record of the object's type. -/
theorem targetType_of_stop {root : Node} (hkeys : root.KeysDistinct) (hlayout : Layout root)
    (haccess : IsAccess p) (hp : p ∈ root.all) (hmember : p.kind = .memberExpression)
    (hcomputed : p.flag "computed" = false) {offset : Int} (hcursor : task.cursor = some offset)
    (hkind : (p.get "property").kind = .identifier) (hchildren : (p.get "property").children = [])
    (hroot : p.get "property" ≠ root)
    (h : root.visit (visitor task).located s = (some (p.get "property", .ok scope), s')) :
    s'.targetType (p.get "property") = some (s'.typeOf (p.get "object")) := by
  have hhalts : halts task.cursor task.source (p.get "property") = true := by
    have hstops := halt?_of_visit task root s
    rw [h] at hstops
    exact (mem_of_halt? hstops).2
  obtain ⟨q, hq, hmem, s₁, s₂, henter, hv⟩ := exists_parent_of_visit h hroot
  obtain rfl := Node.eq_of_get_mem_children hkeys hq hp hmem
  have hlayout' := hlayout.of_mem hp
  have hin : (p.get "property").start ≤ offset := by
    have hin : Cursor.isIn task.cursor (p.get "property").span? = true := by
      simpa [halts, hkind] using hhalts
    rw [hcursor, isIn_span_iff (hlayout'.ranged _ (Node.mem_all_of_mem_children hmem)).1] at hin
    exact hin.1
  have hobject : (p.get "property").isObject = true :=
    Node.isObject_of_kind (by simp [hkind])
  obtain ⟨htarget, htyped⟩ := prepared_of_visitEach (fun _ hc => hc) hlayout' haccess
    (hlayout'.ordered p p.mem_all_self) hcursor hkind hchildren hhalts hin
    (prepared_enter hmember hcomputed haccess.object hobject henter) hv
  rcases htyped with hnone | htyped
  · cases hnone
  · obtain ⟨t, ht⟩ := Option.isSome_iff_exists.1 htyped
    unfold State.targetType State.typeOf State.fact
    rw [htarget, Option.bind_some, ht]
    rfl

end Inference

end ContentAssist
