import ContentAssist.Proofs.Inference.ScopeOpening

/-! # The scopes that a node closes

On the way up a node closes as many scopes as `depth` says, or the walk ends there with an answer
while they are still open. `closes_leaveNode` puts the rules together. -/

namespace ContentAssist.Inference

variable {task : Task} {n : Node} {s s' : State}

/-- The scopes after a step up: some were closed, no more than the node's own, all of those if there
is no answer; and a fault is one of the index. -/
structure Closes (task : Task) (k : Nat) (s : State) (o : Outcome) : Prop where
  outermost : o.2.env.scopes.outermost = s.env.scopes.outermost
  inner : ∃ j ≤ k, o.2.env.scopes.inner = s.env.scopes.inner.drop j ∧ (o.1 = none → j = k)
  fault : ∀ fault, o.1 = some (.error fault) → AskedFault task fault o.2

theorem Closes.of_scopes {o : Outcome} (h : o.2.env.scopes = s.env.scopes)
    (hfault : ∀ fault, o.1 = some (.error fault) → AskedFault task fault o.2) :
    Closes task 0 s o :=
  ⟨by rw [h], ⟨0, Nat.le_refl _, by rw [h, List.drop_zero], fun _ => rfl⟩, hfault⟩

theorem Closes.goOn (h : s'.env.scopes = s.env.scopes) : Closes task 0 s (goOn s') :=
  .of_scopes h fun _ hf => by cases hf

theorem Closes.answer (k : Nat) (scope : String) (h : s'.env.scopes = s.env.scopes) :
    Closes task k s (answer scope s') :=
  ⟨by rw [← h]; rfl, ⟨0, Nat.zero_le _, by rw [← h]; rfl, fun hn => by cases hn⟩,
    fun _ hf => by cases hf⟩

theorem closeScope_eq (h : s.env.scopes.inner ≠ []) :
    ∃ env, closeScope s = goOn (s.withEnv env) ∧ env.scopes = s.env.scopes.pop := by
  unfold closeScope
  cases hp : s.env.popScope? with
  | none => exact absurd (s.env.popScope?_eq_none_iff.1 hp) h
  | some r =>
    obtain ⟨name, env⟩ := r
    exact ⟨env, rfl, Environment.scopes_of_popScope? hp⟩

theorem closes_closeScope (h : 1 ≤ s.env.scopes.inner.length) :
    Closes task 1 s (closeScope s) := by
  obtain ⟨env, heq, hscopes⟩ := closeScope_eq (List.length_pos_iff.1 h)
  rw [heq]
  refine ⟨?_, ⟨1, Nat.le_refl _, ?_, fun _ => rfl⟩, fun _ hf => by cases hf⟩
  · show env.scopes.outermost = _
    rw [hscopes]
    rfl
  · show env.scopes.inner = _
    rw [hscopes, List.drop_one]
    rfl

/-- A change that leaves the scopes alone before the closing of scopes. -/
theorem Closes.of_before {k : Nat} {o : Outcome} (h : s'.env.scopes = s.env.scopes)
    (hc : Closes task k s' o) : Closes task k s o :=
  ⟨hc.outermost.trans (by rw [h]), by rw [← h]; exact hc.inner, hc.fault⟩

theorem closes_leaveConstructor (type result : Ty) (h : 1 ≤ s.env.scopes.inner.length) :
    Closes task 1 s (leaveConstructor n type result s) := by
  obtain ⟨env, heq, hscopes⟩ := closeScope_eq (List.length_pos_iff.1 h)
  have hc : Closes task 1 s (closeScope s) := closes_closeScope h
  unfold leaveConstructor
  rw [heq] at hc ⊢
  obtain ⟨houtermost, hinner, -⟩ := hc
  refine ⟨?_, ?_, fun _ hf => by cases hf⟩
  · simpa [goOn, State.assign, State.withEnv] using houtermost
  · simpa [goOn, State.assign, State.withEnv] using hinner

/-- After the scope of its parameters a constructor closes one more; any other function closes none.
-/
theorem leaveFunction_cases (heq : closeScope s = goOn s') (hfacts : s'.facts = s.facts) :
    (closesObject n s = true ∧
      ∃ type result, leaveFunction n s = leaveConstructor n type result s') ∨
    (closesObject n s = false ∧
      ∃ s'', leaveFunction n s = goOn s'' ∧ s''.env.scopes = s'.env.scopes) := by
  have hfact : ∀ m, s'.fact m = s.fact m := fun m => congrArg (Facts.at m.place) hfacts
  unfold leaveFunction closesObject
  rw [heq]
  dsimp only [goOn]
  rw [hfact n, hfact (n.get "body")]
  split
  · rename_i result params htype hobj
    rw [htype, hobj]
    cases (s.fact (n.get "body")).isConstructorBody with
    | true => exact Or.inl ⟨rfl, _, _, rfl⟩
    | false => exact Or.inr ⟨rfl, _, rfl, scopes_leavePlainFunction _ _ _⟩
  · rename_i h
    refine Or.inr ⟨?_, _, rfl, rfl⟩
    cases htype : (s.fact n).type with
    | none => rfl
    | some t =>
      cases t with
      | named name => rfl
      | function result params =>
        cases hobj : (n.get "body").isObject with
        | false => rfl
        | true => exact absurd hobj (h result params htype)

/-- Leaving a function closes the scope of its parameters and that of its object. -/
theorem closes_leaveFunction (hk : n.kind.isFunction = true)
    (h : depth n s ≤ s.env.scopes.inner.length) : Closes task (depth n s) s (leaveFunction n s) := by
  rw [depth_of_isFunction hk] at h ⊢
  have hlength : 1 ≤ s.env.scopes.inner.length := by
    split at h <;> omega
  obtain ⟨env, heq, hscopes⟩ := closeScope_eq (List.length_pos_iff.1 hlength)
  have houtermost : env.scopes.outermost = s.env.scopes.outermost := by
    rw [hscopes]
    rfl
  have hinner : env.scopes.inner = s.env.scopes.inner.drop 1 := by
    rw [hscopes, List.drop_one]
    rfl
  rcases leaveFunction_cases (n := n) heq rfl with ⟨hc, type, result, hl⟩ | ⟨hc, s'', hl, hs''⟩
  · rw [hc, if_pos rfl] at h
    rw [hc, if_pos rfl, hl]
    have hclose := @closes_leaveConstructor task n (s.withEnv env) type result (by
        show 1 ≤ env.scopes.inner.length
        rw [hinner, List.length_drop]
        omega)
    obtain ⟨j, hj, hdrop, hnone⟩ := hclose.inner
    refine ⟨hclose.outermost.trans houtermost, ⟨j + 1, by omega, ?_, fun hn => ?_⟩, hclose.fault⟩
    · rw [hdrop]
      show env.scopes.inner.drop j = _
      rw [hinner, List.drop_drop, Nat.add_comm]
    · rw [hnone hn]
  · rw [hc, if_neg Bool.false_ne_true, hl]
    refine ⟨?_, ⟨1, Nat.le_refl _, ?_, fun _ => rfl⟩, fun _ hf => by cases hf⟩
    · show s''.env.scopes.outermost = _
      rw [hs'']
      exact houtermost
    · show s''.env.scopes.inner = _
      rw [hs'']
      exact hinner

theorem closes_leaveCall : Closes task 0 s (leaveCall task n s) := by
  unfold leaveCall requiredType
  split
  · rename_i fault s' h
    split at h
    · rename_i index name hindex _
      have hscopes := scopes_loadModule index name s
      have hasked := @askedFault_loadModule task s index hindex name fault (by rw [h])
      rw [h] at hscopes hasked
      refine .of_scopes hscopes fun _ hf => ?_
      cases hf
      exact hasked
    · cases h
  · rename_i h
    split at h
    · rename_i index name _ _
      have hscopes := scopes_loadModule index name s
      rw [h] at hscopes
      exact .goOn hscopes
    · cases h
  · rename_i h
    split at h
    · rename_i index name _ _
      have hscopes := scopes_loadModule index name s
      rw [h] at hscopes
      exact .goOn hscopes
    · cases h
      exact .goOn rfl

theorem closes_leaveMember : Closes task 0 s (leaveMember task n s) := by
  refine .of_scopes (congrArg Environment.scopes (env_leaveMember task n s)) fun fault hf => ?_
  unfold leaveMember at hf
  dsimp only at hf
  split at hf
  · cases hf
  · split at hf
    · cases hf
    · split at hf <;> cases hf

theorem closes_leaveIdentifier : Closes task 0 s (leaveIdentifier task n s) := by
  refine .of_scopes (scopes_leaveIdentifier task n s) fun fault hf => ?_
  unfold leaveIdentifier at hf
  dsimp only at hf
  split at hf
  · cases hf
  · split at hf
    · cases hf
    · split at hf <;> cases hf

theorem closes_leaveBlock (h : 1 ≤ s.env.scopes.inner.length) :
    Closes task 1 s (leaveBlock task n s) := by
  unfold leaveBlock
  split
  · exact .answer 1 _ rfl
  · exact closes_closeScope h

/-- **The way up** closes the scopes of the node. -/
theorem closes_leaveNode (task : Task) (h : depth n s ≤ s.env.scopes.inner.length) :
    Closes task (depth n s) s (leaveNode task n s) := by
  unfold leaveNode
  split
  case h_1 => exact .answer _ _ rfl
  case h_2 hk =>
    have hd : depth n s = 1 := by simp [depth, hk]
    exact hd ▸ closes_leaveBlock (hd ▸ h)
  case h_3 hk =>
    have hd : depth n s = 1 := by simp [depth, hk]
    exact hd ▸ closes_leaveBlock (hd ▸ h)
  case h_4 hk =>
    have hd : depth n s = 0 := by simp [depth, hk]
    exact hd ▸ closes_leaveMember
  case h_5 hk =>
    have hd : depth n s = 0 := by simp [depth, hk]
    exact hd ▸ closes_leaveCall
  case h_7 hk =>
    have hd : depth n s = 1 := by simp [depth, hk]
    have hs := scopes_foldl (scopes_leaveProperty (s.fact n).type) (n.list "properties") s
    rw [hd] at h ⊢
    exact .of_before hs (closes_closeScope (by rw [hs]; exact h))
  case h_12 hk => exact closes_leaveFunction (by rw [hk]; rfl) h
  case h_13 hk => exact closes_leaveFunction (by rw [hk]; rfl) h
  case h_14 hk => exact closes_leaveFunction (by rw [hk]; rfl) h
  case h_17 hk =>
    have hd : depth n s = 0 := by simp [depth, hk]
    exact hd ▸ closes_leaveIdentifier
  case h_20 =>
    have hd : depth n s = 0 := by
      unfold depth
      cases hk : n.kind <;> simp_all
    exact hd ▸ .goOn rfl
  all_goals
    rename_i hk
    have hd : depth n s = 0 := by simp [depth, hk]
    refine hd ▸ .goOn ?_
    first | rfl | simp

end ContentAssist.Inference
