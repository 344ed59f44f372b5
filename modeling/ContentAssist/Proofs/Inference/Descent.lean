import ContentAssist.Proofs.Inference.ScopeBalance
import ContentAssist.Proofs.Inference.Targets

/-! # What a node finds when it is left

Between the way down and the way up at a node its children are walked. They leave the scopes below them
and the facts about the node itself alone, so the way up finds what the way down left.

* `inner_of_descended`: the scopes;
* `type_of_descended`: the type of an object;
* `closesObject_of_descended`, `boundName_of_descended`: whether a function is a constructor, and the name
  that it is bound under. -/

namespace ContentAssist.Inference

variable {task : Task} {n : Node} {s s' : State}

/-! ### Scopes -/

/-- When a node is left, the scopes are there that there were when it was entered, below those that it
closes. -/
theorem inner_of_descended (hdown : Node.Descended (visitor task) n s s') :
    s.env.scopes.inner <:+ s'.env.scopes.inner.drop (depth n s') := by
  obtain ⟨s₁, henter, hvisit⟩ := hdown
  obtain ⟨opened, hopens, hdepth⟩ := opens_enterNode task n s
  obtain ⟨⟨further, hfurther, -⟩, -⟩ := balanced_children task n s₁
  have hsame := @depth_eq_of_visitEach task n n.children (fun _ hc => hc) s₁
  change enter task n s = (.descend, s₁) at henter
  rw [enterNode_of_descend henter] at hopens hdepth
  rw [hvisit] at hfurther hsame
  have hle : depth n s' ≤ (further ++ opened).length := by
    have hopened : depth n s' ≤ opened.length := Nat.le_trans (Nat.le_of_eq hsame) (hdepth rfl).1
    rw [List.length_append]
    omega
  rw [hfurther.inner, hopens.inner, ← List.append_assoc, List.drop_append_of_le_length hle]
  exact List.suffix_append _ _

/-! ### Objects -/

theorem type_enterObject (n : Node) (s : State) :
    ((enterObject n s).fact n).type = some (.named (s.env.newObject none n.span?).1) := by
  -- the properties stand below the object, so what is learnt about them is not about it
  have hproperties : ∀ (ps : List Node), (∀ p ∈ ps, p ∈ n.list "properties") → ∀ t s,
      (ps.foldl (enterProperty t) s).fact n = s.fact n := by
    intro ps
    induction ps with
    | nil => exact fun _ _ _ => rfl
    | cons p ps ih =>
      intro hps t s
      rw [List.foldl_cons, ih (fun q hq => hps q (List.mem_cons_of_mem _ hq))]
      have hchanges : Changes ⟨"", none, none⟩ p.place s (enterProperty t s p) :=
        changes_enterProperty List.suffix_rfl t
      refine hchanges.framed.elsewhere n.place fun hsuffix => ?_
      obtain ⟨i, hi⟩ := Node.place_of_mem_itemsFrom (hps p List.mem_cons_self)
      have := hsuffix.length_le
      rw [hi, Node.get, List.length_cons, List.length_cons] at this
      omega
  unfold enterObject
  dsimp only
  rw [hproperties _ fun _ hp => hp]
  exact congrArg Fact.type (at_learn_self _ n _)

/-- When an object expression is left, its type is that of the object that was new when it was entered. -/
theorem type_of_descended (hkind : n.kind = .objectExpression)
    (hdown : Node.Descended (visitor task) n s s') :
    (s'.fact n).type = some (.named (s.env.newObject none n.span?).1) := by
  obtain ⟨s₁, henter, hvisit⟩ := hdown
  have hentered : enterNode task n s = (.ok (), s₁) := enterNode_of_descend henter
  simp only [enterNode, hkind] at hentered
  obtain rfl : enterObject n s = s₁ := congrArg Prod.snd hentered
  have hfact := @fact_visitEach task n n.children (fun _ hc => hc) (enterObject n s)
  rw [hvisit] at hfact
  rw [hfact, type_enterObject]

/-! ### Functions -/

theorem enterFunction_of_descend (hkind : n.kind.isFunction = true)
    (henter : (visitor task).enter n s = (.descend, s')) : (enterFunction task n s).2 = s' := by
  have hentered : enterNode task n s = (.ok (), s') := enterNode_of_descend henter
  rw [enterNode_of_isFunction hkind] at hentered
  exact congrArg Prod.snd hentered

/-- A function was entered, and the facts about it are those that there were then. -/
theorem fact_of_descended (hkind : n.kind.isFunction = true)
    (hdown : Node.Descended (visitor task) n s s') :
    s'.fact n = (enterFunction task n s).2.fact n ∧
      closesObject n s' = closesObject n (enterFunction task n s).2 := by
  obtain ⟨s₁, henter, hvisit⟩ := hdown
  obtain rfl := enterFunction_of_descend hkind henter
  have hfact := @fact_visitEach task n n.children (fun _ hc => hc) (enterFunction task n s).2
  have hclose := @closesObject_visitEach task n n.children (fun _ hc => hc) (enterFunction task n s).2
  rw [hvisit] at hfact hclose
  exact ⟨hfact, hclose⟩

/-- A function is left as a constructor if it was entered as one. -/
theorem closesObject_of_descended (hkind : n.kind.isFunction = true)
    (hdown : Node.Descended (visitor task) n s s') :
    closesObject n s' = (isConstructor n (functionName n s).1 && (n.get "body").isObject) := by
  rw [(fact_of_descended hkind hdown).2, closesObject_enterFunction]

theorem boundName_of_descended (hkind : n.kind.isFunction = true)
    (hdown : Node.Descended (visitor task) n s s') :
    (s'.fact n).boundName = (s.fact n).boundName := by
  rw [(fact_of_descended hkind hdown).1]
  exact kept_enterFunction (π := Fact.boundName) (fun _ _ => rfl) (fun _ _ => rfl) task n s n.place

end ContentAssist.Inference
