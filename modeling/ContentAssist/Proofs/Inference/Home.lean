import ContentAssist.Proofs.Inference.BoundName
import ContentAssist.Proofs.Inference.Escape

/-! # Names that stand below one node only

If all identifiers of a name stand below one node, a block or a function that is not itself called so,
then no step elsewhere binds the name in the global scope: no function elsewhere has that name or is told
it, no variable is declared and nothing is assigned under it, and no identifier of it is left there.

* `Home`: the node below which all identifiers of the name stand;
* `Unnamed`, `unnamed_of_mem_moves`: who is not told the name;
* `Home.not_escapes`: the moves elsewhere. -/

namespace ContentAssist.Inference

open Catalog (globalName)

variable {task : Task} {root k n p q : Node} {s s' : State} {x : String} {m : Move State}

theorem isNode_of_rightMost? {id : Node} (h : n.rightMost? = some id) : isNode n.value = true := by
  refine Node.isNode_of_kind fun hother => ?_
  rw [Node.rightMost?.eq_def] at h
  split at h <;> simp_all

/-- All identifiers of the name stand below the node, a block or a function that has another name. -/
structure Home (root k : Node) (x : String) : Prop where
  mem : k ∈ root.all
  kind : k.kind = .blockStatement ∨ k.kind.isFunction = true
  below : ∀ m ∈ root.all, m.identifier? = some x → k.place <:+ m.place
  own : k.kind.isFunction = true → (k.get "id").identifier? ≠ some x

namespace Home

variable (hkeys : root.KeysDistinct) (h : Home root k x)

include h in
theorem kind_ne {kind : Kind} (hkind : kind = .identifier ∨ kind = .memberExpression ∨
    kind = .assignmentExpression ∨ kind = .variableDeclarator) : k.kind ≠ kind := by
  rintro rfl
  rcases h.kind with hk | hk <;> rcases hkind with h | h | h | h <;> rw [h] at hk <;> cases hk

include hkeys h

theorem mem_of_identifier? (hn : n ∈ root.all) (hid : n.identifier? = some x) : n ∈ k.all ∧ n ≠ k := by
  refine ⟨Node.mem_all_of_suffix hkeys h.mem hn (h.below n hn hid), ?_⟩
  rintro rfl
  exact h.kind_ne (Or.inl rfl) (Node.kind_of_identifier? hid)

theorem mem_of_get (hp : p ∈ root.all) {key : String} (hkey : key ∉ bookkeepingFields)
    (hid : (p.get key).identifier? = some x) : p ∈ k.all := by
  have hnode : isNode (p.get key).value = true :=
    Node.isNode_of_kind (by rw [Node.kind_of_identifier? hid]; decide)
  have hchild := Node.get_mem_children hnode hkey
  have hall := Node.mem_all_trans hp (Node.mem_all_of_mem_children hchild)
  obtain ⟨hmem, hne⟩ := h.mem_of_identifier? hkeys hall hid
  exact Node.mem_all_of_mem_children_of_ne hkeys hp h.mem hchild hmem hne

theorem mem_of_rightMost? (hp : p ∈ root.all) {id : Node} (hid : p.rightMost? = some id)
    (hname : id.name = some x) : p ∈ k.all ∧ p ≠ k := by
  induction p using Node.rightMost?.induct with
  | case1 p hkind =>
    rw [Node.rightMost?.eq_def] at hid
    split at hid
    · cases hid
      exact h.mem_of_identifier? hkeys hp ((Node.identifier?_of_kind hkind).trans hname)
    all_goals simp_all
  | case2 p hkind ih =>
    have hproperty : (p.get "property").rightMost? = some id := by
      rw [Node.rightMost?.eq_def] at hid
      split at hid
      · simp_all
      · exact hid
      · cases hid
    have hchild := Node.get_mem_children (isNode_of_rightMost? hproperty) (by decide)
    obtain ⟨hmem, hne⟩ := ih (Node.mem_all_trans hp (Node.mem_all_of_mem_children hchild)) hproperty
    refine ⟨Node.mem_all_of_mem_children_of_ne hkeys hp h.mem hchild hmem hne, ?_⟩
    rintro rfl
    exact h.kind_ne (Or.inr (Or.inl rfl)) hkind
  | case3 p h1 h2 =>
    rw [Node.rightMost?.eq_def] at hid
    split at hid
    · exact absurd ‹_› h1
    · exact absurd ‹_› h2
    · cases hid

theorem mem_of_tells (hn : n ∈ root.all) (hq : q ∈ root.all) (htells : Tells n q.place (some x)) :
    q ∈ k.all ∧ q ≠ k := by
  -- the identifier and what is told its name are fields of one node `p`
  have hbeside : ∀ {p : Node} {key idKey : String}, (∀ r ∈ root.all, r.place = p.place → r = p) →
      root.place <:+ p.place → idKey ∉ bookkeepingFields → q.place = (p.get key).place →
      (p.get idKey).identifier? = some x → q ∈ k.all ∧ q ≠ k := by
    intro p key idKey hp hroot hkey hplace hid
    obtain ⟨r, hr, hrp, hqr⟩ := Node.exists_parent_of_place_get hq hplace hroot
    obtain rfl := hp r hr hrp
    have hmem := h.mem_of_get hkeys hr hkey hid
    refine ⟨Node.mem_all_trans hmem (Node.mem_all_of_mem_children hqr), ?_⟩
    rintro rfl
    have hlt := Node.length_lt_of_mem_children hqr
    have hle := (Node.suffix_of_mem_all hmem).length_le
    omega
  have hplace : root.place <:+ n.place := Node.suffix_of_mem_all hn
  generalize hat : q.place = place at htells
  generalize hto : some x = name at htells
  cases htells with
  | field key hid =>
    exact hbeside (fun r hr hrn => Node.eq_of_place hkeys hr hn hrn) hplace hid hat hto.symm
  | property hp key hid =>
    obtain ⟨i, hi⟩ := Node.place_of_mem_itemsFrom hp
    refine hbeside (fun r hr hrp => Node.eq_of_place_item hkeys hn hp hr hrp) ?_ hid hat hto.symm
    rw [hi]
    exact hplace.trans ((List.suffix_cons _ _).trans (List.suffix_cons _ _))

end Home

/-- The name is told to nothing but what stands strictly below the node. -/
def Unnamed (root k : Node) (x : String) (s : State) : Prop :=
  ∀ q ∈ root.all, (q ∈ k.all → q = k) → (s.fact q).boundName ≠ some x

section

variable (hkeys : root.KeysDistinct) (h : Home root k x)
include hkeys h

theorem unnamed_of_mem_moves {env : Environment} (hm : m ∈ root.moves (visitor task) { env := env }) :
    Unnamed root k x m.before := by
  refine (Node.leads_moves root (visitor task) _).invariant_before (fun m hm hbefore q hq hout => ?_)
    (fun q _ _ hname => ?_) hm
  · obtain ⟨hall, hmove⟩ := Node.isMove_of_mem_moves hm
    intro hname
    rcases Visitor.after_of_isMove hmove with ⟨-, hafter⟩ | ⟨-, hafter⟩ <;> rw [hafter] at hname
    · rcases boundName_enter task m.node m.before q.place with heq | htells
      · exact hbefore q hq hout (heq.symm.trans hname)
      · rw [show ((enter task m.node m.before).2.facts.at q.place).boundName = some x from hname]
          at htells
        obtain ⟨hmem, hne⟩ := h.mem_of_tells hkeys hall hq htells
        exact hne (hout hmem)
    · exact hbefore q hq hout ((boundName_leave task m.node m.before q.place).symm.trans hname)
  · cases hname

/-- **Elsewhere the name does not escape.** -/
theorem Home.not_escapes {env : Environment} (hm : m ∈ root.moves (visitor task) { env := env })
    (hout : m.node ∈ k.all → m.node = k) : ¬ Escapes (some x) m := by
  obtain ⟨hall, -⟩ := Node.isMove_of_mem_moves hm
  have hunnamed := unnamed_of_mem_moves hkeys h hm
  have hown : m.node.kind.isFunction = true → (m.node.get "id").identifier? ≠ some x := by
    intro hkind hid
    obtain heq := hout (h.mem_of_get hkeys hall (by decide) hid)
    rw [heq] at hkind hid
    exact h.own hkind hid
  intro hescapes
  cases hescapes with
  | entered _ hkind hname _ =>
    unfold functionName at hname
    dsimp only at hname
    split at hname
    · rename_i hbound
      exact hunnamed _ hall hout (hbound.trans hname)
    · exact hown hkind hname
  | left hway hkind hname _ =>
    obtain ⟨s₀, -, hdown⟩ := Node.exists_descent_of_mem_moves hm hway
    rcases finalName_of_descended hkind hdown hname with hid | hbound
    · exact hown hkind hid
    · exact hunnamed _ hall hout hbound
  | declarator _ hkind hname _ =>
    have heq := hout (h.mem_of_get hkeys hall (by decide) hname)
    exact h.kind_ne (Or.inr (Or.inr (Or.inr rfl))) (heq ▸ hkind)
  | assignment _ hkind hid hname _ =>
    have hchild := Node.get_mem_children (isNode_of_rightMost? hid) (by decide)
    obtain ⟨hmem, hne⟩ :=
      h.mem_of_rightMost? hkeys (Node.mem_all_trans hall (Node.mem_all_of_mem_children hchild)) hid hname
    have heq := hout (Node.mem_all_of_mem_children_of_ne hkeys hall h.mem hchild hmem hne)
    exact h.kind_ne (Or.inr (Or.inr (Or.inl rfl))) (heq ▸ hkind)
  | identifier _ hkind hname _ _ =>
    obtain ⟨hmem, hne⟩ := h.mem_of_identifier? hkeys hall ((Node.identifier?_of_kind hkind).trans hname)
    exact hne (hout hmem)

end

end ContentAssist.Inference
