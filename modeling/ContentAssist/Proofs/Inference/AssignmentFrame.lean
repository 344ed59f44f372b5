import ContentAssist.Proofs.Environment.Binding
import ContentAssist.Proofs.Inference.MemberStop
import ContentAssist.Proofs.Inference.Targets

/-! # What an assignment leaves alone

The left side of an assignment denotes a variable, or the member behind a dot, or what an index selects
and no name at all (`assignee?`). The name that is written is found by a descent of its own,
`Node.rightMost?`, and whose member it is was remarked when the access was entered. Where the descent
ends at the identifier that the left side denotes, the assignment changes the binding of that name and
nothing else; it goes wrong at an index that ends in an identifier, which it takes for what is assigned
(`index_retyped`).

* `assignee?`, `assigneeTarget`: what the left side denotes;
* `prepared_of_visit`: once a member access was walked, its property knows the object and the object has
  a type;
* `assignment_changes_assignee`: the frame of an assignment. -/

namespace ContentAssist

namespace Inference

variable {task : Task} {n p : Node} {s s' : State}

/-- The identifier that the left side of an assignment denotes. -/
def assignee? (left : Node) : Option Node :=
  if left.kind = .identifier then some left
  else if left.kind = .memberExpression ∧ left.flag "computed" = false ∧
      (left.get "property").kind = .identifier then some (left.get "property")
  else none

/-- The type whose member the left side of an assignment denotes, if it is a member access. -/
def assigneeTarget (left : Node) (s : State) : Option Ty :=
  if left.kind = .memberExpression then some (s.typeOf (left.get "object")) else none

/-- The parts of a member access are as the grammar has them: in front of the dot or the bracket stands
an expression, and behind a dot no other access. -/
structure IsProperAccess (n : Node) : Prop where
  object : isNode (n.get "object").value = true
  expression : (n.get "object").kind ≠ .variableDeclaration
  property : n.flag "computed" = false → (n.get "property").kind ≠ .memberExpression

/-- The descent ends at what the left side denotes, unless an index ends in an identifier. -/
theorem rightMost?_eq_assignee? (haccess : n.kind = .memberExpression → IsProperAccess n)
    (hindex : n.kind = .memberExpression → n.flag "computed" = true →
      (n.get "property").rightMost? = none) : n.rightMost? = assignee? n := by
  unfold assignee?
  rw [Node.rightMost?]
  split
  · rename_i hkind
    rw [if_pos hkind]
  · rename_i hkind
    rw [if_neg (by rw [hkind]; decide)]
    cases hcomputed : n.flag "computed" with
    | true => rw [hindex hkind hcomputed, if_neg (by simp)]
    | false =>
      have hproperty := (haccess hkind).property hcomputed
      rw [Node.rightMost?]
      split
      · rename_i hid
        rw [if_pos ⟨hkind, rfl, hid⟩]
      · rename_i hmember
        exact absurd hmember hproperty
      · rename_i hid _
        rw [if_neg fun h => hid h.2.2]
  · rename_i hid hmember
    rw [if_neg hid, if_neg fun h => hmember h.1]

/-! ### The object and the property of a walked access -/

/-- Walking the children of a member access leaves its property prepared. -/
theorem prepared_of_visitEach_none (hkeys : (p.value.fields.map (·.1)).Nodup)
    (hobject : p.get "object" ∈ p.children) (hexpression : (p.get "object").kind ≠ .variableDeclaration)
    {cs : List Node} (hcs : ∀ c ∈ cs, c ∈ p.children) (hprepared : Prepared p cs s)
    (h : Node.visitEach (visitor task) cs s = (none, s')) : Prepared p [] s' := by
  induction cs generalizing s with
  | nil =>
    cases h
    exact hprepared
  | cons c cs ih =>
    have hc := hcs c List.mem_cons_self
    rw [Node.visitEach] at h
    have htarget : ((c.visit (visitor task) s).2.facts.at (p.get "property").place).target =
        (s.facts.at (p.get "property").place).target := target_visit (fun m hm heq =>
      Node.place_ne_of_mem_child hc hm (List.tail_eq_of_cons_eq heq).symm) s
    have hframed := (changes_visit task c s).framed
    rcases hv : c.visit (visitor task) s with ⟨_ | a, s₁⟩ <;> rw [hv] at h htarget hframed
    · refine ih (fun k hk => hcs k (List.mem_cons_of_mem _ hk)) ⟨htarget.trans hprepared.target, ?_⟩ h
      by_cases hobj : c = p.get "object"
      · exact Or.inr (hobj ▸ typed_of_visit hv fun hskip => hexpression (hobj ▸ hskip.1))
      · rcases hprepared.typed with hmem | htyped
        · exact Or.inl ((List.mem_cons.1 hmem).resolve_left (Ne.symm hobj))
        · rw [hframed.elsewhere _ fun hsuffix =>
            hobj (Node.eq_of_mem_children hkeys hc hobject hsuffix List.suffix_rfl)]
          exact Or.inr htyped
    · cases h

/-- Leaving a member access changes facts about the access alone. -/
theorem at_leave_member (hkind : p.kind = .memberExpression) {place : Place} (hplace : p.place ≠ place) :
    (leave task p s).2.facts.at place = s.facts.at place := by
  have hset : ∀ (s : State) t, (s.setType p t).facts.at place = s.facts.at place := fun s t => by
    rw [State.setType, at_learn, if_neg hplace]
  have hrule : (leaveMember task p s).2.facts.at place = s.facts.at place := by
    unfold leaveMember
    dsimp only
    split
    · rfl
    · split
      · exact hset s _
      · split <;> exact hset s _
  rw [leave_eq]
  simp only [leaveNode, hkind]
  rcases hl : leaveMember task p s with ⟨_ | a, s'⟩ <;> rw [hl] at hrule
  · refine Eq.trans ?_ hrule
    dsimp only
    unfold settle
    split
    · exact hset s' _
    · rfl
  · exact hrule

/-- Walking a member access that is not computed leaves its property prepared. -/
theorem prepared_of_visit (hkeys : p.KeysDistinct) (hkind : p.kind = .memberExpression)
    (haccess : IsProperAccess p) (hcomputed : p.flag "computed" = false)
    (hproperty : (p.get "property").kind = .identifier)
    (h : p.visit (visitor task) s = (none, s')) : Prepared p [] s' := by
  have hobject : p.get "object" ∈ p.children := Node.get_mem_children haccess.object (by decide)
  rw [Node.visit_eq, show (visitor task).enter p s = enter task p s from rfl] at h
  rcases he : enter task p s with ⟨_ | _ | a, s₁⟩ <;> rw [he] at h
  · have hprepared : Prepared p p.children s₁ :=
      prepared_enter hkind hcomputed hobject (Node.isObject_of_kind (by simp [hproperty])) he
    dsimp only at h
    rcases hv : Node.visitEach (visitor task) p.children s₁ with ⟨_ | a, s₂⟩ <;> rw [hv] at h
    · obtain ⟨htarget, htyped⟩ := prepared_of_visitEach_none (hkeys p p.mem_all_self) hobject
        haccess.expression (fun _ hc => hc) hprepared hv
      obtain rfl : (leave task p s₂).2 = s' := congrArg Prod.snd h
      refine ⟨(target_leave task p s₂ _).trans htarget, Or.inr ?_⟩
      rw [at_leave_member hkind (get_place_ne p "object")]
      exact htyped.resolve_left List.not_mem_nil
    · cases h
  · rw [enter_eq, if_neg (by simp [hkind])] at he
    split at he <;> cases he
  · cases h

/-- Walking the siblings of a member access leaves its property prepared. -/
theorem prepared_of_visitEach_siblings (hkeys : n.KeysDistinct) (hp : p ∈ n.children)
    (hvisit : ∀ {s s'}, p.visit (visitor task) s = (none, s') → Prepared p [] s') {cs : List Node}
    (hcs : ∀ c ∈ cs, c ∈ n.children) (hprepared : p ∈ cs ∨ Prepared p [] s)
    (h : Node.visitEach (visitor task) cs s = (none, s')) : Prepared p [] s' := by
  induction cs generalizing s with
  | nil =>
    cases h
    exact hprepared.resolve_left List.not_mem_nil
  | cons c cs ih =>
    have hc := hcs c List.mem_cons_self
    rw [Node.visitEach] at h
    have hframed := (changes_visit task c s).framed
    rcases hv : c.visit (visitor task) s with ⟨_ | a, s₁⟩ <;> rw [hv] at h hframed
    · refine ih (fun k hk => hcs k (List.mem_cons_of_mem _ hk)) ?_ h
      by_cases hcp : c = p
      · exact Or.inr (hvisit (hcp ▸ hv))
      · refine hprepared.imp (fun hmem => (List.mem_cons.1 hmem).resolve_left (Ne.symm hcp)) ?_
        rintro ⟨htarget, htyped⟩
        -- what is read from the access is not below its sibling
        have hnot : ∀ key, ¬ c.place <:+ (p.get key).place := fun key hsuffix =>
          hcp (Node.eq_of_mem_children (hkeys n n.mem_all_self) hc hp hsuffix (suffix_get p key))
        refine ⟨?_, Or.inr ?_⟩
        · rw [hframed.elsewhere _ (hnot "property")]
          exact htarget
        · rw [hframed.elsewhere _ (hnot "object")]
          exact htyped.resolve_left List.not_mem_nil
    · cases h

/-! ### The assignment -/

/-- The type whose member is written, when the assignment is left: types that the assignment and the
identifier get in between play no part. -/
theorem targetType_assignee {id : Node} (hid : assignee? (n.get "left") = some id) (hpointed : Pointed s)
    (hprepared : (n.get "left").kind = .memberExpression → Prepared (n.get "left") [] s) (t : Ty) :
    ((s.setType n t).setType id t).targetType id = assigneeTarget (n.get "left") s := by
  have htarget : (((s.setType n t).setType id t).fact id).target = (s.fact id).target :=
    ((Kept.setType typeless_target n t).trans (Kept.setType typeless_target id t)) id.place
  unfold State.targetType
  rw [htarget]
  unfold assignee? at hid
  unfold assigneeTarget
  split at hid
  · rename_i hkind
    cases hid
    rw [hpointed.target_get (by decide) n, if_neg (by rw [hkind]; decide)]
    rfl
  · split at hid
    · rename_i hmember
      cases hid
      obtain ⟨hto, htyped⟩ := hprepared hmember.1
      obtain ⟨type, htype⟩ := Option.isSome_iff_exists.1 (htyped.resolve_left List.not_mem_nil)
      -- neither the assignment nor the property stands where the object does
      have hassignment : n.place ≠ ((n.get "left").get "object").place := fun h => by
        have := congrArg List.length h
        simp only [Node.get, List.length_cons] at this
        omega
      have hproperty : ((n.get "left").get "property").place ≠ ((n.get "left").get "object").place :=
        fun h => by simp [Node.get] at h
      rw [if_pos hmember.1, State.fact, hto, Option.bind_some, State.setType, at_learn,
        if_neg hproperty, State.setType, at_learn, if_neg hassignment]
      unfold State.typeOf State.fact
      rw [htype]
      rfl
    · cases hid

/-- **An assignment changes only what its left side denotes.** In a walk that starts in any environment,
leaving an assignment changes the environment not at all if the left side denotes no name; else it
changes the nearest binding of the variable, or that of the member reached from the type of the object,
and no other. The index of a computed access must not end in an identifier. -/
theorem assignment_changes_assignee {root : Node} (hkeys : root.KeysDistinct) (env : Environment)
    {m : Move State} (hm : m ∈ root.moves (visitor task) { env := env }) (hup : m.way = .up)
    (hkind : m.node.kind = .assignmentExpression)
    (haccess : (m.node.get "left").kind = .memberExpression → IsProperAccess (m.node.get "left"))
    (hindex : (m.node.get "left").kind = .memberExpression → (m.node.get "left").flag "computed" = true →
      ((m.node.get "left").get "property").rightMost? = none) :
    match assignee? (m.node.get "left") with
    | none => m.after.env = m.before.env
    | some id => Environment.Assigns id.name (assigneeTarget (m.node.get "left") m.before)
        m.before.env m.after.env := by
  obtain ⟨hall, hmove⟩ := Node.isMove_of_mem_moves hm
  have hpointed := pointed_of_mem_moves (pointed_of_env env) hm
  obtain ⟨s₀, -, s₁, -, hvisit⟩ := Node.exists_descent_of_mem_moves hm hup
  obtain ⟨n, way, s, after⟩ := m
  obtain rfl : way = .up := hup
  obtain rfl : after = (leave task n s).2 := congrArg Move.after hmove
  dsimp only at hall hkind hpointed hvisit haccess hindex ⊢
  have hkeys' : n.KeysDistinct := fun k hk => hkeys k (Node.mem_all_trans hall hk)
  have hleave : (leave task n s).2.env = (leaveAssignment n s).env := by
    rw [leave_eq]
    simp only [leaveNode, hkind, goOn]
    exact env_settle n _
  rw [hleave]
  unfold leaveAssignment
  dsimp only
  rw [rightMost?_eq_assignee? haccess hindex]
  cases hid : assignee? (n.get "left") with
  | none => rfl
  | some id =>
    dsimp only
    rw [targetType_assignee hid hpointed fun hmember => ?_]
    · exact s.env.assigns_addOrSet _ _ _ _
    · have hdot : (n.get "left").flag "computed" = false ∧
          ((n.get "left").get "property").kind = .identifier := by
        unfold assignee? at hid
        rw [if_neg (by rw [hmember]; decide)] at hid
        split at hid
        · rename_i h
          exact h.2
        · cases hid
      have hleft : n.get "left" ∈ n.children :=
        Node.get_mem_children (Node.isNode_of_kind (by simp [hmember])) (by decide)
      exact prepared_of_visitEach_siblings hkeys' hleft
        (fun h => prepared_of_visit (hkeys'.of_child hleft) hmember (haccess hmember) hdot.1 hdot.2 h)
        (fun _ hc => hc) (Or.inl hleft) hvisit

/-- The tree of `var o={},i=0;⟨left⟩="";`, where the left side is `o[i]` or `o.i`. -/
def storingProgram (computed : Bool) : Node :=
  let node (type : String) (fields : List (String × Json)) : Json := .obj (("type", .str type) :: fields)
  let identifier (name : String) : Json := node "Identifier" [("name", .str name)]
  .root (node "Program" [("body", .arr [
    node "VariableDeclaration" [("declarations", .arr [
      node "VariableDeclarator" [("id", identifier "o"), ("init", node "ObjectExpression" [
        ("properties", .arr [])])],
      node "VariableDeclarator" [("id", identifier "i"), ("init", node "Literal" [
        ("value", .int 0)])]])],
    node "ExpressionStatement" [("expression", node "AssignmentExpression" [("operator", .str "="),
      ("left", node "MemberExpression" [("computed", .bool computed), ("object", identifier "o"),
        ("property", identifier "i")]),
      ("right", node "Literal" [("value", .str "")])])]])])

/-- Behind the dot `i` is a member of the object that `o` holds, and its binding is all that changes. -/
theorem assignment_changes_assignee_dotted :
    ∃ m ∈ (storingProgram false).moves (visitor ⟨"", none, none⟩) { env := .start "file" },
      m.after.env.lookup? (some "i") (some (.named "gen~file~1")) = some .string ∧
        m.after.env.lookup? (some "i") none = some .number ∧
        Environment.Assigns (some "i") (some (.named "gen~file~1")) m.before.env m.after.env := by
  have hkeys : ∀ m ∈ (storingProgram false).all, (m.value.fields.map (·.1)).Nodup := by decide +kernel
  have hexists : ∃ m ∈ (storingProgram false).moves (visitor ⟨"", none, none⟩) { env := .start "file" },
      (m.way = .up ∧ m.node.kind = .assignmentExpression) ∧
      (isNode ((m.node.get "left").get "object").value = true ∧
        ((m.node.get "left").get "object").kind ≠ .variableDeclaration ∧
        ((m.node.get "left").get "property").kind ≠ .memberExpression) ∧
      ((m.node.get "left").flag "computed" = false ∧
        (assignee? (m.node.get "left")).map Node.name = some (some "i") ∧
        assigneeTarget (m.node.get "left") m.before = some (.named "gen~file~1")) ∧
      m.after.env.lookup? (some "i") (some (.named "gen~file~1")) = some .string ∧
      m.after.env.lookup? (some "i") none = some .number := by decide +kernel
  obtain ⟨m, hm, ⟨hup, hkind⟩, ⟨hobject, hexpression, hproperty⟩, ⟨hdot, hname, htarget⟩, hi, hi'⟩ :=
    hexists
  have h := assignment_changes_assignee hkeys (.start "file") hm hup hkind
    (fun _ => ⟨hobject, hexpression, fun _ => hproperty⟩) fun _ hcomputed => by
      rw [hdot] at hcomputed
      cases hcomputed
  obtain ⟨id, hid, hidname⟩ := Option.map_eq_some_iff.1 hname
  rw [hid, htarget] at h
  dsimp only at h
  rw [hidname] at h
  exact ⟨m, hm, hi, hi', h⟩

/-- Between brackets `i` is a variable that selects a member, and it is given the type of what is
stored. -/
theorem index_retyped :
    ∃ m ∈ (storingProgram true).moves (visitor ⟨"", none, none⟩) { env := .start "file" },
      m.way = .up ∧ m.node.kind = .assignmentExpression ∧ (m.node.get "left").flag "computed" = true ∧
        m.before.env.lookup? (some "i") none = some .number ∧
        m.after.env.lookup? (some "i") none = some .string := by decide +kernel

end Inference

end ContentAssist
