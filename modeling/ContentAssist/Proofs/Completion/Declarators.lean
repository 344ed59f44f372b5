import ContentAssist.Proofs.Completion.Refusal

/-! # The declaring part of a variable

From behind the start of a declarator up to its initializer a variable is being declared, and no completion
should apply. One is refused at the name only. There the walk to the cursor ends, and the declarator is the
innermost node around the offset. Beside the name the walk leaves the declarator again, which is dropped
then, and comes to the block or the program around it, so the site is one of variables.

* `InDeclaringPart`: the offsets that are meant;
* `refused_visit_of_onName`, `visit_declarator_of_not_onName`: the walk of the declarator;
* `ProgramTree.passed_visit`: the walk that comes back from it;
* `site_in_declaring_part`: what is asked for there;
* `declared_beside_name`: in front of the mark of an assignment variables are proposed. -/

namespace ContentAssist

variable {root n c d i : Node} {offset : Int} {source : String} {stack : List Node}

/-! ### The declaring part -/

/-- The offset is in the declaring part of a variable with a plain name: behind the start of the declarator
and inside of it, and there is no initializer or the offset is in front of it. -/
structure InDeclaringPart (offset : Int) (d : Node) : Prop where
  kind : d.kind = .variableDeclarator
  name : (d.get "id").kind = .identifier
  parts : ∀ c ∈ d.children, c = d.get "id" ∨ c = d.get "init"
  inside : d.start < offset ∧ offset ≤ d.stop
  initializer : (d.get "init").isNull = true ∨
    Cursor.isBefore (some offset) (d.get "init").span? = true

/-- The offset is in the name that is declared, or at one of its ends. -/
def OnName (offset : Int) (d : Node) : Prop :=
  (d.get "id").start ≤ offset ∧ offset ≤ (d.get "id").stop

/-- Whatever the declarator says nothing is asked for: the offset is in a comment, or the declarator stands in
a literal or in the head of a function. -/
def IsBarred (root : Node) (offset : Int) (d : Node) : Prop :=
  inComment root offset = true ∨ ∃ m ∈ root.all, d ∈ m.all ∧ Bars offset m

namespace InDeclaringPart
variable (h : InDeclaringPart offset d)
include h

theorem isIn (hlayout : Layout d) : Cursor.isIn (some offset) d.span? = true := by
  have hinside := h.inside
  rw [isIn_span_iff (hlayout.ranged d d.mem_all_self).1]
  omega

theorem name_mem : d.get "id" ∈ d.children :=
  Node.get_mem_children (Node.isNode_of_kind (by simp [h.name])) (by decide)

theorem isIn_initializer (hc : d.get "init" ∈ d.children) :
    Cursor.isIn (some offset) (d.get "init").span? = false := by
  have hnode : isNode (d.get "init").value = true := by
    obtain ⟨_, _, _, hnode, -⟩ := Node.exists_of_mem_children hc
    exact hnode
  rcases h.initializer with hnull | hbefore
  · unfold Node.isNull Json.isNull at hnull
    split at hnull
    · rename_i hv
      simp [hv, isNode, Json.field?] at hnode
    · cases hnull
  · cases hspan : (d.get "init").span? with
    | none => rfl
    | some span =>
      rw [hspan] at hbefore
      have hlt : offset < span.start := by simpa [Cursor.isBefore] using hbefore
      simp only [Cursor.isIn, Bool.and_eq_false_iff, decide_eq_false_iff_not]
      omega

theorem siteIn?_eq_none (source : String) : siteIn? offset source d = none := by
  unfold siteIn?
  simp [h.kind, h.initializer]

/-- The walk to the cursor does not stop at the declarator. -/
theorem visit_eq (hlayout : Layout d) (stack : List Node) :
    d.visit (aroundVisitor offset source) stack =
      match Node.visitEach (aroundVisitor offset source) d.children (d :: stack) with
      | (some a, s) => (some a, s)
      | (none, s) => leaveAround offset d s := by
  have hbars : ¬ Bars offset d := by simp [Bars, h.kind, Kind.isFunction]
  exact visit_around_of_not_bars (h.isIn hlayout) (by simp [h.kind]) hbars (by simp [h.kind]) stack

end InDeclaringPart

/-! ### The walk of the declarator -/

/-- The walk ends at an identifier around the offset, if nothing beside it is around the offset. -/
theorem visitEach_around_of_identifier {cs : List Node} (hi : i ∈ cs) (hkind : i.kind = .identifier)
    (hin : Cursor.isIn (some offset) i.span? = true)
    (hothers : ∀ c ∈ cs, c = i ∨ c.kind ≠ .program ∧ Cursor.isIn (some offset) c.span? = false)
    (stack : List Node) :
    Node.visitEach (aroundVisitor offset source) cs stack = (some true, stack) := by
  have hvisit : i.visit (aroundVisitor offset source) stack = (some true, stack) := by
    rw [Node.visit_eq, show (aroundVisitor offset source).enter i stack =
      enterAround offset source i stack from rfl, enterAround_eq, if_neg (by simp [hin]), if_pos hkind]
  induction cs with
  | nil => cases hi
  | cons c cs ih =>
    rw [Node.visitEach]
    by_cases hci : c = i
    · rw [hci, hvisit]
    · obtain ⟨hprogram, hout⟩ := (hothers c List.mem_cons_self).resolve_left hci
      have hrest : i ∈ cs := (List.mem_cons.1 hi).resolve_left (Ne.symm hci)
      rw [visit_around_of_out hprogram hout]
      exact ih hrest fun k hk => hothers k (List.mem_cons_of_mem _ hk)

section Tree
variable (htree : ProgramTree root)
include htree

/-- **At the name** the walk of the declarator ends, and nothing is asked for. -/
theorem refused_visit_of_onName (hd : d ∈ root.all) (h : InDeclaringPart offset d)
    (hname : OnName offset d) (stack : List Node) :
    Refused offset source (d.visit (aroundVisitor offset source) stack) := by
  have hlayout := htree.layout.of_mem hd
  have hranged := hlayout.ranged _ (Node.mem_all_of_mem_children h.name_mem)
  have hchildren : Node.visitEach (aroundVisitor offset source) d.children (d :: stack) =
      (some true, d :: stack) := by
    refine visitEach_around_of_identifier h.name_mem h.name ((isIn_span_iff hranged.1).2 hname)
      (fun c hc => ?_) _
    refine (h.parts c hc).imp_right ?_
    rintro rfl
    obtain ⟨k, hk, hck⟩ := exists_child_of_mem_children hd hc
    exact ⟨htree.nested k hk _ hck, h.isIn_initializer hc⟩
  rw [h.visit_eq hlayout, hchildren]
  exact .head _ (h.siteIn?_eq_none source)

/-- **Beside the name** the walk goes through the declarator, which is dropped. -/
theorem visit_declarator_of_not_onName (hd : d ∈ root.all) (h : InDeclaringPart offset d)
    (hname : ¬ OnName offset d) (stack : List Node) :
    d.visit (aroundVisitor offset source) stack = (none, stack) := by
  have hlayout := htree.layout.of_mem hd
  have hchildren : Node.visitEach (aroundVisitor offset source) d.children (d :: stack) =
      (none, d :: stack) := by
    refine visitEach_around_of_out (fun c hc => ?_) _
    obtain ⟨k, hk, hck⟩ := exists_child_of_mem_children hd hc
    refine ⟨htree.nested k hk _ hck, ?_⟩
    rcases h.parts c hc with rfl | rfl
    · rw [Bool.eq_false_iff, ne_eq,
        isIn_span_iff (hlayout.ranged _ (Node.mem_all_of_mem_children hc)).1]
      exact hname
    · exact h.isIn_initializer hc
  rw [h.visit_eq hlayout, hchildren]
  exact leaveAround_of_not_block (by simp [h.kind]) (by simp [h.kind]) stack

/-! ### The way back -/

omit htree in
/-- What the walk to the cursor comes to in a part of the tree if it has gone through a node in it and ends
at a block or the program, if anywhere. -/
inductive Passed (offset : Int) (source : String) (stack : List Node) : Option Bool × List Node → Prop
  | through : Passed offset source stack (none, stack)
  | ended {p : Node} (rest : List Node) (h : siteIn? offset source p = some .top) :
    Passed offset source stack (some true, p :: rest)

omit htree in
theorem passed_leaveAround (n : Node) (stack : List Node) :
    Passed offset source stack (leaveAround offset n (n :: stack)) := by
  unfold leaveAround
  split
  · rename_i hends
    exact .ended _ (siteIn?_of_other (hends.symm.imp_left And.left))
  · exact .through

/-- The children behind the one that the walk has gone through begin behind the offset. -/
theorem ProgramTree.passed_children (hn : n ∈ root.all) (hc : c ∈ n.children)
    (hinside : c.start < offset ∧ offset < c.stop)
    (hvisit : Passed offset source stack (c.visit (aroundVisitor offset source) stack)) :
    Passed offset source stack (Node.visitEach (aroundVisitor offset source) n.children stack) := by
  obtain ⟨rest, hrest, heq⟩ := htree.exists_visitEach_eq hn hc hinside.1 stack
  rw [heq, Node.visitEach]
  generalize c.visit (aroundVisitor offset source) stack = r at hvisit
  cases hvisit with
  | through =>
    dsimp only
    rw [visitEach_around_of_out fun k hk => ?_]
    · exact .through
    · obtain ⟨hkn, hbehind⟩ := hrest k hk
      obtain ⟨j, hj, hkj⟩ := exists_child_of_mem_children hn hkn
      refine ⟨htree.nested j hj k hkj, ?_⟩
      have hranged := htree.layout.ranged k (Node.mem_all_trans hn (Node.mem_all_of_mem_children hkn))
      rw [Bool.eq_false_iff, ne_eq, isIn_span_iff hranged.1]
      omega
  | ended rest h => exact .ended rest h

/-- **The walk that comes back** from a node through which it has gone ends at the innermost block around it,
or at the program, if nothing on the way down ends it. -/
theorem ProgramTree.passed_visit (hn : n ∈ root.all) (hd : d ∈ n.all)
    (hinside : d.start < offset ∧ offset < d.stop)
    (hvisit : ∀ stack, d.visit (aroundVisitor offset source) stack = (none, stack))
    (hopen : ∀ m ∈ n.all, d ∈ m.all → ¬ Bars offset m) (stack : List Node) :
    Passed offset source stack (n.visit (aroundVisitor offset source) stack) := by
  induction n using Node.induct generalizing stack with
  | step n ih =>
    rcases Node.mem_all_iff.1 hd with rfl | ⟨c, hc, hdc⟩
    · rw [hvisit]
      exact .through
    · have hcroot := Node.mem_all_trans hn (Node.mem_all_of_mem_children hc)
      have hbounds := (htree.layout.of_mem hcroot).bounds hdc
      have hpart : c.start ≤ offset ∧ offset ≤ c.stop := by omega
      obtain ⟨hin, hidentifier, hdangling⟩ := htree.descends_of_mem_children hn hc hpart
      have hchild := ih c hc hcroot hdc (fun m hm => hopen m (Node.mem_all_of_child hc hm)) (n :: stack)
      have hchildren := htree.passed_children hn hc (by omega) hchild
      rw [visit_around_of_not_bars hin hidentifier (hopen n n.mem_all_self hd) hdangling]
      generalize Node.visitEach (aroundVisitor offset source) n.children (n :: stack) = r at hchildren
      cases hchildren with
      | through => exact passed_leaveAround n stack
      | ended rest h => exact .ended rest h

/-! ### The site -/

theorem ProgramTree.siteAt?_eq_none_of_isBarred (hinside : d.start < offset ∧ offset ≤ d.stop)
    (h : IsBarred root offset d) (source : String) :
    siteAt? root offset source = none := by
  rcases h with hcomment | ⟨m, hm, hdm, hbars⟩
  · unfold siteAt?
    rw [if_pos hcomment]
  · have hlayout := htree.layout.of_mem hm
    have hbounds := hlayout.bounds hdm
    have hin : Cursor.isIn (some offset) m.span? = true := by
      rw [isIn_span_iff (hlayout.ranged m m.mem_all_self).1]
      omega
    exact siteAt?_eq_none_of_refused
      (htree.refused_visit_of_mem root.mem_all_self hm (by omega) (refused_visit_of_bars hin hbars) [])

/-- **In the declaring part of a variable** no completion applies at the name, nor where none does whatever
the declarator says. Beside the name the site is one of variables. -/
theorem site_in_declaring_part (hd : d ∈ root.all) (h : InDeclaringPart offset d) (source : String) :
    (OnName offset d ∨ IsBarred root offset d → siteAt? root offset source = none) ∧
      (offset < d.stop → ¬ OnName offset d → ¬ IsBarred root offset d →
        siteAt? root offset source = some .top) := by
  have hinside := h.inside
  constructor
  · rintro (hname | hbarred)
    · exact siteAt?_eq_none_of_refused (htree.refused_visit_of_mem root.mem_all_self hd hinside
        (refused_visit_of_onName htree hd h hname) [])
    · exact htree.siteAt?_eq_none_of_isBarred hinside hbarred source
  · intro hstop hname hbarred
    obtain ⟨hcomment, hopen⟩ := not_or.1 hbarred
    have hpassed : Passed offset source [] (root.visit (aroundVisitor offset source) []) :=
      htree.passed_visit root.mem_all_self hd ⟨hinside.1, hstop⟩
        (visit_declarator_of_not_onName htree hd h hname)
        (fun m hm hdm hbars => hopen ⟨m, hm, hdm, hbars⟩) []
    unfold siteAt?
    rw [if_neg hcomment]
    generalize root.visit (aroundVisitor offset source) [] = r at hpassed
    cases hpassed with
    | through => rfl
    | ended rest hsite => exact hsite

end Tree

/-! ### A declaration -/

/-- A variable with an initializer. -/
def declarationSource : String := "var abc = 4;"

/-- The tree of the text. -/
def declarationTree : Json :=
  let declarator := nodeAt "VariableDeclarator" 4 11
    [("id", nodeAt "Identifier" 4 7 [("name", .str "abc")]),
      ("init", nodeAt "Literal" 10 11 [("value", .int 4)])]
  nodeAt "Program" 0 12
    [("body", .arr [nodeAt "VariableDeclaration" 0 12 [("declarations", .arr [declarator])]])]

/-- The declarator of the variable. -/
def declarationNode : Node :=
  let declaration := ((Node.root declarationTree).list "body").head?.getD (.root .null)
  (declaration.list "declarations").head?.getD (.root .null)

theorem programTree_declarationTree : ProgramTree (.root declarationTree) where
  layout := ⟨by decide +kernel, by decide +kernel, by decide +kernel⟩
  program := by decide +kernel
  nested := by decide +kernel
  identifier := by decide +kernel
  access := by
    have hnone : ∀ m ∈ (Node.root declarationTree).all, m.kind ≠ .memberExpression := by decide +kernel
    exact fun m hm hkind => absurd hkind (hnone m hm)

theorem mem_declarationNode : declarationNode ∈ (Node.root declarationTree).all := by
  have hall : (Node.root declarationTree).all =
      [.root declarationTree, ((Node.root declarationTree).list "body").head?.getD (.root .null),
        declarationNode, declarationNode.get "id", declarationNode.get "init"] := rfl
  simp [hall]

theorem inDeclaringPart_declarationNode (hstart : 4 < offset) (hstop : offset < 10) :
    InDeclaringPart offset declarationNode where
  kind := by decide +kernel
  name := by decide +kernel
  parts := by
    have hchildren : declarationNode.children =
        [declarationNode.get "id", declarationNode.get "init"] := rfl
    simp [hchildren]
  inside := by
    have hspan : declarationNode.start = 4 ∧ declarationNode.stop = 11 := by decide +kernel
    omega
  initializer := by
    have hinit : (declarationNode.get "init").span? = some ⟨10, 11⟩ := by decide +kernel
    exact Or.inr (by simp [hinit, Cursor.isBefore, hstop])

/-- Behind the last letter of the name no completion applies, one place further it does. -/
theorem site_in_declaring_part_declaration :
    ProgramTree (.root declarationTree) ∧ declarationNode ∈ (Node.root declarationTree).all ∧
      InDeclaringPart 7 declarationNode ∧ InDeclaringPart 8 declarationNode ∧
      siteAt? (.root declarationTree) 7 declarationSource = none ∧
      siteAt? (.root declarationTree) 8 declarationSource = some .top := by
  have hlast := inDeclaringPart_declarationNode (show (4 : Int) < 7 by decide) (by decide)
  have hnext := inDeclaringPart_declarationNode (show (4 : Int) < 8 by decide) (by decide)
  have hspan : (declarationNode.get "id").start = 4 ∧ (declarationNode.get "id").stop = 7 ∧
      declarationNode.stop = 11 := by decide +kernel
  have hopen : ¬ IsBarred (.root declarationTree) 8 declarationNode := by
    have hbars : ∀ m ∈ (Node.root declarationTree).all,
        ¬ (m.kind = .literal ∧ isInsideLiteral 8 m = true ∨
          m.kind.isFunction = true ∧ isBeforeBody 8 m = true) := by decide +kernel
    rintro (hcomment | ⟨m, hm, -, hm'⟩)
    · revert hcomment
      decide +kernel
    · exact hbars m hm hm'
  refine ⟨programTree_declarationTree, mem_declarationNode, hlast, hnext, ?_, ?_⟩
  · exact (site_in_declaring_part programTree_declarationTree mem_declarationNode hlast _).1
      (Or.inl ⟨by omega, by omega⟩)
  · exact (site_in_declaring_part programTree_declarationTree mem_declarationNode hnext _).2 (by omega)
      (fun hname => by have := hname.2; omega) hopen

/-- **In front of the mark of the assignment** variables are proposed in the declaring part of a variable. -/
theorem declared_beside_name :
    ProgramTree (.root declarationTree) ∧ declarationNode ∈ (Node.root declarationTree).all ∧
      InDeclaringPart 8 declarationNode ∧
      siteAt? (.root declarationTree) 8 declarationSource = some .top :=
  ⟨programTree_declarationTree, mem_declarationNode,
    inDeclaringPart_declarationNode (by decide) (by decide), by decide +kernel⟩

end ContentAssist
