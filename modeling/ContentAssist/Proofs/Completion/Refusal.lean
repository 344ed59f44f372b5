import ContentAssist.Assist
import ContentAssist.Proofs.Buffer.Ranges
import ContentAssist.Proofs.Completion.Walks

/-! # Where no completion applies

Inside comments, string and regular expression literals, and in the head of a function nothing is
proposed. Comments are looked up before the walk. The other places are met on the walk: the nodes around
the offset are those on the way down to the place, as what stands beside them ends before the offset or
begins behind it. On this way the walk can only end with a refusal. It does not end at an identifier,
which has no parts, nor behind the dot of a member access without a property, whose only part is the
object; and it comes back to no block before it has come to the place.

* `ProgramTree`: what is asked of a tree;
* `IsRefusedPlace`: the places;
* `ProgramTree.refused_visit_of_mem`: the walk of a node on the way to the place;
* `no_completion`: nothing is proposed there. -/

namespace ContentAssist

/-- The tree of a program: it holds no other program, it is laid out in a source, identifiers have no
parts, and a member access has no parts besides its object and its property. -/
structure ProgramTree (root : Node) : Prop where
  layout : Layout root
  program : root.kind = .program
  nested : ∀ c ∈ root.children, ∀ m ∈ c.all, m.kind ≠ .program
  identifier : ∀ m ∈ root.all, m.kind = .identifier → m.children = []
  access : ∀ m ∈ root.all, m.kind = .memberExpression → ∀ c ∈ m.children,
    c = m.get "object" ∨ c = m.get "property"

/-- The offset is strictly inside a string or a regular expression. -/
structure InsideLiteral (offset : Int) (m : Node) : Prop where
  kind : m.kind = .literal
  text : (m.value.get "value").str?.isSome = true ∨ (m.get "regex").isNull = false
  inside : m.start < offset ∧ offset < m.stop

instance (offset : Int) (m : Node) : Decidable (InsideLiteral offset m) :=
  decidable_of_iff (m.kind = .literal ∧ ((m.value.get "value").str?.isSome = true ∨
    (m.get "regex").isNull = false) ∧ m.start < offset ∧ offset < m.stop)
    ⟨fun ⟨hkind, htext, hinside⟩ => ⟨hkind, htext, hinside⟩,
      fun h => ⟨h.kind, h.text, h.inside⟩⟩

/-- The offset is behind the start of a function and in front of its body. -/
structure InsideHead (offset : Int) (m : Node) : Prop where
  kind : m.kind.isFunction = true
  body : isNode (m.get "body").value = true
  inside : m.start < offset ∧ offset < (m.get "body").start

/-- The offset is strictly inside a comment; a line comment reaches up to its end. -/
structure InsideComment (offset : Int) (comment : Node) : Prop where
  ranged : comment.span?.isSome = true
  inside : comment.start < offset ∧ (offset < comment.stop ∨
    (comment.value.get "type").str? = some "Line" ∧ offset = comment.stop)

/-- The offset is in a comment of the tree, or in a literal or the head of a function anywhere in it. -/
inductive IsRefusedPlace (root : Node) (offset : Int) : Prop
  | comment {c : Node} (hc : c ∈ root.list "comments") (h : InsideComment offset c)
  | literal {m : Node} (hm : m ∈ root.all) (h : InsideLiteral offset m)
  | head {m : Node} (hm : m ∈ root.all) (h : InsideHead offset m)

/-- What the walk to the cursor comes to where no completion applies. -/
inductive Refused (offset : Int) (source : String) : Option Bool × List Node → Prop
  | literal (around : List Node) : Refused offset source (some false, around)
  | head {f : Node} (rest : List Node) (h : siteIn? offset source f = none) :
    Refused offset source (some true, f :: rest)

variable {root n c m : Node} {offset : Int} {source : String} {stack : List Node}

/-! ### Comments -/

theorem inComment_of_insideComment (hc : c ∈ root.list "comments") (h : InsideComment offset c) :
    inComment root offset = true := by
  refine List.any_eq_true.2 ⟨c, hc, ?_⟩
  unfold isInsideComment
  rw [span?_eq_some h.ranged]
  obtain ⟨hstart, hstop | ⟨htype, rfl⟩⟩ := h.inside
  · dsimp only
    split
    · simp [hstart, Int.le_of_lt hstop]
    · simp [hstart, hstop]
  · simp [htype, hstart]

/-! ### Literals and heads of functions -/

/-- The place to which the walk goes: a literal or a function around the offset. -/
def IsGoal (offset : Int) (m : Node) : Prop := InsideLiteral offset m ∨ InsideHead offset m

theorem InsideLiteral.isInsideLiteral (h : InsideLiteral offset m) (hspan : m.span?.isSome = true) :
    isInsideLiteral offset m = true := by
  unfold ContentAssist.isInsideLiteral
  rw [span?_eq_some hspan]
  rcases h.text with htext | htext <;> simp [htext, h.inside]

theorem InsideHead.body_mem (h : InsideHead offset m) : m.get "body" ∈ m.children :=
  Node.get_mem_children h.body (by decide)

theorem InsideHead.isBeforeBody (h : InsideHead offset m)
    (hspan : (m.get "body").span?.isSome = true) : isBeforeBody offset m = true := by
  have hobject : (m.get "body").isObject = true := by
    have hnode := h.body
    unfold isNode at hnode
    unfold Node.isObject
    cases hv : (m.get "body").value with
    | obj fields => rfl
    | _ => rw [hv] at hnode; cases hnode
  unfold ContentAssist.isBeforeBody
  simp only [hobject, Bool.true_and]
  exact (isBefore_span_iff hspan).2 h.inside.2

/-- The offset is strictly inside the goal. -/
theorem IsGoal.inside (hlayout : Layout m) (h : IsGoal offset m) :
    m.start < offset ∧ offset < m.stop := by
  rcases h with h | h
  · exact h.inside
  · have hbody := Node.mem_all_of_mem_children h.body_mem
    have := (hlayout.ranged _ hbody).2
    have := (hlayout.bounds hbody).2
    have := h.inside
    omega

/-- The walk does not go below the node: the offset is strictly inside of it and it is a literal, or it is a
function and the offset is in front of its body. -/
def Bars (offset : Int) (m : Node) : Prop :=
  m.kind = .literal ∧ isInsideLiteral offset m = true ∨
    m.kind.isFunction = true ∧ isBeforeBody offset m = true

/-- A goal ends the walk. -/
theorem IsGoal.bars (hlayout : Layout m) (h : IsGoal offset m) : Bars offset m := by
  rcases h with h | h
  · exact Or.inl ⟨h.kind, h.isInsideLiteral (hlayout.ranged m m.mem_all_self).1⟩
  · exact Or.inr ⟨h.kind,
      h.isBeforeBody (hlayout.ranged _ (Node.mem_all_of_mem_children h.body_mem)).1⟩

theorem refused_visit_of_bars (hin : Cursor.isIn (some offset) n.span? = true) (h : Bars offset n)
    (stack : List Node) : Refused offset source (n.visit (aroundVisitor offset source) stack) := by
  rw [Node.visit_eq, show (aroundVisitor offset source).enter n stack =
    enterAround offset source n stack from rfl, enterAround_eq, if_neg (by simp [hin])]
  rcases h with h | ⟨hkind, hbody⟩
  · rw [if_neg (by simp [h.1]), if_pos h]
    exact .literal _
  · have hidentifier : n.kind ≠ .identifier := fun hk => by simp [hk, Kind.isFunction] at hkind
    have hliteral : n.kind ≠ .literal := fun hk => by simp [hk, Kind.isFunction] at hkind
    rw [if_neg hidentifier, if_neg (by simp [hliteral]), if_pos ⟨hkind, hbody⟩]
    exact .head _ (siteIn?_eq_none_of_isBeforeBody hkind hbody)

/-! ### The way to the goal -/

/-- The children in front of the one on the way end before the offset, so they are skipped. Those behind it
begin where it ends, or later. -/
theorem exists_visitEach_around_eq {cs : List Node} (hranged : ∀ k ∈ cs, k.span?.isSome = true)
    (hprogram : ∀ k ∈ cs, k.kind ≠ .program) (hordered : cs.Pairwise fun a b => a.stop ≤ b.start)
    (hc : c ∈ cs) (hstart : c.start < offset) (stack : List Node) :
    ∃ rest, (∀ k ∈ rest, k ∈ cs ∧ c.stop ≤ k.start) ∧
      Node.visitEach (aroundVisitor offset source) cs stack =
        Node.visitEach (aroundVisitor offset source) (c :: rest) stack := by
  induction cs with
  | nil => cases hc
  | cons k cs ih =>
    obtain ⟨hbefore, hordered⟩ := List.pairwise_cons.1 hordered
    rcases List.mem_cons.1 hc with rfl | hc
    · exact ⟨cs, fun j hj => ⟨List.mem_cons_of_mem _ hj, hbefore j hj⟩, rfl⟩
    · have hout : Cursor.isIn (some offset) k.span? = false := by
        rw [Bool.eq_false_iff, ne_eq, isIn_span_iff (hranged k List.mem_cons_self)]
        have := hbefore c hc
        omega
      obtain ⟨rest, hrest, heq⟩ := ih (fun j hj => hranged j (List.mem_cons_of_mem _ hj))
        (fun j hj => hprogram j (List.mem_cons_of_mem _ hj)) hordered hc
      refine ⟨rest, fun j hj => ⟨List.mem_cons_of_mem _ (hrest j hj).1, (hrest j hj).2⟩, ?_⟩
      rw [Node.visitEach, visit_around_of_out (hprogram k List.mem_cons_self) hout]
      exact heq

/-- With the offset in a part of it a member access without a property is not entered behind its dot. -/
theorem not_dangling_of_mem_children (hlayout : Layout n)
    (haccess : n.kind = .memberExpression → ∀ c ∈ n.children, c = n.get "object" ∨ c = n.get "property")
    (hc : c ∈ n.children) (hin : c.start ≤ offset ∧ offset ≤ c.stop) :
    ¬ (n.kind = .memberExpression ∧ (n.get "property").isNull = true ∧
      afterDot (some offset) n source = true) := by
  rintro ⟨hkind, hnull, hdot⟩
  have hspan := (hlayout.ranged c (Node.mem_all_of_mem_children hc)).1
  rcases haccess hkind c hc with rfl | rfl
  · have hout := (bounds_of_afterDot hdot).2.1
    rw [(isIn_span_iff hspan).2 hin] at hout
    cases hout
  · -- what is missing has no span
    have hvalue : (n.get "property").value = .null := by
      unfold Node.isNull Json.isNull at hnull
      split at hnull
      · assumption
      · cases hnull
    rw [show (n.get "property").span? = none by
      simp [Node.span?, hvalue, Json.get, Json.field?, Json.items]] at hspan
    cases hspan

/-- At a node around the offset that does not end the walk it goes on to the children. -/
theorem visit_around_of_not_bars (hin : Cursor.isIn (some offset) n.span? = true)
    (hidentifier : n.kind ≠ .identifier) (hbars : ¬ Bars offset n)
    (hdangling : ¬ (n.kind = .memberExpression ∧ (n.get "property").isNull = true ∧
      afterDot (some offset) n source = true)) (stack : List Node) :
    n.visit (aroundVisitor offset source) stack =
      match Node.visitEach (aroundVisitor offset source) n.children (n :: stack) with
      | (some a, s) => (some a, s)
      | (none, s) => leaveAround offset n s := by
  obtain ⟨hliteral, hhead⟩ := not_or.1 hbars
  rw [Node.visit_eq, show (aroundVisitor offset source).enter n stack =
    enterAround offset source n stack from rfl, enterAround_eq, if_neg (by simp [hin]),
    if_neg hidentifier, if_neg hliteral, if_neg hhead, if_neg hdangling]
  dsimp only
  rcases Node.visitEach (aroundVisitor offset source) n.children (n :: stack) with ⟨_ | a, s⟩ <;> rfl

/-- At a node on the way the walk ends with a refusal, or it goes on to the children. -/
theorem refused_visit_of_children (hin : Cursor.isIn (some offset) n.span? = true)
    (hidentifier : n.kind ≠ .identifier)
    (hdangling : ¬ (n.kind = .memberExpression ∧ (n.get "property").isNull = true ∧
      afterDot (some offset) n source = true))
    (hchildren : Refused offset source
      (Node.visitEach (aroundVisitor offset source) n.children (n :: stack))) :
    Refused offset source (n.visit (aroundVisitor offset source) stack) := by
  by_cases hbars : Bars offset n
  · exact refused_visit_of_bars hin hbars stack
  · rw [visit_around_of_not_bars hin hidentifier hbars hdangling]
    generalize Node.visitEach (aroundVisitor offset source) n.children (n :: stack) = r at hchildren
    cases hchildren with
    | literal around => exact .literal around
    | head rest h => exact .head rest h

section Tree
variable (htree : ProgramTree root)
include htree

/-- The walk of the children of a node begins with the child on the way. -/
theorem ProgramTree.exists_visitEach_eq (hn : n ∈ root.all) (hc : c ∈ n.children)
    (hstart : c.start < offset) (stack : List Node) :
    ∃ rest, (∀ k ∈ rest, k ∈ n.children ∧ c.stop ≤ k.start) ∧
      Node.visitEach (aroundVisitor offset source) n.children stack =
        Node.visitEach (aroundVisitor offset source) (c :: rest) stack := by
  refine exists_visitEach_around_eq (fun k hk => ?_) (fun k hk => ?_) (htree.layout.ordered n hn) hc hstart
    stack
  · exact (htree.layout.ranged k (Node.mem_all_trans hn (Node.mem_all_of_mem_children hk))).1
  · obtain ⟨d, hd, hkd⟩ := exists_child_of_mem_children hn hk
    exact htree.nested d hd k hkd

/-- If the walk of the child on the way is refused, so are those of all children. -/
theorem ProgramTree.refused_children (hn : n ∈ root.all) (hc : c ∈ n.children)
    (hstart : c.start < offset)
    (hvisit : Refused offset source (c.visit (aroundVisitor offset source) stack)) :
    Refused offset source (Node.visitEach (aroundVisitor offset source) n.children stack) := by
  obtain ⟨rest, -, heq⟩ := htree.exists_visitEach_eq hn hc hstart stack
  rw [heq, Node.visitEach]
  generalize c.visit (aroundVisitor offset source) stack = r at hvisit
  cases hvisit with
  | literal around => exact .literal around
  | head rest h => exact .head rest h

/-- A node with a part around the offset is none of those that the walk stops at on the way down. -/
theorem ProgramTree.descends_of_mem_children (hn : n ∈ root.all) (hc : c ∈ n.children)
    (hin : c.start ≤ offset ∧ offset ≤ c.stop) : Cursor.isIn (some offset) n.span? = true ∧
      n.kind ≠ .identifier ∧ ¬ (n.kind = .memberExpression ∧ (n.get "property").isNull = true ∧
        afterDot (some offset) n source = true) := by
  have hlayout := htree.layout.of_mem hn
  have hbounds := hlayout.nested n n.mem_all_self c hc
  refine ⟨?_, fun hkind => List.ne_nil_of_mem hc (htree.identifier n hn hkind),
    not_dangling_of_mem_children hlayout (htree.access n hn) hc hin⟩
  rw [isIn_span_iff (hlayout.ranged n n.mem_all_self).1]
  omega

/-- **The walk to a node around the offset** whose own walk is refused ends there or on the way, with a
refusal. -/
theorem ProgramTree.refused_visit_of_mem (hn : n ∈ root.all) (hm : m ∈ n.all)
    (hinside : m.start < offset ∧ offset ≤ m.stop)
    (hvisit : ∀ stack, Refused offset source (m.visit (aroundVisitor offset source) stack))
    (stack : List Node) : Refused offset source (n.visit (aroundVisitor offset source) stack) := by
  induction n using Node.induct generalizing stack with
  | step n ih =>
    rcases Node.mem_all_iff.1 hm with rfl | ⟨c, hc, hmc⟩
    · exact hvisit stack
    · have hcroot := Node.mem_all_trans hn (Node.mem_all_of_mem_children hc)
      have hbelow := (htree.layout.of_mem hcroot).bounds hmc
      have hpart : c.start ≤ offset ∧ offset ≤ c.stop := by omega
      obtain ⟨hin, hidentifier, hdangling⟩ := htree.descends_of_mem_children hn hc hpart
      exact refused_visit_of_children hin hidentifier hdangling
        (htree.refused_children hn hc (by omega) (ih c hc hcroot hmc _))

/-- **The walk to a literal or the head of a function** ends there or on the way, with a refusal. -/
theorem ProgramTree.refused_visit (hm : m ∈ root.all) (h : IsGoal offset m) (stack : List Node) :
    Refused offset source (root.visit (aroundVisitor offset source) stack) := by
  have hlayout := htree.layout.of_mem hm
  have hinside := h.inside hlayout
  refine htree.refused_visit_of_mem root.mem_all_self hm (by omega)
    (refused_visit_of_bars ?_ (h.bars hlayout)) stack
  rw [isIn_span_iff (hlayout.ranged m m.mem_all_self).1]
  omega

omit htree in
/-- Where the walk is refused nothing is asked for. -/
theorem siteAt?_eq_none_of_refused
    (h : Refused offset source (root.visit (aroundVisitor offset source) [])) :
    siteAt? root offset source = none := by
  unfold siteAt?
  split
  · rfl
  · generalize root.visit (aroundVisitor offset source) [] = r at h
    cases h with
    | literal around => rfl
    | head rest hsite => exact hsite

theorem ProgramTree.siteAt?_eq_none (h : IsRefusedPlace root offset) (source : String) :
    siteAt? root offset source = none := by
  cases h with
  | comment hc h =>
    unfold siteAt?
    rw [if_pos (inComment_of_insideComment hc h)]
  | literal hm h => exact siteAt?_eq_none_of_refused (htree.refused_visit hm (.inl h) [])
  | head hm h => exact siteAt?_eq_none_of_refused (htree.refused_visit hm (.inr h) [])

end Tree

/-- **No completion inside comments, literals and heads of functions**, however deep in the tree they
are, and so the answer to a request for proposals is the empty list. -/
theorem no_completion {tree : Json} (htree : ProgramTree (.root tree))
    (h : IsRefusedPlace (.root tree) offset) (source : String) :
    siteAt? (.root tree) offset source = none ∧
      ∀ (a : Assistant) (typed : String), (parse a.parser source).1 = .ok tree →
        (a.proposals source offset typed).1 = .ok [] := by
  have hsite := htree.siteAt?_eq_none h source
  refine ⟨hsite, fun a typed hparse => ?_⟩
  unfold Assistant.proposals withTree
  rcases hp : parse a.parser source with ⟨answer, log⟩
  rw [hp] at hparse
  obtain rfl : answer = .ok tree := hparse
  dsimp only
  rw [hsite]

/-- A text in which a string is the default value of a parameter, in a function that is an argument in the
object of a member access in a block. -/
def defaultSource : String := "\x7bf(function(x=\"s\")\x7b\x7d).y\x7d"

/-- The tree of the text. -/
def defaultTree : Json :=
  let function := nodeAt "FunctionExpression" 3 20
    [("id", .null), ("params", .arr [nodeAt "AssignmentPattern" 12 17
      [("left", nodeAt "Identifier" 12 13 [("name", .str "x")]),
        ("right", nodeAt "Literal" 14 17 [("value", .str "s")])]]),
      ("body", nodeAt "BlockStatement" 18 20 [("body", .arr [])])]
  let call := nodeAt "CallExpression" 1 21
    [("callee", nodeAt "Identifier" 1 2 [("name", .str "f")]), ("arguments", .arr [function])]
  let access := nodeAt "MemberExpression" 1 23
    [("computed", .bool false), ("object", call),
      ("property", nodeAt "Identifier" 22 23 [("name", .str "y")])]
  nodeAt "Program" 0 24
    [("body", .arr [nodeAt "BlockStatement" 0 24
      [("body", .arr [nodeAt "ExpressionStatement" 1 23 [("expression", access)]])]])]

theorem programTree_defaultTree : ProgramTree (.root defaultTree) where
  layout := ⟨by decide +kernel, by decide +kernel, by decide +kernel⟩
  program := by decide +kernel
  nested := by decide +kernel
  identifier := by decide +kernel
  access m hm hkind := by
    obtain ⟨access, hone, hchildren⟩ : ∃ access,
        (Node.root defaultTree).all.filter (·.isKind .memberExpression) = [access] ∧
          access.children = [access.get "object", access.get "property"] := ⟨_, rfl, rfl⟩
    have hmem : m ∈ [access] := hone ▸ List.mem_filter.2 ⟨hm, by simp [Node.isKind, hkind]⟩
    rw [List.mem_singleton.1 hmem, hchildren]
    simp

/-- An assistant that reads every text as this one. -/
def defaultAssistant : Assistant where
  parser := { script := fun _ => .ok defaultTree, tokens := fun _ => .ok [] }
  index? := none

/-- In the default value nothing is proposed. -/
theorem no_completion_default :
    ProgramTree (.root defaultTree) ∧ IsRefusedPlace (.root defaultTree) 16 ∧
      siteAt? (.root defaultTree) 16 defaultSource = none ∧
      (parse defaultAssistant.parser defaultSource).1 = .ok defaultTree ∧
      (defaultAssistant.proposals defaultSource 16 "").1 = .ok [] := by
  obtain ⟨m, hm, h⟩ : ∃ m ∈ (Node.root defaultTree).all, InsideLiteral 16 m := by decide +kernel
  have hplace : IsRefusedPlace (.root defaultTree) 16 := .literal hm h
  obtain ⟨hsite, hproposals⟩ := no_completion programTree_defaultTree hplace defaultSource
  exact ⟨programTree_defaultTree, hplace, hsite, rfl, hproposals defaultAssistant "" rfl⟩

end ContentAssist
