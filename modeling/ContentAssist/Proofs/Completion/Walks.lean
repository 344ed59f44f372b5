import ContentAssist.Completion.Site
import ContentAssist.Proofs.Inference.MemberStop

/-! # The walk to the cursor beside the inference

`siteAt?` and the inference walk the same tree with different rules: the one keeps a stack of the
nodes around the offset and drops a node when it comes back to it, the other stops at the first
node that can answer. In the tree of a script they nearly agree. `matches_visit` follows both walks
side by side; it says that the site is one of members exactly if the inference stops behind the dot
of a member access that has no property, or at the identifier that is a property.

* `Script`: what the tree of a script looks like, besides its layout;
* `NamesMember`: the stops that go with a site of members;
* `matches_visit`: what the two walks come to below an open node;
* `site_eq_member_iff`: when a site is one of members. -/

namespace ContentAssist

open Inference

/-- The tree of a script: a program that holds no other, identifiers without parts, member accesses,
and catch clauses that end with their block. -/
structure Script (root : Node) : Prop where
  program : root.kind = .program
  nested : ∀ c ∈ root.children, ∀ m ∈ c.all, m.kind ≠ .program
  keys : root.KeysDistinct
  identifier : ∀ m ∈ root.all, m.kind = .identifier → m.children = []
  access : ∀ m ∈ root.all, m.kind = .memberExpression → IsAccess m
  clause : ∀ m ∈ root.all, m.kind = .catchClause → m.get "body" ∈ m.children ∧
    (m.get "body").kind = .blockStatement ∧ (m.get "body").stop = m.stop

/-- A stop at which the name of a member is asked for: behind the dot of a member access without a
property, or at an identifier that is a property. -/
def NamesMember (root m : Node) : Prop :=
  m.kind = .memberExpression ∧ (m.get "property").isNull = true ∨
    m.kind = .identifier ∧ ∃ p ∈ root.all, p.kind = .memberExpression ∧ m = p.get "property"

/-- A stop that the walk to the cursor passes: at the end of a catch clause, or in front of the
property of a member access. -/
def IsLate (m : Node) : Prop :=
  m.kind = .catchClause ∨ m.kind = .memberExpression ∧ (m.get "property").isNull = false

theorem not_namesMember_of_isLate {root m : Node} (h : IsLate m) : ¬ NamesMember root m := by
  rintro (⟨hkind, hnull⟩ | ⟨hkind, -⟩)
  · rcases h with h | ⟨-, h⟩
    · rw [hkind] at h
      cases h
    · rw [hnull] at h
      cases h
  · rcases h with h | ⟨h, -⟩ <;> (rw [hkind] at h; cases h)

/-! ### Sites -/

theorem siteIn?_ne_member {offset : Int} {source : String} {p : Node}
    (h : p.kind ≠ .memberExpression) : siteIn? offset source p ≠ some .member := by
  unfold siteIn?
  split
  · contradiction
  · dsimp only
    split <;> simp
  · split <;> simp
  · split <;> simp
  · split <;> simp
  · simp

theorem siteIn?_eq_none_of_isBeforeBody {offset : Int} {source : String} {p : Node}
    (hkind : p.kind.isFunction = true) (h : isBeforeBody offset p = true) :
    siteIn? offset source p = none := by
  unfold siteIn?
  cases hk : p.kind <;> simp_all [Kind.isFunction]

/-! ### The two walks side by side -/

/-- What the walk to the cursor comes to in a part of the tree that ends at `stop`, above which the
nodes in `stack` are open, if `first?` is the first node of the part at which an inference stops. -/
inductive Matches (root : Node) (offset : Int) (source : String) (stack : List Node) (stop : Int)
    (first? : Option Node) : Option Bool × List Node → Prop
  /-- Nothing is found and no inference stops. -/
  | passed (h : first? = none) : Matches root offset source stack stop first? (none, stack)
  /-- The stop is passed. What follows lies behind the offset. -/
  | late {m : Node} (h : first? = some m) (hlate : IsLate m) (hoffset : offset < stop) :
      Matches root offset source stack stop first? (none, stack)
  /-- No completion applies. -/
  | refused (around : List Node) : Matches root offset source stack stop first? (some false, around)
  /-- A site is found. -/
  | found {p : Node} (rest : List Node)
      (h : ∀ site, siteIn? offset source p = some site →
        ∃ m, first? = some m ∧ (site = .member ↔ NamesMember root m)) :
      Matches root offset source stack stop first? (some true, p :: rest)

section Walks
variable {root parent n : Node} {offset : Int} {source : String}

theorem isIn_of_halts (h : halts (some offset) source n = true) (hkind : n.kind ≠ .program) :
    Cursor.isIn (some offset) n.span? = true := by
  unfold halts at h
  split at h
  · contradiction
  · exact h
  · exact h
  · exact h
  · exact (bounds_of_afterDot h).1
  · cases h

theorem exists_child_of_mem_children {p : Node} (hp : p ∈ root.all) (hn : n ∈ p.children) :
    ∃ c ∈ root.children, n ∈ c.all := by
  rcases Node.mem_all_iff.1 hp with rfl | ⟨c, hc, hpc⟩
  · exact ⟨n, hn, n.mem_all_self⟩
  · exact ⟨c, hc, Node.mem_all_trans hpc (Node.mem_all_of_mem_children hn)⟩

theorem Script.kind_ne_program (h : Script root) (hparent : parent ∈ root.all)
    (hn : n ∈ parent.children) {m : Node} (hm : m ∈ n.all) : m.kind ≠ .program := by
  obtain ⟨c, hc, hnc⟩ := exists_child_of_mem_children hparent hn
  exact h.nested c hc m (Node.mem_all_trans hnc hm)

/-- In a part of the tree around which the cursor is not no inference stops. -/
theorem halt?_eq_none (hlayout : Layout root) (hscript : Script root) (hparent : parent ∈ root.all)
    (hn : n ∈ parent.children) (hout : Cursor.isIn (some offset) n.span? = false) :
    halt? (some offset) source n = none := by
  cases hh : halt? (some offset) source n with
  | none => rfl
  | some m =>
    obtain ⟨hm, hhalts⟩ := mem_of_halt? hh
    have hnroot : n ∈ root.all :=
      Node.mem_all_trans hparent (Node.mem_all_of_mem_children hn)
    have hmroot : m ∈ root.all := Node.mem_all_trans hnroot hm
    have hin := isIn_of_halts hhalts (hscript.kind_ne_program hparent hn hm)
    have hbounds := (hlayout.of_mem hnroot).bounds hm
    rw [isIn_span_iff (hlayout.ranged m hmroot).1] at hin
    have : Cursor.isIn (some offset) n.span? = true := by
      rw [isIn_span_iff (hlayout.ranged n hnroot).1]
      omega
    rw [hout] at this
    cases this

/-- A node around which the cursor is not is skipped. -/
theorem visit_around_of_out (hkind : n.kind ≠ .program)
    (hout : Cursor.isIn (some offset) n.span? = false) (stack : List Node) :
    n.visit (aroundVisitor offset source) stack = (none, stack) := by
  have henter : (aroundVisitor offset source).enter n stack = (.skip, stack) := by
    show enterAround offset source n stack = _
    unfold enterAround
    simp [hkind, hout]
  rw [Node.visit_eq, henter]

theorem visitEach_around_of_out {cs : List Node}
    (hout : ∀ c ∈ cs, c.kind ≠ .program ∧ Cursor.isIn (some offset) c.span? = false)
    (stack : List Node) :
    Node.visitEach (aroundVisitor offset source) cs stack = (none, stack) := by
  induction cs with
  | nil => rfl
  | cons c cs ih =>
    obtain ⟨hkind, hc⟩ := hout c List.mem_cons_self
    rw [Node.visitEach, visit_around_of_out hkind hc]
    exact ih fun k hk => hout k (List.mem_cons_of_mem _ hk)

/-- A block around the cursor stops every inference that comes to it. -/
theorem halt?_ne_none_of_block (hkind : n.kind = .blockStatement)
    (hin : Cursor.isIn (some offset) n.span? = true) : halt? (some offset) source n ≠ none := by
  rw [halt?_eq, if_neg (by simp [hkind])]
  have hhalts : halts (some offset) source n = true := by
    simp [halts, hkind, hin]
  rw [if_pos hhalts]
  cases n.children.findSome? (halt? (some offset) source) <;> simp

theorem not_namesMember_of_kind {m : Node} (hmember : m.kind ≠ .memberExpression)
    (hidentifier : m.kind ≠ .identifier) : ¬ NamesMember root m := by
  rintro (⟨h, -⟩ | ⟨h, -⟩)
  · exact hmember h
  · exact hidentifier h

theorem siteIn?_of_other {p : Node} (h : p.kind = .blockStatement ∨ p.kind = .program) :
    siteIn? offset source p = some .top := by
  unfold siteIn?
  rcases h with h | h <;> simp [h]

/-- An identifier at the offset, which both walks stop at: it names a member if the node around it
is a member access and the identifier its property. -/
theorem namesMember_iff_site (hlayout : Layout root) (hscript : Script root)
    (hparent : parent ∈ root.all) (hn : n ∈ parent.children) (hkind : n.kind = .identifier)
    (hin : Cursor.isIn (some offset) n.span? = true) {site : Site}
    (hsite : siteIn? offset source parent = some site) :
    site = .member ↔ NamesMember root n := by
  have hnames : NamesMember root n ↔
      parent.kind = .memberExpression ∧ n = parent.get "property" := by
    constructor
    · rintro (⟨h, -⟩ | ⟨-, q, hq, hqkind, rfl⟩)
      · rw [hkind] at h
        cases h
      · obtain rfl := Node.eq_of_get_mem_children hscript.keys hparent hq hn
        exact ⟨hqkind, rfl⟩
    · rintro ⟨h, h'⟩
      exact Or.inr ⟨hkind, parent, hparent, h, h'⟩
  rw [hnames]
  by_cases hmember : parent.kind = .memberExpression
  · have haccess := hscript.access parent hparent hmember
    unfold siteIn? at hsite
    simp only [hmember] at hsite
    rcases haccess.only n hn with hobj | hprop
    · -- in the object: the property, if there is one, begins behind the offset
      have hne : n ≠ parent.get "property" := by
        rw [hobj]
        intro h
        have := congrArg Node.place h
        simp [Node.get] at this
      have hdot : afterDot (some offset) parent source = false := by
        by_contra h
        have := (bounds_of_afterDot (Bool.not_eq_false _ ▸ h)).2.1
        rw [← hobj, hin] at this
        cases this
      have hout : Cursor.isIn (some offset) (parent.get "property").span? = false := by
        cases hnull : (parent.get "property").isNull with
        | true =>
          have hvalue : (parent.get "property").value = .null := by
            unfold Node.isNull Json.isNull at hnull
            split at hnull
            · assumption
            · cases hnull
          simp [Node.span?, hvalue, Json.get, Json.field?, Json.items, Cursor.isIn]
        | false =>
          obtain ⟨hchild, hbefore, -⟩ := haccess.property hnull
          have hobject : n ∈ root.all :=
            Node.mem_all_trans hparent (Node.mem_all_of_mem_children hn)
          have hproperty : parent.get "property" ∈ root.all :=
            Node.mem_all_trans hparent (Node.mem_all_of_mem_children hchild)
          rw [isIn_span_iff (hlayout.ranged n hobject).1, hobj] at hin
          by_contra h
          rw [Bool.not_eq_false, isIn_span_iff (hlayout.ranged _ hproperty).1] at h
          omega
      simp [hout, hdot] at hsite
      simp [← hsite, hne]
    · simp [← hprop, hin] at hsite
      simp [← hsite, hmember, hprop]
  · have hne : site ≠ .member := by
      rintro rfl
      exact siteIn?_ne_member hmember hsite
    simp [hne, hmember]

/-- Behind the dot of a member access without a property both walks stop. -/
theorem halt?_of_dangling (hlayout : Layout root) (hscript : Script root) (hn : n ∈ root.all)
    (hkind : n.kind = .memberExpression) (hnull : (n.get "property").isNull = true)
    (hdot : afterDot (some offset) n source = true) :
    halt? (some offset) source n = some n := by
  have haccess := hscript.access n hn hkind
  have hobject : halt? (some offset) source (n.get "object") = none :=
    halt?_eq_none hlayout hscript hn haccess.object (bounds_of_afterDot hdot).2.1
  have hnone : n.children.findSome? (halt? (some offset) source) = none := by
    rw [List.findSome?_eq_none_iff]
    intro c hc
    rcases haccess.only c hc with rfl | rfl
    · exact hobject
    · -- what is missing is no child
      obtain ⟨_, _, _, hnode, -⟩ := Node.exists_of_mem_children hc
      unfold Node.isNull Json.isNull at hnull
      split at hnull
      · rename_i hv
        simp [hv, isNode, Json.field?] at hnode
      · cases hnull
  rw [halt?_eq, if_neg (by simp [hkind]), hnone, if_pos (by simp [halts, hkind, hdot])]
  rfl

theorem siteIn?_of_dangling (hkind : n.kind = .memberExpression)
    (hdot : afterDot (some offset) n source = true) :
    siteIn? offset source n = some .member := by
  unfold siteIn?
  simp [hkind, hdot]

/-- A stop that is passed lies before the end of its node. -/
theorem lt_stop_of_late (hlayout : Layout root) (hscript : Script root) (hn : n ∈ root.all)
    (hlate : IsLate n) (hhalts : halts (some offset) source n = true)
    (hnone : n.children.findSome? (halt? (some offset) source) = none) : offset < n.stop := by
  rcases hlate with hkind | ⟨hkind, hnull⟩
  · obtain ⟨hbody, hblock, hstop⟩ := hscript.clause n hn hkind
    have hchild := Node.mem_all_of_mem_children hbody
    have hin := isIn_of_halts hhalts (by simp [hkind])
    rw [isIn_span_iff (hlayout.ranged n hn).1] at hin
    have hout : ¬ Cursor.isIn (some offset) (n.get "body").span? = true := fun h =>
      halt?_ne_none_of_block hblock h (List.findSome?_eq_none_iff.1 hnone _ hbody)
    have hranged := hlayout.ranged _ (Node.mem_all_trans hn hchild)
    rw [isIn_span_iff hranged.1] at hout
    omega
  · have haccess := hscript.access n hn hkind
    obtain ⟨hchild, -, hwidth⟩ := haccess.property hnull
    have hranged := hlayout.ranged _ (Node.mem_all_trans hn (Node.mem_all_of_mem_children hchild))
    have hdot : afterDot (some offset) n source = true := by simpa [halts, hkind] using hhalts
    have hbefore := (bounds_of_afterDot hdot).2.2 hranged.1
    have hinside := (hlayout.nested n hn _ hchild).2
    omega

/-- The walks of the children of a node, one after the other. -/
theorem matches_visitEach (hlayout : Layout root) (hscript : Script root) (hn : n ∈ root.all)
    {cs rest : List Node} (hcs : ∀ c ∈ cs, c ∈ n.children)
    (hordered : cs.Pairwise fun a b => a.stop ≤ b.start)
    (ih : ∀ c ∈ cs, Matches root offset source (n :: rest) c.stop (halt? (some offset) source c)
      (c.visit (aroundVisitor offset source) (n :: rest))) :
    Matches root offset source (n :: rest) n.stop (cs.findSome? (halt? (some offset) source))
      (Node.visitEach (aroundVisitor offset source) cs (n :: rest)) := by
  induction cs with
  | nil => exact .passed rfl
  | cons c cs ihc =>
    rw [List.pairwise_cons] at hordered
    have hc := hcs c List.mem_cons_self
    have hrest := ihc (fun k hk => hcs k (List.mem_cons_of_mem _ hk)) hordered.2
      (fun k hk => ih k (List.mem_cons_of_mem _ hk))
    have hm := ih c List.mem_cons_self
    rw [Node.visitEach, List.findSome?_cons]
    generalize hv : c.visit (aroundVisitor offset source) (n :: rest) = r at hm
    cases hm with
    | passed h =>
      rw [h]
      exact hrest
    | late h hlate hoffset =>
      rw [h]
      -- the cursor is in `c`, so it is in front of all that follows
      have hskip : Node.visitEach (aroundVisitor offset source) cs (n :: rest) =
          (none, n :: rest) := by
        refine visitEach_around_of_out (fun k hk => ?_) _
        have hkn := hcs k (List.mem_cons_of_mem _ hk)
        have hkroot := Node.mem_all_trans hn (Node.mem_all_of_mem_children hkn)
        refine ⟨hscript.kind_ne_program hn hkn k.mem_all_self, ?_⟩
        by_contra h
        rw [Bool.not_eq_false, isIn_span_iff (hlayout.ranged k hkroot).1] at h
        have := hordered.1 k hk
        omega
      dsimp only
      rw [hskip]
      have := (hlayout.nested n hn c hc).2
      exact .late rfl hlate (by omega)
    | refused around => exact .refused around
    | found rest h =>
      refine .found _ fun site hsite => ?_
      obtain ⟨m, hfirst, hnames⟩ := h site hsite
      exact ⟨m, by rw [hfirst], hnames⟩

theorem matches_children (hlayout : Layout root) (hscript : Script root) (hn : n ∈ root.all)
    (rest : List Node)
    (ih : ∀ c ∈ n.children, Matches root offset source (n :: rest) c.stop
      (halt? (some offset) source c) (c.visit (aroundVisitor offset source) (n :: rest))) :
    Matches root offset source (n :: rest) n.stop
      (n.children.findSome? (halt? (some offset) source))
      (Node.visitEach (aroundVisitor offset source) n.children (n :: rest)) :=
  matches_visitEach hlayout hscript hn (fun _ hc => hc) (hlayout.ordered n hn) ih

theorem leaveAround_of_not_block (hprogram : n.kind ≠ .program) (hblock : n.kind ≠ .blockStatement)
    (stack : List Node) : leaveAround offset n (n :: stack) = (none, stack) := by
  unfold leaveAround
  rw [if_neg (by simp [hprogram, hblock])]
  rfl

/-- Coming back to a node in which a stop was passed. -/
theorem matches_leave_of_late (hprogram : n.kind ≠ .program) {m : Node} (hlate : IsLate m)
    (hoffset : offset < n.stop) {last? : Option Node} (stack : List Node) :
    Matches root offset source stack n.stop ((some m).or last?)
      (leaveAround offset n (n :: stack)) := by
  by_cases hblock : n.kind = .blockStatement
  · unfold leaveAround
    split
    · refine .found _ fun site hsite => ⟨m, rfl, ?_⟩
      rw [siteIn?_of_other (Or.inl hblock)] at hsite
      cases hsite
      exact iff_of_false (by simp) (not_namesMember_of_isLate hlate)
    · exact .late rfl hlate hoffset
  · rw [leaveAround_of_not_block hprogram hblock]
    exact .late rfl hlate hoffset

/-- Coming back to a node below which nothing was found. -/
theorem matches_leave (hlayout : Layout root) (hscript : Script root) (hn : n ∈ root.all)
    (hprogram : n.kind ≠ .program) (hidentifier : n.kind ≠ .identifier)
    (hdangling : ¬ (n.kind = .memberExpression ∧ (n.get "property").isNull = true ∧
      afterDot (some offset) n source = true))
    (hin : Cursor.isIn (some offset) n.span? = true)
    (hnone : n.children.findSome? (halt? (some offset) source) = none) (stack : List Node) :
    Matches root offset source stack n.stop
      (if halts (some offset) source n then some n else none)
      (leaveAround offset n (n :: stack)) := by
  by_cases hblock : n.kind = .blockStatement
  · unfold leaveAround
    rw [if_pos (Or.inr ⟨hblock, hin⟩), if_pos (by simp [halts, hblock, hin])]
    refine .found _ fun site hsite => ⟨n, rfl, ?_⟩
    rw [siteIn?_of_other (Or.inl hblock)] at hsite
    cases hsite
    exact iff_of_false (by simp) (not_namesMember_of_kind (by simp [hblock]) (by simp [hblock]))
  · rw [leaveAround_of_not_block hprogram hblock]
    split
    · rename_i hhalts
      have hlate : IsLate n := by
        unfold halts at hhalts
        split at hhalts
        · contradiction
        · contradiction
        · exact Or.inl ‹_›
        · contradiction
        · rename_i hkind
          refine Or.inr ⟨hkind, ?_⟩
          rw [Bool.eq_false_iff]
          exact fun h => hdangling ⟨hkind, h, hhalts⟩
        · cases hhalts
      exact .late rfl hlate (lt_stop_of_late hlayout hscript hn hlate hhalts hnone)
    · exact .passed rfl

/-- What the walk to the cursor does on the way down. -/
theorem enterAround_eq (n : Node) (around : List Node) : enterAround offset source n around =
    if n.kind ≠ .program ∧ !Cursor.isIn (some offset) n.span? then (.skip, around)
    else if n.kind = .identifier then (.found true, around)
    else if n.kind = .literal ∧ isInsideLiteral offset n then (.found false, around)
    else if n.kind.isFunction ∧ isBeforeBody offset n then (.found true, n :: around)
    else if n.kind = .memberExpression ∧ (n.get "property").isNull ∧
        afterDot (some offset) n source then
      (.found true, n :: around)
    else (.descend, n :: around) := rfl

/-- **The two walks side by side**, below an open node. -/
theorem matches_visit (hlayout : Layout root) (hscript : Script root) (hparent : parent ∈ root.all)
    (hn : n ∈ parent.children) (rest : List Node) :
    Matches root offset source (parent :: rest) n.stop (halt? (some offset) source n)
      (n.visit (aroundVisitor offset source) (parent :: rest)) := by
  induction n using Node.induct generalizing parent rest with
  | step n ih =>
    have hroot : n ∈ root.all := Node.mem_all_trans hparent (Node.mem_all_of_mem_children hn)
    have hprogram := hscript.kind_ne_program hparent hn n.mem_all_self
    cases hin : Cursor.isIn (some offset) n.span? with
    | false =>
      rw [visit_around_of_out hprogram hin]
      exact .passed (halt?_eq_none hlayout hscript hparent hn hin)
    | true =>
      have hdescend : ¬ (n.kind = .variableDeclaration ∧
          Cursor.isBefore (some offset) n.span? = true) := by
        rintro ⟨-, h⟩
        rw [isBefore_span_iff (hlayout.ranged n hroot).1] at h
        rw [isIn_span_iff (hlayout.ranged n hroot).1] at hin
        omega
      rw [Node.visit_eq, show (aroundVisitor offset source).enter n (parent :: rest) =
        enterAround offset source n (parent :: rest) from rfl, enterAround_eq,
        if_neg (by simp [hin])]
      by_cases hidentifier : n.kind = .identifier
      · rw [if_pos hidentifier]
        have hhalt : halt? (some offset) source n = some n :=
          halt?_of_leaf (by simp [hidentifier]) (hscript.identifier n hroot hidentifier)
            (by simp [halts, hidentifier, hin])
        exact .found _ fun site hsite => ⟨n, hhalt,
          namesMember_iff_site hlayout hscript hparent hn hidentifier hin hsite⟩
      rw [if_neg hidentifier]
      by_cases hliteral : n.kind = .literal ∧ isInsideLiteral offset n = true
      · rw [if_pos hliteral]
        exact .refused _
      rw [if_neg hliteral]
      by_cases hhead : n.kind.isFunction = true ∧ isBeforeBody offset n = true
      · rw [if_pos hhead]
        refine .found _ fun site hsite => ?_
        rw [siteIn?_eq_none_of_isBeforeBody hhead.1 hhead.2] at hsite
        cases hsite
      rw [if_neg hhead]
      by_cases hdangling : n.kind = .memberExpression ∧ (n.get "property").isNull = true ∧
          afterDot (some offset) n source = true
      · rw [if_pos hdangling]
        obtain ⟨hkind, hnull, hdot⟩ := hdangling
        refine .found _ fun site hsite => ⟨n,
          halt?_of_dangling hlayout hscript hroot hkind hnull hdot, ?_⟩
        rw [siteIn?_of_dangling hkind hdot] at hsite
        cases hsite
        exact iff_of_true rfl (Or.inl ⟨hkind, hnull⟩)
      rw [if_neg hdangling, halt?_eq, if_neg hdescend]
      have hchildren := matches_children hlayout hscript hroot (parent :: rest)
        (fun c hc => ih c hc hroot hc (parent :: rest))
      dsimp only
      generalize Node.visitEach (aroundVisitor offset source) n.children (n :: parent :: rest) = r
        at hchildren
      cases hchildren with
      | refused around => exact .refused around
      | found rest' h =>
        refine .found _ fun site hsite => ?_
        obtain ⟨m, hfirst, hnames⟩ := h site hsite
        exact ⟨m, by rw [hfirst]; rfl, hnames⟩
      | passed h =>
        rw [h, Option.none_or]
        exact matches_leave hlayout hscript hroot hprogram hidentifier hdangling hin h _
      | late h hlate hoffset =>
        rw [h]
        exact matches_leave_of_late hprogram hlate hoffset _

theorem enter_around_of_program (hkind : n.kind = .program) (around : List Node) :
    (aroundVisitor offset source).enter n around = (.descend, n :: around) := by
  show enterAround offset source n around = _
  rw [enterAround_eq]
  simp [hkind, Kind.isFunction]

/-- The walk of a program. -/
theorem visit_around_of_program (hlayout : Layout root) (hscript : Script root) {around : List Node}
    {b : Bool} (h : root.visit (aroundVisitor offset source) [] = (some b, around)) :
    b = false ∨ ∃ p rest, around = p :: rest ∧ ∀ site, siteIn? offset source p = some site →
      ∃ m, halt? (some offset) source root = some m ∧ (site = .member ↔ NamesMember root m) := by
  have hkind := hscript.program
  have hchildren := @matches_children root root offset source hlayout hscript root.mem_all_self []
    (fun c hc => matches_visit hlayout hscript root.mem_all_self hc [])
  rw [Node.visit_eq, enter_around_of_program hkind] at h
  have hleave : (aroundVisitor offset source).leave root [root] = (some true, [root]) := by
    show leaveAround offset root [root] = _
    simp [leaveAround, hkind]
  have hhalts : halts (some offset) source root = true := by simp [halts, hkind]
  have htop : siteIn? offset source root = some .top := siteIn?_of_other (Or.inr hkind)
  have hnot : ¬ NamesMember root root :=
    not_namesMember_of_kind (by simp [hkind]) (by simp [hkind])
  rw [halt?_eq, if_neg (by simp [hkind]), if_pos hhalts]
  dsimp only at h
  generalize Node.visitEach (aroundVisitor offset source) root.children [root] = r at hchildren h
  cases hchildren with
  | passed hfirst =>
    dsimp only at h
    rw [hleave] at h
    cases h
    refine Or.inr ⟨root, [], rfl, fun site hsite => ⟨root, by rw [hfirst]; rfl, ?_⟩⟩
    rw [htop] at hsite
    cases hsite
    exact iff_of_false (by simp) hnot
  | late hfirst hlate hoffset =>
    dsimp only at h
    rw [hleave] at h
    cases h
    refine Or.inr ⟨root, [], rfl, fun site hsite => ⟨_, by rw [hfirst]; rfl, ?_⟩⟩
    rw [htop] at hsite
    cases hsite
    exact iff_of_false (by simp) (not_namesMember_of_isLate hlate)
  | refused =>
    cases h
    exact Or.inl rfl
  | found rest hfound =>
    cases h
    refine Or.inr ⟨_, rest, rfl, fun site hsite => ?_⟩
    obtain ⟨m, hfirst, hnames⟩ := hfound site hsite
    exact ⟨m, by rw [hfirst]; rfl, hnames⟩

/-- **The site is one of members** exactly if the inference stops where the name of a member is
asked for. -/
theorem site_eq_member_iff (hlayout : Layout root) (hscript : Script root) {site : Site}
    (hsite : siteAt? root offset source = some site) :
    ∃ m, halt? (some offset) source root = some m ∧ (site = .member ↔ NamesMember root m) := by
  unfold siteAt? at hsite
  split at hsite
  · cases hsite
  · have hfound : (root.visit (aroundVisitor offset source) []).1 ≠ none := by
      rw [Node.visit_eq, enter_around_of_program hscript.program]
      dsimp only
      rcases Node.visitEach (aroundVisitor offset source) root.children [root] with ⟨_ | b, around⟩
      · show (leaveAround offset root around).1 ≠ none
        simp [leaveAround, hscript.program]
      · simp
    rcases hv : root.visit (aroundVisitor offset source) [] with ⟨_ | b, around⟩
    · rw [hv] at hfound
      exact absurd rfl hfound
    · rw [hv] at hsite
      rcases visit_around_of_program hlayout hscript hv with rfl | ⟨p, rest, rfl, h⟩
      · cases hsite
      · cases b with
        | false => cases hsite
        | true => exact h site hsite

end Walks

end ContentAssist
