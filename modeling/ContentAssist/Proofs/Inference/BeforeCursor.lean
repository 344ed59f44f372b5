import ContentAssist.Proofs.Inference.ScopeBalance

/-! # What is in front of the cursor

An inference reads its cursor by four tests at the span of the node at hand. Tasks on which these
tests agree walk a tree alike (`visit_eq_of_alike`). In front of the cursor they come out as if there
were no cursor, so there the cursor changes nothing of what is inferred, and no record is given.

* `Alike`: the four tests agree at a node;
* `EndsBefore`: the node lies in front of an offset;
* `visit_before_cursor`: the code in front of the cursor. -/

namespace ContentAssist.Inference

variable {task task' : Task} {n : Node} {s : State}

/-! ### What is read of a task -/

/-- Two tasks with the same index that look the same from a node. -/
structure Alike (task task' : Task) (n : Node) : Prop where
  index : task.index? = task'.index?
  inside : task.cursor.isIn n.span? = task'.cursor.isIn n.span?
  before : task.cursor.isBefore n.span? = task'.cursor.isBefore n.span?
  after : task.cursor.isAfter n.span? = task'.cursor.isAfter n.span?
  dot : afterDot task.cursor n task.source = afterDot task'.cursor n task'.source

section
variable (h : Alike task task' n) (s : State)
include h

theorem paramTypes_eq_of_alike : paramTypes task n s = paramTypes task' n s := by
  unfold paramTypes dependencies?
  rw [h.index]

theorem enterFunction_eq_of_alike : enterFunction task n s = enterFunction task' n s := by
  have hname : nameFunction task n s = nameFunction task' n s := by
    unfold nameFunction
    rw [h.before]
  rw [enterFunction_eq, enterFunction_eq, hname, paramTypes_eq_of_alike h]

theorem enter_eq_of_alike : enter task n s = enter task' n s := by
  have hnode : enterNode task n s = enterNode task' n s := by
    unfold enterNode
    rw [enterFunction_eq_of_alike h]
  rw [enter_eq, enter_eq, h.before, hnode]

theorem leaveCall_eq_of_alike : leaveCall task n s = leaveCall task' n s := by
  unfold leaveCall requiredType
  rw [h.index]

theorem leave_eq_of_alike : leave task n s = leave task' n s := by
  have hblock : leaveBlock task n s = leaveBlock task' n s := by
    unfold leaveBlock
    rw [h.inside]
  have hmember : leaveMember task n s = leaveMember task' n s := by
    unfold leaveMember
    rw [h.dot]
  have hidentifier : leaveIdentifier task n s = leaveIdentifier task' n s := by
    unfold leaveIdentifier
    rw [h.inside, h.after]
  have hnode : leaveNode task n s = leaveNode task' n s := by
    unfold leaveNode
    rw [hblock, hmember, leaveCall_eq_of_alike h, hidentifier]
  rw [leave_eq, leave_eq, hnode]

end

/-- **Tasks that look the same from all nodes of a tree** walk it alike. -/
theorem visit_eq_of_alike (h : ∀ m ∈ n.all, Alike task task' m) (s : State) :
    n.visit (visitor task) s = n.visit (visitor task') s :=
  Node.visit_congr (fun m hm => enter_eq_of_alike (h m hm)) (fun m hm => leave_eq_of_alike (h m hm)) s

/-! ### Nodes in front of the cursor -/

/-- The node has a span, and it ends in front of the offset. -/
def EndsBefore (offset : Int) (n : Node) : Prop :=
  ∃ span, n.span? = some span ∧ span.start ≤ span.stop ∧ span.stop < offset

instance (offset : Int) (n : Node) : Decidable (EndsBefore offset n) :=
  decidable_of_iff (n.span?.any fun span => span.start ≤ span.stop ∧ span.stop < offset)
    (by simp [EndsBefore, Option.any_eq_true])

/-- From a node in front of it, a cursor looks as if there were none. -/
theorem alike_of_endsBefore {offset : Int} (h : EndsBefore offset n) (source : String)
    (index? : Option Index) :
    Alike ⟨source, some offset, index?⟩ ⟨source, none, index?⟩ n := by
  obtain ⟨span, hspan, horder, hend⟩ := h
  have hinside : Cursor.isIn (some offset) (some span) = false := by
    simp only [Cursor.isIn, Bool.and_eq_false_iff, decide_eq_false_iff_not]
    omega
  have hbefore : Cursor.isBefore (some offset) (some span) = false := by
    simp only [Cursor.isBefore, decide_eq_false_iff_not]
    omega
  have hafter : Cursor.isAfter (some offset) (some span) = true := by
    simp only [Cursor.isAfter, decide_eq_true_eq]
    omega
  constructor
  · rfl
  · rw [hspan, hinside]
    rfl
  · rw [hspan, hbefore]
    rfl
  · rw [hspan, hafter]
    rfl
  · -- the cursor is not in the access, so it is not behind its dot either
    have hnone : afterDot none n source = false := by simp [afterDot]
    rw [hnone]
    unfold afterDot
    split
    · rename_i hcursor _ hwhole
      cases hcursor
      cases hspan.symm.trans hwhole
      simp [hinside]
    · rfl

/-- **The cursor does not change what is inferred in front of it.** A tree without a program whose
nodes all end in front of the cursor is walked as without a cursor: the states are equal, and the walk
goes on unless the index fails. -/
theorem visit_before_cursor (source : String) (offset : Int) (index? : Option Index)
    (hprogram : ∀ m ∈ n.all, m.kind ≠ .program) (hspan : ∀ m ∈ n.all, EndsBefore offset m)
    (s : State) :
    n.visit (visitor ⟨source, some offset, index?⟩) s =
        n.visit (visitor ⟨source, none, index?⟩) s ∧
      ∀ a, (n.visit (visitor ⟨source, none, index?⟩) s).1 = some a → ∃ fault, a = .error fault ∧
        AskedFault ⟨source, none, index?⟩ fault (n.visit (visitor ⟨source, none, index?⟩) s).2 := by
  constructor
  · exact visit_eq_of_alike (fun m hm => alike_of_endsBefore (hspan m hm) source index?) s
  · intro a ha
    cases a with
    | error fault => exact ⟨fault, rfl, (balanced_visit _ n s).fault fault ha⟩
    | ok scope =>
      obtain ⟨m, hm, hk⟩ := kind_of_visit_ok rfl (Prod.ext ha rfl)
      exact absurd hk (hprogram m hm)

/-- The tree of `a.b = 1;`. -/
def memberAssignment : Node :=
  let node (type : String) (start stop : Int) (fields : List (String × Json)) : Json :=
    .obj (("type", .str type) :: ("range", .arr [.int start, .int stop]) :: fields)
  .root (node "ExpressionStatement" 0 8 [("expression", node "AssignmentExpression" 0 7 [
    ("operator", .str "="),
    ("left", node "MemberExpression" 0 3 [
      ("object", node "Identifier" 0 1 [("name", .str "a")]),
      ("property", node "Identifier" 2 3 [("name", .str "b")])]),
    ("right", node "Literal" 6 7 [("value", .int 1)])])])

/-- With the cursor right behind the statement the same is inferred for it as without a cursor. -/
theorem visit_before_cursor_memberAssignment :
    memberAssignment.visit (visitor ⟨"a.b = 1;", some 9, none⟩) { env := .start "file" } =
        memberAssignment.visit (visitor ⟨"a.b = 1;", none, none⟩) { env := .start "file" } ∧
      (memberAssignment.visit (visitor ⟨"a.b = 1;", none, none⟩) { env := .start "file" }).1 =
        none := by
  have hprogram : ∀ m ∈ memberAssignment.all, m.kind ≠ .program := by decide +kernel
  have hspan : ∀ m ∈ memberAssignment.all, EndsBefore 9 m := by decide +kernel
  obtain ⟨heq, hgoes⟩ :=
    visit_before_cursor "a.b = 1;" 9 none hprogram hspan { env := .start "file" }
  refine ⟨heq, Option.eq_none_iff_forall_ne_some.2 fun a ha => ?_⟩
  obtain ⟨fault, -, index, name, hindex, -⟩ := hgoes a ha
  cases hindex

end ContentAssist.Inference
