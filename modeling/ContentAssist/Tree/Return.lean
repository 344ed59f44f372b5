import ContentAssist.Tree.Node

/-! # The last return of a function body

A return statement is terminal in a statement if the statement can end with it: the last statement
of a block or case, the body of a loop, a branch of an if, a part of a try, a case of a switch. Only
terminal positions are looked at, from the end, and nested functions are never entered. -/

namespace ContentAssist.Node

/-- The catch clauses of a try statement: the single one, else those of the older list. -/
def handlers (n : Node) : List Node :=
  if (n.get "handler").isObject then [n.get "handler"] else n.list "handlers"

theorem sizeOf_handlers_lt {n m : Node} (h : n.kind ≠ .other) (hm : m ∈ n.handlers) :
    sizeOf m.value < sizeOf n.value := by
  unfold handlers at hm
  split at hm
  · rw [List.mem_singleton.1 hm]
    exact sizeOf_get_lt h _
  · exact sizeOf_list_lt h hm

/-- The lexically last return in a terminal position of a statement. -/
def lastReturn? (n : Node) : Option Node :=
  match _h : n.kind with
  | .returnStatement => some n
  | .blockStatement =>
    match _hl : (n.list "body").getLast? with
    | some last => last.lastReturn?
    | none => none
  | .switchCase =>
    match _hl : (n.list "consequent").getLast? with
    | some last => last.lastReturn?
    | none => none
  | .whileStatement | .doWhileStatement | .forStatement | .forInStatement | .forOfStatement
  | .catchClause => (n.get "body").lastReturn?
  | .ifStatement => (n.get "alternate").lastReturn?.or (n.get "consequent").lastReturn?
  | .tryStatement =>
    ((n.get "finalizer").lastReturn?.or
      (n.handlers.attach.reverse.findSome? fun c => c.1.lastReturn?)).or
      (n.get "block").lastReturn?
  | .switchStatement => (n.list "cases").attach.reverse.findSome? fun c => c.1.lastReturn?
  | _ => none
termination_by sizeOf n.value
decreasing_by
  all_goals
    first
      | exact sizeOf_get_lt (by simp [_h]) _
      | exact sizeOf_list_lt (by simp [_h]) (List.mem_of_getLast? _hl)
      | exact sizeOf_handlers_lt (by simp [_h]) c.2
      | exact sizeOf_list_lt (by simp [_h]) c.2

end ContentAssist.Node
