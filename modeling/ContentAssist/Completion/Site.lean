import ContentAssist.Tree.MemberAccess
import ContentAssist.Tree.Walk

/-! # What the cursor asks for

`siteAt?` tells whether a completion applies at the cursor, and if so whether it is one of variables
or one of members. None applies inside comments and literals, in the head of a function, and in the
declaring part of a variable. `hoverTarget?` finds the identifier under the cursor. -/

namespace ContentAssist

/-- What a completion is for. -/
inductive Site where
  /-- The variables in scope. -/
  | top
  /-- The members of an object. -/
  | member
  deriving DecidableEq, Repr

/-- The name of a site. -/
def Site.name : Site → String
  | top => "top"
  | member => "member"

/-! ### Comments and literals -/

/-- Whether the offset is in a comment. A line comment reaches up to its end, a block comment ends
before its closing mark is complete. -/
def isInsideComment (offset : Int) (comment : Node) : Bool :=
  match comment.span? with
  | none => false
  | some s =>
    s.start < offset &&
      (if (comment.value.get "type").str? = some "Line" then offset ≤ s.stop else offset < s.stop)

/-- Whether the offset is in one of the comments of a tree. -/
def inComment (root : Node) (offset : Int) : Bool :=
  (root.list "comments").any (isInsideComment offset)

/-- Whether the offset is strictly inside a string or a regular expression. -/
def isInsideLiteral (offset : Int) (literal : Node) : Bool :=
  ((literal.value.get "value").str?.isSome || !(literal.get "regex").isNull) &&
    match literal.span? with
    | none => false
    | some s => s.start < offset && offset < s.stop

/-! ### The walk to the cursor -/

/-- Whether the offset is in the head of a function, before its body. -/
def isBeforeBody (offset : Int) (function : Node) : Bool :=
  let body := function.get "body"
  body.isObject && Cursor.isBefore (some offset) body.span?

/-- On the way down the nodes around the offset are collected, innermost first. The walk ends at an
identifier, in a literal (with `false`), in the head of a function, and behind the dot of a member
access that has no property yet. -/
def enterAround (offset : Int) (source : String) (n : Node) (around : List Node) :
    Entry Bool × List Node :=
  let kind := n.kind
  if kind ≠ .program ∧ !Cursor.isIn (some offset) n.span? then (.skip, around)
  else if kind = .identifier then (.found true, around)
  else if kind = .literal ∧ isInsideLiteral offset n then (.found false, around)
  else if kind.isFunction ∧ isBeforeBody offset n then (.found true, n :: around)
  else if kind = .memberExpression ∧ (n.get "property").isNull ∧
      afterDot (some offset) n source then
    (.found true, n :: around)
  else (.descend, n :: around)

/-- On the way up the walk ends at the program and at a block around the offset; any other node is
dropped again. -/
def leaveAround (offset : Int) (n : Node) (around : List Node) : Option Bool × List Node :=
  if n.kind = .program ∨ (n.kind = .blockStatement ∧ Cursor.isIn (some offset) n.span?) then
    (some true, around)
  else (none, around.tail)

/-- The visitor that collects the nodes around an offset. -/
def aroundVisitor (offset : Int) (source : String) : Visitor (List Node) Bool :=
  ⟨enterAround offset source, leaveAround offset⟩

/-- What a completion is for if `parent` is the innermost node around the offset. -/
def siteIn? (offset : Int) (source : String) (parent : Node) : Option Site :=
  match parent.kind with
  | .memberExpression =>
    if Cursor.isIn (some offset) (parent.get "property").span? ∨
        afterDot (some offset) parent source then some .member
    else some .top
  | .variableDeclarator =>
    let init := parent.get "init"
    if init.isNull ∨ Cursor.isBefore (some offset) init.span? then none else some .top
  | .functionDeclaration | .functionExpression | .arrowFunctionExpression =>
    if isBeforeBody offset parent then none else some .top
  | _ => some .top

/-- What a completion at the offset is for, if one applies. -/
def siteAt? (root : Node) (offset : Int) (source : String) : Option Site :=
  if inComment root offset then none
  else
    match root.visit (aroundVisitor offset source) [] with
    | (some false, _) => none
    | (_, []) => some .top
    | (_, parent :: _) => siteIn? offset source parent

/-! ### Hover -/

/-- The search for the identifier at an offset ends at that identifier, and at the first node behind
the offset. -/
def enterHover (offset : Int) (n : Node) (s : Unit) : Entry (Option Node) × Unit :=
  if n.kind = .identifier ∧ Cursor.isIn (some offset) n.span? then (.found (some n), s)
  else
    match n.span? with
    | some span => if offset < span.start then (.found none, s) else (.descend, s)
    | none => (.descend, s)

/-- The identifier at the offset. -/
def hoverTarget? (root : Node) (offset : Int) : Option Node :=
  ((root.visit (.entering (enterHover offset)) ()).1).join

end ContentAssist
