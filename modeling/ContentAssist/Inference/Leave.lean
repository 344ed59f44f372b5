import ContentAssist.Inference.Enter
import ContentAssist.Tree.MemberAccess
import ContentAssist.Tree.Return

/-! # Inference on the way up

On the way up every node gets its type, names are assigned, and scopes are closed. The walk ends
with the name of the record whose members are visible at the cursor: at an identifier, behind the
dot of a member access, at the end of a block around the cursor, or else at the end of the program.
-/

namespace ContentAssist.Inference

/-- What a rule gives: the answer that ends the walk, if any, and the state. -/
abbrev Outcome := Option (Except Fault String) × State

/-- The walk goes on. -/
def goOn (s : State) : Outcome := (none, s)

/-- The walk ends with a scope. -/
def answer (scope : String) (s : State) : Outcome := (some (.ok scope), s)

/-- Leaves the current scope and goes on. -/
def closeScope (s : State) : Outcome :=
  match s.env.popScope? with
  | none => (some (.error .outermostScope), s)
  | some (_, env) => goOn (s.withEnv env)

/-- A block or catch clause: the scope is the answer if the cursor is in it, and is left otherwise.
-/
def leaveBlock (task : Task) (n : Node) (s : State) : Outcome :=
  if task.cursor.isIn n.span? then answer (s.env.scope none) s else closeScope s

/-- A member access: behind the dot the object's record is the answer. -/
def leaveMember (task : Task) (n : Node) (s : State) : Outcome :=
  let object := n.get "object"
  let property := n.get "property"
  if afterDot task.cursor n task.source then answer (s.env.scope (some (s.typeOf object))) s
  else if n.flag "computed" then goOn (s.setType n .object)
  else if property.isObject then goOn (s.setType n (s.typeOf property))
  else goOn (s.setType n (s.typeOf object))

/-- A call: the type that a required module provides, else the result of the function. -/
def leaveCall (task : Task) (n : Node) (s : State) : Outcome :=
  match requiredType task n s with
  | (.error fault, s) => (some (.error fault), s)
  | (.ok (some t), s) => goOn (s.setType n t)
  | (.ok none, s) => goOn (s.setType n (s.typeOf (n.get "callee")).result)

/-- A constructor call: the result of the function. -/
def leaveNew (n : Node) (s : State) : State := s.setType n (s.typeOf (n.get "callee")).result

/-- A property of an object: its member gets the type of the value. -/
def leaveProperty (object : Option Ty) (s : State) (property : Node) : State :=
  match propertyName? property with
  | none => s
  | some name =>
    let key := property.get "key"
    let t := s.typeOf (property.get "value")
    (s.setType key t).bind (some name) object t key.span?

/-- An object: its members get their types, and its scope is left. -/
def leaveObject (n : Node) (s : State) : Outcome :=
  closeScope ((n.list "properties").foldl (leaveProperty (s.fact n).type) s)

/-- The operators that give a number. -/
def numericOperators : List String := ["-", "/", "*", "%", "&", "|", "^", "<<", ">>", ">>>"]

/-- The operators that give a truth value. -/
def comparisonOperators : List String := ["!==", "!=", "===", "==", "<", "<=", ">", ">="]

/-- The operator of a node. -/
def operator (n : Node) : String := ((n.value.get "operator").str?).getD ""

/-- The type of an operation on two operands. -/
def binaryType (op : String) (left right : Ty) : Ty :=
  if op = "+" then if left = .string ∨ right = .string then .string else .number
  else if op ∈ numericOperators then .number
  else if op = "&&" ∨ op = "||" then left
  else if op ∈ comparisonOperators then .boolean
  else .object

/-- An operation on two operands. -/
def leaveBinary (n : Node) (s : State) : State :=
  s.setType n (binaryType (operator n) (s.typeOf (n.get "left")) (s.typeOf (n.get "right")))

/-- An operation on one operand. -/
def leaveUnary (n : Node) (s : State) : State :=
  s.setType n (if operator n = "!" then .boolean else .number)

/-- The first name that is not empty. -/
def firstName (names : List Name) : Name := names.findSome? fun n => n.filter (· ≠ "")

/-- A constructor: its second scope is left, and its name gets its type. -/
def leaveConstructor (n : Node) (type result : Ty) (s : State) : Outcome :=
  match closeScope s with
  | (some e, s) => (some e, s)
  | (none, s) =>
    let own := n.get "id"
    let name := firstName [own.identifier?, (s.fact n).boundName, some result.leaf]
    goOn (s.assign name none type (if own.isNull then n.span? else own.span?))

/-- The node whose type is the result of a function: the value of a short arrow function, else the
last return of the body. -/
def returned? (n : Node) : Option Node :=
  let body := n.get "body"
  if n.kind = .arrowFunctionExpression ∧ body.kind ≠ .blockStatement then some body
  else body.lastReturn?

/-- A plain function: what it returns becomes its result, and its name gets the new type. -/
def leavePlainFunction (n : Node) (type : Ty) (s : State) : State :=
  match returned? n with
  | none => s
  | some r =>
    let type := type.withResult (s.typeOf r)
    let s := s.setType n type
    let own := n.get "id"
    match own.identifier? with
    | some name => s.assign (some name) none type own.span?
    | none =>
      match (s.fact n).boundName with
      | some name => s.assign (some name) none type (s.fact n).boundSpan
      | none => s

/-- A function: its scope is left, and its result is known now. -/
def leaveFunction (n : Node) (s : State) : Outcome :=
  match closeScope s with
  | (some e, s) => (some e, s)
  | (none, s) =>
    match (s.fact n).type, (n.get "body").isObject with
    | some (.function result params), true =>
      if (s.fact (n.get "body")).isConstructorBody then
        leaveConstructor n (.function result params) result s
      else goOn (leavePlainFunction n (.function result params) s)
    | _, _ => goOn s

/-- A declared variable: it is bound with the type of its value. -/
def leaveDeclarator (n : Node) (s : State) : State :=
  let t := s.typeOf (n.get "init")
  let s := s.setType n t
  let id := n.get "id"
  match id.identifier? with
  | none => s
  | some name => (s.setType id t).bind (some name) none t id.span?

/-- The type of an assignment. -/
def assignmentType (n : Node) (s : State) : Ty :=
  if operator n = "=" then s.typeOf (n.get "right")
  else if operator n = "+=" ∧ s.typeOf (n.get "left") = .string then .string
  else .number

/-- An assignment: the identifier that the left side ends in gets the type. -/
def leaveAssignment (n : Node) (s : State) : State :=
  let t := assignmentType n s
  let s := s.setType n t
  match (n.get "left").rightMost? with
  | none => s
  | some id =>
    let s := s.setType id t
    s.assign id.name (s.targetType id) t id.span?

/-- An identifier: at the cursor the record that it is looked up in is the answer. A name that is
bound nowhere and stands before the cursor becomes a global. -/
def leaveIdentifier (task : Task) (n : Node) (s : State) : Outcome :=
  let target := s.targetType n
  if task.cursor.isIn n.span? then answer (s.env.scope target) s
  else
    match s.env.lookup? n.name target with
    | some t => goOn (s.setType n t)
    | none =>
      if (s.fact n).target.isNone ∧ !(s.fact n).isDefined ∧ task.cursor.isAfter n.span? then
        let (t, env) := s.env.addOrSet n.name (some .global) none n.span?
        goOn ((s.withEnv env).setType n t)
      else goOn s

/-- The current object. -/
def leaveThis (n : Node) (s : State) : State :=
  s.learn n fun k => { k with type := s.env.lookup? (some "this") none }

/-- A return statement: the type of the returned value. -/
def leaveReturn (n : Node) (s : State) : State :=
  let argument := n.get "argument"
  if argument.isNull then s else s.setType n (s.typeOf argument)

/-- The rule for a node. -/
def leaveNode (task : Task) (n : Node) (s : State) : Outcome :=
  match n.kind with
  | .program => answer (s.env.scope none) s
  | .blockStatement | .catchClause => leaveBlock task n s
  | .memberExpression => leaveMember task n s
  | .callExpression => leaveCall task n s
  | .newExpression => goOn (leaveNew n s)
  | .objectExpression => leaveObject n s
  | .binaryExpression | .logicalExpression => goOn (leaveBinary n s)
  | .unaryExpression | .updateExpression => goOn (leaveUnary n s)
  | .functionDeclaration | .functionExpression | .arrowFunctionExpression => leaveFunction n s
  | .variableDeclarator => goOn (leaveDeclarator n s)
  | .assignmentExpression => goOn (leaveAssignment n s)
  | .identifier => leaveIdentifier task n s
  | .thisExpression => goOn (leaveThis n s)
  | .returnStatement => goOn (leaveReturn n s)
  | _ => goOn s

/-- A node of unknown type has type `Object`. -/
def settle (n : Node) (s : State) : State :=
  if (s.fact n).type.isNone then s.setType n .object else s

/-- The way up. -/
def leave (task : Task) (n : Node) (s : State) : Outcome :=
  match leaveNode task n s with
  | (some a, s) => (some a, s)
  | (none, s) => (none, settle n s)

end ContentAssist.Inference
