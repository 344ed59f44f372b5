import ContentAssist.Inference.Module
import ContentAssist.Text.Uppercase
import ContentAssist.Tree.Walk

/-! # Inference on the way down

On the way down scopes are opened, functions get their types and names, and what is being defined is
marked. Each kind of node has one rule. -/

namespace ContentAssist.Inference

/-- The type of a literal. -/
def literalType (n : Node) : Ty :=
  if !(n.get "regex").isNull then .regExp
  else
    match n.value.get "value" with
    | .bool _ => .boolean
    | .int _ | .float _ => .number
    | .str _ => .string
    | _ => .object

/-- The name that a parameter binds, below a default value and a rest mark; empty if there is none.
-/
def paramName (param : Node) : String :=
  match _h : param.kind with
  | .assignmentPattern => paramName (param.get "left")
  | .restElement => paramName (param.get "argument")
  | _ => param.identifier?.getD ""
termination_by sizeOf param.value
decreasing_by all_goals exact Node.sizeOf_get_lt (by simp [_h]) _

/-- Whether a function of this name is meant as a constructor. -/
def isConstructorName (name : String) : Bool := (name.toList.head?.map Text.isUppercase).getD false

/-- Gives a node the type of a new scope. -/
def openScope (n : Node) (s : State) : State :=
  let (name, env) := s.env.newScope none
  (s.withEnv env).setType n (.named name)

/-- Remembers the name under which a function expression is bound. -/
def bindFunction (value : Node) (name : Name) (span : Option Span) (s : State) : State :=
  if value.kind.isFunctionExpression then
    s.learn value fun k => { k with boundName := name, boundSpan := span }
  else s

/-- The program: looks for the definition of a module. -/
def enterProgram (n : Node) (s : State) : State :=
  let wrapped := wrappedModule? n
  let amd := if wrapped.isSome then s.amdModule else amdModule? n
  let s := { s with wrappedModule := wrapped, amdModule := amd }
  if wrapped.isSome then s.happened (.logged ⟨.debug, .inference, "wrapped commonjs module"⟩)
  else if amd.isSome then s.happened (.logged ⟨.debug, .inference, "AMD module"⟩)
  else s

/-- The name of a property that is not computed. -/
def propertyName? (property : Node) : Option String :=
  if property.flag "computed" then none else (property.get "key").identifier?

/-- A property of an object: its member is there from the start, with type `Object`. -/
def enterProperty (object : Ty) (s : State) (property : Node) : State :=
  match propertyName? property with
  | none => s
  | some name =>
    let key := property.get "key"
    let s := s.bind (some name) (some object) .object key.span?
    let s := s.learn key fun k => { k with isDefined := true }
    bindFunction (property.get "value") (some name) key.span? s

/-- An object: a new record, whose properties are its members. -/
def enterObject (n : Node) (s : State) : State :=
  let (name, env) := s.env.newObject none n.span?
  let s := (s.withEnv env).setType n (.named name)
  (n.list "properties").foldl (enterProperty (.named name)) s

/-- The name of a function and where it stands: its own, else the one that it is bound under. -/
def functionName (n : Node) (s : State) : Name × Option Span :=
  let own := n.get "id"
  match own.identifier?, (s.fact n).boundName with
  | none, some name => (some name, (s.fact n).boundSpan.or n.span?)
  | name, _ => (name, own.span?)

/-- Whether a function with the given name is a constructor: it has a body, its name begins in upper
case, and it is no arrow function. -/
def isConstructor (n : Node) (name : Name) : Bool :=
  !(n.get "body").isNull && n.kind ≠ .arrowFunctionExpression &&
    (name.map isConstructorName).getD false

/-- The type of a function. A constructor enters the scope of a new object, which is its result, and
gets its records. -/
def openFunction (n : Node) (name : Name) (s : State) : Ty × State :=
  let params := (n.list "params").map paramName
  let constructs := isConstructor n name
  let markBody (s : State) : State :=
    if (n.get "body").isObject then
      s.learn (n.get "body") fun k => { k with isConstructorBody := constructs }
    else s
  if constructs then
    let (object, env) := s.env.newObject name n.span?
    let s := markBody (s.withEnv env)
    (.function (.named object) params, s.withEnv (s.env.createConstructor (.named object) object))
  else (.function .object params, markBody s)

/-- Binds the parameters that have a name. -/
def bindParams : List Node → List Ty → State → State
  | param :: params, t :: ts, s =>
    let name := paramName param
    bindParams params ts (if name = "" then s else s.bind (some name) none t param.span?)
  | _, _, s => s

/-- A function: its type is bound to its name unless it begins behind the cursor, and its parameters
are bound in a new scope. -/
def enterFunction (task : Task) (n : Node) (s : State) : Except Fault Unit × State :=
  let (name, nameSpan) := functionName n s
  let (type, s) := openFunction n name s
  let s := s.setType n type
  let s :=
    if name.isSome ∧ !task.cursor.isBefore n.span? then s.bind name none type nameSpan else s
  let s := s.withEnv (s.env.newScope none).2
  let s :=
    if n.kind = .arrowFunctionExpression then s
    else s.bind (some "arguments") none .arguments n.span?
  match paramTypes task n s with
  | (.error fault, s) => (.error fault, s)
  | (.ok types, s) => (.ok (), bindParams (n.list "params") types s)

/-- A declared variable: its name is being defined, and names its value if that is a function. -/
def enterDeclarator (n : Node) (s : State) : State :=
  let id := n.get "id"
  match id.identifier? with
  | none => s
  | some name =>
    let s := s.learn id fun k => { k with isDefined := true }
    bindFunction (n.get "init") (some name) id.span? s

/-- An assignment to a variable: a function on the right is bound under its name. -/
def enterAssignment (n : Node) (s : State) : State :=
  let left := n.get "left"
  if left.kind = .identifier then bindFunction (n.get "right") left.name left.span? s else s

/-- A catch clause: a scope with the caught error. -/
def enterCatch (n : Node) (s : State) : State :=
  let s := openScope n s
  let param := n.get "param"
  match param.identifier? with
  | none => s
  | some name => (s.setType param .error).bind (some name) none .error param.span?

/-- A member access: unless it is computed, the property names a member of the object. -/
def enterMember (n : Node) (s : State) : State :=
  let property := n.get "property"
  let object := n.get "object"
  if property.isObject ∧ !n.flag "computed" then
    s.learn property fun k =>
      { k with target := if object.isNull then none else some object.place }
  else s

/-- The callback of a loader call: the last argument, if the one before it is a list of
dependencies. -/
def loaderCallback? (call : Node) : Option Node :=
  match (call.list "arguments").reverse with
  | callback :: names :: _ =>
    if callback.kind.isFunctionExpression ∧ names.kind = .arrayExpression then some callback
    else none
  | _ => none

/-- A loader call: its callback receives what the dependencies provide. -/
def enterCall (n : Node) (s : State) : State :=
  let callee := (n.get "callee").identifier?
  if callee = some "define" ∨ callee = some "require" then
    match loaderCallback? n with
    | some callback => s.learn callback fun k => { k with loader := some n }
    | none => s
  else s

/-- The rule for a node that is not skipped. -/
def enterNode (task : Task) (n : Node) (s : State) : Except Fault Unit × State :=
  match n.kind with
  | .program => (.ok (), enterProgram n s)
  | .blockStatement => (.ok (), openScope n s)
  | .literal => (.ok (), s.setType n (literalType n))
  | .arrayExpression => (.ok (), s.setType n .array)
  | .objectExpression => (.ok (), enterObject n s)
  | .functionDeclaration | .functionExpression | .arrowFunctionExpression => enterFunction task n s
  | .variableDeclarator => (.ok (), enterDeclarator n s)
  | .assignmentExpression => (.ok (), enterAssignment n s)
  | .catchClause => (.ok (), enterCatch n s)
  | .memberExpression => (.ok (), enterMember n s)
  | .callExpression => (.ok (), enterCall n s)
  | _ => (.ok (), s)

/-- The way down. Variable declarations behind the cursor are skipped, and a fault ends the walk. -/
def enter (task : Task) (n : Node) (s : State) : Entry (Except Fault String) × State :=
  if n.kind = .variableDeclaration ∧ task.cursor.isBefore n.span? then (.skip, s)
  else
    match enterNode task n s with
    | (.error fault, s) => (.found (.error fault), s)
    | (.ok (), s) => (.descend, s)

end ContentAssist.Inference
