import ContentAssist.Json.Basic
import ContentAssist.Record.Basic

/-! # Nodes of a syntax tree

A syntax tree is a JSON value; its nodes are the objects with a field `type`. A node is identified
by its place, the way that leads to it from the root, so two equal subtrees at different places are
different nodes, and the order of an object's fields plays no part in it.

The trees come from outside and may have any shape: an absent field reads as `null`, and what should
be a list but is none holds no nodes. -/

namespace ContentAssist

/-- One step down a JSON value. -/
inductive Step where
  | field (key : String)
  | item (index : Nat)
  deriving DecidableEq, Repr

/-- The way from the root to a value, last step first. -/
abbrev Place := List Step

/-- The kinds of nodes that some rule tells apart. -/
inductive Kind where
  | program
  | blockStatement
  | expressionStatement
  | returnStatement
  | ifStatement
  | whileStatement
  | doWhileStatement
  | forStatement
  | forInStatement
  | forOfStatement
  | tryStatement
  | catchClause
  | switchStatement
  | switchCase
  | functionDeclaration
  | functionExpression
  | arrowFunctionExpression
  | variableDeclaration
  | variableDeclarator
  | assignmentExpression
  | assignmentPattern
  | restElement
  | memberExpression
  | callExpression
  | newExpression
  | arrayExpression
  | objectExpression
  | binaryExpression
  | logicalExpression
  | unaryExpression
  | updateExpression
  | thisExpression
  | identifier
  | literal
  | other
  deriving DecidableEq, Repr

namespace Kind

/-- The kinds and the names they have in a tree. -/
def names : List (String × Kind) := [
  ("Program", program), ("BlockStatement", blockStatement),
  ("ExpressionStatement", expressionStatement), ("ReturnStatement", returnStatement),
  ("IfStatement", ifStatement), ("WhileStatement", whileStatement),
  ("DoWhileStatement", doWhileStatement), ("ForStatement", forStatement),
  ("ForInStatement", forInStatement), ("ForOfStatement", forOfStatement),
  ("TryStatement", tryStatement), ("CatchClause", catchClause),
  ("SwitchStatement", switchStatement), ("SwitchCase", switchCase),
  ("FunctionDeclaration", functionDeclaration), ("FunctionExpression", functionExpression),
  ("ArrowFunctionExpression", arrowFunctionExpression),
  ("VariableDeclaration", variableDeclaration), ("VariableDeclarator", variableDeclarator),
  ("AssignmentExpression", assignmentExpression), ("AssignmentPattern", assignmentPattern),
  ("RestElement", restElement), ("MemberExpression", memberExpression),
  ("CallExpression", callExpression), ("NewExpression", newExpression),
  ("ArrayExpression", arrayExpression), ("ObjectExpression", objectExpression),
  ("BinaryExpression", binaryExpression), ("LogicalExpression", logicalExpression),
  ("UnaryExpression", unaryExpression), ("UpdateExpression", updateExpression),
  ("ThisExpression", thisExpression), ("Identifier", identifier), ("Literal", literal)]

/-- The kind with the given name. -/
def ofName (name : String) : Kind := ((names.find? fun e => e.1 = name).map (·.2)).getD other

/-- Whether a node of this kind is a function. -/
def isFunction : Kind → Bool
  | functionDeclaration | functionExpression | arrowFunctionExpression => true
  | _ => false

/-- Whether a node of this kind is a function without a statement of its own. -/
def isFunctionExpression : Kind → Bool
  | functionExpression | arrowFunctionExpression => true
  | _ => false

end Kind

/-- A value of a tree together with its place. -/
structure Node where
  place : Place
  value : Json

namespace Node

/-- The root of a tree. -/
def root (v : Json) : Node := ⟨[], v⟩

/-- The value of a field. -/
def get (n : Node) (key : String) : Node := ⟨.field key :: n.place, n.value.get key⟩

/-- Values as nodes at consecutive indices from `index` on. -/
def itemsFrom (place : Place) (index : Nat) : List Json → List Node
  | [] => []
  | v :: vs => ⟨.item index :: place, v⟩ :: itemsFrom place (index + 1) vs

/-- The items of a list. -/
def items (n : Node) : List Node := itemsFrom n.place 0 n.value.items

/-- The items of the list in a field. -/
def list (n : Node) (key : String) : List Node := (n.get key).items

/-- Whether the value is an object. -/
def isObject (n : Node) : Bool := n.value.isObject

/-- Whether there is no value. -/
def isNull (n : Node) : Bool := n.value.isNull

/-- Whether a field counts as set. -/
def flag (n : Node) (key : String) : Bool := (n.value.get key).isSet

/-- The kind of a node; values that are no nodes have no kind of their own. -/
def kind (n : Node) : Kind := (((n.value.get "type").str?).map Kind.ofName).getD .other

/-- Whether the value is a node of the given kind. -/
def isKind (n : Node) (k : Kind) : Bool := n.kind = k

/-- The field `name` as a member name. -/
def name (n : Node) : Name := (n.value.get "name").str?

/-- The name of an identifier. -/
def identifier? (n : Node) : Name := if n.kind = .identifier then n.name else none

/-- The span of source that a node takes up, if it is known. -/
def span? (n : Node) : Option Span :=
  match (n.value.get "range").items with
  | .int start :: .int stop :: _ => some ⟨start, stop⟩
  | _ => none

/-- The start offset of a node, if it is known. -/
def start? (n : Node) : Option Int :=
  match (n.value.get "range").items with
  | .int start :: _ => some start
  | _ => none

/-- Only objects have a kind of their own. -/
theorem isObject_of_kind {n : Node} (h : n.kind ≠ .other) : n.value.isObject = true := by
  cases hv : n.value with
  | obj fs => rfl
  | _ => simp [kind, hv, Json.get, Json.field?, Json.str?] at h

/-- What is read from a node of some kind is smaller than the node. -/
theorem sizeOf_get_lt {n : Node} (h : n.kind ≠ .other) (key : String) :
    sizeOf (n.get key).value < sizeOf n.value :=
  Json.sizeOf_get_lt (isObject_of_kind h) key

theorem value_mem_of_mem_itemsFrom {place : Place} {index : Nat} {vs : List Json} {m : Node}
    (h : m ∈ itemsFrom place index vs) : m.value ∈ vs := by
  induction vs generalizing index with
  | nil => simp [itemsFrom] at h
  | cons v vs ih =>
    rcases List.mem_cons.1 h with rfl | h
    · exact List.mem_cons_self
    · exact List.mem_cons_of_mem _ (ih h)

/-- What is in a list of a node of some kind is smaller than the node. -/
theorem sizeOf_list_lt {n m : Node} {key : String} (h : n.kind ≠ .other) (hm : m ∈ n.list key) :
    sizeOf m.value < sizeOf n.value :=
  Nat.lt_trans (Json.sizeOf_lt_of_item (value_mem_of_mem_itemsFrom hm)) (sizeOf_get_lt h key)

end Node

end ContentAssist
