import ContentAssist.Inference.State
import ContentAssist.Text.Blank

/-! # Modules and dependencies

A file may define a module by a call `define(...)`, and it names the modules that it depends on in
calls of `define` and `require`. What a dependency provides is taken over into the environment when
its name comes up. -/

namespace ContentAssist.Inference

/-! ### Module definitions -/

/-- The `define(...)` call that a statement consists of. -/
def defineCall? (statement : Node) : Option Node :=
  let call := statement.get "expression"
  if statement.kind = .expressionStatement ∧ call.kind = .callExpression ∧
      (call.get "callee").identifier? = some "define" then some call
  else none

/-- The module definition that is the first statement of a program. -/
def amdModule? (program : Node) : Option Node := (program.list "body").head?.bind defineCall?

/-- The parameters of a callback that receives the members to export. -/
def wrapperParams : List Name := [some "require", some "exports", some "module"]

/-- The call itself if it wraps exports: its one argument is a function of `require`, `exports` and
`module`. -/
def wrapperCall? (call : Node) : Option Node :=
  match call.list "arguments" with
  | [callback] =>
    if callback.kind = .functionExpression ∧
        (callback.list "params").map Node.identifier? = wrapperParams then some call
    else none
  | _ => none

/-- The first statement of a program that is a module definition wrapping exports. -/
def wrappedModule? (program : Node) : Option Node :=
  (program.list "body").findSome? fun statement => (defineCall? statement).bind wrapperCall?

/-! ### What dependencies provide -/

/-- Takes over a summary and answers the type that it provides. -/
def applySummary (s : State) (summary : Summary) : Ty × State :=
  match summary.provided with
  | .record _ =>
    let (name, env) := s.env.newFleetingObject none none
    (.named name, s.withEnv (env.mergeSummary summary name))
  | .type t => (t, s.withEnv (s.env.mergeSummary summary (s.env.scope none)))

/-- The text of a string literal. -/
def literalText? (n : Node) : Option String :=
  if n.kind = .literal then (n.value.get "value").str? else none

/-- Asks the index for a module and takes its summary over; `none` if the module is not known. -/
def loadModule (index : Index) (name : String) (s : State) : Except Fault (Option Ty) × State :=
  let s := s.happened (.askedModule name)
  match index.summary? name with
  | .error fault => (.error fault, s)
  | .ok none => (.ok none, s)
  | .ok (some summary) =>
    let (t, s) := applySummary s summary
    (.ok (some t), s)

/-- The module that a call `require('name')` names. -/
def requiredModule? (call : Node) : Option String :=
  if (call.get "callee").identifier? = some "require" then
    match call.list "arguments" with
    | [argument] => literalText? argument
    | _ => none
  else none

/-- The type provided by the module that a call requires. -/
def requiredType (task : Task) (call : Node) (s : State) : Except Fault (Option Ty) × State :=
  match task.index?, requiredModule? call with
  | some index, some name => loadModule index name s
  | _, _ => (.ok none, s)

/-- The list of dependencies in the arguments of a loader call: the array in front of the callback,
which may itself stand behind the module's own name. -/
def dependencyList? (arguments : List Node) : Option (List Node) :=
  match arguments with
  | [name, names, _] =>
    if name.kind = .literal ∧ names.kind = .arrayExpression then some (names.list "elements")
    else none
  | [names, _] => if names.kind = .arrayExpression then some (names.list "elements") else none
  | _ => none

/-- The dependencies whose provided values a function receives, if it is the callback of a loader
call. -/
def dependencies? (task : Task) (function : Node) (s : State) : Option (Index × List Node) :=
  match task.index?, (s.fact function).loader with
  | some index, some loader =>
    let arguments := loader.list "arguments"
    if 1 < arguments.length ∧ arguments.getLast?.map (·.place) = some function.place then
      (dependencyList? arguments).map fun names => (index, names)
    else none
  | _, _ => none

/-- The type of a parameter that receives a dependency. A module that is not known gives a new
object; what is no module name gives `Object`. -/
def dependencyType (index : Index) (dependency : Option Node) (s : State) :
    Except Fault Ty × State :=
  match dependency.bind literalText? with
  | none => (.ok .object, s)
  | some name =>
    match loadModule index name s with
    | (.error fault, s) => (.error fault, s)
    | (.ok (some t), s) => (.ok t, s)
    | (.ok none, s) =>
      let (t, s) := s.newObjectType
      (.ok t, s)

/-- The types of parameters that receive dependencies, one after the other. -/
def dependencyTypes (index : Index) : List Node → List Node → State →
    Except Fault (List Ty) × State
  | [], _, s => (.ok [], s)
  | _ :: params, names, s =>
    match dependencyType index names.head? s with
    | (.error fault, s) => (.error fault, s)
    | (.ok t, s) =>
      match dependencyTypes index params names.tail s with
      | (.error fault, s) => (.error fault, s)
      | (.ok ts, s) => (.ok (t :: ts), s)

/-- New objects, one for each parameter. -/
def newObjectTypes : List Node → State → List Ty × State
  | [], s => ([], s)
  | _ :: params, s =>
    let (t, s) := s.newObjectType
    let (ts, s) := newObjectTypes params s
    (t :: ts, s)

/-- The types of the parameters of a function: those of the dependencies if it is the callback of a
loader call, else new objects. -/
def paramTypes (task : Task) (function : Node) (s : State) : Except Fault (List Ty) × State :=
  let params := function.list "params"
  match dependencies? task function s with
  | some (index, names) => dependencyTypes index params names s
  | none =>
    let (ts, s) := newObjectTypes params s
    (.ok ts, s)

/-! ### Globals known beforehand -/

/-- The globals that a comment declares: it must be a block comment that begins with `global`. -/
def declaredGlobals? (comment : Node) : Option (List String) :=
  let text := ((comment.value.get "value").str?).getD ""
  if (comment.value.get "type").str? = some "Block" ∧ Text.startsWith "global" text then
    some (Text.words text).tail
  else none

/-- Binds the globals that the first such comment of a program declares. -/
def addDeclaredGlobals (root : Node) (env : Environment) : Environment :=
  match (root.list "comments").findSome? fun c => (declaredGlobals? c).map fun names => (c, names)
    with
  | none => env
  | some (comment, names) =>
    names.foldl (fun env name => (env.addOrSet (some name) none none comment.span?).2) env

/-- Takes over the summaries of the files whose globals are visible everywhere. -/
def addIndexedGlobals (task : Task) (s : State) : Except Fault Unit × State :=
  match task.index? with
  | none => (.ok (), s)
  | some index =>
    let s := s.happened .askedGlobals
    match index.globals with
    | .error fault => (.error fault, s)
    | .ok summaries =>
      let env := summaries.foldl (fun env m => env.mergeSummary m Catalog.globalName) s.env
      (.ok (), s.withEnv env)

end ContentAssist.Inference
