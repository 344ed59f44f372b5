import ContentAssist.Buffer.Parse
import ContentAssist.Inference.Module
import ContentAssist.Tree.Walk

/-! # Checking dependencies

A file names the modules that it depends on in calls of `define` and `require`. A name that is not
known is reported, in the order of the source. -/

namespace ContentAssist

open Inference

/-- A problem in a line of the source, with columns as editors count them. -/
structure Diagnostic where
  description : String
  line : Int
  start : Int
  stop : Int
  deriving DecidableEq, Repr

/-- A diagnostic as an object; every one is an error. -/
def Diagnostic.toJson (d : Diagnostic) : Json :=
  .obj [("description", .str d.description), ("line", .int d.line), ("start", .int d.start),
    ("end", .int d.stop), ("severity", .str "error")]

/-- The dependencies that a loader call names: the array among its first two arguments, else the
literal among them; the last one of either kind counts. -/
def namedModules (call : Node) : List Node :=
  let arguments := (call.list "arguments").take 2
  match (arguments.filter fun n => n.kind = .arrayExpression).getLast? with
  | some names => names.list "elements"
  | none => ((arguments.filter fun n => n.kind = .literal).getLast?).toList

/-- Whether a call is one of those that name dependencies. -/
def isLoaderCall (n : Node) : Bool :=
  let callee := (n.get "callee").identifier?
  n.kind = .callExpression && (callee = some "define" || callee = some "require")

/-- The problem that a dependency is not known; its text lies between quotes. -/
def unknownModule (literal : Node) (name : String) : Diagnostic :=
  let location := literal.value.get "loc"
  let start := location.get "start"
  { description := "Cannot find module '" ++ name ++ "'"
    line := (start.get "line").int?.getD 0
    start := (start.get "column").int?.getD 0 + 2
    stop := ((location.get "end").get "column").int?.getD 0 }

/-- The problem with a dependency, if there is one. -/
def checkModule (knows : String → Bool) (dependency : Node) : Option Diagnostic :=
  (literalText? dependency).bind fun name =>
    if knows name then none else some (unknownModule dependency name)

/-- Adds the problems of a node. -/
def enterCheck (knows : String → Bool) (n : Node) (found : List Diagnostic) :
    Entry Unit × List Diagnostic :=
  if isLoaderCall n then (.descend, found ++ (namedModules n).filterMap (checkModule knows))
  else (.descend, found)

/-- The problems of all dependencies in a tree. -/
def checkTree (knows : String → Bool) (root : Node) : List Diagnostic :=
  (root.visit (.entering (enterCheck knows)) []).2

/-- The problems of all dependencies in a source. -/
def checkSource (parser : Parser) (knows : String → Bool) (source : String) :
    Except Fault (List Diagnostic) × List LogEntry :=
  match parse parser source with
  | (.error e, log) => (.error (.unparsable e), log)
  | (.ok root, log) => (.ok (checkTree knows (.root root)), log)

end ContentAssist
