import ContentAssist.Environment.Basic
import ContentAssist.Fault
import ContentAssist.Tree.Cursor
import ContentAssist.Tree.Node

/-! # The state of an inference

An inference reads a `Task` and changes a `State`: the environment, the facts found out about single
nodes, and the module definition of the file. It also records, in order, what it asked the index for
and what it has to report. -/

namespace ContentAssist

/-- What other files offer. An answer may fail with the fault that analysing the other file met. -/
structure Index where
  /-- The summaries of the files whose globals are visible everywhere. -/
  globals : Except Fault (List Summary)
  /-- The summary of a module, if the module is known and can be parsed. -/
  summary? : String → Except Fault (Option Summary)

namespace Inference

/-- What an inference is about: the source, the cursor, and the index of other files. -/
structure Task where
  source : String
  cursor : Cursor
  index? : Option Index

/-- What is known of a node. -/
structure Fact where
  /-- Its type. -/
  type : Option Ty := none
  /-- The object whose member it names. -/
  target : Option Place := none
  /-- Whether it names what is being defined. -/
  isDefined : Bool := false
  /-- The name under which a function expression is bound, and where that name stands. -/
  boundName : Name := none
  boundSpan : Option Span := none
  /-- The module definition whose callback it is. -/
  loader : Option Node := none
  /-- Whether it is the body of a constructor function. -/
  isConstructorBody : Bool := false

/-- What an inference asks for or reports. -/
inductive Event where
  | askedGlobals
  | askedModule (name : String)
  | logged (entry : LogEntry)

/-- The facts about nodes, latest first. -/
abbrev Facts := List (Place × Fact)

/-- The latest fact about a place; of a place never mentioned nothing is known. -/
def Facts.at (place : Place) : Facts → Fact
  | [] => {}
  | (p, fact) :: rest => if p = place then fact else Facts.at place rest

/-- Everything that an inference changes. -/
structure State where
  env : Environment
  facts : Facts := []
  /-- The module definition that opens the file. -/
  amdModule : Option Node := none
  /-- The module definition that wraps exports. -/
  wrappedModule : Option Node := none
  /-- What happened so far. -/
  events : List Event := []

namespace State

/-- What is known of a node. -/
def fact (s : State) (n : Node) : Fact := s.facts.at n.place

/-- Changes what is known of a node. -/
def learn (s : State) (n : Node) (f : Fact → Fact) : State :=
  { s with facts := (n.place, f (s.fact n)) :: s.facts }

/-- Gives a node a type. -/
def setType (s : State) (n : Node) (t : Ty) : State := s.learn n fun k => { k with type := some t }

/-- The type of a visited node; `Object` if it is unknown. -/
def typeOf (s : State) (n : Node) : Ty := (s.fact n).type.getD .object

/-- The type of the object whose member a node names. -/
def targetType (s : State) (n : Node) : Option Ty :=
  (s.fact n).target.bind fun place => (s.facts.at place).type

/-- Appends an event. -/
def happened (s : State) (e : Event) : State := { s with events := s.events ++ [e] }

/-- Replaces the environment. -/
def withEnv (s : State) (env : Environment) : State := { s with env := env }

/-- Binds a name, as `Environment.addVariable` does. -/
def bind (s : State) (name : Name) (target : Option Ty) (type : Ty) (span : Option Span) : State :=
  s.withEnv (s.env.addVariable name target (some type) span)

/-- Assigns to a name, as `Environment.addOrSet` does. -/
def assign (s : State) (name : Name) (target : Option Ty) (type : Ty) (span : Option Span) :
    State :=
  s.withEnv (s.env.addOrSet name target (some type) span).2

/-- Makes a new object and answers its type. -/
def newObjectType (s : State) : Ty × State :=
  let (name, env) := s.env.newFleetingObject none none
  (.named name, s.withEnv env)

end State

end Inference

end ContentAssist
