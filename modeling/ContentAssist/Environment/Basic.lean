import ContentAssist.Catalog
import ContentAssist.Record.Chain

/-! # The type environment

An environment holds the table of records and the stack of scopes of one analysis. Scopes are
records too: the prototype of a scope is the scope around it, so a name is looked up along a
prototype chain that ends in the global record and then `Object`. Generated names count up from zero
in the order of their allocation.

Each operation is a function on environments; one that also has an answer returns it in front. -/

namespace ContentAssist

/-- A stack of scopes. The outermost one cannot be left. -/
structure Scopes where
  /-- The outermost scope. -/
  outermost : String := Catalog.globalName
  /-- The scopes inside it, innermost first. -/
  inner : List String := []
  deriving DecidableEq, Repr

namespace Scopes

/-- The innermost scope. -/
def current (s : Scopes) : String := s.inner.headD s.outermost

/-- The scopes from the outermost to the innermost. -/
def toList (s : Scopes) : List String := s.outermost :: s.inner.reverse

/-- Whether a name is that of a scope of the stack. -/
def contains (s : Scopes) (name : String) : Bool := name = s.outermost || name ∈ s.inner

/-- Enters a scope. -/
def push (s : Scopes) (name : String) : Scopes := { s with inner := name :: s.inner }

/-- Leaves the innermost scope. -/
def pop (s : Scopes) : Scopes := { s with inner := s.inner.tail }

@[simp] theorem current_push (s : Scopes) (name : String) : (s.push name).current = name := rfl

@[simp] theorem pop_push (s : Scopes) (name : String) : (s.push name).pop = s := rfl

theorem current_mem_toList (s : Scopes) : s.current ∈ s.toList := by
  unfold current toList
  cases s.inner with
  | nil => exact List.mem_cons_self
  | cons n ns => exact List.mem_cons_of_mem _ (List.mem_reverse.2 List.mem_cons_self)

theorem mem_toList_push {s : Scopes} {name n : String} :
    n ∈ (s.push name).toList ↔ n ∈ s.toList ∨ n = name := by
  rw [toList, toList, push, List.reverse_cons, ← List.cons_append, List.mem_append,
    List.mem_singleton]

theorem mem_toList_of_mem_pop {s : Scopes} {n : String} (h : n ∈ s.pop.toList) : n ∈ s.toList := by
  rcases List.mem_cons.1 h with rfl | h
  · exact List.mem_cons_self
  · exact List.mem_cons_of_mem _ (List.mem_reverse.2 (List.mem_of_mem_tail (List.mem_reverse.1 h)))

end Scopes

/-- The table of records and the scopes of one analysis of the file `uid`. -/
structure Environment where
  uid : String := "local"
  types : Table := Catalog.table
  scopes : Scopes := {}
  /-- The number of names generated so far. -/
  count : Nat := 0
  deriving DecidableEq, Repr

namespace Environment

/-- The environment at the start of an analysis. -/
def start (uid : String) : Environment := { uid := uid }

/-! ### Names -/

/-- The current scope, or the record that a target's type stands for. A function without a
constructor record of its own is an instance of `Function`. -/
def scope (env : Environment) : Option Ty → String
  | none => env.scopes.current
  | some (.named name) => name
  | some (.function r _) =>
    if env.types.contains (Ty.constructorKey r) then Ty.constructorKey r else "Function"

/-- Generates the next name. -/
def newName (env : Environment) : String × Environment :=
  (Ty.generatedName env.uid env.count, { env with count := env.count + 1 })

/-- Whether a name must not be given to a new object: it is that of a builtin record or of a
scope. -/
def isReserved (env : Environment) (name : String) : Bool :=
  ((env.types.find? name).map (·.builtin)).getD false || env.scopes.contains name

/-- The name for a new object: the wanted one, unless it is missing or reserved. -/
def objectName (env : Environment) : Option String → String × Environment
  | none => env.newName
  | some name => if env.isReserved name then env.newName else (name, env)

/-- Puts a record into the table. -/
def put (env : Environment) (name : String) (r : Record) : Environment :=
  { env with types := env.types.insert name r }

/-! ### Variables -/

/-- Binds a name in the target's record, with type `Object` if none is given. Builtin records are
not changed. -/
def addVariable (env : Environment) (name : Name) (target type : Option Ty) (span : Option Span) :
    Environment :=
  { env with
    types := env.types.edit (env.scope target)
      (·.define name { type := type.getD .object, span := span }) }

/-- Removes a binding from the target's record. -/
def removeVariable (env : Environment) (name : Name) (target : Option Ty) : Environment :=
  { env with types := env.types.edit (env.scope target) (·.undefine name) }

/-! ### Scopes and objects -/

/-- Enters a new scope inside the current one. -/
def newScope (env : Environment) (span : Option Span) : String × Environment :=
  let (name, next) := env.newName
  let proto : Definition := { type := .named next.scopes.current, span := span }
  let next := next.put name { proto := some proto }
  (name, { next with scopes := next.scopes.push name })

/-- Makes a new object that is no scope. -/
def newFleetingObject (env : Environment) (name : Option String) (span : Option Span) :
    String × Environment :=
  let (name, env) := env.objectName name
  (name, env.put name { proto := some { type := .object, span := span } })

/-- Enters a new scope whose `this` is a new object, and answers the object's name. -/
def newObject (env : Environment) (name : Option String) (span : Option Span) :
    String × Environment :=
  let (_, env) := env.newScope span
  let (name, env) := env.newFleetingObject name span
  (name, env.addVariable (some "this") none (some (.named name)) span)

/-- Leaves the innermost scope, whose `this` is removed; the outermost scope cannot be left. -/
def popScope? (env : Environment) : Option (String × Environment) :=
  if env.scopes.inner.isEmpty then none
  else
    let env := env.removeVariable (some "this") none
    some (env.scopes.current, { env with scopes := env.scopes.pop })

/-! ### Assignment -/

/-- The first record on the chain from `start` that satisfies `p`. -/
def firstOnChain? (env : Environment) (start : String) (p : Record → Bool) :
    Option (String × Record) :=
  (env.types.chain start).find? fun r => p r.2

/-- Sets the prototype link of the first record on the chain that has one, else of the target. -/
def setPrototype (env : Environment) (target : String) (type : Ty) (span : Option Span) :
    Environment :=
  let owner := ((env.firstOnChain? target (·.proto.isSome)).map (·.1)).getD target
  { env with
    types := env.types.edit owner fun r => { r with proto := some { type := type, span := span } } }

/-- Gives the nearest binding on the chain a new type. If there is none, or the nearest one is in a
builtin record, the target's record gets a new binding. -/
def setBinding (env : Environment) (target : String) (name : Name) (type : Ty)
    (span : Option Span) : Environment :=
  let fresh := env.types.edit target (·.define name { type := type, span := span })
  match env.firstOnChain? target fun r => (r.member? name).isSome with
  | none => { env with types := fresh }
  | some (owner, r) =>
    if r.builtin then { env with types := fresh }
    else
      { env with
        types := env.types.modify owner fun r =>
          { r with members := r.members.modify name fun d => { d with type := type } } }

/-- Assigns to a name of the target. A missing type is that of a new object. Answers the type that
was assigned. -/
def addOrSet (env : Environment) (name : Name) (target type : Option Ty) (span : Option Span) :
    Ty × Environment :=
  let owner := env.scope target
  let (type, env) : Ty × Environment :=
    match type with
    | some t => (t, env)
    | none =>
      let (object, env) := env.newFleetingObject none span
      (.named object, env)
  if name = some "prototype" then (type, env.setPrototype owner type span)
  else (type, env.setBinding owner name type span)

/-! ### Lookup -/

/-- The definition of a name of the target, or of the current scope. -/
def lookupDefinition? (env : Environment) (name : Name) (target : Option Ty) : Option Definition :=
  env.types.resolve? (env.scope target) name

/-- The type of a name of the target, or of the current scope. -/
def lookup? (env : Environment) (name : Name) (target : Option Ty) : Option Ty :=
  (env.lookupDefinition? name target).map (·.type)

/-! ### Summaries and constructors -/

/-- A record overlaid with another one: its members are set one by one, its link if it has one. -/
def overlay (r provided : Record) : Record :=
  { r with
    members := provided.members.entries.foldl (fun m e => m.insert e.1 e.2) r.members
    proto := provided.proto.or r.proto }

/-- Takes over the records of a summary whose names are new, and its provided members into the
target. -/
def mergeSummary (env : Environment) (s : Summary) (target : String) : Environment :=
  let types := env.types.addMissing s.types
  match s.provided with
  | .type _ => { env with types := types }
  | .record provided => { env with types := types.edit target fun r => overlay r provided }

/-- Makes the records of a constructor function and of its prototype object, and links the instance
to the former. -/
def createConstructor (env : Environment) (result : Ty) (instanceName : String) : Environment :=
  let key := Ty.constructorKey result
  let (_, env) := env.newFleetingObject (some key) none
  let (protoName, env) := env.newFleetingObject (some (Ty.protoKey key)) none
  let types := env.types.modify key fun r => { r with proto := some { type := .named protoName } }
  let types := types.modify instanceName fun r => { r with proto := some { type := .named key } }
  { env with types := types }

end Environment

end ContentAssist
