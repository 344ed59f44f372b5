import ContentAssist.OrderedMap
import ContentAssist.Ty

/-! # Records

A record is a structural type: definitions of members, and a link to a prototype. A summary is what
a file offers to the files that depend on it. -/

namespace ContentAssist

/-- A piece of a source: the offsets of its first character and behind its last one. -/
structure Span where
  start : Int
  stop : Int
  deriving DecidableEq, Repr

/-- The name of a member. An identifier that carries no name binds under `none`. -/
abbrev Name := Option String

/-- A binding: its type, where it was declared, and in which file. -/
structure Definition where
  type : Ty
  span : Option Span := none
  path : Option String := none
  deriving DecidableEq, Repr

/-- The definition with the file filled in if it has none. -/
def Definition.attachPath (d : Definition) (path : String) : Definition :=
  { d with path := d.path.or (some path) }

/-- A structural type: its members and the link to its prototype. Builtin records are never
changed. -/
structure Record where
  members : OrderedMap Name Definition := .empty
  proto : Option Definition := none
  builtin : Bool := false
  deriving DecidableEq, Repr

namespace Record

instance : Inhabited Record := ⟨{}⟩

/-- The definition of a member of the record itself. -/
def member? (r : Record) (name : Name) : Option Definition := r.members.find? name

/-- Defines a member. -/
def define (r : Record) (name : Name) (d : Definition) : Record :=
  { r with members := r.members.insert name d }

/-- Removes a member. -/
def undefine (r : Record) (name : Name) : Record := { r with members := r.members.erase name }

/-- The record with the file filled in wherever it is missing. -/
def attachPath (r : Record) (path : String) : Record :=
  { r with
    members := r.members.mapValues (·.attachPath path)
    proto := r.proto.map (·.attachPath path) }

/-- The definitions of the record: those of its members, and its prototype link. -/
def definitions (r : Record) : List Definition := r.members.values ++ r.proto.toList

end Record

/-- Records by name, in the order of their creation. -/
abbrev Table := OrderedMap String Record

/-- How a file offers its values. -/
inductive SummaryKind where
  /-- Its globals are visible everywhere. -/
  | global
  /-- It is a module with an explicit definition call. -/
  | amd
  /-- It is a module that exports the members of an object. -/
  | commonjs
  /-- A stored summary may name a kind of its own. -/
  | other (name : String)
  deriving DecidableEq, Repr

/-- The name of a kind. -/
def SummaryKind.name : SummaryKind → String
  | global => "global"
  | amd => "AMD"
  | commonjs => "commonjs"
  | other name => name

/-- The kind with the given name. -/
def SummaryKind.ofName (name : String) : SummaryKind :=
  if name = "global" then global
  else if name = "AMD" then amd
  else if name = "commonjs" then commonjs
  else other name

/-- What a file provides: a type, or the members of a record. -/
inductive Provided where
  | type (t : Ty)
  | record (r : Record)
  deriving DecidableEq, Repr

/-- What one file offers to others: the provided value, the records that go with it, and the kind.
-/
structure Summary where
  provided : Provided
  types : Table := .empty
  kind : SummaryKind := .global
  deriving DecidableEq, Repr

end ContentAssist
