import ContentAssist.Completion.Description
import ContentAssist.Completion.Site
import ContentAssist.Json.Writer
import ContentAssist.Record.Chain
import ContentAssist.Sorting

/-! # Proposals

The completions offered for the members visible on a record: those along its prototype chain whose
names begin with what was typed, each with the definition nearest to the record. They are sorted by
description and none is offered twice. -/

namespace ContentAssist

/-- A piece of a completed call that the editor links to an argument. -/
structure Position where
  offset : Int
  length : Nat
  deriving DecidableEq, Repr

/-- The parts of a completed call: its arguments, and the place behind it. -/
structure CallSite where
  arguments : List Position
  escape : Int
  deriving DecidableEq, Repr

/-- The text to insert, what to show for it, and for a function the parts of the call. -/
structure Proposal where
  text : String
  description : String
  call : Option CallSite := none
  deriving DecidableEq, Repr

/-- A position as an object. -/
def Position.toJson (p : Position) : Json :=
  .obj [("offset", .int p.offset), ("length", .int p.length)]

/-- A proposal as an object. -/
def Proposal.toJson (p : Proposal) : Json :=
  let base : List (String × Json) :=
    [("proposal", .str p.text), ("description", .str p.description)]
  match p.call with
  | none => .obj base
  | some call =>
    .obj (base ++ [("positions", .arr (call.arguments.map (·.toJson))),
      ("escapePosition", .int call.escape)])

/-- The text of a call. -/
def callText (name : String) (params : List String) : String :=
  name ++ "(" ++ Text.joined ", " params ++ ")"

/-- The positions of the arguments of a call, the first one at `offset`. -/
def argumentPositions (offset : Int) : List String → List Position
  | [] => []
  | p :: ps => ⟨offset, p.length⟩ :: argumentPositions (offset + p.length + 2) ps

/-- The positions of the arguments in the text of a call that begins at `start`. -/
def callPositions (name : String) (params : List String) (start : Int) : List Position :=
  argumentPositions (start + name.length + 1) params

/-- The proposal for a member, if its type has a description. -/
def proposalFor? (t : Table) (typed : String) (start : Int) (name : String) (type : Ty) :
    Option Proposal :=
  (t.describe? type false true).map fun shown =>
    match type with
    | .named _ =>
      { text := Text.dropFirst typed.length name, description := name ++ " : " ++ shown }
    | .function _ params =>
      let call := callText name params
      { text := Text.dropFirst typed.length call
        description := call ++ " : " ++ shown
        call := some
          { arguments := callPositions name params start
            escape := start + call.length } }

/-- The names of a record that are offered: those that begin with what was typed, but not `this`
behind a dot. -/
def offeredMembers (site : Site) (typed : String) (r : Record) : List (String × Ty) :=
  r.members.entries.filterMap fun m =>
    match m.1 with
    | none => none
    | some name =>
      if (name = "this" ∧ site = .member) ∨ !Text.startsWith typed name then none
      else some (name, m.2.type)

/-- The members visible on a record, from the root of the chain on, so that nearer definitions come
later. -/
def visibleMembers (t : Table) (record : String) (site : Site) (typed : String) :
    List (String × Ty) :=
  (t.chain record).reverse.flatMap fun r => offeredMembers site typed r.2

/-- Leaves out proposals that are described like the one before; `last` is the description of the
one before the first. -/
def dropRepeatsAfter (last : String) : List Proposal → List Proposal
  | [] => []
  | p :: ps =>
    if p.description = last then dropRepeatsAfter last ps
    else p :: dropRepeatsAfter p.description ps

/-- Leaves out proposals that are described like the one before. -/
def dropRepeats : List Proposal → List Proposal
  | [] => []
  | p :: ps => p :: dropRepeatsAfter p.description ps

/-- Whether a proposal's description comes before or with that of another one. -/
def describedNoLater (p q : Proposal) : Bool := !decide (q.description < p.description)

/-- The proposals for the members visible on a record; `start` is where the typed text begins. There
are none if some type has no description. -/
def proposals? (t : Table) (record : String) (site : Site) (typed : String) (start : Int) :
    Option (List Proposal) :=
  ((visibleMembers t record site typed).mapM fun m =>
      (proposalFor? t typed start m.1 m.2).map fun p => (m.1, p)).map fun all =>
    dropRepeats (sortStable describedNoLater (OrderedMap.ofList all).values)

end ContentAssist
