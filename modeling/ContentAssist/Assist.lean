import ContentAssist.Buffer.Parse
import ContentAssist.Completion.Proposal
import ContentAssist.Inference.Run
import ContentAssist.Record.Reachable
import ContentAssist.Record.Wire

/-! # Requests of an editor

The requests that an editor makes about a file: proposals at the cursor, the definition and hover
text of the identifier under it, and the summary that the file gives to others. Each builds its own
environment. An answer comes with the events on the way to it: what was reported, and what the index
was asked for. -/

namespace ContentAssist

open Inference

/-- An answer or a fault, with the events on the way to it. -/
abbrev Reply (α : Type) := Except Fault α × List Event

/-- The tools that requests need: a parser, and an index if other files are to be consulted. -/
structure Assistant where
  parser : Parser
  index? : Option Index

/-- The name under which a file that is being edited is analysed. -/
def localName : String := "local"

/-- A fault that is reported with the given words. -/
def Reply.failed {α : Type} (fault : Fault) (events : List Event) (words : String) : Reply α :=
  (.error fault, events ++ [.logged ⟨.error, .assistance, words⟩])

/-- Log entries as events. -/
def loggedAll (entries : List LogEntry) : List Event := entries.map .logged

/-- Parses a file and goes on with its tree. -/
def withTree {α : Type} (parser : Parser) (source : String)
    (next : Node → List Event → Reply α) : Reply α :=
  match parse parser source with
  | (.error e, log) => (.error (.unparsable e), loggedAll log)
  | (.ok root, log) => next (.root root) (loggedAll log)

/-- The completions at the cursor; `typed` is what stands in front of it of the name to complete. -/
def Assistant.proposals (a : Assistant) (source : String) (offset : Int) (typed : String) :
    Reply (List Proposal) :=
  withTree a.parser source fun root events =>
    match siteAt? root offset source with
    | none =>
      (.ok [], events ++
        [.logged ⟨.debug, .assistance, "no completion at offset " ++ toString offset⟩])
    | some site =>
      let words := "computing proposals failed at offset " ++ toString offset
      match run ⟨source, some offset, a.index?⟩ root (.start localName) with
      | (.error fault, s) => .failed fault (events ++ s.events) words
      | (.ok scope, s) =>
        match proposals? s.env.types scope site typed (offset - typed.length) with
        | none => .failed .endlessDescription (events ++ s.events) words
        | some ps => (.ok ps, events ++ s.events)

/-- Where a name was bound, with its type and the text to show. -/
structure Binding where
  type : Ty
  span : Option Span
  path : Option String
  hover : String
  deriving DecidableEq, Repr

/-- A binding as an object. -/
def Binding.toJson (b : Binding) : Json :=
  .obj [("typeName", .str b.type.text), ("range", .ofOption Span.toJson b.span),
    ("path", .ofOption .str b.path), ("hover", .str b.hover)]

/-- The binding of the identifier under the cursor. -/
def Assistant.definition (a : Assistant) (source : String) (offset : Int) :
    Reply (Option Binding) :=
  withTree a.parser source fun root events =>
    match hoverTarget? root offset with
    | none => (.ok none, events)
    | some target =>
      let words := "finding definition failed at offset " ++ toString offset
      match run ⟨source, some offset, a.index?⟩ root (.start localName) with
      | (.error fault, s) => .failed fault (events ++ s.events) words
      | (.ok _, s) =>
        match s.env.lookupDefinition? target.name (s.targetType target) with
        | none => (.ok none, events ++ s.events)
        | some d =>
          match s.env.types.describe? d.type true true with
          | none => .failed .endlessDescription (events ++ s.events) words
          | some shown =>
            let hover := target.name.getD "" ++ " :: " ++ shown
            (.ok (some ⟨d.type, d.span, d.path, hover⟩), events ++ s.events)

/-- The text to show for the identifier under the cursor. -/
def Assistant.hover (a : Assistant) (source : String) (offset : Int) : Reply (Option String) :=
  let (answer, events) := a.definition source offset
  (answer.map fun b => b.map (·.hover), events)

/-! ### Summaries -/

/-- The parameter of a wrapping callback that receives the members to export. -/
def exportsParam (call : Node) : Node :=
  let callback := (call.list "arguments").head?.getD call
  (callback.list "params").tail.head?.getD callback

/-- The type that a file exports, and how. -/
def exportedType (s : State) : Ty × SummaryKind :=
  match s.amdModule, s.wrappedModule with
  | some call, _ =>
    (((call.list "arguments").getLast?.map fun n => (s.typeOf n).result).getD .object, .amd)
  | none, some call => (s.typeOf (exportsParam call), .commonjs)
  | none, none =>
    match (s.env.types.find? Catalog.globalName).bind (·.member? (some "exports")) with
    | some d => (d.type, .commonjs)
    | none => (.global, .global)

/-- The name of the record that is provided member by member: a function and a builtin are provided
as types. -/
def providedRecord? (t : Table) : Ty → Option String
  | .function _ _ => none
  | .named name =>
    match t.find? name with
    | some r => if r.builtin then none else some name
    | none => none

/-- What a table exports under a type: the provided value, and the records that it reaches. Whatever
has no file yet is given the file's name. -/
def exportSummary (t : Table) (type : Ty) (kind : SummaryKind) (file : String) : Summary :=
  let provided? := providedRecord? t type
  let t : Table :=
    match provided? with
    | some name => t.modify name (·.attachPath file)
    | none => t
  let cleared : Table := t.exportable kind
  let kept : Table := cleared.keepReachable type
  let provided : Provided :=
    match provided? with
    | none => .type type
    | some name =>
      match if kind = .global then cleared.find? name else t.find? name with
      | some r => .record r
      | none => .type type
  { provided := provided, types := kept.mapValues (·.attachPath file), kind := kind }

/-- What the file `name` provides to the files that depend on it. -/
def Assistant.summary (a : Assistant) (source name : String) : Reply Summary :=
  withTree a.parser source fun root events =>
    match run ⟨source, none, a.index?⟩ root (.start name) with
    | (.error fault, s) =>
      .failed fault (events ++ s.events) ("summarizing " ++ name ++ " failed")
    | (.ok _, s) =>
      let (type, kind) := exportedType s
      let summary := exportSummary s.env.types type kind name
      let words := "summary of " ++ name ++ ": kind " ++ kind.name ++ ", "
        ++ toString summary.types.size ++ " records"
      (.ok summary, events ++ s.events ++ [.logged ⟨.debug, .assistance, words⟩])

end ContentAssist
