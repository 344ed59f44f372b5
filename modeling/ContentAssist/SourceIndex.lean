import ContentAssist.Assist

/-! # The index of sources

An index over the sources of other files. Global sources are visible everywhere, module sources are
found by name. Summaries are made on demand and kept; a source that cannot be parsed gives none,
with a warning each time. `SourceIndex.view` is what an analysis sees of an index, and `settle`
brings the index up to date with what an analysis asked it for. -/

namespace ContentAssist

open Inference

/-- What a summary was made for. -/
inductive Origin where
  | global
  | module
  deriving DecidableEq, Repr

/-- The sources of other files, and the summaries made so far. -/
structure SourceIndex where
  globalSources : OrderedMap String String := .empty
  moduleSources : OrderedMap String String := .empty
  cache : OrderedMap (Origin × String) Summary := .empty
  deriving Repr

namespace SourceIndex

/-- The log entries among events. -/
def entriesOf (events : List Event) : List LogEntry :=
  events.filterMap fun e =>
    match e with
    | .logged entry => some entry
    | _ => none

/-- The warning about a source that cannot be parsed. -/
def cannotSummarize (name : String) (e : ParseError) : LogEntry :=
  ⟨.warning, .indexing, "cannot summarize " ++ name ++ ": " ++ toString e.line ++ ":"
    ++ toString e.column ++ ": " ++ e.message⟩

/-- An answer of the index with what it reports and the index afterwards. -/
structure Answer (α : Type) where
  value : Except Fault α
  log : List LogEntry
  index : SourceIndex

/-- The summary of a source: the one that was kept, else a new one, which is kept. Summaries consult
no other file. -/
def summarize (parser : Parser) (ix : SourceIndex) (origin : Origin) (name source : String) :
    Answer (Option Summary) :=
  match ix.cache.find? (origin, name) with
  | some s => ⟨.ok (some s), [], ix⟩
  | none =>
    let (result, events) := (Assistant.mk parser none).summary source name
    let log := entriesOf events
    match result with
    | .ok s =>
      ⟨.ok (some s),
        log ++ [⟨.debug, .indexing, "summarized " ++ name ++ " as " ++ s.kind.name⟩],
        { ix with cache := ix.cache.insert (origin, name) s }⟩
    | .error (.unparsable e) => ⟨.ok none, log ++ [cannotSummarize name e], ix⟩
    | .error fault => ⟨.error fault, log, ix⟩

/-- The summaries of global sources one after the other, up to the first fault. -/
def summarizeGlobals (parser : Parser) (ix : SourceIndex) : List (String × String) →
    Answer (List Summary)
  | [] => ⟨.ok [], [], ix⟩
  | (name, source) :: rest =>
    let first := ix.summarize parser .global name source
    match first.value with
    | .error fault => ⟨.error fault, first.log, first.index⟩
    | .ok s =>
      let others := summarizeGlobals parser first.index rest
      ⟨others.value.map (s.toList ++ ·), first.log ++ others.log, others.index⟩

/-- The summaries of all global sources that can be parsed. -/
def retrieveGlobals (parser : Parser) (ix : SourceIndex) : Answer (List Summary) :=
  ix.summarizeGlobals parser ix.globalSources.entries

/-- The summary of a module. -/
def retrieve (parser : Parser) (ix : SourceIndex) (name : String) : Answer (Option Summary) :=
  match ix.cache.find? (.module, name), ix.moduleSources.find? name with
  | some s, _ => ⟨.ok (some s), [], ix⟩
  | none, none => ⟨.ok none, [], ix⟩
  | none, some source => ix.summarize parser .module name source

/-- Whether a module is known. -/
def knows (ix : SourceIndex) (name : String) : Bool :=
  ix.moduleSources.contains name || ix.cache.contains (.module, name)

/-- Keeps a summary that was made beforehand. -/
def addSummary (ix : SourceIndex) (name : String) (s : Summary) : SourceIndex :=
  { ix with cache := ix.cache.insert (.module, name) s }

/-- Forgets the summaries of a name, so that the next request makes them anew. -/
def invalidate (ix : SourceIndex) (name : String) : SourceIndex :=
  { ix with cache := (ix.cache.erase (.global, name)).erase (.module, name) }

/-- Adds or replaces the source of a module. -/
def addModule (ix : SourceIndex) (name source : String) : SourceIndex :=
  { ix with moduleSources := ix.moduleSources.insert name source }.invalidate name

/-- Adds or replaces a global source; a summary that was kept stays. -/
def addGlobal (ix : SourceIndex) (name source : String) : SourceIndex :=
  { ix with globalSources := ix.globalSources.insert name source }

/-- What an analysis sees of the index. -/
def view (parser : Parser) (ix : SourceIndex) : Index :=
  { globals := (ix.retrieveGlobals parser).value
    summary? := fun name => (ix.retrieve parser name).value }

/-- The index after the requests among events, and the log with what the index reports on them. -/
def settle (parser : Parser) (ix : SourceIndex) : List Event → List LogEntry × SourceIndex
  | [] => ([], ix)
  | .logged entry :: rest =>
    let (log, ix) := ix.settle parser rest
    (entry :: log, ix)
  | .askedGlobals :: rest =>
    let a := ix.retrieveGlobals parser
    let (log, ix) := a.index.settle parser rest
    (a.log ++ log, ix)
  | .askedModule name :: rest =>
    let a := ix.retrieve parser name
    let (log, ix) := a.index.settle parser rest
    (a.log ++ log, ix)

end SourceIndex

end ContentAssist
