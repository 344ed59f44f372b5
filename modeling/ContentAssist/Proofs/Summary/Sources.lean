import ContentAssist.Proofs.Record.Lookup
import ContentAssist.SourceIndex

/-! # An index is its sources

An index keeps the summaries that it makes. Nothing of that is to be seen: it answers every request as
bare sources do, which keep no summary but those that were made beforehand and summarise the source
that is there now whenever they are asked. So no summary that is answered is out of date.

* `Sources`: an index without a cache, `Sources.serve`: its answers;
* `Reflects`: what is kept is what would be made now;
* `reflects_serve`: one request, `responses_eq`: any number of them;
* `view_settle`: what an analysis asks for changes nothing for the next one. -/

namespace ContentAssist

open Inference

/-- What an index is told or asked. -/
inductive Request where
  | addModule (name source : String)
  | addSummary (name : String) (summary : Summary)
  | invalidate (name : String)
  | retrieve (name : String)
  | retrieveGlobals
  | knows (name : String)

/-- What an index says to a request. -/
inductive Response where
  | done
  | summary (answer : Except Fault (Option Summary))
  | summaries (answer : Except Fault (List Summary))
  | known (answer : Bool)

namespace SourceIndex

/-- An index over sources of which no summary was made yet. -/
def ofSources (globals modules : List (String × String)) : SourceIndex where
  globalSources := .ofList globals
  moduleSources := .ofList modules

/-- The response to a request, and the index afterwards. -/
def serve (parser : Parser) (ix : SourceIndex) : Request → Response × SourceIndex
  | .addModule name source => (.done, ix.addModule name source)
  | .addSummary name summary => (.done, ix.addSummary name summary)
  | .invalidate name => (.done, ix.invalidate name)
  | .retrieve name =>
    let a := ix.retrieve parser name
    (.summary a.value, a.index)
  | .retrieveGlobals =>
    let a := ix.retrieveGlobals parser
    (.summaries a.value, a.index)
  | .knows name => (.known (ix.knows name), ix)

/-- The responses to requests one after the other. -/
def responses (parser : Parser) : SourceIndex → List Request → List Response
  | _, [] => []
  | ix, r :: rs => (ix.serve parser r).1 :: responses parser (ix.serve parser r).2 rs

end SourceIndex

/-! ### Sources without a cache -/

/-- The sources of other files, and the summaries that were made beforehand. -/
structure Sources where
  globals : OrderedMap String String
  modules : OrderedMap String String
  stored : OrderedMap String Summary := .empty

namespace Sources

/-- The summary of a source, made anew; there is none if the source cannot be parsed. -/
def summarize (parser : Parser) (name source : String) : Except Fault (Option Summary) :=
  match ((Assistant.mk parser none).summary source name).1 with
  | .ok summary => .ok (some summary)
  | .error (.unparsable _) => .ok none
  | .error fault => .error fault

/-- The summary of a module: the one that was made beforehand, else that of its source. -/
def retrieve (parser : Parser) (src : Sources) (name : String) : Except Fault (Option Summary) :=
  match src.stored.find? name, src.modules.find? name with
  | some summary, _ => .ok (some summary)
  | none, none => .ok none
  | none, some source => summarize parser name source

/-- The summaries of all global sources that can be parsed. -/
def retrieveGlobals (parser : Parser) (src : Sources) : Except Fault (List Summary) :=
  (src.globals.entries.mapM fun e => summarize parser e.1 e.2).map List.reduceOption

/-- Whether a module is known. -/
def knows (src : Sources) (name : String) : Bool :=
  src.modules.contains name || src.stored.contains name

/-- Forgets a summary that was made beforehand. -/
def invalidate (src : Sources) (name : String) : Sources :=
  { src with stored := src.stored.erase name }

/-- Adds or replaces the source of a module. -/
def addModule (src : Sources) (name source : String) : Sources :=
  { src with modules := src.modules.insert name source }.invalidate name

/-- Stores a summary that was made beforehand. -/
def addSummary (src : Sources) (name : String) (summary : Summary) : Sources :=
  { src with stored := src.stored.insert name summary }

/-- The response to a request, and the sources afterwards. -/
def serve (parser : Parser) (src : Sources) : Request → Response × Sources
  | .addModule name source => (.done, src.addModule name source)
  | .addSummary name summary => (.done, src.addSummary name summary)
  | .invalidate name => (.done, src.invalidate name)
  | .retrieve name => (.summary (src.retrieve parser name), src)
  | .retrieveGlobals => (.summaries (src.retrieveGlobals parser), src)
  | .knows name => (.known (src.knows name), src)

/-- The responses to requests one after the other. -/
def responses (parser : Parser) : Sources → List Request → List Response
  | _, [] => []
  | src, r :: rs => (src.serve parser r).1 :: responses parser (src.serve parser r).2 rs

/-- The source that a summary is made of. -/
def source? (src : Sources) : Origin → String → Option String
  | .global, name => src.globals.find? name
  | .module, name => src.modules.find? name

end Sources

namespace SourceIndex

variable {parser : Parser} {ix : SourceIndex} {src : Sources}

/-! ### What is kept -/

/-- The index has the given sources, the stored summaries are kept, and every other summary that is
kept is what its source gives now. -/
structure Reflects (parser : Parser) (ix : SourceIndex) (src : Sources) : Prop where
  globals : ix.globalSources = src.globals
  modules : ix.moduleSources = src.modules
  distinct : src.globals.keys.Nodup
  stored : ∀ name s, src.stored.find? name = some s → ix.cache.find? (.module, name) = some s
  kept : ∀ origin name s, ix.cache.find? (origin, name) = some s →
    origin = .module ∧ src.stored.find? name = some s ∨
      ∃ source, src.source? origin name = some source ∧
        Sources.summarize parser name source = .ok (some s)

theorem reflects_ofSources (parser : Parser) (globals modules : List (String × String)) :
    Reflects parser (ofSources globals modules) ⟨.ofList globals, .ofList modules, .empty⟩ where
  globals := rfl
  modules := rfl
  distinct := OrderedMap.nodup_keys_ofList globals
  stored := by
    intro name s h
    cases h
  kept := by
    intro origin name s h
    cases h

/-! ### Summaries -/

/-- A summary that is kept is the answer. -/
theorem summarize_of_kept {origin : Origin} {name : String} {s : Summary} (source : String)
    (h : ix.cache.find? (origin, name) = some s) :
    ix.summarize parser origin name source = ⟨.ok (some s), [], ix⟩ := by
  unfold summarize
  rw [h]

/-- An index without a kept summary makes a new one, and keeps it if there is one. -/
theorem summarize_of_not_kept (parser : Parser) {origin : Origin} {name : String} (source : String)
    (h : ix.cache.find? (origin, name) = none) :
    (ix.summarize parser origin name source).value = Sources.summarize parser name source ∧
      ((ix.summarize parser origin name source).index = ix ∨
        ∃ s, Sources.summarize parser name source = .ok (some s) ∧
          (ix.summarize parser origin name source).index =
            { ix with cache := ix.cache.insert (origin, name) s }) := by
  unfold summarize Sources.summarize
  rw [h]
  rcases (Assistant.mk parser none).summary source name with ⟨fault | s, events⟩
  · cases fault <;> exact ⟨rfl, Or.inl rfl⟩
  · exact ⟨rfl, Or.inr ⟨s, rfl, rfl⟩⟩

/-- A summary of one of the sources is kept from then on. -/
theorem Reflects.keep (h : Reflects parser ix src) {origin : Origin} {name source : String} {s : Summary}
    (hsource : src.source? origin name = some source)
    (hs : Sources.summarize parser name source = .ok (some s))
    (hfree : ix.cache.find? (origin, name) = none) :
    Reflects parser { ix with cache := ix.cache.insert (origin, name) s } src := by
  refine ⟨h.globals, h.modules, h.distinct, fun name' s' hstored => ?_, fun origin' name' s' hkept => ?_⟩
  · have hcache := h.stored name' s' hstored
    rw [OrderedMap.find?_insert, if_neg, hcache]
    intro hkey
    rw [hkey, hcache] at hfree
    cases hfree
  · rw [OrderedMap.find?_insert] at hkept
    split at hkept
    · rename_i hkey
      cases hkey
      cases hkept
      exact Or.inr ⟨source, hsource, hs⟩
    · exact h.kept origin' name' s' hkept

/-- **One summary**: whether it was kept or not, it is the one that the source gives now. -/
theorem Reflects.summarize (h : Reflects parser ix src) {origin : Origin} {name source : String}
    (hsource : src.source? origin name = some source)
    (hstored : origin = .module → src.stored.find? name = none) :
    (ix.summarize parser origin name source).value = Sources.summarize parser name source ∧
      Reflects parser (ix.summarize parser origin name source).index src := by
  cases hcache : ix.cache.find? (origin, name) with
  | none =>
    obtain ⟨hvalue, hindex | ⟨s, hs, hindex⟩⟩ := summarize_of_not_kept parser source hcache
    · rw [hindex]
      exact ⟨hvalue, h⟩
    · rw [hindex]
      exact ⟨hvalue, h.keep hsource hs hcache⟩
  | some s =>
    rw [summarize_of_kept source hcache]
    refine ⟨?_, h⟩
    rcases h.kept origin name s hcache with ⟨horigin, hs⟩ | ⟨source', hsource', hs⟩
    · cases (hstored horigin).symm.trans hs
    · cases hsource.symm.trans hsource'
      exact hs.symm

/-- The summaries of some of the global sources. -/
theorem Reflects.summarizeGlobals (h : Reflects parser ix src) {es : List (String × String)}
    (hes : ∀ e ∈ es, src.globals.find? e.1 = some e.2) :
    (ix.summarizeGlobals parser es).value =
        (es.mapM fun e => Sources.summarize parser e.1 e.2).map List.reduceOption ∧
      Reflects parser (ix.summarizeGlobals parser es).index src := by
  induction es generalizing ix with
  | nil => exact ⟨rfl, h⟩
  | cons e es ih =>
    obtain ⟨name, source⟩ := e
    have hsource : src.source? .global name = some source := hes _ List.mem_cons_self
    obtain ⟨hvalue, hfirst⟩ := h.summarize hsource (by simp)
    obtain ⟨hrest, hothers⟩ := ih hfirst fun e he => hes e (List.mem_cons_of_mem _ he)
    rw [SourceIndex.summarizeGlobals, List.mapM_cons, ← hvalue]
    dsimp only
    cases hs : (ix.summarize parser .global name source).value with
    | error fault => exact ⟨rfl, hfirst⟩
    | ok s =>
      refine ⟨?_, hothers⟩
      rw [hrest]
      cases es.mapM fun e => Sources.summarize parser e.1 e.2 with
      | error fault => rfl
      | ok summaries => cases s <;> rfl

theorem Reflects.retrieveGlobals (h : Reflects parser ix src) :
    (ix.retrieveGlobals parser).value = src.retrieveGlobals parser ∧
      Reflects parser (ix.retrieveGlobals parser).index src := by
  unfold SourceIndex.retrieveGlobals
  rw [h.globals]
  exact h.summarizeGlobals fun e he => OrderedMap.findIn_of_mem h.distinct he

theorem Reflects.retrieve (h : Reflects parser ix src) (name : String) :
    (ix.retrieve parser name).value = src.retrieve parser name ∧
      Reflects parser (ix.retrieve parser name).index src := by
  unfold SourceIndex.retrieve Sources.retrieve
  rw [h.modules]
  cases hstored : src.stored.find? name with
  | some s =>
    rw [h.stored name s hstored]
    exact ⟨rfl, h⟩
  | none =>
    cases hsource : src.modules.find? name with
    | some source =>
      have hmodule : src.source? .module name = some source := hsource
      obtain ⟨hvalue, hindex⟩ := h.summarize hmodule fun _ => hstored
      cases hcache : ix.cache.find? (.module, name) with
      | none => exact ⟨hvalue, hindex⟩
      | some s =>
        refine ⟨?_, h⟩
        show .ok (some s) = Sources.summarize parser name source
        rw [← hvalue, summarize_of_kept source hcache]
    | none =>
      cases hcache : ix.cache.find? (.module, name) with
      | none => exact ⟨rfl, h⟩
      | some s =>
        -- a summary is kept neither without a source nor without having been stored
        rcases h.kept .module name s hcache with ⟨-, hs⟩ | ⟨source, hs, -⟩
        · cases hstored.symm.trans hs
        · cases hsource.symm.trans hs

theorem Reflects.knows (h : Reflects parser ix src) (name : String) : ix.knows name = src.knows name := by
  unfold SourceIndex.knows Sources.knows OrderedMap.contains
  rw [h.modules]
  cases hstored : src.stored.find? name with
  | some s => rw [h.stored name s hstored]
  | none =>
    cases hcache : ix.cache.find? (.module, name) with
    | none => rfl
    | some s =>
      rcases h.kept .module name s hcache with ⟨-, hs⟩ | ⟨source, hs, -⟩
      · cases hstored.symm.trans hs
      · rw [show src.modules.find? name = some source from hs]
        rfl

/-! ### Changes -/

theorem Reflects.addSummary (h : Reflects parser ix src) (name : String) (s : Summary) :
    Reflects parser (ix.addSummary name s) (src.addSummary name s) := by
  refine ⟨h.globals, h.modules, h.distinct, fun name' s' hstored => ?_, fun origin' name' s' hkept => ?_⟩
  · rw [SourceIndex.addSummary, OrderedMap.find?_insert]
    rw [Sources.addSummary, OrderedMap.find?_insert] at hstored
    split at hstored
    · rename_i hname
      rw [if_pos (by rw [hname]), hstored]
    · rename_i hname
      rw [if_neg (by simpa using hname), h.stored name' s' hstored]
  · rw [SourceIndex.addSummary, OrderedMap.find?_insert] at hkept
    rw [Sources.addSummary, OrderedMap.find?_insert]
    split at hkept
    · rename_i hkey
      cases hkey
      exact Or.inl ⟨rfl, by rw [if_pos rfl, hkept]⟩
    · rename_i hkey
      rcases h.kept origin' name' s' hkept with ⟨rfl, hs⟩ | hsource
      · refine Or.inl ⟨rfl, ?_⟩
        rw [if_neg (by simpa using hkey), hs]
      · exact Or.inr hsource

/-- What is kept of another name than the one that is forgotten. -/
theorem find?_invalidate (ix : SourceIndex) (name : String) (origin : Origin) (name' : String) :
    (ix.invalidate name).cache.find? (origin, name') =
      if name = name' then none else ix.cache.find? (origin, name') := by
  rw [invalidate, OrderedMap.find?_erase, OrderedMap.find?_erase]
  by_cases hname : name = name'
  · cases origin <;> simp [hname]
  · simp [hname]

/-- Forgetting the summaries of a name, where only the source of that name has changed. -/
theorem Reflects.invalidate (h : Reflects parser ix src) (name : String)
    (modules : OrderedMap String String) (hmodules : ∀ n ≠ name, modules.find? n = src.modules.find? n) :
    Reflects parser ({ ix with moduleSources := modules }.invalidate name)
      ({ src with modules := modules }.invalidate name) := by
  refine ⟨h.globals, rfl, h.distinct, fun name' s' hstored => ?_, fun origin' name' s' hkept => ?_⟩
  · rw [Sources.invalidate, OrderedMap.find?_erase] at hstored
    rw [find?_invalidate]
    split at hstored
    · cases hstored
    · rename_i hname
      rw [if_neg hname, h.stored name' s' hstored]
  · rw [find?_invalidate] at hkept
    rw [Sources.invalidate, OrderedMap.find?_erase]
    split at hkept
    · cases hkept
    · rename_i hname
      rw [if_neg hname]
      rcases h.kept origin' name' s' hkept with hs | ⟨source, hsource, hs⟩
      · exact Or.inl hs
      · refine Or.inr ⟨source, ?_, hs⟩
        cases origin' with
        | global => exact hsource
        | module => exact (hmodules name' (Ne.symm hname)).trans hsource

/-! ### Requests -/

/-- **One request** gets the answer of the sources, and what is kept afterwards is up to date. -/
theorem reflects_serve (h : Reflects parser ix src) (r : Request) :
    (ix.serve parser r).1 = (src.serve parser r).1 ∧
      Reflects parser (ix.serve parser r).2 (src.serve parser r).2 := by
  cases r with
  | addModule name source =>
    refine ⟨rfl, ?_⟩
    have hchange := h.invalidate name (src.modules.insert name source)
      fun n hn => src.modules.find?_insert_of_ne (Ne.symm hn) source
    show Reflects parser (ix.addModule name source) _
    unfold SourceIndex.addModule
    rw [h.modules]
    exact hchange
  | addSummary name s => exact ⟨rfl, h.addSummary name s⟩
  | invalidate name =>
    refine ⟨rfl, ?_⟩
    have hchange := h.invalidate name src.modules fun _ _ => rfl
    rw [← h.modules] at hchange
    show Reflects parser (ix.invalidate name) (src.invalidate name)
    rw [← show ({ src with modules := ix.moduleSources } : Sources) = src by rw [h.modules]]
    exact hchange
  | retrieve name =>
    obtain ⟨hvalue, hindex⟩ := h.retrieve name
    exact ⟨congrArg Response.summary hvalue, hindex⟩
  | retrieveGlobals =>
    obtain ⟨hvalue, hindex⟩ := h.retrieveGlobals
    exact ⟨congrArg Response.summaries hvalue, hindex⟩
  | knows name => exact ⟨congrArg Response.known (h.knows name), h⟩

theorem Reflects.responses (h : Reflects parser ix src) (rs : List Request) :
    ix.responses parser rs = src.responses parser rs := by
  induction rs generalizing ix src with
  | nil => rfl
  | cons r rs ih =>
    obtain ⟨hresponse, hnext⟩ := reflects_serve h r
    rw [SourceIndex.responses, Sources.responses, hresponse, ih hnext]

/-- **The cache is invisible.** Whatever an index is told and asked, and in whatever order, it responds
as its sources do, which keep the summaries made beforehand and summarise the current source anew on
every request. -/
theorem responses_eq (parser : Parser) (globals modules : List (String × String))
    (requests : List Request) :
    (ofSources globals modules).responses parser requests =
      (Sources.mk (.ofList globals) (.ofList modules) .empty).responses parser requests :=
  (reflects_ofSources parser globals modules).responses requests

/-! ### Analyses -/

theorem Reflects.settle (h : Reflects parser ix src) (events : List Event) :
    Reflects parser (ix.settle parser events).2 src := by
  induction events generalizing ix with
  | nil => exact h
  | cons e events ih =>
    cases e with
    | logged entry => exact ih h
    | askedGlobals => exact ih h.retrieveGlobals.2
    | askedModule name => exact ih (h.retrieve name).2

/-- **What an analysis asks for changes nothing** for the next one: it sees of the index what the
analysis before it saw. -/
theorem view_settle (h : Reflects parser ix src) (events : List Event) :
    (ix.settle parser events).2.view parser = ix.view parser := by
  have hsettled := h.settle events
  unfold view
  congr 1
  · rw [hsettled.retrieveGlobals.1, h.retrieveGlobals.1]
  · funext name
    rw [(hsettled.retrieve name).1, (h.retrieve name).1]

end SourceIndex

end ContentAssist
