import ContentAssist.CommandLine.Run
import ContentAssist.Proofs.Record.Refusal

/-! # Loading the dependencies of a run

The files that the options name are read one after the other, the globals before the modules, and
the first one that cannot be loaded ends the run. Each way to end has its complaint, but for one: a
stored summary whose reading stops at an offset that no conversion is made for.

* `failure?_buildIndex`: the index fails with the first file that does;
* `readSummary_broken_iff`: what is in a stored summary that is beyond what is reported;
* `stored_summary_reported_iff`: when the reading of a summary, and that of an index, keep to what
  is announced. -/

namespace ContentAssist

/-! ### One file -/

theorem decodeText_ne_broken (bytes : ByteArray) : decodeText bytes ≠ .error .broken := by
  unfold decodeText
  split <;> intro h <;> cases h

theorem World.readFile_ne_broken (w : World) (path : String) :
    w.readFile path ≠ .error .broken := by
  unfold readFile
  split
  · intro h
    cases h
  · exact decodeText_ne_broken _

/-- The text of a stored summary is beyond what is reported if it is JSON, and the reading of that
stops at an offset. -/
theorem readSummary_broken_iff {path text : String} :
    readSummary path text = .error .broken ↔ ∃ v, Json.read text = .ok v ∧ v.StopsAtOffset := by
  unfold readSummary
  cases hread : Json.read text with
  | error e => simp
  | ok v =>
    simp only [Except.ok.injEq, exists_eq_left', ← Summary.exists_unreported_iff]
    cases Summary.ofJson v with
    | ok s => simp
    | error e => cases hreported : e.isReported <;> simp [hreported]

/-- How the loading of a module fails, if it does. -/
def World.moduleFailure? (w : World) (path : String) : Option InputError :=
  match w.readFile path with
  | .error e => some e
  | .ok text => if isSummaryFile path then failure? (readSummary path text) else none

theorem World.moduleFailure?_broken_iff {w : World} {path : String} :
    w.moduleFailure? path = some .broken ↔ isSummaryFile path = true ∧
      ∃ text v, w.readFile path = .ok text ∧ Json.read text = .ok v ∧ v.StopsAtOffset := by
  unfold moduleFailure?
  cases hfile : w.readFile path with
  | error e =>
    have hne : e ≠ .broken := fun he => w.readFile_ne_broken path (he ▸ hfile)
    simp [hne]
  | ok text =>
    cases isSummaryFile path with
    | false => simp
    | true => simp [failure?_eq_some_iff, readSummary_broken_iff]

/-! ### All files -/

theorem World.failure?_addGlobals (w : World) (ix : SourceIndex) (paths : List String) :
    failure? (w.addGlobals ix paths) = paths.findSome? fun path => failure? (w.readFile path) := by
  induction paths generalizing ix with
  | nil => rfl
  | cons path rest ih =>
    rw [addGlobals, failure?_bind fun source => ih (ix.addGlobal path source), List.findSome?_cons]
    cases failure? (w.readFile path) <;> rfl

theorem World.failure?_addModules (w : World) (ix : SourceIndex) (modules : List (String × String)) :
    failure? (w.addModules ix modules) = modules.findSome? fun m => w.moduleFailure? m.2 := by
  induction modules generalizing ix with
  | nil => rfl
  | cons m rest ih =>
    obtain ⟨name, path⟩ := m
    rw [addModules, List.findSome?_cons, moduleFailure?]
    cases w.readFile path with
    | error e => rfl
    | ok text =>
      change failure? (if isSummaryFile path then
        readSummary path text >>= fun s => w.addModules (ix.addSummary name s) rest
        else w.addModules (ix.addModule name text) rest) = _
      cases isSummaryFile path with
      | false => exact ih _
      | true =>
        refine (failure?_bind fun s => ih (ix.addSummary name s)).trans ?_
        simp only [if_true]
        cases failure? (readSummary path text) <;> rfl

/-- **The index fails** with the first file that cannot be loaded. -/
theorem World.failure?_buildIndex (w : World) (o : Options) : failure? (w.buildIndex o) =
    (o.globals.findSome? fun path => failure? (w.readFile path)).or
      (o.modules.findSome? fun m => w.moduleFailure? m.2) := by
  rw [buildIndex, failure?_bind fun ix => w.failure?_addModules ix o.modules, failure?_addGlobals]

/-- The global files can all be read. -/
def World.OpensGlobals (w : World) (o : Options) : Prop :=
  (o.globals.findSome? fun path => failure? (w.readFile path)) = none

/-- The modules can all be loaded. -/
def World.Loads (w : World) (modules : List (String × String)) : Prop :=
  (modules.findSome? fun m => w.moduleFailure? m.2) = none

theorem World.buildIndex_broken_iff {w : World} {o : Options} :
    w.buildIndex o = .error .broken ↔ w.OpensGlobals o ∧ ∃ before name path after,
      o.modules = before ++ (name, path) :: after ∧ w.Loads before ∧ isSummaryFile path = true ∧
        ∃ text v, w.readFile path = .ok text ∧ Json.read text = .ok v ∧ v.StopsAtOffset := by
  rw [← failure?_eq_some_iff, failure?_buildIndex]
  unfold OpensGlobals Loads
  cases hglobals : o.globals.findSome? fun path => failure? (w.readFile path) with
  | some e =>
    have hne : e ≠ .broken := by
      rintro rfl
      obtain ⟨path, -, hpath⟩ := List.exists_of_findSome?_eq_some hglobals
      exact w.readFile_ne_broken path (failure?_eq_some_iff.1 hpath)
    simp [hne]
  | none =>
    rw [Option.none_or, findSome?_eq_some_split]
    constructor
    · rintro ⟨before, ⟨name, path⟩, after, hmodules, hbroken, hbefore⟩
      obtain ⟨hfile, hcontent⟩ := moduleFailure?_broken_iff.1 hbroken
      exact ⟨rfl, before, name, path, after, hmodules, hbefore, hfile, hcontent⟩
    · rintro ⟨-, before, name, path, after, hmodules, hbefore, hfile, hcontent⟩
      exact ⟨before, (name, path), after, hmodules,
        moduleFailure?_broken_iff.2 ⟨hfile, hcontent⟩, hbefore⟩

/-- **When loading keeps to what is announced.** The reading of a JSON value as a summary gives a
summary or an error that is reported, unless the first thing that fails is the conversion of an
offset that is no number and no text, or is infinite. The building of an index ends beyond what is
reported exactly at a stored summary of that kind, when all files before it could be loaded. -/
theorem stored_summary_reported_iff (v : Json) (w : World) (o : Options) :
    (((∃ s, Summary.ofJson v = .ok s) ∨ ∃ e, Summary.ofJson v = .error e ∧ e.isReported = true) ↔
      ¬ v.StopsAtOffset) ∧
    (w.buildIndex o = .error .broken ↔
      w.OpensGlobals o ∧ ∃ before name path after, o.modules = before ++ (name, path) :: after ∧
        w.Loads before ∧ isSummaryFile path = true ∧
          ∃ text v, w.readFile path = .ok text ∧ Json.read text = .ok v ∧ v.StopsAtOffset) := by
  refine ⟨?_, World.buildIndex_broken_iff⟩
  rw [← Summary.exists_unreported_iff]
  cases Summary.ofJson v with
  | ok s => simp
  | error e => simp

/-- A stored summary of one member, whose range begins at `offset`. -/
def summaryWithOffset (offset : Json) : Json :=
  .obj [("provided", .obj [("a", .obj
    [("typeName", .str "x"), ("range", .arr [offset, .int 1])])])]

/-- An offset that is nothing, and one that is infinite, are refused with an error that is not
reported. -/
theorem unreported_offset :
    (∃ e, Summary.ofJson (summaryWithOffset .null) = .error e ∧ e.isReported = false) ∧
      ∃ e, Summary.ofJson (summaryWithOffset (.float ⟨false, Binary64.infinite⟩)) = .error e ∧
        e.isReported = false :=
  ⟨⟨.offsetKind, rfl, rfl⟩, .offsetInfinite, rfl, rfl⟩

end ContentAssist
