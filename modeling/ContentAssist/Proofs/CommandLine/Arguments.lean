import ContentAssist.CommandLine.Options
import ContentAssist.Proofs.Text.Numerals
import Mathlib.Data.Option.Basic

/-! # Writing options as arguments

A command line is a list of groups: a flag with its value, the flag that takes none, or the input
file. They may stand in any order, and a flag may be given twice. The arguments are read back group
by group, so that the value of a flag is never taken for a flag itself.

* `ArgumentGroup`, `CommandLine`: command lines, and their arguments;
* `CommandLine.Writes`, `CommandLine.AmountsTo`: when a command line gives options flag by flag, and
  when it amounts to them because the last value of a flag counts;
* `Taken`, `Taken.step`, `Taken.run`: what has been taken over after some of the groups;
* `ofArguments_of_written`, `ofArguments_of_long_offset`: the options are read back, unless their
  offset has too many digits; then it is refused. -/

namespace ContentAssist

/-! ### Command lines -/

/-- The spellings of a flag. -/
def ValueFlag.spellings : ValueFlag → List String
  | mode => ["--mode"]
  | offset => ["--offset"]
  | typed => ["--prefix"]
  | name => ["--name"]
  | global => ["--global"]
  | module => ["--module"]
  | output => ["-o", "--output"]

theorem ValueFlag.ofArgument?_of_mem_spellings {flag : ValueFlag} {s : String}
    (hs : s ∈ flag.spellings) : ofArgument? s = some flag := by
  cases flag <;> simp only [spellings, List.mem_cons, List.not_mem_nil, or_false] at hs <;>
    rcases hs with rfl | rfl <;> decide

theorem ValueFlag.ofArgument?_eq_none {s : String} (hs : s.toList.head? ≠ some '-') :
    ofArgument? s = none := by
  unfold ofArgument?
  repeat rw [if_neg (by rintro rfl; exact hs rfl)]
  rw [if_neg (by rintro (rfl | rfl) <;> exact hs rfl)]

/-- A part of a command line: a flag, in one of its spellings, with its value; the flag that takes no
value; or the input file. -/
inductive ArgumentGroup where
  | flag (flag : ValueFlag) (spelling : {s // s ∈ flag.spellings}) (value : String)
  | verbose
  | input (path : String)

/-- The arguments of a group. -/
def ArgumentGroup.arguments : ArgumentGroup → List String
  | flag _ spelling value => [spelling, value]
  | verbose => ["--verbose"]
  | input path => [path]

/-- The groups of a command line, in the order of their arguments. -/
abbrev CommandLine := List ArgumentGroup

namespace CommandLine

/-- The arguments of a command line. -/
def arguments (gs : CommandLine) : List String := gs.flatMap ArgumentGroup.arguments

theorem arguments_cons (g : ArgumentGroup) (gs : CommandLine) :
    arguments (g :: gs) = g.arguments ++ gs.arguments := List.flatMap_cons

theorem arguments_append (gs gs' : CommandLine) :
    arguments (gs ++ gs') = gs.arguments ++ gs'.arguments := List.flatMap_append

/-- The values that a command line gives a flag, in order. -/
def values (flag : ValueFlag) (gs : CommandLine) : List String :=
  gs.filterMap fun
    | .flag flag' _ value => if flag' = flag then some value else none
    | _ => none

/-- The input files that a command line names. -/
def inputs (gs : CommandLine) : List String :=
  gs.filterMap fun
    | .input path => some path
    | _ => none

end CommandLine

/-! ### What options look like -/

/-- The text of a module: its name and its file. -/
def moduleText (m : String × String) : String := m.1 ++ "=" ++ m.2

namespace Options

/-- The values that a flag has for the options, in order. -/
def values (o : Options) : ValueFlag → List String
  | .mode => [o.mode.name]
  | .offset => (o.offset.map toString).toList
  | .typed => o.typed.toList
  | .name => o.name.toList
  | .global => o.globals
  | .module => o.modules.map moduleText
  | .output => o.output.toList

/-- Options that arguments can express: the name of a module is not empty and has no `=`, its file is
not empty, and the input file does not begin with a dash. -/
structure Expressible (o : Options) : Prop where
  modules : ∀ m ∈ o.modules, m.1 ≠ "" ∧ '=' ∉ m.1.toList ∧ m.2 ≠ ""
  input : ∀ path ∈ o.input, path.toList.head? ≠ some '-'

/-- The offset has no more digits than are read. -/
def HasReadableOffset (o : Options) : Prop := ∀ n ∈ o.offset, n.natAbs < 10 ^ Text.maxDigits

end Options

open CommandLine (values inputs)

/-- The command line gives the options: to each flag exactly its values, the flags in any order. -/
structure CommandLine.Writes (gs : CommandLine) (o : Options) : Prop where
  values : ∀ flag, values flag gs = o.values flag
  verbose : ArgumentGroup.verbose ∈ gs ↔ o.verbose = true
  input : inputs gs = o.input.toList

/-- The command line amounts to the options: of a flag with a single value the last one counts,
whatever stands before it, and the mode need not be given if it is the default. -/
structure CommandLine.AmountsTo (gs : CommandLine) (o : Options) : Prop where
  mode : (values .mode gs).getLast?.getD Mode.proposals.name = o.mode.name
  single : ∀ flag ∈ [ValueFlag.offset, .typed, .name, .output],
    (values flag gs).getLast? = (o.values flag).getLast?
  offsets : ∀ value ∈ values .offset gs, ∃ n : Int,
    value = toString n ∧ n.natAbs < 10 ^ Text.maxDigits
  repeated : ∀ flag ∈ [ValueFlag.global, .module], values flag gs = o.values flag
  verbose : ArgumentGroup.verbose ∈ gs ↔ o.verbose = true
  input : inputs gs = o.input.toList

theorem CommandLine.Writes.amountsTo {gs : CommandLine} {o : Options} (h : gs.Writes o)
    (hoffset : o.HasReadableOffset) : gs.AmountsTo o where
  mode := by rw [h.values]; rfl
  single flag _ := by rw [h.values]
  offsets value hvalue := by
    rw [h.values, Options.values, Option.mem_toList, Option.map_eq_some_iff] at hvalue
    obtain ⟨n, hn, rfl⟩ := hvalue
    exact ⟨n, rfl, hoffset n hn⟩
  repeated flag _ := h.values flag
  verbose := h.verbose
  input := h.input

/-! ### What is taken over -/

/-- What the values of a flag come to in the options that are being read. -/
def ValueFlag.Holds (vs : List String) (o : RawOptions) : ValueFlag → Prop
  | .mode => o.modeName = vs.getLast?.getD Mode.proposals.name
  | .offset => o.rest.offset.map Except.ok = vs.getLast?.map Text.integer
  | .typed => o.rest.typed = vs.getLast?
  | .name => o.rest.name = vs.getLast?
  | .global => o.rest.globals = vs
  | .module => o.rest.modules.map some = vs.map splitModule?
  | .output => o.rest.output = vs.getLast?

/-- The options hold what the groups of the command line say, and nothing else. -/
structure Taken (gs : CommandLine) (o : RawOptions) : Prop where
  values : ∀ flag : ValueFlag, flag.Holds (values flag gs) o
  verbose : o.rest.verbose = true ↔ ArgumentGroup.verbose ∈ gs
  input : o.rest.input.toList = inputs gs

/-- The value of a flag, or the input file, is one that can be taken over. -/
def ArgumentGroup.Readable : ArgumentGroup → Prop
  | flag .offset _ value => ∃ n, Text.integer value = .ok n
  | flag .module _ value => ∃ m, splitModule? value = some m
  | input path => path.toList.head? ≠ some '-'
  | _ => True

namespace RawOptions

variable {o o' : RawOptions} {flag : ValueFlag} {value : String} {vs : List String}

theorem exists_set {spelling : {s // s ∈ flag.spellings}}
    (hg : (ArgumentGroup.flag flag spelling value).Readable) : ∃ o', o.set flag value = .ok o' := by
  cases flag with
  | offset =>
    obtain ⟨n, hn⟩ := hg
    exact ⟨_, by rw [set, hn]⟩
  | module =>
    obtain ⟨m, hm⟩ := hg
    exact ⟨_, by rw [set, hm]⟩
  | mode | typed | name | global | output => exact ⟨_, rfl⟩

theorem holds_set (h : flag.Holds vs o) (hset : o.set flag value = .ok o') :
    flag.Holds (vs ++ [value]) o' := by
  cases flag with
  | offset =>
    rw [set] at hset
    split at hset
    · rename_i n hn
      cases hset
      simp [ValueFlag.Holds, hn]
    · cases hset
  | module =>
    rw [set] at hset
    split at hset
    · rename_i m hm
      cases hset
      simpa [ValueFlag.Holds, hm] using h
    · cases hset
  | global =>
    cases hset
    exact congrArg (· ++ [value]) h
  | mode | typed | name | output =>
    cases hset
    simp [ValueFlag.Holds]

/-- The rest stays as it was: the other flags, the flag without a value and the input file. -/
theorem set_frame (hset : o.set flag value = .ok o') :
    (∀ flag' ≠ flag, ∀ vs, flag'.Holds vs o → flag'.Holds vs o') ∧
      o'.rest.verbose = o.rest.verbose ∧ o'.rest.input = o.rest.input := by
  cases flag with
  | offset | module =>
    rw [set] at hset
    split at hset
    · cases hset
      refine ⟨fun flag' hne vs h => ?_, rfl, rfl⟩
      cases flag' <;> first | exact absurd rfl hne | exact h
    · cases hset
  | mode | typed | name | global | output =>
    cases hset
    refine ⟨fun flag' hne vs h => ?_, rfl, rfl⟩
    cases flag' <;> first | exact absurd rfl hne | exact h

theorem setPlain_input {path : String} (hpath : path.toList.head? ≠ some '-')
    (hinput : o.rest.input = none) :
    o.setPlain path = .ok { o with rest := { o.rest with input := some path } } := by
  have hdash : Text.startsWith "-" path = false := by
    rw [Bool.eq_false_iff, Ne, Text.startsWith_iff]
    rintro ⟨r, rfl⟩
    exact hpath (by simp)
  unfold setPlain
  rw [if_neg (by rintro (rfl | rfl) <;> exact hpath rfl), if_neg (by rintro rfl; exact hpath rfl),
    hdash, hinput]
  rfl

/-- A flag takes the argument behind it, whatever that is. -/
theorem read_flag (o : RawOptions) (spelling : {s // s ∈ flag.spellings}) (value : String)
    (rest : List String) : o.read ((ArgumentGroup.flag flag spelling value).arguments ++ rest) =
      (o.set flag value).bind fun o' => o'.read rest := by
  change o.read (spelling.1 :: value :: rest) = _
  rw [read.eq_def]
  simp only [ValueFlag.ofArgument?_of_mem_spellings spelling.2]
  cases o.set flag value <;> rfl

theorem read_plain {argument : String} (hflag : ValueFlag.ofArgument? argument = none)
    (hset : o.setPlain argument = .ok o') (rest : List String) :
    o.read (argument :: rest) = o'.read rest := by
  rw [read, hset]
  exact hflag

end RawOptions

/-! ### Reading groups -/

theorem inputs_append (gs gs' : CommandLine) : inputs (gs ++ gs') = inputs gs ++ inputs gs' :=
  List.filterMap_append

theorem values_append (flag : ValueFlag) (gs gs' : CommandLine) :
    values flag (gs ++ gs') = values flag gs ++ values flag gs' := List.filterMap_append

theorem values_concat_flag (flag flag' : ValueFlag) (spelling : {s // s ∈ flag'.spellings})
    (value : String) (gs : CommandLine) : values flag (gs ++ [.flag flag' spelling value]) =
      if flag' = flag then values flag gs ++ [value] else values flag gs := by
  rw [values_append]
  split <;> rename_i hflag <;> simp [values, hflag]

theorem values_concat_verbose (flag : ValueFlag) (gs : CommandLine) :
    values flag (gs ++ [.verbose]) = values flag gs := by
  simp [values]

theorem values_concat_input (flag : ValueFlag) (path : String) (gs : CommandLine) :
    values flag (gs ++ [.input path]) = values flag gs := by
  simp [values]

namespace Taken

variable {gs gs' : CommandLine} {g : ArgumentGroup} {o o' : RawOptions}

theorem start : Taken [] {} where
  values flag := by cases flag <;> rfl
  verbose := by simp
  input := rfl

theorem setFlag {flag : ValueFlag} {spelling : {s // s ∈ flag.spellings}} {value : String}
    (h : Taken gs o) (hset : o.set flag value = .ok o') :
    Taken (gs ++ [.flag flag spelling value]) o' := by
  obtain ⟨hflags, hverbose, hinput⟩ := RawOptions.set_frame hset
  constructor
  · intro flag'
    rw [values_concat_flag]
    split
    · rename_i heq
      subst heq
      exact RawOptions.holds_set (h.values flag) hset
    · rename_i hne
      exact hflags flag' (Ne.symm hne) _ (h.values flag')
  · simp [hverbose, h.verbose]
  · simp [hinput, h.input, inputs]

theorem setVerbose (h : Taken gs o) :
    Taken (gs ++ [.verbose]) { o with rest := { o.rest with verbose := true } } where
  values flag := by
    have hflag := h.values flag
    rw [values_concat_verbose]
    cases flag <;> exact hflag
  verbose := by simp
  input := by simp [h.input, inputs]

theorem setInput {path : String} (h : Taken gs o) (hnone : inputs gs = []) :
    Taken (gs ++ [.input path]) { o with rest := { o.rest with input := some path } } where
  values flag := by
    have hflag := h.values flag
    rw [values_concat_input]
    cases flag <;> exact hflag
  verbose := by simp [h.verbose]
  input := by
    change [path] = inputs (gs ++ [.input path])
    simpa [inputs] using hnone

theorem step (h : Taken gs o) (hg : g.Readable) (hinputs : (inputs (gs ++ [g])).length ≤ 1) :
    ∃ o', Taken (gs ++ [g]) o' ∧ ∀ rest, o.read (g.arguments ++ rest) = o'.read rest := by
  cases g with
  | flag flag spelling value =>
    obtain ⟨o', hset⟩ := RawOptions.exists_set (o := o) hg
    refine ⟨o', h.setFlag hset, fun rest => (o.read_flag spelling value rest).trans ?_⟩
    rw [hset]
    rfl
  | verbose => exact ⟨_, h.setVerbose, RawOptions.read_plain (by decide) rfl⟩
  | input path =>
    have hnone : inputs gs = [] := by
      simpa [inputs] using hinputs
    have hinput : o.rest.input = none := by
      simpa [hnone] using h.input
    refine ⟨_, h.setInput hnone, fun rest => ?_⟩
    exact RawOptions.read_plain (ValueFlag.ofArgument?_eq_none hg)
      (RawOptions.setPlain_input hg hinput) rest

/-- Readable groups are taken over one after the other, whatever arguments follow them. -/
theorem run (h : Taken gs o) (hgs' : ∀ g ∈ gs', g.Readable)
    (hinputs : (inputs (gs ++ gs')).length ≤ 1) :
    ∃ o', Taken (gs ++ gs') o' ∧ ∀ rest, o.read (gs'.arguments ++ rest) = o'.read rest := by
  induction gs' generalizing gs o with
  | nil => exact ⟨o, by rwa [List.append_nil], fun rest => rfl⟩
  | cons g gs' ih =>
    rw [List.append_cons] at hinputs ⊢
    have hfirst : (inputs (gs ++ [g])).length ≤ 1 := by
      rw [inputs_append, List.length_append] at hinputs
      omega
    obtain ⟨o₁, h₁, hread⟩ := h.step (hgs' g List.mem_cons_self) hfirst
    obtain ⟨o', h', hrest⟩ := ih h₁ (fun g hg => hgs' g (List.mem_cons_of_mem _ hg)) hinputs
    refine ⟨o', h', fun rest => ?_⟩
    rw [CommandLine.arguments_cons, List.append_assoc, hread]
    exact hrest rest

end Taken

/-! ### Options that were written -/

theorem splitFirst_append {sep : Char} {before : List Char} (h : sep ∉ before) (after : List Char) :
    Text.splitFirst sep (before ++ sep :: after) = some (before, after) := by
  induction before with
  | nil => simp [Text.splitFirst]
  | cons c before ih =>
    obtain ⟨hc, hbefore⟩ : sep ≠ c ∧ sep ∉ before := by simpa using h
    simp [Text.splitFirst, Ne.symm hc, ih hbefore]

theorem splitModule?_moduleText {m : String × String}
    (hm : m.1 ≠ "" ∧ '=' ∉ m.1.toList ∧ m.2 ≠ "") : splitModule? (moduleText m) = some m := by
  obtain ⟨name, path⟩ := m
  obtain ⟨hname, hsep, hpath⟩ := hm
  have htext : (moduleText (name, path)).toList = name.toList ++ '=' :: path.toList := by
    simp [moduleText]
  rw [splitModule?, htext, splitFirst_append hsep]
  simp [hname, hpath]

/-- A command line is readable if its offsets, its modules and its input files are. -/
theorem readable_of_values {gs : CommandLine}
    (hoffsets : ∀ value ∈ values .offset gs, ∃ n, Text.integer value = .ok n)
    (hmodules : ∀ value ∈ values .module gs, ∃ m, splitModule? value = some m)
    (hinputs : ∀ path ∈ inputs gs, path.toList.head? ≠ some '-') : ∀ g ∈ gs, g.Readable := by
  have hvalue : ∀ {flag : ValueFlag} {spelling : {s // s ∈ flag.spellings}} {value : String},
      ArgumentGroup.flag flag spelling value ∈ gs → value ∈ values flag gs := fun hg =>
    List.mem_filterMap.2 ⟨_, hg, if_pos rfl⟩
  intro g hg
  cases g with
  | flag flag spelling value =>
    cases flag with
    | offset => exact hoffsets value (hvalue hg)
    | module => exact hmodules value (hvalue hg)
    | mode | typed | name | global | output => trivial
  | verbose => trivial
  | input path => exact hinputs path (List.mem_filterMap.2 ⟨_, hg, rfl⟩)

theorem Options.Expressible.exists_splitModule? {o : Options} (he : o.Expressible) :
    ∀ value ∈ o.values .module, ∃ m, splitModule? value = some m := by
  intro value hvalue
  obtain ⟨m, hm, rfl⟩ := List.mem_map.1 hvalue
  exact ⟨m, splitModule?_moduleText (he.modules m hm)⟩

theorem CommandLine.AmountsTo.readable {gs : CommandLine} {o : Options} (h : gs.AmountsTo o)
    (he : o.Expressible) : ∀ g ∈ gs, g.Readable := by
  refine readable_of_values (fun value hvalue => ?_) ?_ fun path hpath => ?_
  · obtain ⟨n, rfl, hn⟩ := h.offsets value hvalue
    exact ⟨n, by rw [Text.integer_toString, if_pos hn]⟩
  · rw [h.repeated .module (by simp)]
    exact he.exists_splitModule?
  · rw [h.input, Option.mem_toList] at hpath
    exact he.input path hpath

theorem Mode.ofName?_name (m : Mode) : ofName? m.name = some m := by
  cases m <;> decide

/-- What is taken over from a command line that amounts to options are these options. -/
theorem Taken.eq_options {gs : CommandLine} {o : Options} {raw : RawOptions} (h : Taken gs raw)
    (ha : gs.AmountsTo o) (he : o.Expressible) (hoffset : o.HasReadableOffset) :
    raw.modeName = o.mode.name ∧ { raw.rest with mode := o.mode } = o := by
  have hlast : ∀ flag ∈ [ValueFlag.offset, .typed, .name, .output], ∀ x : Option String,
      o.values flag = x.toList → (gs.values flag).getLast? = x := by
    intro flag hflag x hx
    rw [ha.single flag hflag, hx]
    cases x <;> rfl
  have hmode : raw.modeName = o.mode.name := (h.values .mode).trans ha.mode
  have hoff : raw.rest.offset = o.offset := by
    have hraw := h.values .offset
    rw [ValueFlag.Holds, hlast .offset (by simp) _ rfl, Option.map_map] at hraw
    refine Option.map_injective (fun _ _ => Except.ok.inj) (hraw.trans ?_)
    exact Option.map_congr fun n hn => by
      rw [Function.comp_apply, Text.integer_toString, if_pos (hoffset n hn)]
  have htyped : raw.rest.typed = o.typed := (h.values .typed).trans (hlast .typed (by simp) _ rfl)
  have hname : raw.rest.name = o.name := (h.values .name).trans (hlast .name (by simp) _ rfl)
  have houtput : raw.rest.output = o.output := (h.values .output).trans (hlast .output (by simp) _ rfl)
  have hglobals : raw.rest.globals = o.globals :=
    (h.values .global).trans (ha.repeated .global (by simp))
  have hmodules : raw.rest.modules = o.modules := by
    have hraw := h.values .module
    rw [ValueFlag.Holds, ha.repeated .module (by simp), Options.values, List.map_map] at hraw
    refine List.map_injective_iff.2 (Option.some_injective _) (hraw.trans ?_)
    exact List.map_congr_left fun m hm => splitModule?_moduleText (he.modules m hm)
  have hverbose : raw.rest.verbose = o.verbose :=
    Bool.eq_iff_iff.2 (h.verbose.trans ha.verbose)
  have hinput : raw.rest.input = o.input := by
    simpa using congrArg List.head? (h.input.trans ha.input)
  refine ⟨hmode, ?_⟩
  dsimp only
  rw [hoff, htyped, hname, houtput, hglobals, hmodules, hverbose, hinput]

/-- **Options are read back from what was written.** Let options be expressible and their offset have no
more digits than are read. Every command line that gives for each flag the values of the options, in
any order of the flags and whatever the values look like, is read as exactly these options; and of a
flag with a single value that is repeated the last value counts. -/
theorem ofArguments_of_written {o : Options} (he : o.Expressible) (hoffset : o.HasReadableOffset) :
    (∀ gs : CommandLine, gs.Writes o → Options.ofArguments gs.arguments = .ok o) ∧
      ∀ gs : CommandLine, gs.AmountsTo o → Options.ofArguments gs.arguments = .ok o := by
  have hamounts : ∀ gs : CommandLine, gs.AmountsTo o → Options.ofArguments gs.arguments = .ok o := by
    intro gs ha
    have hinputs : (inputs ([] ++ gs)).length ≤ 1 := by
      rw [List.nil_append, ha.input]
      exact Option.length_toList_le
    obtain ⟨raw, htaken, hrun⟩ := Taken.start.run (ha.readable he) hinputs
    obtain ⟨hmode, heq⟩ := htaken.eq_options ha he hoffset
    have hread : RawOptions.read {} gs.arguments = .ok raw := by
      simpa [RawOptions.read] using hrun []
    rw [Options.ofArguments, hread]
    dsimp only
    rw [hmode, Mode.ofName?_name]
    exact congrArg Except.ok heq
  exact ⟨fun gs hw => hamounts gs (hw.amountsTo hoffset), hamounts⟩

/-- Options whose values look like flags. -/
def oddOptions : Options where
  mode := .hover
  offset := some (-12)
  typed := some "--help"
  name := some ""
  globals := ["--module", "g=.js"]
  modules := [("m", "a=b.js"), ("--name", "-o")]
  verbose := true
  input := some "in.js"
  output := some "--output"

/-- A command line that gives these options. -/
def oddLine : CommandLine := [
  .flag .output ⟨"-o", by decide⟩ "--output", .flag .global ⟨"--global", by decide⟩ "--module",
  .flag .module ⟨"--module", by decide⟩ "m=a=b.js", .input "in.js",
  .flag .offset ⟨"--offset", by decide⟩ "-12", .verbose, .flag .name ⟨"--name", by decide⟩ "",
  .flag .global ⟨"--global", by decide⟩ "g=.js", .flag .typed ⟨"--prefix", by decide⟩ "--help",
  .flag .module ⟨"--module", by decide⟩ "--name=-o", .flag .mode ⟨"--mode", by decide⟩ "hover"]

theorem expressible_oddOptions : oddOptions.Expressible where
  modules := by decide
  input := by decide

theorem readable_oddOptions : oddOptions.HasReadableOffset := by
  rintro n hn
  cases hn
  exact Text.natAbs_lt_of_le (by decide : (-12 : Int).natAbs < 10 ^ 2) (by decide)

theorem writes_oddLine : oddLine.Writes oddOptions where
  values flag := by cases flag <;> rfl
  verbose := by simp [oddLine, oddOptions]
  input := rfl

/-- The same command line behind flags that it repeats. -/
def repeatingLine : CommandLine := .flag .offset ⟨"--offset", by decide⟩ "7" ::
  .flag .mode ⟨"--mode", by decide⟩ "--mode" :: oddLine

theorem amountsTo_repeatingLine : repeatingLine.AmountsTo oddOptions where
  mode := rfl
  single := by decide
  offsets := by
    intro value hvalue
    obtain rfl | rfl : value = "7" ∨ value = "-12" := by
      simpa [values, repeatingLine, oddLine] using hvalue
    · exact ⟨7, rfl, Text.natAbs_lt_of_le (by decide : (7 : Int).natAbs < 10 ^ 1) (by decide)⟩
    · exact ⟨-12, rfl, Text.natAbs_lt_of_le (by decide : (-12 : Int).natAbs < 10 ^ 2) (by decide)⟩
  repeated := by decide
  verbose := by simp [repeatingLine, oddLine, oddOptions]
  input := rfl

theorem ofArguments_of_written_odd :
    (oddOptions.Expressible ∧ oddOptions.HasReadableOffset) ∧
      (oddLine.Writes oddOptions ∧ Options.ofArguments ["-o", "--output", "--global", "--module",
        "--module", "m=a=b.js", "in.js", "--offset", "-12", "--verbose", "--name", "", "--global",
        "g=.js", "--prefix", "--help", "--module", "--name=-o", "--mode", "hover"] = .ok oddOptions) ∧
      repeatingLine.AmountsTo oddOptions ∧ Options.ofArguments (["--offset", "7", "--mode", "--mode"] ++
        oddLine.arguments) = .ok oddOptions := by
  have hread := ofArguments_of_written expressible_oddOptions readable_oddOptions
  exact ⟨⟨expressible_oddOptions, readable_oddOptions⟩,
    ⟨writes_oddLine, hread.1 oddLine writes_oddLine⟩,
    amountsTo_repeatingLine, hread.2 repeatingLine amountsTo_repeatingLine⟩

/-! ### Offsets that are too long -/

/-- The group that gives a flag its only value. -/
theorem exists_split_of_values {flag : ValueFlag} {gs : CommandLine} {value : String}
    (h : values flag gs = [value]) : ∃ (before after : CommandLine) (spelling : _),
      gs = before ++ .flag flag spelling value :: after ∧ values flag before = [] := by
  obtain ⟨g, hg, hvalue⟩ := List.mem_filterMap.1 (h ▸ List.mem_cons_self : value ∈ values flag gs)
  obtain ⟨before, after, rfl⟩ := List.append_of_mem hg
  cases g with
  | verbose | input => cases hvalue
  | flag flag' spelling value' =>
    obtain ⟨rfl, rfl⟩ : flag' = flag ∧ value' = value := by simpa using hvalue
    refine ⟨before, after, spelling, rfl, ?_⟩
    have hlength := congrArg List.length h
    rw [values_append, List.length_append] at hlength
    have hrest : values flag' (.flag flag' spelling value' :: after) =
        value' :: values flag' after := by
      simp [values]
    rw [hrest, List.length_cons, List.length_singleton] at hlength
    exact List.eq_nil_of_length_eq_zero (by omega)

theorem RawOptions.set_long_offset (o : RawOptions) {n : Int}
    (hlong : ¬ n.natAbs < 10 ^ Text.maxDigits) :
    o.set .offset (toString n) = .error (.notInteger (toString n)) := by
  rw [set, Text.integer_toString, if_neg hlong]

theorem ofArguments_of_read_error {arguments : List String} {e : OptionsError}
    (h : RawOptions.read {} arguments = .error e) : Options.ofArguments arguments = .error e := by
  rw [Options.ofArguments, h]

/-- A command line that gives an offset with more digits than are read is refused. -/
theorem ofArguments_of_long_offset {o : Options} {gs : CommandLine} {n : Int} (he : o.Expressible)
    (hw : gs.Writes o) (hn : o.offset = some n) (hlong : ¬ n.natAbs < 10 ^ Text.maxDigits) :
    Options.ofArguments gs.arguments = .error (.notInteger (toString n)) := by
  have hvalues : values .offset gs = [toString n] := by
    rw [hw.values, Options.values, hn]
    rfl
  obtain ⟨before, after, spelling, hgs, hbefore⟩ := exists_split_of_values hvalues
  have hmodules : values .module before ⊆ o.values .module := by
    rw [← hw.values, hgs, values_append]
    exact List.subset_append_left _ _
  have hinputs : (inputs before).Sublist o.input.toList := by
    rw [← hw.input, hgs, inputs_append]
    exact List.sublist_append_left _ _
  have hreadable : ∀ g ∈ before, g.Readable :=
    readable_of_values (by simp [hbefore]) (fun value hvalue =>
      he.exists_splitModule? value (hmodules hvalue)) fun path hpath =>
      he.input path (Option.mem_toList.1 (hinputs.subset hpath))
  obtain ⟨raw, -, hrun⟩ := Taken.start.run hreadable
    (Nat.le_trans hinputs.length_le Option.length_toList_le)
  refine ofArguments_of_read_error ?_
  rw [hgs, CommandLine.arguments_append, CommandLine.arguments_cons, hrun, RawOptions.read_flag,
    RawOptions.set_long_offset raw hlong]
  rfl

/-- The least offset with more digits than are read. -/
def longOffset : Int := 10 ^ Text.maxDigits

/-- Options with nothing but that offset. -/
def longOptions : Options := { offset := some longOffset }

/-- The command line that gives these options. -/
def longLine : CommandLine := [.flag .mode ⟨"--mode", by decide⟩ "proposals",
  .flag .offset ⟨"--offset", by decide⟩ (toString longOffset)]

/-- Options with an offset of any size are not always read back, and a later offset does not help. -/
theorem long_offset_refused :
    (longOptions.Expressible ∧ longLine.Writes longOptions ∧
      Options.ofArguments longLine.arguments = .error (.notInteger (toString longOffset))) ∧
    Options.ofArguments ["--offset", toString longOffset, "--offset", "3", "in.js"] =
      .error (.notInteger (toString longOffset)) := by
  have he : longOptions.Expressible := ⟨by simp [longOptions], by simp [longOptions]⟩
  have hw : longLine.Writes longOptions :=
    ⟨fun flag => by cases flag <;> rfl, by simp [longLine, longOptions], rfl⟩
  have hlong : ¬ longOffset.natAbs < 10 ^ Text.maxDigits := Text.not_natAbs_pow_lt Text.maxDigits
  have hread := RawOptions.read_flag {}
    (⟨"--offset", by decide⟩ : {s // s ∈ ValueFlag.offset.spellings}) (toString longOffset)
    ["--offset", "3", "in.js"]
  rw [RawOptions.set_long_offset {} hlong] at hread
  refine ⟨⟨he, hw, ofArguments_of_long_offset he hw rfl hlong⟩, ?_⟩
  exact ofArguments_of_read_error hread

end ContentAssist
