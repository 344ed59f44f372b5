import ContentAssist.Assist
import ContentAssist.Proofs.Completion.Proposals
import ContentAssist.Proofs.Completion.Shown
import ContentAssist.Proofs.Environment.Unmarked
import ContentAssist.Proofs.Inference.Worded

/-! # Internal names in what the user sees

The names of records are internal where the analysis made them up: they are generated, or derived from
the type of a constructor. A description shows a generated record by its members, but a derived name is
shown as it stands. A type ends in a derived name only where a prototype link was read as a value. So
proposals and hovers show internal names exactly there, and none in a program without such a read.

* `Table.Reveals`: a text contains an internal name;
* `Described`, `described`: what a text tells that describes a type;
* `internal_names_revealed_iff`: proposals and hovers;
* `prototype_link_revealed`: a prototype object that is the value of a variable. -/

namespace ContentAssist

open Inference

variable {K : String → Prop} {L : Prop} {t : Table} {type : Ty} {signature deep : Bool}
  {name front shown text x : String} {c : Char}

/-- The text contains an internal name that is the name of a record. -/
def Table.Reveals (t : Table) (text : String) : Prop :=
  ∃ key ∈ t.keys, Ty.isInternal key = true ∧ key.toList <:+: text.toList

/-! ### What a description shows -/

namespace Table

/-- In a worded table the names that are shown are known words, or derived names if `L` holds. -/
theorem known_of_shows (ht : t.Worded K L) (hname : Ending K L name) (h : t.Shows x deep name) :
    K x ∨ L ∧ Ty.isDerived x = true := by
  induction h with
  | name hunmarked =>
    rcases hname with hx | hg | hx
    · exact Or.inl hx
    · exact Bool.noConfusion (hunmarked.symm.trans hg)
    · exact Or.inr hx
  | @member name r m hg hr hm _ ih =>
    exact ih ((ht.record hr).types m.2 (List.mem_map.2 ⟨m, hm, rfl⟩)).leaf

/-- In a covered table they are names of records, `boolean` apart. -/
theorem mem_keys_of_shows (ht : t.Covered) (hname : t.Covers (.named name)) (h : t.Shows x deep name) :
    t.Covers (.named x) := by
  induction h with
  | name _ => exact hname
  | @member name r m hg hr hm _ ih =>
    exact ih (ht.coversRecord hr m.2 (List.mem_append_left _ (List.mem_map.2 ⟨m, hm, rfl⟩)))

theorem known_of_showsType (ht : t.Worded K L) (htype : type.Worded K L)
    (h : t.ShowsType type signature deep x) : K x ∨ L ∧ Ty.isDerived x = true := by
  cases type with
  | named name => exact known_of_shows ht htype h
  | function r params => exact known_of_shows ht htype.1.leaf h

theorem mem_keys_of_showsType (ht : t.Covered) (htype : t.Covers type)
    (h : t.ShowsType type signature deep x) : t.Covers (.named x) := by
  cases type with
  | named name => exact mem_keys_of_shows ht htype h
  | function r params => exact mem_keys_of_shows ht htype h

/-- What a text tells that describes a type: the names that it shows for types are known words or
derived names, and it contains an internal name only if it shows a derived one. Without links read as
values it contains none. -/
structure Described (t : Table) (K : String → Prop) (L : Prop) (type : Ty) (signature : Bool)
    (text : String) : Prop where
  known : ∀ x, t.ShowsType type signature true x → K x ∨ L ∧ Ty.isDerived x = true
  derived : t.Reveals text → ∃ x, t.ShowsType type signature true x ∧ Ty.isDerived x = true
  hidden : ¬ L → ¬ t.Reveals text

/-- In a covered table a derived name that is shown is that of a record. -/
theorem reveals_of_showsType (ht : t.Covered) (htype : t.Covers type)
    (hshown : t.describe? type signature deep = some shown) (hx : t.ShowsType type signature deep x)
    (hderived : Ty.isDerived x = true) (front : String) : t.Reveals (front ++ shown) := by
  refine ⟨x, (mem_keys_of_showsType ht htype hx).resolve_right ?_,
    Bool.or_eq_true_iff.2 (Or.inr hderived), ?_⟩
  · intro hboolean
    have hx : x = "boolean" := hboolean
    rw [hx] at hderived
    exact absurd hderived (by decide)
  · rw [String.toList_append]
    exact (infix_of_showsType hx hshown).trans (List.suffix_append _ _).isInfix

section
variable (hunmarked : ∀ x, K x → Unmarked x)
include hunmarked

theorem not_mark_of_inMemberName (ht : t.Worded K L) (hc : t.InMemberName c) : c ∉ nameMarks := by
  obtain ⟨r, hr, key, hkey, hc⟩ := hc
  exact hunmarked key ((ht r hr).names key hkey) c hc

theorem not_mark_of_inParam (htype : type.Worded K L) (hc : type.InParam c) : c ∉ nameMarks := by
  induction type with
  | named name => exact hc.elim
  | function r params ih =>
    rcases hc with ⟨p, hp, hc⟩ | hc
    · exact hunmarked p (htype.2 p hp) c hc
    · exact ih htype.1 hc

/-- **A text that ends in the description of a type**, with unmarked words in front of it. -/
theorem described (ht : t.Worded K L) (htype : type.Worded K L) (hfront : Unmarked front)
    (hshown : t.describe? type signature true = some shown) :
    t.Described K L type signature (front ++ shown) := by
  have hmarks : punctuation.all (· ∉ nameMarks) = true := by decide
  have hknown : ∀ x, t.ShowsType type signature true x → K x ∨ L ∧ Ty.isDerived x = true := fun x hx =>
    known_of_showsType ht htype hx
  have hderived : t.Reveals (front ++ shown) →
      ∃ x, t.ShowsType type signature true x ∧ Ty.isDerived x = true := by
    rintro ⟨key, -, hinternal, hinfix⟩
    -- the mark of the internal name stands in the description, and there in a name that is shown
    obtain ⟨c, hc, hmark⟩ := exists_mark_of_isInternal hinternal
    have hc := hinfix.subset hc
    rw [String.toList_append, List.mem_append] at hc
    rcases hc with hc | hc
    · exact absurd hmark (hfront c hc)
    · rcases mem_describe? hshown hc with hc | hc | hc | ⟨x, hx, hc⟩
      · exact absurd hmark (of_decide_eq_true (List.all_eq_true.1 hmarks c hc))
      · exact absurd hmark (not_mark_of_inMemberName hunmarked ht hc)
      · exact absurd hmark (not_mark_of_inParam hunmarked htype hc)
      · exact ⟨x, hx, ((hknown x hx).resolve_left fun hK => hunmarked x hK c hc hmark).2⟩
  refine ⟨hknown, hderived, fun hL hreveals => ?_⟩
  obtain ⟨x, hx, hxderived⟩ := hderived hreveals
  rcases hknown x hx with hK | ⟨hL', -⟩
  · exact Bool.noConfusion ((hunmarked x hK).not_isDerived.symm.trans hxderived)
  · exact hL hL'

end

end Table

/-! ### Visible members -/

theorem exists_of_mem_visibleMembers {record typed : String} {site : Site} {m : String × Ty}
    (h : m ∈ visibleMembers t record site typed) :
    ∃ r ∈ t.values, ∃ d, (some m.1, d) ∈ r.members.entries ∧ d.type = m.2 := by
  obtain ⟨e, he, hm⟩ := List.mem_flatMap.1 h
  rw [offeredMembers_eq, List.mem_filterMap] at hm
  obtain ⟨⟨_ | key, d⟩, hentry, hoffer⟩ := hm
  · cases hoffer
  · have hr := Table.find?_of_mem_chainFrom (List.mem_reverse.1 he)
    unfold offer? at hoffer
    dsimp only at hoffer
    split at hoffer
    · cases hoffer
      exact ⟨e.2, t.mem_values_of_find? hr, d, hentry, rfl⟩
    · cases hoffer

/-- A proposal is that for one of the visible members. -/
theorem exists_of_mem_proposals? {record typed : String} {site : Site} {start : Int}
    {ps : List Proposal} {p : Proposal} (h : proposals? t record site typed start = some ps)
    (hp : p ∈ ps) : ∃ m ∈ visibleMembers t record site typed,
      memberDescription? t m.1 m.2 = some p.description := by
  rw [proposals?_eq] at h
  obtain ⟨all, hall, rfl⟩ := Option.map_eq_some_iff.1 h
  have hsorted := (dropRepeats_spec (pairwise_sorted (OrderedMap.ofList all).values)).2.1 p hp
  rw [(perm_sortStable describedNoLater _).mem_iff] at hsorted
  have hp : p ∈ all.map (·.2) := (OrderedMap.mem_values_foldl_insert hsorted).resolve_right
    List.not_mem_nil
  obtain ⟨e, he, rfl⟩ := List.mem_map.1 hp
  obtain ⟨m, hm, hfor⟩ := (mem_of_mapM hall).2 e he
  obtain ⟨q, hq, rfl⟩ := Option.map_eq_some_iff.1 hfor
  exact ⟨m, hm, memberDescription?_of_proposalFor? hq⟩

theorem unmarked_completion (hunmarked : ∀ x, K x → Unmarked x) (hname : K name)
    (htype : type.Worded K L) : Unmarked (completion name type) := by
  cases type with
  | named _ => exact hunmarked name hname
  | function _ params =>
    exact (((hunmarked name hname).append (by decide)).append
      (.joined (by decide) fun p hp => hunmarked p (htype.2 p hp))).append (by decide)

/-! ### Requests -/

section
variable {a : Assistant} {source : String} {offset : Int} {tree : Json} {log : List LogEntry}
  {events : List Event} {typed : String} {ps : List Proposal} {p : Proposal}
  (hparse : parse a.parser source = (.ok tree, log))
include hparse

/-- Proposals are those for the members of the record that an inference answers. -/
theorem exists_run_of_proposals (h : a.proposals source offset typed = (.ok ps, events)) (hp : p ∈ ps) :
    ∃ site scope s,
      run ⟨source, some offset, a.index?⟩ (.root tree) (.start localName) = (.ok scope, s) ∧
      proposals? s.env.types scope site typed (offset - typed.length) = some ps := by
  unfold Assistant.proposals withTree at h
  rw [hparse] at h
  dsimp only at h
  split at h
  · cases h
    cases hp
  · rename_i site _
    split at h
    · cases h
    · rename_i scope s hrun
      split at h
      · cases h
      · rename_i ps' hps
        cases h
        exact ⟨site, scope, s, hrun, hps⟩

/-- A hover describes the type of the definition that an inference finds for the identifier. -/
theorem exists_run_of_hover (h : a.hover source offset = (.ok (some text), events)) :
    ∃ target scope s d shown, hoverTarget? (.root tree) offset = some target ∧
      run ⟨source, some offset, a.index?⟩ (.root tree) (.start localName) = (.ok scope, s) ∧
      s.env.lookupDefinition? target.name (s.targetType target) = some d ∧
      s.env.types.describe? d.type true true = some shown ∧
      text = target.name.getD "" ++ " :: " ++ shown := by
  unfold Assistant.hover Assistant.definition withTree at h
  rw [hparse] at h
  dsimp only at h
  split at h
  · cases h
  · rename_i target htarget
    split at h
    · cases h
    · rename_i scope s hrun
      split at h
      · cases h
      · rename_i d hd
        split at h
        · cases h
        · rename_i shown hshown
          cases h
          exact ⟨target, scope, s, d, shown, htarget, hrun, hd, hshown, rfl⟩

end

/-- **Internal names in proposals and hovers.** The words of the catalog, of a program and of the files
that it depends on are without marks. Then a proposal describes the type of a visible member and a
hover that of a definition, and the names that they show for types are such words or derived names.
They contain an internal name only if they show a derived one, and none if no link is read as a value:
if the program has no identifier `prototype` and no file offers a type that ends in a derived name. If
what the files offer is closed, each derived name that is shown is an internal name. -/
theorem internal_names_revealed_iff (a : Assistant) {source : String} {offset : Int} {tree : Json}
    {log : List LogEntry} (hparse : parse a.parser source = (.ok tree, log))
    (hunmarked : ∀ x, K x → Unmarked x)
    (hknows : Knows K L ⟨source, some offset, a.index?⟩ (.root tree))
    (hdeclared : ∀ x ∈ declaredNames (.root tree), K x) :
    let task : Task := ⟨source, some offset, a.index?⟩
    let outcome := run task (.root tree) (.start localName)
    let s := outcome.2
    (∀ typed ps events, a.proposals source offset typed = (.ok ps, events) → ∀ p ∈ ps,
      ∃ scope site m, outcome.1 = .ok scope ∧ m ∈ visibleMembers s.env.types scope site typed ∧
        memberDescription? s.env.types m.1 m.2 = some p.description ∧
        s.env.types.Described K L m.2 false p.description ∧
        (task.Closed → (s.env.types.Reveals p.description ↔
          ∃ x, s.env.types.ShowsType m.2 false true x ∧ Ty.isDerived x = true))) ∧
    ∀ text events, a.hover source offset = (.ok (some text), events) →
      ∃ target d, hoverTarget? (.root tree) offset = some target ∧
        s.env.lookupDefinition? target.name (s.targetType target) = some d ∧
        s.env.types.Described K L d.type true text ∧
        (task.Closed → (s.env.types.Reveals text ↔
          ∃ x, s.env.types.ShowsType d.type true true x ∧ Ty.isDerived x = true)) := by
  intro task outcome s
  have hreached : Reached task (.root tree) localName s := reached_run _ _ _
  have hworded := (hreached.worded hknows hdeclared).env
  have hcovered : task.Closed → s.env.types.Covered := fun hclosed => (hreached.closed hclosed).env.table
  refine ⟨fun typed ps events h p hp => ?_, fun text events h => ?_⟩
  · obtain ⟨site, scope, s', hrun, hps⟩ := exists_run_of_proposals hparse h hp
    obtain rfl : s = s' := congrArg Prod.snd hrun
    obtain ⟨⟨name, type⟩, hm, hdescription⟩ := exists_of_mem_proposals? hps hp
    obtain ⟨r, hr, d, hentry, rfl⟩ := exists_of_mem_visibleMembers hm
    have hvalue : d ∈ r.members.values := List.mem_map.2 ⟨_, hentry, rfl⟩
    have htype := (hworded.table r hr).types d hvalue
    have hname := (hworded.table r hr).names name (List.mem_map.2 ⟨_, hentry, rfl⟩)
    obtain ⟨shown, hshown, htext⟩ := Option.map_eq_some_iff.1 hdescription
    have hsep : Unmarked " : " := by decide
    have hdescribed := Table.described hunmarked hworded.table htype
      ((unmarked_completion hunmarked hname htype).append hsep) hshown
    rw [htext] at hdescribed
    refine ⟨scope, site, _, congrArg Prod.fst hrun, hm, hdescription, hdescribed, fun hclosed => ?_⟩
    refine ⟨hdescribed.derived, ?_⟩
    rintro ⟨x, hx, hderived⟩
    have hcovers := hcovered hclosed r hr d (List.mem_append_left _ hvalue)
    exact htext ▸ Table.reveals_of_showsType (hcovered hclosed) hcovers hshown hx hderived _
  · obtain ⟨target, scope, s', d, shown, htarget, hrun, hd, hshown, rfl⟩ := exists_run_of_hover hparse h
    obtain rfl : s = s' := congrArg Prod.snd hrun
    have hname : ∀ x, target.name = some x → K x ∧ (x = "prototype" → L) := by
      intro x hx
      have hmem := Node.hoverTarget?_mem htarget hx
      exact ⟨hknows.identifiers x hmem, fun h => hknows.prototype (h ▸ hmem)⟩
    have hfront : Unmarked (target.name.getD "") := by
      cases hx : target.name with
      | none => exact by decide
      | some x => exact hunmarked x (hname x hx).1
    have hsep : Unmarked " :: " := by decide
    have htype := hworded.table.type_of_resolve? (fun hx => (hname _ hx).2 rfl) hd
    have hdescribed := Table.described hunmarked hworded.table htype (hfront.append hsep) hshown
    refine ⟨target, d, htarget, hd, hdescribed, fun hclosed => ⟨hdescribed.derived, ?_⟩⟩
    rintro ⟨x, hx, hderived⟩
    have hcovers := (hcovered hclosed).covers_of_resolve? hd
    exact Table.reveals_of_showsType (hcovered hclosed) hcovers hshown hx hderived _

/-! ### A prototype object as a value -/

/-- A constructor, a variable with the value of a member of it, and the variable again. The name of the
member has nine letters. -/
def memberSource (member : String) : String :=
  "function Foo()\x7b\x7d var link=Foo." ++ member ++ ";link"

/-- The tree of `memberSource`. -/
def memberProgram (member : String) : Json :=
  let node (type : String) (start stop : Int) (fields : List (String × Json)) : Json :=
    .obj (("type", .str type) :: ("range", .arr [.int start, .int stop]) :: fields)
  let identifier (name : String) (start stop : Int) : Json :=
    node "Identifier" start stop [("name", .str name)]
  node "Program" 0 44 [("body", .arr [
    node "FunctionDeclaration" 0 16 [("id", identifier "Foo" 9 12), ("params", .arr []),
      ("body", node "BlockStatement" 14 16 [("body", .arr [])])],
    node "VariableDeclaration" 17 40 [("declarations", .arr [
      node "VariableDeclarator" 21 39 [("id", identifier "link" 21 25),
        ("init", node "MemberExpression" 26 39 [("object", identifier "Foo" 26 29),
          ("property", identifier member 30 39)])]])],
    node "ExpressionStatement" 40 44 [("expression", identifier "link" 40 44)]])]

/-- An assistant for this program alone. -/
def memberAssistant (member : String) : Assistant :=
  ⟨⟨fun _ => .ok (memberProgram member), fun _ => .ok []⟩, none⟩

/-- Without an identifier `prototype` there is no internal name in the proposal for the variable. -/
theorem internal_names_hidden_arguments :
    let a := memberAssistant "arguments"
    let source := memberSource "arguments"
    let root := Node.root (memberProgram "arguments")
    let t := (run ⟨source, some 44, a.index?⟩ root (.start localName)).2.env.types
    (a.proposals source 44 "link").1.toOption.map (·.map (·.description)) = some ["link : Object"] ∧
      ∀ ps events, a.proposals source 44 "link" = (.ok ps, events) →
        ∀ p ∈ ps, ¬ t.Reveals p.description := by
  have hknows : Knows Unmarked False ⟨memberSource "arguments", some 44, none⟩
      (.root (memberProgram "arguments")) := by
    refine ⟨unmarked_catalog, by decide +kernel, by decide +kernel, ?_⟩
    rintro m (⟨⟨⟩⟩ | ⟨⟨⟩⟩)
  refine ⟨by decide +kernel, fun ps events h p hp => ?_⟩
  obtain ⟨_, _, _, -, -, -, hdescribed, -⟩ := (internal_names_revealed_iff
    (memberAssistant "arguments") rfl (fun _ h => h) hknows (by decide +kernel)).1
    "link" ps events h p hp
  exact hdescribed.hidden id

/-- **A prototype object that is the value of a variable**: the identifiers of the program are
unmarked, and both the proposal for the variable and its hover contain the name of the record. -/
theorem prototype_link_revealed :
    let a := memberAssistant "prototype"
    let source := memberSource "prototype"
    let root := Node.root (memberProgram "prototype")
    let t := (run ⟨source, some 44, none⟩ root (.start localName)).2.env.types
    (∀ x ∈ root.identifiers, Unmarked x) ∧
      (a.proposals source 44 "link").1.toOption.map (·.map (·.description)) =
        some ["link : ?Foo:~proto"] ∧
      (a.hover source 44).1.toOption = some (some "link :: ?Foo:~proto") ∧
      t.Reveals "link : ?Foo:~proto" ∧ t.Reveals "link :: ?Foo:~proto" := by
  have hkey : "?Foo:~proto" ∈ (run ⟨memberSource "prototype", some 44, none⟩
      (.root (memberProgram "prototype")) (.start localName)).2.env.types.keys := by decide +kernel
  refine ⟨by decide +kernel, by decide +kernel, by decide +kernel, ?_, ?_⟩
  · exact ⟨_, hkey, by decide, by decide⟩
  · exact ⟨_, hkey, by decide, by decide⟩

end ContentAssist
