import ContentAssist.Proofs.Inference.FreshNames
import ContentAssist.Proofs.Inference.GlobalWrites
import ContentAssist.Proofs.Inference.Intact
import ContentAssist.Proofs.Record.Pruning
import ContentAssist.Proofs.Summary.Import

/-! # What a global script exports

A file that is no module exports its global record, from which every member is taken out that has the name
of a global of the catalog, whoever has bound it. What is left is what the program has written under other
names. The record itself stays in the table, so it is handed on as well if something refers to it; no other
kind of file hands it on. Builtin records are never handed on.

* `member?_withoutGlobals`, `withoutGlobals_attachPath`: taking out the globals of the catalog;
* `exists_run_of_summary`: the run that a summary is made from;
* `exported_globals`: the members that a global script provides;
* `exported_types`: the builtin and the global records among those handed on. -/

namespace ContentAssist

open Catalog (globalName)
open Inference (State WritesGlobally run)

variable {r : Record} {t t' : Table} {x : Name} {n file source : String} {type : Ty}

/-! ### Taking out the globals of the catalog -/

/-- The names of the globals of the catalog. -/
def Catalog.globalNames : List Name := globalMembers.map fun m => some m.1

theorem undefine_attachPath (r : Record) (x : Name) (file : String) :
    (r.attachPath file).undefine x = (r.undefine x).attachPath file := by
  unfold Record.undefine Record.attachPath OrderedMap.erase OrderedMap.mapValues
  rw [List.filter_map]
  rfl

/-- Whether a file is filled in before or after does not matter. -/
theorem withoutGlobals_attachPath (r : Record) (file : String) :
    Catalog.withoutGlobals (r.attachPath file) = (Catalog.withoutGlobals r).attachPath file := by
  have hfold : ∀ (members : List (String × String)) (r : Record),
      members.foldl (fun r m => r.undefine (some m.1)) (r.attachPath file) =
        (members.foldl (fun r m => r.undefine (some m.1)) r).attachPath file := by
    intro members
    induction members with
    | nil => exact fun _ => rfl
    | cons m members ih =>
      intro r
      rw [List.foldl_cons, List.foldl_cons, undefine_attachPath, ih]
  unfold Catalog.withoutGlobals
  rw [hfold]
  rfl

theorem member?_withoutGlobals (r : Record) (x : Name) :
    (Catalog.withoutGlobals r).member? x = if x ∈ Catalog.globalNames then none else r.member? x := by
  have hfold : ∀ (members : List (String × String)) (r : Record),
      (members.foldl (fun r m => r.undefine (some m.1)) r).member? x =
        if x ∈ members.map (fun m => some m.1) then none else r.member? x := by
    intro members
    induction members with
    | nil => exact fun _ => rfl
    | cons m members ih =>
      intro r
      rw [List.foldl_cons, ih, Record.member?_undefine]
      by_cases hx : x = some m.1
      · simp [hx]
      · have hmem : x ∈ (m :: members).map (fun m => some m.1) ↔ x ∈ members.map fun m => some m.1 := by
          rw [List.map_cons, List.mem_cons, or_iff_right hx]
        simp only [hmem, if_neg (Ne.symm hx)]
  exact hfold Catalog.globalMembers r

theorem binding?_catalog_eq_none (hx : x ∉ Catalog.globalNames) :
    Catalog.table.binding? globalName x = none := by
  have hkeys : (Catalog.members Catalog.globalMembers).keys = Catalog.globalNames := by
    unfold OrderedMap.keys Catalog.members Catalog.globalNames
    rw [List.map_map]
    rfl
  exact (Catalog.members Catalog.globalMembers).find?_eq_none_iff.2 (hkeys ▸ hx)

theorem member?_attachPath (r : Record) (file : String) (x : Name) :
    (r.attachPath file).member? x = (r.member? x).map (·.attachPath file) :=
  r.members.find?_mapValues _ x

/-- What a global script provides: the global record, with the file, without the globals of the catalog. -/
theorem provided_of_global (hr : t.find? globalName = some r) (hb : r.builtin = false) :
    (exportSummary t .global .global file).provided =
      .record ((Catalog.withoutGlobals r).attachPath file) := by
  have hprovided : providedRecord? t .global = some globalName := by
    unfold providedRecord? Ty.global
    dsimp only
    rw [show t.find? "Global" = some r from hr]
    simp [hb, globalName]
  have hfind : ((stamped t .global file).exportable .global).find? globalName =
      some (Catalog.withoutGlobals (r.attachPath file)) := by
    unfold stamped
    rw [hprovided]
    dsimp only
    unfold Table.exportable Catalog.clearGlobals
    rw [if_pos rfl, OrderedMap.find?_modify, if_pos rfl, OrderedMap.find?_modify, if_pos rfl, hr]
    rfl
  rw [exportSummary_provided, hprovided]
  dsimp only
  rw [if_pos rfl, hfind, withoutGlobals_attachPath]

/-! ### The run behind a summary -/

/-- A summary is that of the state in which a run ends. -/
theorem exists_run_of_summary {a : Assistant} {summary : Summary}
    (h : (a.summary source file).1 = .ok summary) :
    ∃ tree scope s, (parse a.parser source).1 = .ok tree ∧
      run ⟨source, none, a.index?⟩ (.root tree) (.start file) = (.ok scope, s) ∧
      summary = exportSummary s.env.types (exportedType s).1 (exportedType s).2 file := by
  unfold Assistant.summary withTree at h
  rcases hp : parse a.parser source with ⟨e | tree, log⟩ <;> rw [hp] at h
  · cases h
  · dsimp only at h
    rcases hrun : run ⟨source, none, a.index?⟩ (.root tree) (.start file) with ⟨fault | scope, s⟩ <;>
      rw [hrun] at h
    · cases h
    · cases h
      exact ⟨tree, scope, s, rfl, hrun, rfl⟩

/-! ### The members of a global script -/

/-- **A global script provides what it has written**, under names that the catalog does not have as
globals: with the type and the place that it has in the end, and with the file. -/
theorem exported_globals {parser : Parser} {summary : Summary}
    (h : ((⟨parser, none⟩ : Assistant).summary source file).1 = .ok summary)
    (hkind : summary.kind = .global) :
    ∃ tree scope s r, (parse parser source).1 = .ok tree ∧
      run ⟨source, none, none⟩ (.root tree) (.start file) = (.ok scope, s) ∧
      summary.provided = .record r ∧ ∀ x,
        ((r.member? x).isSome = true ↔
          x ∉ Catalog.globalNames ∧ WritesGlobally ⟨source, none, none⟩ (.root tree) file x) ∧
        ∀ d, r.member? x = some d →
          ∃ d₀, s.env.types.binding? globalName x = some d₀ ∧ d = d₀.attachPath file := by
  obtain ⟨tree, scope, s, hparse, hrun, rfl⟩ := exists_run_of_summary h
  have hkind : (exportedType s).2 = .global := hkind
  have hgrounded := Inference.grounded_of_run hrun
  obtain ⟨g, hg, hb⟩ := hgrounded.record
  refine ⟨tree, scope, s, (Catalog.withoutGlobals g).attachPath file, hparse, hrun, ?_, fun x => ?_⟩
  · rw [hkind, exportedType_global hkind]
    exact provided_of_global hg hb
  rw [member?_attachPath, member?_withoutGlobals, Table.binding?_of_find? hg, Option.isSome_map]
  constructor
  · constructor
    · intro hmember
      split at hmember
      · cases hmember
      · rename_i hx
        refine ⟨hx, Classical.byContradiction fun hwrites => ?_⟩
        -- a name that is not written is bound as in the catalog, that is, not at all
        have hcatalog := Inference.binding?_of_run rfl hrun hwrites
        rw [Table.binding?_of_find? hg, binding?_catalog_eq_none hx] at hcatalog
        rw [hcatalog] at hmember
        cases hmember
    · rintro ⟨hx, hwrites⟩
      rw [if_neg hx, Option.isSome_iff_ne_none, ← Table.binding?_of_find? hg]
      exact hgrounded.owns_iff.1 (Inference.owns_of_run rfl hrun hwrites)
  · intro d hd
    obtain ⟨d₀, hd₀, rfl⟩ := Option.map_eq_some_iff.1 hd
    split at hd₀
    · cases hd₀
    · exact ⟨d₀, hd₀, rfl⟩

/-- The tree of `var ⟨name⟩=⟨init⟩;`, where the name has four characters. -/
def globalTree (name : String) (init : Json) : Json :=
  .obj [("type", .str "Program"), ("body", .arr [.obj [("type", .str "VariableDeclaration"),
    ("declarations", .arr [.obj [("type", .str "VariableDeclarator"),
      ("id", .obj [("type", .str "Identifier"), ("name", .str name),
        ("range", .arr [.int 4, .int 8])]),
      ("init", init)]])]])]

/-- The tree of `var self=this;`. -/
def selfTree : Json := globalTree "self" (.obj [("type", .str "ThisExpression")])

/-- The tree of `var Math=1;`. -/
def mathTree : Json := globalTree "Math" (.obj [("type", .str "Literal"), ("value", .int 1)])

/-- The requests about a file that has the given tree. -/
def assistantOf (tree : Json) : Assistant := ⟨⟨fun _ => .ok tree, fun _ => .ok []⟩, none⟩

/-- The global record after `var self=this;`, as it is exported by a file `x`. -/
def selfRecord : Record :=
  { members := ⟨[(some "self", { type := .global, span := some ⟨4, 8⟩, path := some "x" })]⟩ }

theorem summary_selfTree : ((assistantOf selfTree).summary "var self=this;" "x").1 =
    .ok { provided := .record selfRecord, types := ⟨[(globalName, selfRecord)]⟩, kind := .global } := by
  decide +kernel

/-- The global `self` is exported, so it is one that the program writes. -/
theorem exported_globals_self :
    WritesGlobally ⟨"var self=this;", none, none⟩ (.root selfTree) "x" (some "self") := by
  obtain ⟨tree, scope, s, r, hparse, -, hprovided, hall⟩ := exported_globals summary_selfTree rfl
  cases hparse
  cases hprovided
  exact ((hall (some "self")).1.1 rfl).2

theorem summary_mathTree : ((assistantOf mathTree).summary "var Math=1;" "x").1 =
    .ok { provided := .record {} } := by
  decide +kernel

/-- The program binds `Math` anew, but does not export it. -/
theorem written_global_not_exported :
    ¬ ∀ (parser : Parser) (source file : String) (tree : Json) (summary : Summary) (r : Record),
        (parse parser source).1 = .ok tree →
        ((⟨parser, none⟩ : Assistant).summary source file).1 = .ok summary →
        summary.kind = .global → summary.provided = .record r →
        ∀ x, WritesGlobally ⟨source, none, none⟩ (.root tree) file x → (r.member? x).isSome = true := by
  intro h
  have hwrites : WritesGlobally ⟨"var Math=1;", none, none⟩ (.root mathTree) "x" (some "Math") := by
    by_contra hnot
    have hok : (run ⟨"var Math=1;", none, none⟩ (.root mathTree) (.start "x")).1 = .ok globalName := by
      decide +kernel
    have hend : (run ⟨"var Math=1;", none, none⟩ (.root mathTree) (.start "x")).2.env.types.binding?
        globalName (some "Math") ≠ Catalog.table.binding? globalName (some "Math") := by decide +kernel
    exact hend (Inference.binding?_of_run rfl (Prod.ext hok rfl) hnot)
  exact absurd (h _ _ _ mathTree _ _ rfl summary_mathTree rfl rfl _ hwrites) (by decide)

/-! ### The records that are handed on -/

/-- What is needed depends on what the records refer to. -/
theorem Table.Needed.of_references (h : t.Needed type n)
    (hrefs : ∀ m, (t'.find? m).map (·.references) = (t.find? m).map (·.references)) :
    t'.Needed type n := by
  have htransfer : ∀ {m k : String} {r : Record}, t.find? m = some r → k ∈ r.references →
      ∃ r', t'.find? m = some r' ∧ k ∈ r'.references := by
    intro m k r hr hk
    have hm := hrefs m
    rw [hr, Option.map_some] at hm
    obtain ⟨r', hr', heq⟩ := Option.map_eq_some_iff.1 hm
    exact ⟨r', hr', heq ▸ hk⟩
  induction h with
  | first h =>
    refine .first ?_
    cases type with
    | function result params => exact h
    | named name =>
      obtain ⟨r, hr, hn⟩ := h
      exact htransfer hr hn
  | step _ hr hm ih =>
    obtain ⟨r', hr', hm'⟩ := htransfer hr hm
    exact .step ih hr' hm'

/-- Filling in the file changes no reference. -/
theorem references_clearGlobals_stamped (t : Table) (type : Ty) (file n : String) :
    ((Catalog.clearGlobals (stamped t type file)).find? n).map (·.references) =
      ((Catalog.clearGlobals t).find? n).map (·.references) := by
  unfold Catalog.clearGlobals
  rw [OrderedMap.find?_modify, OrderedMap.find?_modify]
  rcases find?_stamped t type file n with hfind | hfind
  · rw [hfind]
  · rw [hfind]
    split <;> cases t.find? n <;> simp [withoutGlobals_attachPath]

theorem needed_clearGlobals_stamped {m : String} :
    (Catalog.clearGlobals (stamped t type file)).Needed type m ↔
      (Catalog.clearGlobals t).Needed type m :=
  ⟨fun h => h.of_references fun n => (references_clearGlobals_stamped t type file n).symm,
    fun h => h.of_references fun n => references_clearGlobals_stamped t type file n⟩

/-- A file hands the global record on only if it is no module and that record is needed. -/
theorem globalName_mem_types_iff {kind : SummaryKind} (hr : t.find? globalName = some r)
    (hb : r.builtin = false) : globalName ∈ (exportSummary t type kind file).types.keys ↔
      kind = .global ∧ (Catalog.clearGlobals t).Needed type globalName := by
  rw [exportSummary_types, OrderedMap.keys_mapValues]
  have hneeded : (Catalog.clearGlobals (stamped t type file)).Needed type globalName ↔
      (Catalog.clearGlobals t).Needed type globalName := needed_clearGlobals_stamped
  rw [← hneeded]
  by_cases hkind : kind = .global
  · have hexportable : (stamped t type file).exportable kind = Catalog.clearGlobals (stamped t type file) :=
      if_pos hkind
    rw [hexportable]
    constructor
    · intro hmem
      obtain ⟨r', hr'⟩ := OrderedMap.exists_find?_of_mem_keys _ hmem
      exact ⟨hkind, Table.needed_of_find?_keepReachable hr'⟩
    · rintro ⟨-, hneeded⟩
      obtain ⟨r₁, hr₁, hb₁⟩ : ∃ r₁, (stamped t type file).find? globalName = some r₁ ∧
          r₁.builtin = false := by
        rcases find?_stamped t type file globalName with hfind | hfind <;> rw [hfind, hr]
        · exact ⟨r, rfl, hb⟩
        · exact ⟨_, rfl, hb⟩
      refine OrderedMap.mem_keys_of_find? _ (Table.find?_keepReachable_of_needed hneeded ?_
        (r₁.from_withoutGlobals.builtin.trans hb₁))
      unfold Catalog.clearGlobals
      rw [OrderedMap.find?_modify, if_pos rfl, hr₁]
      rfl
  · refine iff_of_false (fun hmem => ?_) fun h => hkind h.1
    obtain ⟨e, he, hname⟩ := List.mem_map.1 hmem
    rw [Table.entries_keepReachable, List.mem_filter, Table.exportable, if_neg hkind] at he
    have hne := (List.mem_filter.1 he.1).2
    rw [hname] at hne
    simp at hne

/-- **Builtin records are never handed on**, for no kind of summary and whatever the index offers. The
global record is handed on exactly if the file is a global script and, the globals of the catalog taken
out, its members lead back to it. -/
theorem exported_types {a : Assistant} {summary : Summary}
    (h : (a.summary source file).1 = .ok summary) :
    (∀ n ∈ builtinNames, n ∉ summary.types.keys) ∧ (∀ r ∈ summary.types.values, r.builtin = false) ∧
      ∃ tree scope s, (parse a.parser source).1 = .ok tree ∧
        run ⟨source, none, a.index?⟩ (.root tree) (.start file) = (.ok scope, s) ∧
        (globalName ∈ summary.types.keys ↔
          summary.kind = .global ∧ (Catalog.clearGlobals s.env.types).Needed .global globalName) := by
  obtain ⟨tree, scope, s, hparse, hrun, rfl⟩ := exists_run_of_summary h
  have hreached := Inference.reached_run ⟨source, none, a.index?⟩ (.root tree) file
  rw [hrun] at hreached
  have hkeys := Environment.Operations.nodup_keys hreached.operations
  have hintact : s.env.types.Intact := by
    have hstart : (Environment.start file).types.Intact := Table.intact_catalog
    have hend := Inference.intact_run ⟨source, none, a.index?⟩ (.root tree) hstart
    rwa [hrun] at hend
  obtain ⟨g, hg, hb⟩ := (Inference.grounded_of_run hrun).record
  refine ⟨fun n hn hmem => ?_, fun r hr => ?_, tree, scope, s, hparse, hrun, ?_⟩
  · obtain ⟨r, hr⟩ := OrderedMap.exists_find?_of_mem_keys _ hmem
    obtain ⟨r₀, hr₀, -, hbuiltin⟩ := from_of_find?_types hkeys hr
    obtain ⟨r₁, hr₁, hb₁⟩ := hintact.exists_builtin hn
    cases hr₀.symm.trans hr₁
    rw [hbuiltin] at hb₁
    cases hb₁
  · rw [exportSummary_types] at hr
    obtain ⟨e, he, rfl⟩ := List.mem_map.1 hr
    obtain ⟨e₀, he₀, rfl⟩ := List.mem_map.1 he
    rw [Table.entries_keepReachable, List.mem_filter, decide_eq_true_iff] at he₀
    exact he₀.2.2
  · rw [globalName_mem_types_iff hg hb]
    refine and_congr_right fun hkind => ?_
    rw [exportedType_global hkind]

/-- The script `var self=this;` hands the global record on, for that leads back to itself, and nothing
else. -/
theorem exported_types_self :
    ∃ scope s, run ⟨"var self=this;", none, none⟩ (.root selfTree) (.start "x") = (.ok scope, s) ∧
      (Catalog.clearGlobals s.env.types).Needed .global globalName := by
  obtain ⟨-, -, tree, scope, s, hparse, hrun, hglobal⟩ := exported_types summary_selfTree
  cases hparse
  exact ⟨scope, s, hrun, (hglobal.1 List.mem_cons_self).2⟩

theorem global_record_exported :
    ¬ ∀ (a : Assistant) (source file : String) (summary : Summary),
        (a.summary source file).1 = .ok summary → globalName ∉ summary.types.keys :=
  fun h => h _ _ _ _ summary_selfTree List.mem_cons_self

end ContentAssist
