import ContentAssist.Proofs.Inference.Sound
import ContentAssist.Proofs.Summary.Export

/-! # Export followed by import

What a module exports is found again where its summary is taken over: an access path from the
provided type leads to the same types as in the environment of the module, and the definitions on it
are those of the module, with its file. The names that the paths can meet are the needed ones and
those that the types of builtin records are made of; on these the two tables agree.

* `covers_exportedType`: an exported type is covered;
* `agree_of_export`: the table of the module and that of the importing file agree;
* `access_of_import`: export followed by import. -/

namespace ContentAssist

open Catalog (globalName)
open Environment (Alike)
open Inference (State Task run applySummary)
open Table (Agree Covers Made Matches Paired Reached)

variable {t t' : Table} {type : Ty} {kind : SummaryKind} {file uid n : String} {r : Record}

/-! ### Exported types -/

theorem covers_typeOf {s : State} (h : Inference.Sound s) (node : Node) :
    s.env.types.Covers (s.typeOf node) := by
  unfold State.typeOf State.fact
  cases ht : (s.facts.at node.place).type with
  | none => exact h.env.covers_object
  | some t => exact h.fact _ _ ht

theorem covers_exportedType {s : State} (h : Inference.Sound s) :
    s.env.types.Covers (exportedType s).1 := by
  unfold exportedType
  split
  · dsimp only
    cases hlast : (_ : List Node).getLast? with
    | none => exact h.env.covers_object
    | some node => exact (covers_typeOf h node).result
  · exact covers_typeOf h _
  · split
    · rename_i d hd
      obtain ⟨r, hr, hmember⟩ := Option.bind_eq_some_iff.1 hd
      exact (h.env.table.definitions hr
        (List.mem_append_left _ (r.members.mem_values_of_find? hmember))).type
    · exact Table.covers_named h.env.table.globals

theorem exportedType_global {s : State} (h : (exportedType s).2 = .global) :
    (exportedType s).1 = .global := by
  unfold exportedType at h ⊢
  split at h
  · cases h
  · cases h
  · split at h
    · cases h
    · rfl

theorem kind_ne_global_of_not_reached {s : State}
    (h : ¬ s.env.types.Reached (exportedType s).1 globalName) : (exportedType s).2 ≠ .global := by
  intro hkind
  refine h (.first ?_)
  rw [exportedType_global hkind]
  exact List.mem_singleton_self _

/-! ### The names that paths meet -/

/-- What a covered type leads to, some covered type refers to. -/
theorem exists_covered_of_reached (hs : Table.Sound file t) (ht : t.Covers type)
    (hn : t.Reached type n) : ∃ x, t.Covers x ∧ n ∈ x.references := by
  cases hn with
  | first h => exact ⟨type, ht, h⟩
  | step _ hr hm =>
    obtain ⟨d, hd, hm⟩ := List.mem_flatMap.1 hm
    exact ⟨d.type, (hs.definitions hr hd).type, hm⟩

theorem not_generated_of_reached (hs : Table.Sound file t) (ht : t.Covers type)
    (huid : uid ≠ file) (hn : t.Reached type n) : ¬ IsGeneratedFor uid n := by
  obtain ⟨x, hx, href⟩ := exists_covered_of_reached hs ht hn
  exact not_generated_of_reference (hs.known_leaf hx) href huid

theorem not_generated_of_standard {bases : List String} (hsub : bases ⊆ catalogNames)
    (hn : IsDerivedFrom bases n) : ¬ IsGeneratedFor uid n := by
  intro hgen
  obtain ⟨base, hbase, hn⟩ := hn
  exact own_not_standard (Or.inl hgen) ⟨base, hsub hbase, hn⟩

/-- The names that the types of builtin records are made of, with those derived from them. -/
abbrev IsBuiltinName (n : String) : Prop := IsDerivedFrom builtinAtoms n

theorem globalName_not_builtinName : ¬ IsBuiltinName globalName := by
  rintro ⟨base, hbase, hn⟩
  have hnot : globalName ∉ builtinAtoms := by decide +kernel
  have hglobal : globalName ∈ catalogNames := by decide +kernel
  rw [isBase_of_mem_derivedNames hn (isBase_of_mem_catalogNames hglobal)] at hnot
  exact hnot hbase

/-- Such names are those of builtin records, or there is no record of them. -/
theorem builtin_of_builtinName (hs : Table.Sound file t) (hn : IsBuiltinName n)
    (hr : t.find? n = some r) : n ∈ builtinNames := by
  rcases hs.made n r hr with h | ⟨rfl | hown, -⟩
  · exact h
  · exact absurd hn globalName_not_builtinName
  · obtain ⟨base, hbase, hn⟩ := hn
    exact absurd ⟨base, builtinAtoms_subset hbase, hn⟩ (own_not_standard hown)

/-- The names that an access path from an exported type can meet. -/
def IsMet (t : Table) (type : Ty) (kind : SummaryKind) (file n : String) : Prop :=
  ((stamped t type file).exportable kind).Needed type n ∨ IsBuiltinName n

/-- How definitions are handed on: those of builtin records as they are, any other with its file. -/
def IsHandedOn (file owner : String) (d d' : Definition) : Prop :=
  owner ∈ builtinNames ∧ d' = d ∨ owner ∉ builtinNames ∧ d' = { d with path := some file }

/-! ### Agreement -/

theorem matches_builtin (hn : n ∈ builtinNames) (r : Record) :
    Matches (IsHandedOn file n) r r := by
  intro name
  cases Table.answer? r name with
  | none => exact .none
  | some d => exact .some (Or.inl ⟨hn, rfl⟩)

theorem matches_attachPath (hn : n ∉ builtinNames) (hmade : Made t r) :
    Matches (IsHandedOn file n) r (r.attachPath file) := by
  intro name
  rw [Record.answer?_attachPath]
  cases hd : Table.answer? r name with
  | none => exact .none
  | some d =>
    refine .some (Or.inr ⟨hn, ?_⟩)
    have hpath := (hmade.definitions (Record.mem_definitions_of_answer? hd)).path
    simp [Definition.attachPath, hpath]

section Agreement
variable (hs : Table.Sound file t) (htype : t.Covers type) (hkind : kind ≠ .global)
  (hglobal : ¬ t.Reached type globalName) (huid : uid ≠ file)
include hs hkind hglobal

/-- What the importing table has, where it has the catalog and the records of the summary behind it.
-/
theorem rel_of_needed {n : String} (hn : ((stamped t type file).exportable kind).Needed type n) :
    Option.Rel (Matches (IsHandedOn file n)) (t.find? n)
      ((Catalog.table.find? n).or ((exportSummary t type kind file).types.find? n)) := by
  have hne := ne_globalName_of_reached hglobal (reached_of_needed hkind hn)
  by_cases hcat : n ∈ builtinNames
  · rw [hs.builtin n hcat]
    obtain ⟨r, hr⟩ := Catalog.table.exists_find?_of_mem_keys (mem_catalog_keys_iff.2 (Or.inr hcat))
    rw [hr]
    exact .some (matches_builtin hcat r)
  · have hnone : Catalog.table.find? n = none := by
      rw [OrderedMap.find?_eq_none_iff, mem_catalog_keys_iff]
      rintro (h | h)
      · exact hne h
      · exact hcat h
    rw [hnone, find?_exportSummary_types hkind hs.keys hne hn]
    cases hr : t.find? n with
    | none => exact .none
    | some r =>
      have hmade := hs.made_of_not_builtin hcat hr
      simp only [Option.filter, hmade.builtin, Bool.not_false, ↓reduceIte, Option.or,
        Option.map_some]
      exact .some (matches_attachPath hcat hmade)

omit hkind hglobal in
theorem rel_of_builtinName {n : String} (hn : IsBuiltinName n) :
    Option.Rel (Matches (IsHandedOn file n)) (t.find? n)
      ((Catalog.table.find? n).or ((exportSummary t type kind file).types.find? n)) := by
  by_cases hcat : n ∈ builtinNames
  · rw [hs.builtin n hcat]
    obtain ⟨r, hr⟩ := Catalog.table.exists_find?_of_mem_keys (mem_catalog_keys_iff.2 (Or.inr hcat))
    rw [hr]
    exact .some (matches_builtin hcat r)
  · have hnone : t.find? n = none := by
      cases hr : t.find? n with
      | none => rfl
      | some r => exact absurd (builtin_of_builtinName hs hn hr) hcat
    have hcatalog : Catalog.table.find? n = none := by
      rw [OrderedMap.find?_eq_none_iff]
      intro h
      exact (t.find?_eq_none_iff.1 hnone) (hs.mem_keys_of_catalog h)
    have htypes : (exportSummary t type kind file).types.find? n = none := by
      cases hr : (exportSummary t type kind file).types.find? n with
      | none => rfl
      | some r =>
        obtain ⟨r₀, hr₀, -⟩ := from_of_find?_types hs.keys hr
        cases hnone.symm.trans hr₀
    rw [hnone, hcatalog, htypes]
    exact .none

include htype huid

/-- **The tables agree**: that of the module with any that has the catalog first and the records of
the summary behind it, names generated for its own file apart. -/
theorem agree_of_export (hfind : ∀ n, ¬ IsGeneratedFor uid n → t'.find? n =
      (Catalog.table.find? n).or ((exportSummary t type kind file).types.find? n)) :
    Agree t t' (IsMet t type kind file) (IsHandedOn file) where
  records := by
    rintro n (hn | hn)
    · rw [hfind n (not_generated_of_reached hs htype huid (reached_of_needed hkind hn))]
      exact rel_of_needed hs hkind hglobal hn
    · rw [hfind n (not_generated_of_standard builtinAtoms_subset hn)]
      exact rel_of_builtinName hs hn
  closed := by
    rintro n r (hn | hn) hr m hm
    · exact Or.inl (needed_of_reference hkind hglobal hn hr hm)
    · have hcat := builtin_of_builtinName hs hn hr
      rw [hs.builtin n hcat] at hr
      obtain ⟨d, hd, hm⟩ := List.mem_flatMap.1 hm
      obtain ⟨base, hbase, hatom⟩ := atom?_of_builtin hcat hr hd
      exact Or.inr ⟨base, hbase, mem_derivedNames_of_atom? hatom hm⟩
  type := by
    rintro n d d' (⟨-, rfl⟩ | ⟨-, rfl⟩) <;> rfl

end Agreement

/-! ### The provided type -/

/-- An exported type that is handed on as a type refers to names that paths can meet. -/
theorem isMet_of_provided_type (hs : Table.Sound file t) (htype : t.Covers type)
    (hp : providedRecord? t type = none) {m : String} (hm : m ∈ type.references) :
    IsMet t type kind file m := by
  cases type with
  | function r params => exact Or.inl (.first hm)
  | named name =>
    right
    rw [List.mem_singleton.1 hm]
    rcases htype with hkey | hbool
    · obtain ⟨r, hr⟩ := t.exists_find?_of_mem_keys hkey
      unfold providedRecord? at hp
      dsimp only at hp
      rw [show t.find? name = some r from hr] at hp
      dsimp only at hp
      split at hp
      · rename_i hb
        by_cases hcat : name ∈ builtinNames
        · exact isDerivedFrom_self (List.mem_cons_of_mem _ hcat)
        · rw [(hs.made_of_not_builtin hcat hr).builtin] at hb
          cases hb
      · cases hp
    · exact isDerivedFrom_self (List.mem_cons.2 (Or.inl hbool))

/-- The record that an importing file makes answers as the stamped record does. -/
theorem matches_overlay (hn : n ∉ builtinNames) (hmade : Made t r) :
    Matches (IsHandedOn file n) r
      (Environment.overlay { proto := some { type := .object } } (r.attachPath file)) := by
  intro name
  have hkeys : (r.attachPath file).members.keys.Nodup := by
    rw [keys_attachPath]
    exact hmade.keys
  have hanswer : Table.answer? (Environment.overlay { proto := some { type := .object } }
      (r.attachPath file)) name = Table.answer? (r.attachPath file) name := by
    rw [Record.answer?_overlay hkeys]
    by_cases hname : name = some "prototype"
    · subst hname
      obtain ⟨p, hp⟩ := Option.isSome_iff_exists.1 hmade.proto
      rw [Record.answer?_attachPath, Record.answer?_prototype, hp]
      rfl
    · have hfresh : Table.answer? { proto := some { type := .object } } name = none := by
        unfold Table.answer?
        rw [if_neg hname]
        rfl
      rw [hfresh, Option.or_none]
  rw [hanswer]
  exact matches_attachPath hn hmade name

/-- The types on the two sides of an export: they are the same, or they are the exported type and the
one that it is provided as. -/
def SameType (exported provided x x' : Ty) : Prop := x' = x ∨ x = exported ∧ x' = provided

/-- The definitions on the two sides of an export: those of builtin records are the same, and those of
the file itself have the same type and place, and carry the file. -/
def SameDefinition (file : String) (x x' : String × Definition) : Prop :=
  if x.1 ∈ builtinNames then x' = x else x'.2 = { x.2 with path := some file }

/-- Export followed by import, of a table and an exported type. -/
theorem access_of_export {env : Environment} (hs : Table.Sound file env.types)
    (htype : env.types.Covers type) (hkind : kind ≠ .global)
    (hglobal : ¬ env.types.Reached type globalName) (huid : uid ≠ file) :
    let imported := applySummary { env := .start uid } (exportSummary env.types type kind file)
    ∃ P, (∀ n n', P n n' → type = .named n ∧ imported.1 = .named n' ∧ n ∉ builtinNames ∧
        ∃ r r', Paired env.types imported.2.env.types (IsMet env.types type kind file)
          (IsHandedOn file n) n n' r r') ∧
      Agree env.types imported.2.env.types (IsMet env.types type kind file) (IsHandedOn file) ∧
      Alike (IsMet env.types type kind file) P type imported.1 := by
  dsimp only
  cases hp : providedRecord? env.types type with
  | none =>
    have hprovided : (exportSummary env.types type kind file).provided = .type type := by
      rw [exportSummary_provided, hp]
    obtain ⟨hfst, -⟩ := applySummary_type { env := .start uid } _ hprovided
    refine ⟨fun _ _ => False, fun _ _ h => h.elim, ?_, ?_⟩
    · exact agree_of_export hs htype hkind hglobal huid fun n hn =>
        find?_applySummary { env := .start uid } _ hn
    · rw [hfst]
      exact .same fun m hm => isMet_of_provided_type hs htype hp hm
  | some n =>
    obtain ⟨r, hr, rfl, hprovided, hrefs⟩ := @provided_of_providedRecord? _ _ _ file _ hkind hglobal hp
    obtain ⟨-, r₀, hr₀, hb⟩ := find?_of_providedRecord? hp
    cases hr.symm.trans hr₀
    have hn : n ∉ builtinNames := by
      intro hcat
      rw [hs.builtin_eq_true hcat hr] at hb
      cases hb
    obtain ⟨hfst, hfind⟩ := applySummary_record { env := .start uid } _ hprovided
    refine ⟨fun k k' => k = n ∧ k' = Ty.generatedName uid 0, ?_, ?_, ?_⟩
    · rintro k k' ⟨rfl, rfl⟩
      refine ⟨rfl, hfst, hn, r, _, hr, (hfind _).trans (if_pos rfl), ?_, ?_⟩
      · exact matches_overlay hn (hs.made_of_not_builtin hn hr)
      · exact fun m hm => Or.inl (hrefs m hm)
    · exact agree_of_export hs htype hkind hglobal huid fun k hk =>
        find?_applySummary { env := .start uid } _ hk
    · rw [hfst]
      exact .pair ⟨rfl, rfl⟩

theorem sameDefinition_of_sameOrigin {R : String → Prop} {P : String → String → Prop}
    (hP : ∀ n n', P n n' → n ∉ builtinNames) {x x' : String × Definition}
    (h : Environment.SameOrigin R (IsHandedOn file) P x x') : SameDefinition file x x' := by
  unfold SameDefinition
  rcases h.alike with ⟨hb, heq⟩ | ⟨hb, heq⟩
  · rw [if_pos hb]
    exact Prod.ext (h.owner.resolve_right fun hp => hP _ _ hp hb) heq
  · rw [if_neg hb]
    exact heq

/-- The summary of a file whose inference ends in the state `s`. -/
theorem summary_of_run {parser : Parser} {source scope : String} {tree : Json} {s : State}
    (hparse : (parse parser source).1 = .ok tree)
    (hrun : run ⟨source, none, none⟩ (.root tree) (.start file) = (.ok scope, s)) :
    ((⟨parser, none⟩ : Assistant).summary source file).1 =
      .ok (exportSummary s.env.types (exportedType s).1 (exportedType s).2 file) := by
  unfold Assistant.summary withTree
  dsimp only
  rcases hp : parse parser source with ⟨_ | tree', log⟩
  · rw [hp] at hparse
    cases hparse
  · rw [hp] at hparse
    cases hparse
    dsimp only
    rw [hrun]

/-- **Export followed by import.** Let a file be summarised without an index whose exported type does
not lead to the global record. In any file with another name an access path from the type that the
summary provides leads to the same types as in the environment of the exporting file, and finds the
same definitions: those of the file itself have their place and carry the file. -/
theorem access_of_import {parser : Parser} {source scope : String} {tree : Json} {s : State}
    (hparse : (parse parser source).1 = .ok tree)
    (hrun : run ⟨source, none, none⟩ (.root tree) (.start file) = (.ok scope, s))
    (hglobal : ¬ s.env.types.Reached (exportedType s).1 globalName) (huid : uid ≠ file) :
    ∃ summary, ((⟨parser, none⟩ : Assistant).summary source file).1 = .ok summary ∧
      ∃ provided s', applySummary { env := .start uid } summary = (provided, s') ∧
        (∀ path, Option.Rel (SameType (exportedType s).1 provided)
          (s.env.follow? (exportedType s).1 path) (s'.env.follow? provided path)) ∧
        ∀ path x x', s.env.follow? (exportedType s).1 path = some x →
          s'.env.follow? provided path = some x' → ∀ name,
            Option.Rel (SameDefinition file) (s.env.origin? x name) (s'.env.origin? x' name) := by
  obtain ⟨hsound, hs⟩ := Inference.sound_of_run hrun
  obtain ⟨P, hP, hagree, halike⟩ := access_of_export hs (covers_exportedType hsound)
    (kind_ne_global_of_not_reached hglobal) hglobal huid
  have hfunction : IsMet s.env.types (exportedType s).1 (exportedType s).2 file "Function" :=
    Or.inr (isDerivedFrom_self (by decide +kernel))
  have hpairs := fun n n' h => (hP n n' h).2.2.2
  have hfollow := Environment.rel_follow? hagree hfunction hpairs halike
  refine ⟨_, summary_of_run hparse hrun, _, _, rfl, fun path => ?_, ?_⟩
  · refine Environment.rel_map (hfollow path) fun x x' hx => ?_
    cases hx with
    | same h => exact Or.inl rfl
    | pair h =>
      obtain ⟨hexported, hprovided, -⟩ := hP _ _ h
      exact Or.inr ⟨hexported.symm, hprovided.symm⟩
  · intro path x x' hx hx' name
    obtain ⟨y, hy, hxy⟩ := Table.exists_of_rel_some (hfollow path) hx
    cases hy.symm.trans hx'
    exact Environment.rel_map (Environment.rel_origin? hagree hfunction hpairs hxy name)
      fun _ _ => sameDefinition_of_sameOrigin fun n n' h => (hP n n' h).2.2.1

theorem not_reached_globalName (hs : Table.Sound file t) (hr : t.find? n = some r)
    (hn : n ≠ globalName) (hrefs : ∀ m ∈ r.references, IsBuiltinName m) :
    ¬ t.Reached (.named n) globalName := by
  have hall : ∀ k, t.Reached (.named n) k → k = n ∨ IsBuiltinName k := by
    intro k hk
    induction hk with
    | first h => exact Or.inl (List.mem_singleton.1 h)
    | @step k m q _ hq hm ih =>
      right
      rcases ih with rfl | hk
      · cases hr.symm.trans hq
        exact hrefs m hm
      · have hcat := builtin_of_builtinName hs hk hq
        rw [hs.builtin k hcat] at hq
        obtain ⟨d, hd, hm⟩ := List.mem_flatMap.1 hm
        obtain ⟨base, hbase, hatom⟩ := atom?_of_builtin hcat hq hd
        exact ⟨base, hbase, mem_derivedNames_of_atom? hatom hm⟩
  intro h
  rcases hall _ h with h | h
  · exact hn h.symm
  · exact globalName_not_builtinName h

/-- An identifier. -/
def identifierTree (name : String) : Json :=
  .obj [("type", .str "Identifier"), ("name", .str name)]

/-- The statement that assigns one expression to another one. -/
def assignmentTree (left right : Json) : Json :=
  .obj [("type", .str "ExpressionStatement"),
    ("expression", .obj [("type", .str "AssignmentExpression"), ("operator", .str "="),
      ("left", left), ("right", right)])]

/-- A file that exports an object with one member. -/
def exportingTree : Json :=
  .obj [("type", .str "Program"), ("body", .arr [
    assignmentTree (identifierTree "exports") (.obj [("type", .str "ObjectExpression"),
      ("properties", .arr [.obj [("type", .str "Property"), ("key", identifierTree "a"),
        ("value", .obj [("type", .str "Literal"), ("value", .int 1)])]])])])]

/-- A parser that reads this file whatever the text. -/
def exportingParser : Parser := ⟨fun _ => .ok exportingTree, fun _ => .ok []⟩

/-- The member is found in a file that takes the summary over. -/
theorem access_of_import_member :
    ∃ summary, ((⟨exportingParser, none⟩ : Assistant).summary "" "m").1 = .ok summary ∧
      ∃ provided s', applySummary { env := .start "local" } summary = (provided, s') ∧
        s'.env.lookup? (some "a") (some provided) = some .number := by
  have hok : (run ⟨"", none, none⟩ (.root exportingTree) (.start "m")).1.toOption =
    some "Global" := by decide +kernel
  have htype : (exportedType (run ⟨"", none, none⟩ (.root exportingTree) (.start "m")).2).1 =
    .named "gen~m~2" := by decide +kernel
  have hrefs : ((run ⟨"", none, none⟩ (.root exportingTree) (.start "m")).2.env.types.find?
    "gen~m~2").map (·.references) = some ["Number", "Object"] := by decide +kernel
  have hmember : (run ⟨"", none, none⟩ (.root exportingTree) (.start "m")).2.env.follow?
    (.named "gen~m~2") [.member (some "a")] = some .number := by decide +kernel
  rcases hrun : run ⟨"", none, none⟩ (.root exportingTree) (.start "m") with ⟨_ | scope, s⟩
  · rw [hrun] at hok
    cases hok
  · rw [hrun] at htype hrefs hmember
    obtain ⟨r, hr, hr'⟩ := Option.map_eq_some_iff.1 hrefs
    have hglobal : ¬ s.env.types.Reached (exportedType s).1 globalName := by
      rw [htype]
      refine not_reached_globalName (Inference.sound_of_run hrun).2 hr (by decide) fun m hm => ?_
      rw [hr'] at hm
      refine isDerivedFrom_self ?_
      revert m
      decide +kernel
    obtain ⟨summary, hsummary, provided, s', happly, hfollow, -⟩ :=
      @access_of_import "m" "local" exportingParser "" scope exportingTree s rfl hrun hglobal
        (by decide)
    refine ⟨summary, hsummary, provided, s', happly, ?_⟩
    obtain ⟨x, hx, hsame⟩ := Table.exists_of_rel_some (hfollow [.member (some "a")])
      (htype ▸ hmember)
    have hnumber : x = .number := by
      rcases hsame with h | ⟨h, -⟩
      · exact h
      · rw [htype] at h
        exact absurd (Ty.named.inj h) (by decide)
    rw [hnumber] at hx
    simpa [Environment.follow?, Environment.access?] using hx

end ContentAssist
