import ContentAssist.Assist
import ContentAssist.Proofs.Environment.Sound
import ContentAssist.Proofs.Record.Reachable
import ContentAssist.Proofs.Summary.Access

/-! # What a summary hands on

The records of a summary are those of the table, with the file filled in: stamping, clearing the
global record and pruning neither add definitions nor change their types. `applySummary` puts them
behind the records that an environment has already.

* `find?_exportSummary_types`, `provided_of_providedRecord?`: what a module exports;
* `from_of_find?_types`, `provided_cases`: where the records of any summary come from;
* `applySummary_record`, `applySummary_type`, `find?_applySummary`: what an environment then holds. -/

namespace ContentAssist

open Catalog (globalName)

/-! ### Stamped records -/

section Stamps
variable {r : Record} {d : Definition} {file : String}

theorem Definition.attachPath_attachPath (d : Definition) (file : String) :
    (d.attachPath file).attachPath file = d.attachPath file := by
  unfold Definition.attachPath
  cases d.path <;> rfl

theorem Record.attachPath_attachPath (r : Record) (file : String) :
    (r.attachPath file).attachPath file = r.attachPath file := by
  unfold Record.attachPath OrderedMap.mapValues
  simp only [List.map_map, Option.map_map, Function.comp_def, Definition.attachPath_attachPath]

theorem Record.definitions_attachPath (r : Record) (file : String) :
    (r.attachPath file).definitions = r.definitions.map (·.attachPath file) := by
  unfold Record.definitions Record.attachPath OrderedMap.mapValues OrderedMap.values
  simp only [List.map_map, List.map_append, Function.comp_def]
  cases r.proto <;> rfl

@[simp] theorem Record.references_attachPath (r : Record) (file : String) :
    (r.attachPath file).references = r.references := by
  unfold Record.references
  rw [Record.definitions_attachPath, List.flatMap_map]
  rfl

theorem keys_attachPath (r : Record) (file : String) :
    (r.attachPath file).members.keys = r.members.keys := r.members.keys_mapValues _

/-- What a record defines comes from another record: the types of its definitions are types of the
other one's. -/
structure Record.From (r r' : Record) : Prop where
  builtin : r.builtin = r'.builtin
  types : ∀ d ∈ r.definitions, ∃ d' ∈ r'.definitions, d'.type = d.type

theorem Record.From.refl (r : Record) : Record.From r r := ⟨rfl, fun d hd => ⟨d, hd, rfl⟩⟩

theorem Record.From.trans {r₁ r₂ r₃ : Record} (h : Record.From r₁ r₂) (h' : Record.From r₂ r₃) :
    Record.From r₁ r₃ := by
  refine ⟨h.builtin.trans h'.builtin, fun d hd => ?_⟩
  obtain ⟨d', hd', ht⟩ := h.types d hd
  obtain ⟨e, he, ht'⟩ := h'.types d' hd'
  exact ⟨e, he, ht'.trans ht⟩

theorem Record.from_attachPath (r : Record) (file : String) : Record.From (r.attachPath file) r := by
  refine ⟨rfl, fun d hd => ?_⟩
  rw [Record.definitions_attachPath] at hd
  obtain ⟨d', hd', rfl⟩ := List.mem_map.1 hd
  exact ⟨d', hd', rfl⟩

theorem Record.from_undefine (r : Record) (name : Name) : Record.From (r.undefine name) r := by
  refine ⟨rfl, fun d hd => ⟨d, ?_, rfl⟩⟩
  rcases List.mem_append.1 hd with hd | hd
  · obtain ⟨e, he, rfl⟩ := List.mem_map.1 hd
    exact List.mem_append_left _ (List.mem_map.2 ⟨e, List.mem_of_mem_filter he, rfl⟩)
  · exact List.mem_append_right _ hd

theorem Record.from_undefineAll (names : List (String × String)) (r : Record) :
    Record.From (names.foldl (fun r m => r.undefine (some m.1)) r) r := by
  induction names generalizing r with
  | nil => exact Record.From.refl r
  | cons m names ih => exact (ih _).trans (r.from_undefine _)

theorem Record.from_unlink (r : Record) : Record.From { r with proto := none } r := by
  refine ⟨rfl, fun d hd => ⟨d, ?_, rfl⟩⟩
  rcases List.mem_append.1 hd with hd | hd
  · exact List.mem_append_left _ hd
  · cases hd

theorem Record.from_withoutGlobals (r : Record) : Record.From (Catalog.withoutGlobals r) r :=
  (Record.from_unlink _).trans (Record.from_undefineAll _ _)

end Stamps

/-! ### Exports -/

section Export
variable {t : Table} {type : Ty} {kind : SummaryKind} {file n m : String} {r : Record}

/-- The table whose records are handed on: the record of the exported value has its file. -/
def stamped (t : Table) (type : Ty) (file : String) : Table :=
  match providedRecord? t type with
  | some name => t.modify name (·.attachPath file)
  | none => t

theorem exportSummary_types (t : Table) (type : Ty) (kind : SummaryKind) (file : String) :
    (exportSummary t type kind file).types =
      (((stamped t type file).exportable kind).keepReachable type).mapValues (·.attachPath file) := rfl

theorem exportSummary_provided (t : Table) (type : Ty) (kind : SummaryKind) (file : String) :
    (exportSummary t type kind file).provided =
      match providedRecord? t type with
      | none => .type type
      | some name =>
        match if kind = .global then ((stamped t type file).exportable kind).find? name
          else (stamped t type file).find? name with
        | some r => .record r
        | none => .type type := rfl

theorem nodup_keys_stamped (h : t.keys.Nodup) : (stamped t type file).keys.Nodup := by
  unfold stamped
  split
  · exact OrderedMap.nodup_keys_modify h _ _
  · exact h

/-- A stamped record is that of the table, or that one with its file. -/
theorem find?_stamped (t : Table) (type : Ty) (file n : String) :
    (stamped t type file).find? n = t.find? n ∨
      (stamped t type file).find? n = (t.find? n).map (·.attachPath file) := by
  unfold stamped
  split
  · rw [OrderedMap.find?_modify]
    split
    · exact Or.inr rfl
    · exact Or.inl rfl
  · exact Or.inl rfl

theorem exists_of_find?_stamped (hr : (stamped t type file).find? n = some r) :
    ∃ r₀, t.find? n = some r₀ ∧ (r = r₀ ∨ r = r₀.attachPath file) := by
  rcases find?_stamped t type file n with he | he
  · exact ⟨r, he.symm.trans hr, Or.inl rfl⟩
  · rw [he] at hr
    obtain ⟨r₀, hr₀, rfl⟩ := Option.map_eq_some_iff.1 hr
    exact ⟨r₀, hr₀, Or.inr rfl⟩

theorem nodup_keys_exportable (h : t.keys.Nodup) (kind : SummaryKind) :
    (t.exportable kind).keys.Nodup := by
  unfold Table.exportable
  split
  · exact OrderedMap.nodup_keys_modify h _ _
  · exact OrderedMap.nodup_keys_erase h _

theorem from_of_find?_exportable (hr : (t.exportable kind).find? n = some r) :
    ∃ r₀, t.find? n = some r₀ ∧ r.From r₀ := by
  unfold Table.exportable at hr
  split at hr
  · unfold Catalog.clearGlobals at hr
    rw [OrderedMap.find?_modify] at hr
    split at hr
    · obtain ⟨r₀, hr₀, rfl⟩ := Option.map_eq_some_iff.1 hr
      exact ⟨r₀, hr₀, r₀.from_withoutGlobals⟩
    · exact ⟨r, hr, .refl r⟩
  · rw [OrderedMap.find?_erase] at hr
    split at hr
    · cases hr
    · exact ⟨r, hr, .refl r⟩

theorem from_of_find?_stamped (hr : (stamped t type file).find? n = some r) :
    ∃ r₀, t.find? n = some r₀ ∧ r.From r₀ := by
  obtain ⟨r₀, hr₀, rfl | rfl⟩ := exists_of_find?_stamped hr
  · exact ⟨r, hr₀, .refl r⟩
  · exact ⟨r₀, hr₀, r₀.from_attachPath file⟩

theorem from_of_find?_types (h : t.keys.Nodup)
    (hr : (exportSummary t type kind file).types.find? n = some r) :
    ∃ r₀, t.find? n = some r₀ ∧ r.From r₀ ∧ r₀.builtin = false := by
  rw [exportSummary_types, OrderedMap.find?_mapValues, Table.keepReachable,
    OrderedMap.find?_filter _ (nodup_keys_exportable (nodup_keys_stamped h) kind)] at hr
  obtain ⟨r₁, hr₁, rfl⟩ := Option.map_eq_some_iff.1 hr
  obtain ⟨hr₁, hkeep⟩ := Option.filter_eq_some_iff.1 hr₁
  obtain ⟨r₂, hr₂, hfrom₁⟩ := from_of_find?_exportable hr₁
  obtain ⟨r₀, hr₀, hfrom₂⟩ := from_of_find?_stamped hr₂
  have hfrom := hfrom₁.trans hfrom₂
  refine ⟨r₀, hr₀, (r₁.from_attachPath file).trans hfrom, ?_⟩
  rw [← hfrom.builtin]
  simp only [Bool.and_eq_true, Bool.not_eq_true'] at hkeep
  exact hkeep.2

theorem find?_of_providedRecord? (h : providedRecord? t type = some m) :
    type = .named m ∧ ∃ r, t.find? m = some r ∧ r.builtin = false := by
  unfold providedRecord? at h
  split at h
  · cases h
  · split at h
    · rename_i r hr
      split at h
      · cases h
      · rename_i hb
        cases h
        exact ⟨rfl, r, hr, by simpa using hb⟩
    · cases h

/-- What a file provides is its exported type, or a record that comes from the record of that type. -/
theorem provided_cases (t : Table) (type : Ty) (kind : SummaryKind) (file : String) :
    (exportSummary t type kind file).provided = .type type ∨
      ∃ n r r₀, type = .named n ∧ (exportSummary t type kind file).provided = .record r ∧
        t.find? n = some r₀ ∧ r.From r₀ := by
  rw [exportSummary_provided]
  cases hp : providedRecord? t type with
  | none => exact Or.inl rfl
  | some n =>
    dsimp only
    have hfrom : ∀ r, (if kind = .global then ((stamped t type file).exportable kind).find? n
        else (stamped t type file).find? n) = some r → ∃ r₀, t.find? n = some r₀ ∧ r.From r₀ := by
      intro r hr
      split at hr
      · obtain ⟨r₁, hr₁, h₁⟩ := from_of_find?_exportable hr
        obtain ⟨r₀, hr₀, h₀⟩ := from_of_find?_stamped hr₁
        exact ⟨r₀, hr₀, h₁.trans h₀⟩
      · exact from_of_find?_stamped hr
    split
    · rename_i r hr
      obtain ⟨r₀, hr₀, h₀⟩ := hfrom r hr
      exact Or.inr ⟨n, r, r₀, (find?_of_providedRecord? hp).1, rfl, hr₀, h₀⟩
    · exact Or.inl rfl

/-! ### Modules that do not reach the global record -/

variable (hkind : kind ≠ .global) (hglobal : ¬ t.Reached type globalName)

include hkind in
theorem find?_exportable_stamped (hn : n ≠ globalName) :
    ((stamped t type file).exportable kind).find? n = (stamped t type file).find? n := by
  unfold Table.exportable
  rw [if_neg hkind, OrderedMap.find?_erase_of_ne _ (Ne.symm hn)]

include hkind in
theorem references_of_find?_exportable
    (hr : ((stamped t type file).exportable kind).find? n = some r) :
    ∃ r₀, t.find? n = some r₀ ∧ r.references = r₀.references := by
  have hr' : (stamped t type file).find? n = some r := by
    unfold Table.exportable at hr
    rw [if_neg hkind, OrderedMap.find?_erase] at hr
    split at hr
    · cases hr
    · exact hr
  obtain ⟨r₀, hr₀, rfl | rfl⟩ := exists_of_find?_stamped hr'
  · exact ⟨r, hr₀, rfl⟩
  · exact ⟨r₀, hr₀, r₀.references_attachPath file⟩

include hkind in
/-- What is needed in the table that is handed on, the exported type leads to. -/
theorem reached_of_needed (hn : ((stamped t type file).exportable kind).Needed type n) :
    t.Reached type n := by
  have h := hn.reached
  clear hn
  induction h with
  | first h => exact .first h
  | step _ hr hm ih =>
    obtain ⟨r₀, hr₀, hrefs⟩ := references_of_find?_exportable hkind hr
    exact .step ih hr₀ (hrefs ▸ hm)

include hglobal in
theorem ne_globalName_of_reached (hn : t.Reached type n) : n ≠ globalName := by
  rintro rfl
  exact hglobal hn

include hkind in
/-- **Pruning** keeps the records that are needed and not builtin, and stamps them. -/
theorem find?_exportSummary_types (hkeys : t.keys.Nodup) (hne : n ≠ globalName)
    (hn : ((stamped t type file).exportable kind).Needed type n) :
    (exportSummary t type kind file).types.find? n =
      ((t.find? n).filter fun r => !r.builtin).map (·.attachPath file) := by
  rw [exportSummary_types, OrderedMap.find?_mapValues, Table.keepReachable,
    OrderedMap.find?_filter _ (nodup_keys_exportable (nodup_keys_stamped hkeys) kind),
    find?_exportable_stamped hkind hne]
  have hmarked := Table.mem_reachable_iff.2 hn
  rcases find?_stamped t type file n with he | he
  · rw [he]
    cases t.find? n with
    | none => rfl
    | some r => simp [Option.filter, hmarked]
  · rw [he]
    cases t.find? n with
    | none => rfl
    | some r =>
      have hb : (r.attachPath file).builtin = r.builtin := rfl
      cases hbr : r.builtin <;> simp [Option.filter, hmarked, hb, hbr, r.attachPath_attachPath]

include hkind hglobal

/-- What a record that is handed on refers to is needed. -/
theorem needed_of_reference (hn : ((stamped t type file).exportable kind).Needed type n)
    (hr : t.find? n = some r) (hm : m ∈ r.references) :
    ((stamped t type file).exportable kind).Needed type m := by
  have hne := ne_globalName_of_reached hglobal (reached_of_needed hkind hn)
  have hfind := @find?_exportable_stamped t type kind file n hkind hne
  rcases find?_stamped t type file n with he | he
  · exact .step hn (hfind.trans (he.trans hr)) hm
  · refine .step hn (r := r.attachPath file) ?_ ?_
    · rw [hfind, he, hr]
      rfl
    · rw [r.references_attachPath]
      exact hm

/-- A module whose exported type stands for a record of its own provides that record, and needs what
the record refers to. -/
theorem provided_of_providedRecord? (hp : providedRecord? t type = some n) :
    ∃ r, t.find? n = some r ∧ type = .named n ∧
      (exportSummary t type kind file).provided = .record (r.attachPath file) ∧
      ∀ m ∈ r.references, ((stamped t type file).exportable kind).Needed type m := by
  obtain ⟨rfl, r, hr, -⟩ := find?_of_providedRecord? hp
  have hne := ne_globalName_of_reached hglobal (.first (List.mem_singleton_self n))
  have hstamped : (stamped t (.named n) file).find? n = some (r.attachPath file) := by
    unfold stamped
    rw [hp]
    dsimp only
    rw [OrderedMap.find?_modify, if_pos rfl, hr]
    rfl
  refine ⟨r, hr, rfl, ?_, fun m hm => ?_⟩
  · rw [exportSummary_provided, hp]
    dsimp only
    rw [if_neg hkind, hstamped]
  · refine .first ⟨r.attachPath file, ?_, ?_⟩
    · rw [find?_exportable_stamped hkind hne]
      exact hstamped
    · rw [r.references_attachPath]
      exact hm

end Export

/-! ### Imports -/

section Import
open Inference (State applySummary)
variable (s : State) (summary : Summary)

/-- A summary of a record makes a new one, and puts its records behind those that there are. -/
theorem applySummary_record {r : Record} (h : summary.provided = .record r) :
    (applySummary s summary).1 = .named (Ty.generatedName s.env.uid s.env.count) ∧
      ∀ n, (applySummary s summary).2.env.types.find? n =
        if Ty.generatedName s.env.uid s.env.count = n then
          some (Environment.overlay { proto := some { type := .object } } r)
        else (s.env.types.find? n).or (summary.types.find? n) := by
  unfold applySummary
  rw [h]
  refine ⟨rfl, fun n => ?_⟩
  dsimp only
  unfold Environment.mergeSummary State.withEnv
  rw [h]
  dsimp only
  have hnew : (s.env.newFleetingObject none none).2.types =
      s.env.types.insert (Ty.generatedName s.env.uid s.env.count)
        { proto := some { type := .object } } := rfl
  have hname : (s.env.newFleetingObject none none).1 =
    Ty.generatedName s.env.uid s.env.count := rfl
  rw [Table.find?_edit, Table.find?_addMissing, hnew, hname, OrderedMap.find?_insert]
  split
  · rfl
  · rfl

/-- A summary of a type provides that type, and puts its records behind those that there are. -/
theorem applySummary_type {t : Ty} (h : summary.provided = .type t) :
    (applySummary s summary).1 = t ∧
      ∀ n, (applySummary s summary).2.env.types.find? n =
        (s.env.types.find? n).or (summary.types.find? n) := by
  unfold applySummary
  rw [h]
  refine ⟨rfl, fun n => ?_⟩
  dsimp only
  unfold Environment.mergeSummary State.withEnv
  rw [h]
  exact s.env.types.find?_addMissing summary.types n

/-- Names generated for the importing file apart, its records go before those of the summary. -/
theorem find?_applySummary {n : String} (hn : ¬ IsGeneratedFor s.env.uid n) :
    (applySummary s summary).2.env.types.find? n =
      (s.env.types.find? n).or (summary.types.find? n) := by
  cases h : summary.provided with
  | type t => exact (applySummary_type s summary h).2 n
  | record r =>
    rw [(applySummary_record s summary h).2, if_neg]
    rintro rfl
    exact hn ⟨_, List.mem_cons_self⟩

/-- An overlaid record refers to what the two records refer to. -/
theorem Environment.mem_references_overlay {r provided : Record} {m : String}
    (h : m ∈ (Environment.overlay r provided).references) :
    m ∈ provided.references ∨ m ∈ r.references := by
  obtain ⟨d, hd, hm⟩ := List.mem_flatMap.1 h
  rcases List.mem_append.1 hd with hd | hd
  · rcases OrderedMap.mem_values_foldl_insert hd with hd | hd
    · exact Or.inl (List.mem_flatMap.2 ⟨d, List.mem_append_left _ hd, hm⟩)
    · exact Or.inr (List.mem_flatMap.2 ⟨d, List.mem_append_left _ hd, hm⟩)
  · have hlink : (Environment.overlay r provided).proto = some d := by simpa using hd
    change provided.proto.or r.proto = some d at hlink
    rcases Option.or_eq_some_iff.1 hlink with hp | ⟨-, hp⟩
    · exact Or.inl (List.mem_flatMap.2 ⟨d, List.mem_append_right _ (by simp [hp]), hm⟩)
    · exact Or.inr (List.mem_flatMap.2 ⟨d, List.mem_append_right _ (by simp [hp]), hm⟩)

end Import

end ContentAssist
