import ContentAssist.Proofs.Inference.Worded
import ContentAssist.Proofs.Summary.Globals
import ContentAssist.SourceIndex

/-! # The words of a summary

A summary has no words but those of the table that it is taken from: records get their file, and some
are left out. Sources are summarised on their own. So an index offers worded summaries if the identifiers
of its sources are known words, and the summaries that it was given are worded.

* `Table.Worded.exportSummary`, `worded_summary`: the summary of a table, and that of a file;
* `SourceIndex.Worded`, `SourceIndex.Worded.offered`: what an index of sources offers. -/

namespace ContentAssist

open Inference

variable {K : String → Prop} {L : Prop} {r : Record} {t : Table} {type : Ty} {summary : Summary}
  {parser : Parser} {source name : String}

/-! ### Records that are handed on -/

namespace Record.Worded

variable (h : r.Worded K L)
include h

theorem attachPath (file : String) : (r.attachPath file).Worded K L := by
  refine ⟨fun x hx => h.names x (keys_attachPath r file ▸ hx), fun d hd => ?_, fun d hd => ?_⟩
  · obtain ⟨e, he, rfl⟩ := List.mem_map.1 hd
    obtain ⟨m, hm, rfl⟩ := List.mem_map.1 he
    exact h.types m.2 (List.mem_map.2 ⟨m, hm, rfl⟩)
  · obtain ⟨e, he, rfl⟩ := Option.map_eq_some_iff.1 hd
    exact h.link e he

theorem unlink : Worded K L { r with proto := none } := by
  refine ⟨h.names, h.types, ?_⟩
  rintro d ⟨⟩

theorem withoutGlobals : (Catalog.withoutGlobals r).Worded K L := by
  have hnames : ∀ (names : List (String × String)) (r : Record), r.Worded K L →
      (names.foldl (fun r m => r.undefine (some m.1)) r).Worded K L := by
    intro names
    induction names with
    | nil => exact fun _ h => h
    | cons m names ih => exact fun _ h => ih _ (h.undefine _)
  exact (hnames Catalog.globalMembers r h).unlink

end Record.Worded

namespace Table.Worded

variable (h : t.Worded K L)
include h

theorem stamped (type : Ty) (file : String) : (stamped t type file).Worded K L := by
  unfold ContentAssist.stamped
  split
  · exact h.modify (fun _ hr => hr.attachPath file) _
  · exact h

theorem exportable (kind : SummaryKind) : (t.exportable kind).Worded K L := by
  unfold Table.exportable
  split
  · exact h.modify (fun _ hr => hr.withoutGlobals) _
  · exact fun r hr => h r ((List.filter_sublist.map _).subset hr)

theorem exportSummary (htype : type.Worded K L) (kind : SummaryKind) (file : String) :
    (exportSummary t type kind file).Worded K L := by
  have hstamped := h.stamped type file
  have hexportable := hstamped.exportable kind
  refine ⟨fun u hu => ?_, fun r hr => ?_, fun r hr => ?_⟩
  · rcases provided_cases t type kind file with hp | ⟨n, r, r₀, -, hp, -⟩ <;> rw [hp] at hu <;> cases hu
    exact htype
  · rw [exportSummary_provided] at hr
    split at hr
    · cases hr
    · split at hr
      · rename_i hfind
        cases hr
        split at hfind
        · exact hexportable.record hfind
        · exact hstamped.record hfind
      · cases hr
  · rw [exportSummary_types] at hr
    obtain ⟨e, he, rfl⟩ := List.mem_map.1 hr
    obtain ⟨m, hm, rfl⟩ := List.mem_map.1 he
    exact (hexportable m.2 ((List.filter_sublist.map _).subset (List.mem_map.2 ⟨m, hm, rfl⟩))).attachPath
      file

end Table.Worded

/-! ### The summary of a file -/

theorem worded_exportedType {task : Task} {root : Node} {s : State} (hK : Knows K L task root)
    (h : Inference.Worded K L s) : (exportedType s).1.Worded K L := by
  unfold exportedType
  split
  · dsimp only
    cases hlast : (_ : List Node).getLast? with
    | none => exact hK.object
    | some node => exact (h.typeOf hK node).result
  · exact h.typeOf hK _
  · split
    · rename_i d hd
      obtain ⟨r, hr, hmember⟩ := Option.bind_eq_some_iff.1 hd
      exact (h.env.table.record hr).types d (r.members.mem_values_of_find? hmember)
    · exact hK.builtin (by decide +kernel)

/-- **The summary of a file** is worded if the words of the file are known. -/
theorem worded_summary {a : Assistant} (hsummary : (a.summary source name).1 = .ok summary)
    (hK : ∀ tree, (parse a.parser source).1 = .ok tree →
      Knows K L ⟨source, none, a.index?⟩ (.root tree) ∧ ∀ x ∈ declaredNames (.root tree), K x) :
    summary.Worded K L := by
  obtain ⟨tree, scope, s, hparse, hrun, rfl⟩ := exists_run_of_summary hsummary
  obtain ⟨hknows, hdeclared⟩ := hK tree hparse
  have hreached := reached_run ⟨source, none, a.index?⟩ (.root tree) name
  rw [hrun] at hreached
  have hs := hreached.worded hknows hdeclared
  exact hs.env.table.exportSummary (worded_exportedType hknows hs) _ _

/-! ### An index of sources -/

/-- The identifiers of a source that can be parsed and the names that its comments declare are known
words, and links may be read as values if there is an identifier for that. -/
def SourceWorded (K : String → Prop) (L : Prop) (parser : Parser) (source : String) : Prop :=
  ∀ tree, (parse parser source).1 = .ok tree →
    (∀ x ∈ (Node.root tree).identifiers, K x) ∧ ("prototype" ∈ (Node.root tree).identifiers → L) ∧
      ∀ x ∈ declaredNames (.root tree), K x

/-- The sources of an index are worded, and so are the summaries that it keeps. -/
structure SourceIndex.Worded (K : String → Prop) (L : Prop) (parser : Parser) (ix : SourceIndex) :
    Prop where
  globals : ∀ source ∈ ix.globalSources.values, SourceWorded K L parser source
  modules : ∀ source ∈ ix.moduleSources.values, SourceWorded K L parser source
  kept : ∀ summary ∈ ix.cache.values, summary.Worded K L

namespace SourceIndex.Worded

variable {ix : SourceIndex} (hcatalog : ∀ x ∈ Catalog.words, K x) (h : ix.Worded K L parser)
include hcatalog h

/-- The summary of a worded source is worded, and so is the index that keeps it. -/
theorem summarize (origin : Origin) (name : String) (hsource : SourceWorded K L parser source) :
    (∀ m, (ix.summarize parser origin name source).value = .ok (some m) → m.Worded K L) ∧
      (ix.summarize parser origin name source).index.Worded K L parser := by
  unfold SourceIndex.summarize
  split
  · rename_i kept hkept
    refine ⟨?_, h⟩
    rintro m ⟨⟩
    exact h.kept _ (ix.cache.mem_values_of_find? hkept)
  · dsimp only
    split
    · rename_i made hmade
      have hworded : made.Worded K L := worded_summary hmade fun tree hparse => by
        obtain ⟨hidentifiers, hproto, hdeclared⟩ := hsource tree hparse
        refine ⟨⟨hcatalog, hidentifiers, hproto, ?_⟩, hdeclared⟩
        -- no other file is consulted
        rintro m (⟨⟨⟩⟩ | ⟨⟨⟩⟩)
      refine ⟨?_, h.globals, h.modules, fun m hm => ?_⟩
      · rintro m ⟨⟩
        exact hworded
      · rcases OrderedMap.mem_values_insert hm with rfl | hm
        · exact hworded
        · exact h.kept m hm
    · exact ⟨by simp, h⟩
    · exact ⟨by simp, h⟩

theorem summarizeGlobals (entries : List (String × String))
    (hentries : ∀ e ∈ entries, SourceWorded K L parser e.2) :
    ∀ summaries, (ix.summarizeGlobals parser entries).value = .ok summaries →
      ∀ m ∈ summaries, m.Worded K L := by
  induction entries generalizing ix with
  | nil =>
    rintro summaries ⟨⟩ m hm
    cases hm
  | cons e entries ih =>
    obtain ⟨hfirst, hindex⟩ := h.summarize hcatalog .global e.1 (hentries e List.mem_cons_self)
    have hrest := ih hindex fun e he => hentries e (List.mem_cons_of_mem _ he)
    intro summaries hsummaries m hm
    rw [SourceIndex.summarizeGlobals] at hsummaries
    dsimp only at hsummaries
    split at hsummaries
    · cases hsummaries
    · rename_i first hvalue
      cases hothers : (SourceIndex.summarizeGlobals parser
          (ix.summarize parser .global e.1 e.2).index entries).value with
      | error fault =>
        rw [hothers] at hsummaries
        cases hsummaries
      | ok others =>
        rw [hothers] at hsummaries
        cases hsummaries
        rcases List.mem_append.1 hm with hm | hm
        · exact hfirst m (hvalue.trans (congrArg _ (Option.mem_toList.1 hm)))
        · exact hrest others hothers m hm

/-- **What an index of worded sources offers** is worded. -/
theorem offered (source : String) (cursor : Option Int) :
    ∀ m, Task.Offered ⟨source, cursor, some (ix.view parser)⟩ m → m.Worded K L := by
  intro m hm
  cases hm with
  | globals hindex hglobals hm =>
    cases hindex
    refine h.summarizeGlobals hcatalog _ (fun e he => ?_) _ hglobals m hm
    exact h.globals e.2 (List.mem_map.2 ⟨e, he, rfl⟩)
  | module hindex hsummary =>
    cases hindex
    have hsummary : (ix.retrieve parser _).value = .ok (some m) := hsummary
    unfold SourceIndex.retrieve at hsummary
    split at hsummary
    · rename_i kept hkept
      cases hsummary
      exact h.kept _ (ix.cache.mem_values_of_find? hkept)
    · cases hsummary
    · rename_i made _ hsource
      exact (h.summarize hcatalog .module _
        (h.modules _ (ix.moduleSources.mem_values_of_find? hsource))).1 m hsummary

end SourceIndex.Worded

end ContentAssist
