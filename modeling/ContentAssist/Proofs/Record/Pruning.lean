import ContentAssist.Proofs.Record.Reachable

/-! # Which records are handed on

The records that the search marks are handed on, those apart that are builtin.

* `keepReachable_exact`: the records handed on are the needed ones that are not builtin, as they
  stand and in the order of the table, and none of them refers to a record that was left out. -/

namespace ContentAssist.Table

variable {t : Table} {type : Ty} {n : String} {r : Record}

theorem entries_keepReachable (t : Table) (type : Ty) :
    (t.keepReachable type).entries =
      t.entries.filter fun e => decide (t.Needed type e.1 ∧ e.2.builtin = false) := by
  refine List.filter_congr fun e _ => ?_
  rw [Bool.eq_iff_iff, decide_eq_true_iff, Bool.and_eq_true, Bool.not_eq_true', decide_eq_true_iff,
    mem_reachable_iff]

theorem find?_keepReachable_of_needed (hn : t.Needed type n) (hr : t.find? n = some r)
    (hb : r.builtin = false) : (t.keepReachable type).find? n = some r := by
  unfold OrderedMap.find?
  rw [entries_keepReachable]
  exact OrderedMap.findIn_filter hr (decide_eq_true ⟨hn, hb⟩)

theorem needed_of_find?_keepReachable (hr : (t.keepReachable type).find? n = some r) :
    t.Needed type n := by
  have he := OrderedMap.mem_of_find? _ hr
  rw [entries_keepReachable, List.mem_filter, decide_eq_true_iff] at he
  exact he.2.1

/-! ### What is handed on -/

/-- **Pruning is reachability**: let `T` be the table without the globals of the catalog, or without
the global record. Exactly the needed records of `T` that are not builtin are handed on, as they
stand and in the order of the table; and whatever a record handed on refers to is handed on too,
unless it is not in `T` or is builtin. -/
theorem keepReachable_exact (t T : Table) (kind : SummaryKind) (type : Ty)
    (hT : T = if kind = .global then Catalog.clearGlobals t else t.erase Catalog.globalName) :
    ((t.exportable kind).keepReachable type).entries =
        T.entries.filter (fun e => decide (T.Needed type e.1 ∧ e.2.builtin = false)) ∧
      ∀ n r, T.find? n = some r → ((t.exportable kind).keepReachable type).find? n = some r →
        ∀ m ∈ r.references, T.find? m = none ∨ ∃ r', T.find? m = some r' ∧
          (r'.builtin = true ∨ ((t.exportable kind).keepReachable type).find? m = some r') := by
  have hexportable : t.exportable kind = T := hT.symm
  rw [hexportable]
  refine ⟨entries_keepReachable T type, fun n r hr hkept m hm => ?_⟩
  cases hr' : T.find? m with
  | none => exact Or.inl rfl
  | some r' =>
    refine Or.inr ⟨r', rfl, ?_⟩
    cases hb : r'.builtin with
    | true => exact Or.inl rfl
    | false =>
      have hn := needed_of_find?_keepReachable hkept
      exact Or.inr (find?_keepReachable_of_needed (.step hn hr hm) hr' hb)

/-- A circle of two records, one of which refers to a record that does not exist, beside the global
record, a builtin one and one that nothing needs. -/
def circleTable : Table := ⟨[
  ("Global", { members := ⟨[(some "a", { type := .named "b" })]⟩ }),
  ("a", { members := ⟨[(some "next", { type := .named "b" })]⟩, proto := some { type := .object } }),
  ("Object", { builtin := true }),
  ("b", { members := ⟨[(some "back", { type := .function (.named "a") ["x"] }),
    (some "lost", { type := .named "missing" })]⟩ }),
  ("c", {})]⟩

theorem keepReachable_exact_circleTable :
    ((circleTable.exportable .commonjs).keepReachable (.named "a")).keys = ["a", "b"] ∧
      ((circleTable.erase Catalog.globalName).find? "a" = none ∨
        ∃ r, (circleTable.erase Catalog.globalName).find? "a" = some r ∧ (r.builtin = true ∨
          ((circleTable.exportable .commonjs).keepReachable (.named "a")).find? "a" = some r)) := by
  exact ⟨by decide +kernel, (keepReachable_exact circleTable _ .commonjs (.named "a") rfl).2 "b" _
    rfl (by decide +kernel) "a" (by decide +kernel)⟩

end ContentAssist.Table
