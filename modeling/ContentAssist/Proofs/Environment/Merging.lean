import ContentAssist.Proofs.Environment.SingleChange

/-! # Taking over a summary

What a summary brings goes behind what is there: its records are added under names that are new, and what
it provides is laid over one record, the target. The target may be one of the records that it brings, and
they may link to one another. So the merged table is described entry by entry, and that nothing is changed
by merging a second time is shown part by part: an entry that is there already is set to what it is.

* `OrderedMap.foldl_insert_of_find?`, `OrderedMap.modify_of_find?`: entries that are there already;
* `Table.keys_prefix_addMissing`: records that are there keep their places;
* `find?_mergeSummary`: what the merged table has;
* `mergeSummary_of_merged`: when merging changes nothing;
* `mergeSummary_conservative`: all that merging does, once and twice. -/

namespace ContentAssist

namespace OrderedMap

variable {κ ν : Type} [DecidableEq κ] {m : OrderedMap κ ν} {k : κ} {v : ν} {f : ν → ν}

/-! ### Entries that are there already -/

theorem keys_insert_of_mem (hk : k ∈ m.keys) (v : ν) : (m.insert k v).keys = m.keys := by
  obtain ⟨es⟩ := m
  change (insertInto k v es).map (·.1) = es.map (·.1)
  change k ∈ es.map (·.1) at hk
  induction es with
  | nil => cases hk
  | cons e es ih =>
    obtain ⟨k', v'⟩ := e
    by_cases h : k' = k
    · simp [insertInto, h]
    · have hk' : k ∈ es.map (·.1) := (List.mem_cons.1 hk).resolve_left (Ne.symm h)
      simp only [insertInto, if_neg h, List.map_cons, ih hk']

theorem keys_modify (m : OrderedMap κ ν) (k : κ) (f : ν → ν) : (m.modify k f).keys = m.keys := by
  unfold modify
  cases hk : m.find? k with
  | none => rfl
  | some v => exact keys_insert_of_mem (m.mem_keys_of_find? hk) (f v)

theorem insert_of_find? (h : m.find? k = some v) : m.insert k v = m := by
  obtain ⟨es⟩ := m
  change findIn k es = some v at h
  refine congrArg OrderedMap.mk ?_
  induction es with
  | nil => cases h
  | cons e es ih =>
    obtain ⟨k', v'⟩ := e
    rw [findIn] at h
    rw [insertInto]
    split at h
    · rename_i hk
      cases h
      rw [if_pos hk, hk]
    · rename_i hk
      rw [if_neg hk, ih h]

theorem foldl_insert_of_find? {es : List (κ × ν)} (h : ∀ e ∈ es, m.find? e.1 = some e.2) :
    es.foldl (fun m e => m.insert e.1 e.2) m = m := by
  induction es with
  | nil => rfl
  | cons e es ih =>
    rw [List.foldl_cons, insert_of_find? (h e List.mem_cons_self)]
    exact ih fun e he => h e (List.mem_cons_of_mem _ he)

theorem modify_of_find? (h : ∀ v, m.find? k = some v → f v = v) : m.modify k f = m := by
  unfold modify
  cases hk : m.find? k with
  | none => rfl
  | some v =>
    dsimp only
    rw [h v hk]
    exact insert_of_find? hk

end OrderedMap

/-! ### Added and edited records -/

namespace Table

variable {t others : Table}

theorem addMissing_of_subset (h : others.keys ⊆ t.keys) : t.addMissing others = t := by
  obtain ⟨es⟩ := others
  change es.map (·.1) ⊆ t.keys at h
  change es.foldl (fun t e => if t.contains e.1 then t else t.insert e.1 e.2) t = t
  induction es with
  | nil => rfl
  | cons e es ih =>
    rw [List.map_cons, List.cons_subset] at h
    rw [List.foldl_cons, if_pos (t.contains_iff.2 h.1)]
    exact ih h.2

/-- **Records that are there keep their places**: those that are added stand behind them. -/
theorem keys_prefix_addMissing (t others : Table) : t.keys <+: (t.addMissing others).keys := by
  obtain ⟨es⟩ := others
  change t.keys <+: (es.foldl (fun t e => if t.contains e.1 then t else t.insert e.1 e.2) t).keys
  induction es generalizing t with
  | nil => exact List.prefix_rfl
  | cons e es ih =>
    refine List.IsPrefix.trans ?_ (ih _)
    dsimp only
    split
    · exact List.prefix_rfl
    · rename_i hnew
      rw [OrderedMap.insert_of_not_mem (mt t.contains_iff.2 hnew)]
      exact ⟨[e.1], by simp [OrderedMap.keys]⟩

end Table

/-! ### Records under what is provided -/

namespace Environment

theorem member?_overlay {r provided : Record} (hkeys : provided.members.keys.Nodup) (x : Name) :
    (overlay r provided).member? x = (provided.member? x).or (r.member? x) :=
  OrderedMap.find?_foldl_insert _ hkeys _ _

/-- Laid over a record a second time, what is provided changes nothing. -/
theorem overlay_of_overlaid {r provided : Record} (hkeys : provided.members.keys.Nodup) :
    overlay (overlay r provided) provided = overlay r provided := by
  have hmembers : ∀ e ∈ provided.members.entries,
      (overlay r provided).members.find? e.1 = some e.2 := by
    intro e he
    have hfound : provided.member? e.1 = some e.2 := OrderedMap.findIn_of_mem hkeys he
    exact (member?_overlay hkeys e.1).trans (by rw [hfound, Option.some_or])
  have hlink : provided.proto.or (overlay r provided).proto = (overlay r provided).proto := by
    unfold overlay
    cases provided.proto <;> rfl
  exact congrArg₂ (fun members proto => { overlay r provided with members := members, proto := proto })
    (OrderedMap.foldl_insert_of_find? hmembers) hlink

end Environment

/-- The record of the target under what the summary provides: a record is laid over it, unless it is
builtin. -/
def Summary.overlaid (s : Summary) (r : Record) : Record :=
  match s.provided with
  | .type _ => r
  | .record provided => if r.builtin then r else Environment.overlay r provided

namespace Summary

variable {s : Summary} {r provided : Record}

theorem overlaid_of_builtin (hb : r.builtin = true) : s.overlaid r = r := by
  unfold overlaid
  split
  · rfl
  · exact if_pos hb

theorem overlaid_of_record (hs : s.provided = .record provided) (hb : r.builtin = false) :
    s.overlaid r = Environment.overlay r provided := by
  unfold overlaid
  rw [hs]
  simp [hb]

@[simp] theorem builtin_overlaid : (s.overlaid r).builtin = r.builtin := by
  unfold overlaid
  split
  · rfl
  · split <;> rfl

theorem overlaid_overlaid (hkeys : ∀ provided, s.provided = .record provided → provided.members.keys.Nodup)
    (r : Record) : s.overlaid (s.overlaid r) = s.overlaid r := by
  cases hb : r.builtin with
  | true => rw [overlaid_of_builtin hb, overlaid_of_builtin hb]
  | false =>
    cases hs : s.provided with
    | type t =>
      unfold overlaid
      rw [hs]
    | record provided =>
      rw [overlaid_of_record hs (builtin_overlaid.trans hb), overlaid_of_record hs hb,
        Environment.overlay_of_overlaid (hkeys provided hs)]

end Summary

/-! ### The merged table -/

namespace Environment

variable {env : Environment} {s : Summary} {target : String}

theorem types_mergeSummary (env : Environment) (s : Summary) (target : String) :
    (env.mergeSummary s target).types = (env.types.addMissing s.types).modify target s.overlaid := by
  unfold mergeSummary Summary.overlaid
  cases s.provided with
  | type t => exact (OrderedMap.modify_of_find? fun _ _ => rfl).symm
  | record provided => rfl

/-- **What the merged table has** under a name: what was there, else what the summary brings. -/
theorem find?_mergeSummary (env : Environment) (s : Summary) (target n : String) :
    (env.mergeSummary s target).types.find? n =
      ((env.types.find? n).or (s.types.find? n)).map fun r => if n = target then s.overlaid r else r := by
  rw [types_mergeSummary, OrderedMap.find?_modify, Table.find?_addMissing]
  by_cases hn : n = target
  · simp [hn]
  · simp [hn, Ne.symm hn]

theorem keys_prefix_mergeSummary (env : Environment) (s : Summary) (target : String) :
    env.types.keys <+: (env.mergeSummary s target).types.keys := by
  rw [types_mergeSummary, OrderedMap.keys_modify]
  exact env.types.keys_prefix_addMissing s.types

theorem mergeSummary_eq (env : Environment) (s : Summary) (target : String) :
    env.mergeSummary s target = { env with types := (env.mergeSummary s target).types } := by
  unfold mergeSummary
  dsimp only
  split <;> rfl

/-- **Merging changes nothing** where the records of the summary are there and the target is as overlaid. -/
theorem mergeSummary_of_merged (htypes : s.types.keys ⊆ env.types.keys)
    (htarget : ∀ r, env.types.find? target = some r → s.overlaid r = r) :
    env.mergeSummary s target = env := by
  rw [mergeSummary_eq, types_mergeSummary, Table.addMissing_of_subset htypes,
    OrderedMap.modify_of_find? htarget]

/-- The record of the target is the one that was there, or else came with the summary, overlaid. -/
theorem exists_of_find?_target {r : Record} (hr : (env.mergeSummary s target).types.find? target = some r) :
    ∃ before, (env.types.find? target).or (s.types.find? target) = some before ∧ s.overlaid before = r := by
  rw [find?_mergeSummary] at hr
  obtain ⟨before, hbefore, hoverlaid⟩ := Option.map_eq_some_iff.1 hr
  rw [if_pos rfl] at hoverlaid
  exact ⟨before, hbefore, hoverlaid⟩

/-- A target that may be changed has what is provided on top. -/
theorem exists_overlay_of_find?_target {provided r : Record} (hs : s.provided = .record provided)
    (hr : (env.mergeSummary s target).types.find? target = some r) (hb : r.builtin = false) :
    ∃ before, (env.types.find? target).or (s.types.find? target) = some before ∧
      overlay before provided = r := by
  obtain ⟨before, hbefore, rfl⟩ := exists_of_find?_target hr
  rw [Summary.builtin_overlaid] at hb
  exact ⟨before, hbefore, (Summary.overlaid_of_record hs hb).symm⟩

section Provided
variable (hkeys : ∀ provided, s.provided = .record provided → provided.members.keys.Nodup)
include hkeys

/-- **Merging a second time** changes nothing. -/
theorem mergeSummary_mergeSummary (env : Environment) (target : String) :
    (env.mergeSummary s target).mergeSummary s target = env.mergeSummary s target := by
  refine mergeSummary_of_merged (fun n hn => ?_) fun r hr => ?_
  · obtain ⟨r, hr⟩ := s.types.exists_find?_of_mem_keys hn
    rw [← OrderedMap.contains_iff, OrderedMap.contains, find?_mergeSummary, hr]
    cases env.types.find? n <;> rfl
  · obtain ⟨before, -, rfl⟩ := exists_of_find?_target hr
    exact Summary.overlaid_overlaid hkeys before

end Provided

/-- **Merging a summary is conservative and idempotent.** Besides the table nothing changes. A record that
was there keeps its place and, unless it is the target, is the same; those of the summary whose names were
missing are there, the target's with what is provided on top; and there are no others. A builtin target is
as it was, or as it came, and one that is missing from both tables stays so.

Where a record is provided and the target is there and may be changed, each provided member is found at the
target with its type, range and file; the others are those that the target had, and so is its link if none
is provided. Merging the same summary into the same target again changes nothing. No member is provided
twice, as in every record of an analysis. -/
theorem mergeSummary_conservative (env : Environment) (s : Summary) (target : String)
    (hkeys : ∀ provided, s.provided = .record provided → provided.members.keys.Nodup) :
    let merged := env.mergeSummary s target
    (merged = { env with types := merged.types } ∧ env.types.keys <+: merged.types.keys ∧
      ∀ n r, n ≠ target → env.types.find? n = some r → merged.types.find? n = some r) ∧
    (∀ n r, env.types.find? n = none → s.types.find? n = some r →
      merged.types.find? n = some (if n = target then s.overlaid r else r)) ∧
    (∀ n, env.types.find? n = none → s.types.find? n = none → merged.types.find? n = none) ∧
    (∀ r, (env.types.find? target).or (s.types.find? target) = some r → r.builtin = true →
      merged.types.find? target = some r) ∧
    (∀ provided r, s.provided = .record provided → merged.types.find? target = some r →
      r.builtin = false →
      (∀ x d, x ≠ some "prototype" → provided.member? x = some d →
        merged.lookupDefinition? x (some (.named target)) = some d) ∧
      ∃ before, (env.types.find? target).or (s.types.find? target) = some before ∧
        (∀ x, provided.member? x = none → r.member? x = before.member? x) ∧
        r.proto = provided.proto.or before.proto) ∧
    merged.mergeSummary s target = merged := by
  intro merged
  have hfind : ∀ n, merged.types.find? n = _ := find?_mergeSummary env s target
  refine ⟨⟨mergeSummary_eq env s target, keys_prefix_mergeSummary env s target, ?unchanged⟩, ?added,
    ?missing, ?builtin, ?provided, mergeSummary_mergeSummary hkeys env target⟩
  case unchanged =>
    intro n r hn hr
    rw [hfind, hr, Option.some_or, Option.map_some, if_neg hn]
  case added =>
    intro n r hnone hr
    rw [hfind, hnone, hr, Option.none_or, Option.map_some]
  case missing =>
    intro n hnone hnone'
    rw [hfind, hnone, hnone']
    rfl
  case builtin =>
    intro r hr hb
    rw [hfind, hr, Option.map_some, if_pos rfl, Summary.overlaid_of_builtin hb]
  case provided =>
    intro provided r hs hr hb
    obtain ⟨before, hbefore, rfl⟩ := exists_overlay_of_find?_target hs hr hb
    have hmember := member?_overlay (r := before) (hkeys provided hs)
    refine ⟨fun x d hx hd => ?_, before, hbefore, fun x hnone => ?_, rfl⟩
    · have hanswer : Table.answer? (overlay before provided) x = some d := by
        rw [Table.answer?_of_ne hx, hmember, hd, Option.some_or]
      have hresolution : merged.types.resolution? target x = some (target, d) :=
        Table.resolution?_of_answer? hr hanswer
      exact (Table.resolve?_eq_map_resolution? _ _ _).trans (congrArg (Option.map (·.2)) hresolution)
    · rw [hmember, hnone, Option.none_or]

/-- A target with a member of its own and one that is provided, too. -/
def withModule : Environment :=
  (Environment.start "file").put "mod"
    { members := ⟨[(some "old", { type := .number }), (some "run", { type := .number })]⟩
      proto := some { type := .object } }

/-- A summary that has a record of the target's name, and one that links to the target, as the target is to
link to it. -/
def circular : Summary where
  provided := .record
    { members := ⟨[(some "run", { type := .named "helper", span := some ⟨4, 7⟩, path := some "mod.js" })]⟩
      proto := some { type := .named "helper" } }
  types := ⟨[("helper", { proto := some { type := .named "mod" } }),
    ("mod", { members := ⟨[(some "new", { type := .string })]⟩ })]⟩

/-- The member that is provided goes over the one that was there, the other one stays, and the record that
came for the target is not taken. -/
theorem mergeSummary_conservative_circular :
    let merged := withModule.mergeSummary circular "mod"
    merged.types.find? "helper" = some { proto := some { type := .named "mod" } } ∧
    merged.lookupDefinition? (some "run") (some (.named "mod")) =
      some { type := .named "helper", span := some ⟨4, 7⟩, path := some "mod.js" } ∧
    (∃ r, merged.types.find? "mod" = some r ∧ r.member? (some "old") = some { type := .number } ∧
      r.member? (some "new") = none ∧ r.proto = some { type := .named "helper" }) ∧
    merged.mergeSummary circular "mod" = merged := by
  have hkeys : ∀ provided, circular.provided = .record provided → provided.members.keys.Nodup := by
    rintro _ ⟨⟩
    decide
  obtain ⟨-, hadded, -, -, hprovided, htwice⟩ := mergeSummary_conservative withModule circular "mod" hkeys
  obtain ⟨r, hr, hb⟩ : ∃ r, (withModule.mergeSummary circular "mod").types.find? "mod" = some r ∧
      r.builtin = false := ⟨_, rfl, rfl⟩
  obtain ⟨hfound, before, hbefore, hkept, hlink⟩ := hprovided _ r rfl hr hb
  obtain rfl : _ = before := Option.some.inj hbefore
  exact ⟨hadded "helper" _ (by decide +kernel) rfl, hfound _ _ (by decide) rfl,
    ⟨r, hr, hkept _ rfl, hkept _ rfl, hlink⟩, htwice⟩

end Environment

end ContentAssist
