import ContentAssist.Proofs.Environment.Sound

/-! # Closed environments

A table is covered if the type of each of its definitions ends in the name of a record of the table,
or in `boolean`, which the catalog uses without a record. Unlike `Sound` this asks nothing of where a
record comes from, so it outlives the summaries of other files that are closed themselves.

* `Table.Covered`, `Summary.Closed`, `Environment.Closed`: the invariant, of a table, of what another
  file offers, of an environment;
* `Table.Covered.insert`, `Table.Covered.modify`, `Table.Covered.addMissing`: the ways to change a table;
* `grown_newScope`, `grown_addOrSet`, `grown_mergeSummary`, ...: the operations. -/

namespace ContentAssist

/-! ### Definitions of changed records -/

namespace Record

variable {r provided : Record} {name : Name} {d e : Definition}

theorem mem_definitions_define (h : e ∈ (r.define name d).definitions) :
    e = d ∨ e ∈ r.definitions := by
  rcases List.mem_append.1 h with h | h
  · exact (OrderedMap.mem_values_insert h).imp_right (List.mem_append_left _)
  · exact Or.inr (List.mem_append_right _ h)

theorem mem_definitions_undefine (h : e ∈ (r.undefine name).definitions) : e ∈ r.definitions := by
  rcases List.mem_append.1 h with h | h
  · exact List.mem_append_left _ ((List.filter_sublist.map _).subset h)
  · exact List.mem_append_right _ h

theorem mem_definitions_relink (h : e ∈ ({ r with proto := some d } : Record).definitions) :
    e = d ∨ e ∈ r.definitions := by
  rcases List.mem_append.1 h with h | h
  · exact Or.inr (List.mem_append_left _ h)
  · exact Or.inl (List.mem_singleton.1 h)

theorem type_or_mem_definitions_retype {t : Ty} (h : e ∈ ({ r with
      members := r.members.modify name fun d => { d with type := t } } : Record).definitions) :
    e.type = t ∨ e ∈ r.definitions := by
  rcases List.mem_append.1 h with h | h
  · unfold OrderedMap.modify at h
    split at h
    · exact Or.inr (List.mem_append_left _ h)
    · rcases OrderedMap.mem_values_insert h with rfl | h
      · exact Or.inl rfl
      · exact Or.inr (List.mem_append_left _ h)
  · exact Or.inr (List.mem_append_right _ h)

theorem mem_definitions_overlay (h : e ∈ (Environment.overlay r provided).definitions) :
    e ∈ provided.definitions ∨ e ∈ r.definitions := by
  rcases List.mem_append.1 h with h | h
  · exact (OrderedMap.mem_values_foldl_insert h).imp (List.mem_append_left _)
      (List.mem_append_left _)
  · have h : e ∈ (provided.proto.or r.proto).toList := h
    cases hp : provided.proto with
    | none =>
      rw [hp, Option.none_or] at h
      exact Or.inr (List.mem_append_right _ h)
    | some p =>
      rw [hp, Option.some_or] at h
      exact Or.inl (List.mem_append_right _ (hp ▸ h))

end Record

/-! ### Covered tables -/

namespace Table

variable {t t' others : Table} {n : String} {type : Ty} {r : Record} {name : Name} {d : Definition}
  {f : Record → Record}

/-- The types of all definitions of the record are covered. -/
def CoversRecord (t : Table) (r : Record) : Prop := ∀ d ∈ r.definitions, t.Covers d.type

/-- The types of all definitions of the table are covered. -/
def Covered (t : Table) : Prop := ∀ r ∈ t.values, t.CoversRecord r

theorem CoversRecord.mono (hsub : t.keys ⊆ t'.keys) (h : t.CoversRecord r) : t'.CoversRecord r :=
  fun d hd => (h d hd).mono hsub

theorem coversRecord_new (span : Option Span) (ht : t.Covers type) :
    t.CoversRecord { proto := some { type := type, span := span } } := by
  intro d hd
  obtain rfl := List.mem_singleton.1 hd
  exact ht

theorem CoversRecord.define (h : t.CoversRecord r) (name : Name) (hd : t.Covers d.type) :
    t.CoversRecord (r.define name d) := by
  intro e he
  rcases Record.mem_definitions_define he with rfl | he
  · exact hd
  · exact h e he

theorem CoversRecord.undefine (h : t.CoversRecord r) (name : Name) :
    t.CoversRecord (r.undefine name) := fun e he => h e (Record.mem_definitions_undefine he)

theorem CoversRecord.relink (h : t.CoversRecord r) (hd : t.Covers d.type) :
    t.CoversRecord { r with proto := some d } := by
  intro e he
  rcases Record.mem_definitions_relink he with rfl | he
  · exact hd
  · exact h e he

theorem CoversRecord.retype (h : t.CoversRecord r) (name : Name) (ht : t.Covers type) :
    t.CoversRecord { r with members := r.members.modify name fun d => { d with type := type } } := by
  intro e he
  rcases Record.type_or_mem_definitions_retype he with rfl | he
  · exact ht
  · exact h e he

theorem CoversRecord.overlay (h : t.CoversRecord r) {provided : Record}
    (hp : t.CoversRecord provided) : t.CoversRecord (Environment.overlay r provided) := by
  intro e he
  rcases Record.mem_definitions_overlay he with he | he
  · exact hp e he
  · exact h e he

theorem covered_catalog : Catalog.table.Covered := by
  intro r hr d hd
  obtain ⟨n, hn⟩ := OrderedMap.exists_find?_of_mem_values (sound_catalog "").keys hr
  exact (local_of_catalog hn hd).type

namespace Covered

variable (h : t.Covered)
include h

theorem coversRecord (hr : t.find? n = some r) : t.CoversRecord r :=
  h r (t.mem_values_of_find? hr)

theorem covers_of_resolve? (hd : t.resolve? n name = some d) : t.Covers d.type := by
  obtain ⟨e, he, hans⟩ := List.exists_of_findSome?_eq_some hd
  exact h.coversRecord (find?_of_mem_chainFrom he) d (Record.mem_definitions_of_answer? hans)

theorem insert (hr : CoversRecord (t.insert n r) r) : Covered (t.insert n r) := by
  intro q hq
  rcases OrderedMap.mem_values_insert hq with rfl | hq
  · exact hr
  · exact (h q hq).mono fun k hk => (t.mem_keys_insert).2 (Or.inr hk)

theorem modify (hf : ∀ r, t.CoversRecord r → t.CoversRecord (f r)) (n : String) :
    Covered (t.modify n f) := by
  have hsub : t.keys ⊆ (OrderedMap.modify t n f).keys := fun k hk => (t.mem_keys_modify).2 hk
  unfold OrderedMap.modify at hsub ⊢
  split at hsub
  · exact h
  · rename_i r hr
    exact h.insert ((hf r (h.coversRecord hr)).mono hsub)

theorem edit (hf : ∀ r, t.CoversRecord r → t.CoversRecord (f r)) (n : String) :
    (t.edit n f).Covered := by
  refine h.modify (fun r hr => ?_) n
  split
  · exact hr
  · exact hf r hr

end Covered

/-! ### Tables with the records of other ones -/

theorem mem_keys_addMissing : n ∈ (t.addMissing others).keys ↔ n ∈ t.keys ∨ n ∈ others.keys := by
  rw [← OrderedMap.contains_iff, ← OrderedMap.contains_iff, ← OrderedMap.contains_iff,
    OrderedMap.contains, OrderedMap.contains, OrderedMap.contains, find?_addMissing,
    Option.isSome_or, Bool.or_eq_true]

theorem mem_values_addMissing (h : r ∈ (t.addMissing others).values) :
    r ∈ t.values ∨ r ∈ others.values := by
  obtain ⟨es⟩ := others
  unfold addMissing at h
  induction es generalizing t with
  | nil => exact Or.inl h
  | cons e es ih =>
    rw [List.foldl_cons] at h
    rcases ih h with h | h
    · split at h
      · exact Or.inl h
      · rcases OrderedMap.mem_values_insert h with rfl | h
        · exact Or.inr List.mem_cons_self
        · exact Or.inl h
    · exact Or.inr (List.mem_cons_of_mem _ h)

theorem Covered.addMissing (h : t.Covered)
    (hothers : ∀ r ∈ others.values, (t.addMissing others).CoversRecord r) :
    (t.addMissing others).Covered := by
  intro r hr
  rcases mem_values_addMissing hr with hr | hr
  · exact (h r hr).mono fun k hk => mem_keys_addMissing.2 (Or.inl hk)
  · exact hothers r hr

end Table

/-! ### Closed summaries -/

/-- The leaf of the type names a record of the summary or of the catalog, or it is `boolean`. -/
def Summary.Covers (m : Summary) (type : Ty) : Prop :=
  type.leaf ∈ m.types.keys ∨ type.leaf ∈ Catalog.table.keys ∨ type.leaf = "boolean"

/-- The types of what a summary provides and of its records are covered. -/
structure Summary.Closed (m : Summary) : Prop where
  type : ∀ t, m.provided = .type t → m.Covers t
  record : ∀ r, m.provided = .record r → ∀ d ∈ r.definitions, m.Covers d.type
  types : ∀ r ∈ m.types.values, ∀ d ∈ r.definitions, m.Covers d.type

theorem Summary.Covers.table {m : Summary} {t : Table} {type : Ty} (h : m.Covers type)
    (hcatalog : Catalog.table.keys ⊆ t.keys) (htypes : m.types.keys ⊆ t.keys) : t.Covers type := by
  rcases h with h | h | h
  · exact Or.inl (htypes h)
  · exact Or.inl (hcatalog h)
  · exact Or.inr h

/-! ### Closed environments -/

namespace Environment

open Table (CoversRecord)

variable {env env' : Environment} {type : Ty} {n : String} {f : Record → Record}

/-- The table is closed, and it has the records of the catalog, of the scopes and of all names that
were generated. -/
structure Closed (env : Environment) : Prop where
  catalog : Catalog.table.keys ⊆ env.types.keys
  table : env.types.Covered
  scopes : ∀ n ∈ env.scopes.toList, n ∈ env.types.keys
  generated : ∀ k < env.count, Ty.generatedName env.uid k ∈ env.types.keys

theorem closed_start (uid : String) : (start uid).Closed where
  catalog := List.Subset.refl _
  table := Table.covered_catalog
  scopes := by
    intro n hn
    obtain rfl := List.mem_singleton.1 hn
    exact List.mem_cons_self
  generated := by
    intro k hk
    cases hk

/-- A closed environment with all records of the one before. -/
structure Grown (env env' : Environment) : Prop where
  closed : env'.Closed
  subset : env.types.keys ⊆ env'.types.keys

theorem Grown.trans {env₁ env₂ env₃ : Environment} (h : Grown env₁ env₂) (h' : Grown env₂ env₃) :
    Grown env₁ env₃ := ⟨h'.closed, fun _ hn => h'.subset (h.subset hn)⟩

namespace Closed

variable (h : env.Closed)
include h

theorem covers_builtin (hn : n ∈ builtinNames) : env.types.Covers (.named n) :=
  Table.covers_named (h.catalog (mem_catalog_keys_iff.2 (Or.inr hn)))

theorem current_mem_keys : env.scopes.current ∈ env.types.keys :=
  h.scopes _ env.scopes.current_mem_toList

theorem covers_of_lookup? {name : Name} {target : Option Ty}
    (ht : env.lookup? name target = some type) : env.types.Covers type := by
  obtain ⟨d, hd, rfl⟩ := Option.map_eq_some_iff.1 ht
  exact h.table.covers_of_resolve? hd

theorem mem_keys_of_isReserved (hn : env.isReserved n = true) : n ∈ env.types.keys := by
  rcases Bool.or_eq_true_iff.1 hn with hn | hn
  · cases hr : env.types.find? n with
    | none => simp [hr] at hn
    | some r => exact env.types.mem_keys_of_find? hr
  · refine h.scopes n ?_
    simpa [Scopes.contains, Scopes.toList] using hn

theorem withTypes {t : Table} (ht : t.Covered) (hsub : env.types.keys ⊆ t.keys) :
    Grown env { env with types := t } :=
  ⟨⟨fun _ hn => hsub (h.catalog hn), ht, fun n hn => hsub (h.scopes n hn),
    fun k hk => hsub (h.generated k hk)⟩, hsub⟩

theorem grown_edit (hf : ∀ r, env.types.CoversRecord r → env.types.CoversRecord (f r)) (n : String) :
    Grown env { env with types := env.types.edit n f } :=
  h.withTypes (h.table.edit hf n) (keys_subset_edit _ _ _)

theorem grown_modify (hf : ∀ r, env.types.CoversRecord r → env.types.CoversRecord (f r))
    (n : String) : Grown env { env with types := env.types.modify n f } :=
  h.withTypes (h.table.modify hf n) fun _ hk => (env.types.mem_keys_modify).2 hk

theorem grown_put (n : String) (span : Option Span) (ht : env.types.Covers type) :
    Grown env (env.put n { proto := some { type := type, span := span } }) :=
  h.withTypes (h.table.insert (Table.coversRecord_new span (ht.mono (keys_subset_put _ _ _))))
    (keys_subset_put _ _ _)

theorem withNext (hnext : Ty.generatedName env.uid env.count ∈ env.types.keys) :
    ({ env with count := env.count + 1 } : Environment).Closed := by
  refine ⟨h.catalog, h.table, h.scopes, fun k hk => ?_⟩
  rcases Nat.lt_succ_iff_lt_or_eq.1 hk with hk | rfl
  · exact h.generated k hk
  · exact hnext

end Closed

/-! ### New records -/

theorem grown_newScope (h : env.Closed) (span : Option Span) : Grown env (env.newScope span).2 := by
  have hput := h.grown_put (Ty.generatedName env.uid env.count) span
    (Table.covers_named h.current_mem_keys)
  have hnext := hput.closed.withNext (mem_keys_put _ _ _)
  refine ⟨⟨hnext.catalog, hnext.table, fun n hn => ?_, hnext.generated⟩, hput.subset⟩
  rcases Scopes.mem_toList_push.1 hn with hn | rfl
  · exact hnext.scopes n hn
  · exact mem_keys_put _ _ _

/-- There is a record of a new object, and one of the wanted name. -/
theorem grown_newFleetingObject (h : env.Closed) (name : Option String) (span : Option Span) :
    Grown env (env.newFleetingObject name span).2 ∧
      (env.newFleetingObject name span).1 ∈ (env.newFleetingObject name span).2.types.keys ∧
      ∀ n, name = some n → n ∈ (env.newFleetingObject name span).2.types.keys := by
  have hobject : env.types.Covers .object := h.covers_builtin (by decide)
  have hgenerated := h.grown_put (Ty.generatedName env.uid env.count) span hobject
  have hfresh : Grown env (env.newName.2.put env.newName.1
      { proto := some { type := .object, span := span } }) :=
    ⟨hgenerated.closed.withNext (mem_keys_put _ _ _), hgenerated.subset⟩
  unfold newFleetingObject
  cases name with
  | none => exact ⟨hfresh, mem_keys_put _ _ _, by simp⟩
  | some n =>
    rw [objectName_some]
    by_cases hreserved : env.isReserved n = true
    · rw [if_pos hreserved]
      refine ⟨hfresh, mem_keys_put _ _ _, ?_⟩
      rintro k ⟨⟩
      exact hfresh.subset (h.mem_keys_of_isReserved hreserved)
    · rw [if_neg hreserved]
      refine ⟨h.grown_put n span hobject, mem_keys_put _ _ _, ?_⟩
      rintro k ⟨⟩
      exact mem_keys_put _ _ _

/-! ### Bindings -/

theorem grown_addVariable (h : env.Closed) (name : Name) (target : Option Ty)
    (ht : env.types.Covers type) (span : Option Span) :
    Grown env (env.addVariable name target (some type) span) :=
  h.grown_edit (fun _ hr => hr.define name ht) _

theorem grown_popScope? (h : env.Closed) (hpop : env.popScope? = some (n, env')) :
    Grown env env' := by
  unfold popScope? at hpop
  split at hpop
  · cases hpop
  · cases hpop
    have hedit := h.grown_edit (fun _ hr => hr.undefine (some "this")) (env.scope none)
    exact ⟨⟨hedit.closed.catalog, hedit.closed.table,
      fun n hn => hedit.closed.scopes n (Scopes.mem_toList_of_mem_pop hn), hedit.closed.generated⟩,
      hedit.subset⟩

theorem grown_setBinding (h : env.Closed) (owner : String) (name : Name)
    (ht : env.types.Covers type) (span : Option Span) :
    Grown env (env.setBinding owner name type span) := by
  have hfresh := h.grown_edit (fun _ hr => hr.define name ht)
    (f := fun r => r.define name { type := type, span := span }) owner
  unfold setBinding
  dsimp only
  split
  · exact hfresh
  · split
    · exact hfresh
    · exact h.grown_modify (fun _ hr => hr.retype name ht) _

theorem grown_addOrSet (h : env.Closed) (name : Name) (target : Option Ty)
    (ht : env.types.Covers type) (span : Option Span) :
    Grown env (env.addOrSet name target (some type) span).2 := by
  rw [addOrSet_some]
  split
  · exact h.grown_edit (fun _ hr => hr.relink ht) _
  · exact grown_setBinding h _ _ ht _

theorem grown_addOrSet_none (h : env.Closed) (name : Name) (span : Option Span) :
    Grown env (env.addOrSet name none none span).2 := by
  rw [env.addOrSet_none name none span (by simp)]
  obtain ⟨hnew, hkey, -⟩ := grown_newFleetingObject h none span
  exact hnew.trans (grown_addOrSet hnew.closed _ _ (Table.covers_named hkey) _)

/-! ### Objects, constructors and summaries -/

theorem grown_newObject (h : env.Closed) (name : Option String) (span : Option Span) :
    Grown env (env.newObject name span).2 ∧
      (env.newObject name span).1 ∈ (env.newObject name span).2.types.keys := by
  have hscope := grown_newScope h span
  obtain ⟨hobject, hkey, -⟩ := grown_newFleetingObject hscope.closed name span
  have hthis := grown_addVariable hobject.closed (some "this") none (Table.covers_named hkey) span
  exact ⟨(hscope.trans hobject).trans hthis, hthis.subset hkey⟩

theorem grown_createConstructor (h : env.Closed) (result : Ty) (instanceName : String) :
    Grown env (env.createConstructor result instanceName) := by
  unfold createConstructor
  dsimp only
  generalize Ty.constructorKey result = key
  obtain ⟨h₁, -, hkey₁⟩ := grown_newFleetingObject h (some key) none
  generalize (env.newFleetingObject (some key) none).2 = env₁ at h₁ hkey₁ ⊢
  obtain ⟨h₂, hkey₂, -⟩ := grown_newFleetingObject h₁.closed (some (Ty.protoKey key)) none
  generalize env₁.newFleetingObject (some (Ty.protoKey key)) none = made at h₂ hkey₂ ⊢
  -- the constructor's record links to the prototype object, and the instance to the constructor's
  have hproto := h₂.closed.grown_modify
    (fun _ hr => hr.relink (d := { type := .named made.1 }) (Table.covers_named hkey₂)) key
  have hinstance := hproto.closed.grown_modify
    (fun _ hr => hr.relink (d := { type := .named key })
      (Table.covers_named ((h₂.trans hproto).subset (hkey₁ key rfl)))) instanceName
  exact ((h₁.trans h₂).trans hproto).trans hinstance

theorem grown_mergeSummary (h : env.Closed) {m : Summary} (hm : m.Closed) (target : String) :
    Grown env (env.mergeSummary m target) ∧
      m.types.keys ⊆ (env.mergeSummary m target).types.keys := by
  have hsub : env.types.keys ⊆ (env.types.addMissing m.types).keys := fun n hn =>
    Table.mem_keys_addMissing.2 (Or.inl hn)
  have hown : m.types.keys ⊆ (env.types.addMissing m.types).keys := fun n hn =>
    Table.mem_keys_addMissing.2 (Or.inr hn)
  have hcovers : ∀ {type}, m.Covers type → (env.types.addMissing m.types).Covers type := fun ht =>
    ht.table (fun n hn => hsub (h.catalog hn)) hown
  have hmerged := h.withTypes
    (h.table.addMissing fun r hr d hd => hcovers (hm.types r hr d hd)) hsub
  unfold mergeSummary
  dsimp only
  split
  · exact ⟨hmerged, hown⟩
  · rename_i provided hprovided
    have hrecord : (env.types.addMissing m.types).CoversRecord provided :=
      fun d hd => hcovers (hm.record provided hprovided d hd)
    have hedit := hmerged.closed.grown_edit (fun r hr => hr.overlay hrecord) target
    exact ⟨hmerged.trans hedit, fun n hn => hedit.subset (hown hn)⟩

end Environment

end ContentAssist
