import ContentAssist.Environment.Lemmas
import ContentAssist.Proofs.Record.Lookup
import ContentAssist.Proofs.Record.Names

/-! # Sound environments

In the environment of a file that consults no other one the builtin records are those of the
catalog, and every other record but the global one bears a name of the file's own. The types of its
definitions end in names of records, or in `boolean`, and no definition comes from another file.
Every operation keeps this if the types that are handed to it end so too.

* `Table.Made`, `Table.Sound`, `Environment.Sound`: the invariant, of a record, a table, an
  environment;
* `Table.Sound.edit`, `Table.Sound.insert`: the two ways to change a table;
* `sound_start`, `keeps_addVariable`, ...: the operations. -/

namespace ContentAssist

open Catalog (globalName)

namespace Table

variable {t t' : Table} {uid n : String} {type : Ty} {r : Record} {name : Name} {d : Definition}

/-! ### Records of a program -/

/-- The leaf of the type names a record of the table, or it is `boolean`. -/
def Covers (t : Table) (type : Ty) : Prop := type.leaf ∈ t.keys ∨ type.leaf = "boolean"

theorem Covers.mono (hsub : t.keys ⊆ t'.keys) (h : t.Covers type) : t'.Covers type :=
  h.imp_left fun hk => hsub hk

theorem covers_named (h : n ∈ t.keys) : t.Covers (.named n) := Or.inl h

theorem Covers.result (h : t.Covers type) : t.Covers type.result := by
  cases type with
  | named name => exact h
  | function r params => exact h

/-- A definition of the file itself whose type is covered. -/
structure Local (t : Table) (d : Definition) : Prop where
  path : d.path = none
  type : t.Covers d.type

theorem local_named (h : n ∈ t.keys) : t.Local { type := .named n } := ⟨rfl, covers_named h⟩

/-- A record as programs make and change it. -/
structure Made (t : Table) (r : Record) : Prop where
  builtin : r.builtin = false
  proto : r.proto.isSome = true
  keys : r.members.keys.Nodup
  member : ∀ name d, r.members.find? name = some d → t.Local d
  link : ∀ p, r.proto = some p → t.Local p

theorem Local.mono (hsub : t.keys ⊆ t'.keys) (h : t.Local d) : t'.Local d := ⟨h.path, h.type.mono hsub⟩

theorem Made.mono (hsub : t.keys ⊆ t'.keys) (h : Made t r) : Made t' r :=
  ⟨h.builtin, h.proto, h.keys, fun name d hd => (h.member name d hd).mono hsub,
    fun p hp => (h.link p hp).mono hsub⟩

theorem Made.definitions (h : Made t r) (hd : d ∈ r.definitions) : t.Local d := by
  rcases List.mem_append.1 hd with hd | hd
  · obtain ⟨name, hname⟩ := OrderedMap.exists_find?_of_mem_values h.keys hd
    exact h.member name d hname
  · exact h.link d (by simpa [eq_comm] using hd)

theorem made_new {type : Ty} (span : Option Span) (ht : t.Covers type) :
    Made t { proto := some { type := type, span := span } } where
  builtin := rfl
  proto := rfl
  keys := List.nodup_nil
  member := by
    intro name d hd
    cases hd
  link := by
    intro p hp
    cases hp
    exact ⟨rfl, ht⟩

theorem Made.define (h : Made t r) (name : Name) (hd : t.Local d) : Made t (r.define name d) where
  builtin := h.builtin
  proto := h.proto
  keys := OrderedMap.nodup_keys_insert h.keys _ _
  member := by
    intro k e he
    rw [Record.define, OrderedMap.find?_insert] at he
    split at he
    · cases he
      exact hd
    · exact h.member k e he
  link := h.link

theorem Made.undefine (h : Made t r) (name : Name) : Made t (r.undefine name) where
  builtin := h.builtin
  proto := h.proto
  keys := OrderedMap.nodup_keys_erase h.keys _
  member := by
    intro k e he
    rw [Record.undefine, OrderedMap.find?_erase] at he
    split at he
    · cases he
    · exact h.member k e he
  link := h.link

theorem Made.relink (h : Made t r) (hd : t.Local d) : Made t { r with proto := some d } where
  builtin := h.builtin
  proto := rfl
  keys := h.keys
  member := h.member
  link := by
    intro p hp
    cases hp
    exact hd

theorem Made.retype (h : Made t r) (name : Name) (ht : t.Covers type) :
    Made t { r with members := r.members.modify name fun d => { d with type := type } } where
  builtin := h.builtin
  proto := h.proto
  keys := OrderedMap.nodup_keys_modify h.keys _ _
  member := by
    intro k e he
    rw [OrderedMap.find?_modify] at he
    split at he
    · obtain ⟨d, hd, rfl⟩ := Option.map_eq_some_iff.1 he
      exact ⟨(h.member k d hd).path, ht⟩
    · exact h.member k e he
  link := h.link

/-! ### Tables -/

/-- The table of the file `uid`, as far as it consulted no other one. -/
structure Sound (uid : String) (t : Table) : Prop where
  keys : t.keys.Nodup
  builtin : ∀ n ∈ builtinNames, t.find? n = Catalog.table.find? n
  globals : globalName ∈ t.keys
  made : ∀ n r, t.find? n = some r → n ∈ builtinNames ∨ (n = globalName ∨ Own uid n) ∧ Made t r

theorem local_of_catalog (hr : Catalog.table.find? n = some r) (hd : d ∈ r.definitions) :
    Catalog.table.Local d := by
  obtain ⟨base, hbase, hatom⟩ := atom?_of_catalog hr hd
  refine ⟨path_of_catalog hr hd, ?_⟩
  rcases List.mem_cons.1 hbase with rfl | hbase
  · exact Or.inr (leaf_of_atom? hatom)
  · exact Or.inl (leaf_of_atom? hatom ▸ hbase)

theorem made_global : Made Catalog.table Catalog.globalRecord where
  builtin := rfl
  proto := rfl
  keys := by decide +kernel
  member := by
    intro name d hd
    have hr : Catalog.table.find? globalName = some Catalog.globalRecord := rfl
    exact local_of_catalog hr
      (List.mem_append_left _ (OrderedMap.mem_values_of_find? _ hd))
  link := by
    intro p hp
    cases hp
    exact ⟨rfl, Or.inl (by decide +kernel)⟩

theorem sound_catalog (uid : String) : Sound uid Catalog.table where
  keys := by decide +kernel
  builtin := fun _ _ => rfl
  globals := List.mem_cons_self
  made := by
    intro n r hr
    rcases mem_catalog_keys_iff.1 (Catalog.table.mem_keys_of_find? hr) with rfl | hn
    · cases hr
      exact Or.inr ⟨Or.inl rfl, made_global⟩
    · exact Or.inl hn

namespace Sound
variable (h : Sound uid t)
include h

theorem mem_keys_of_builtin (hn : n ∈ builtinNames) : n ∈ t.keys := by
  obtain ⟨r, hr⟩ := OrderedMap.exists_find?_of_mem_keys _ (mem_catalog_keys_iff.2 (Or.inr hn))
  exact t.mem_keys_of_find? ((h.builtin n hn).trans hr)

theorem mem_keys_of_catalog (hn : n ∈ Catalog.table.keys) : n ∈ t.keys := by
  rcases mem_catalog_keys_iff.1 hn with rfl | hn
  · exact h.globals
  · exact h.mem_keys_of_builtin hn

theorem catalog_subset : Catalog.table.keys ⊆ t.keys := fun _ hn => h.mem_keys_of_catalog hn

theorem known_of_key (hn : n ∈ t.keys) : Known uid n := by
  obtain ⟨r, hr⟩ := t.exists_find?_of_mem_keys hn
  rcases h.made n r hr with hn | ⟨rfl | hn, -⟩
  · exact Or.inr (List.mem_cons_of_mem _ (mem_catalog_keys_iff.2 (Or.inr hn)))
  · exact Or.inr (List.mem_cons_of_mem _ (mem_catalog_keys_iff.2 (Or.inl rfl)))
  · exact Or.inl hn

theorem known_leaf (ht : t.Covers type) : Known uid type.leaf := by
  rcases ht with ht | ht
  · exact h.known_of_key ht
  · exact Or.inr (ht ▸ List.mem_cons_self)

theorem builtin_eq_true (hn : n ∈ builtinNames) (hr : t.find? n = some r) : r.builtin = true := by
  rw [h.builtin n hn] at hr
  exact (catalog_builtin _ (Catalog.table.mem_of_find? hr) hn).2

theorem made_of_not_builtin (hn : n ∉ builtinNames) (hr : t.find? n = some r) : Made t r :=
  ((h.made n r hr).resolve_left hn).2

theorem definitions (hr : t.find? n = some r) (hd : d ∈ r.definitions) : t.Local d := by
  rcases h.made n r hr with hn | ⟨-, hmade⟩
  · rw [h.builtin n hn] at hr
    exact (local_of_catalog hr hd).mono h.catalog_subset
  · exact hmade.definitions hd

theorem covers_of_resolve? (hd : t.resolve? n name = some d) : t.Covers d.type := by
  obtain ⟨e, he, hans⟩ := List.exists_of_findSome?_eq_some hd
  exact (h.definitions (find?_of_mem_chainFrom he) (Record.mem_definitions_of_answer? hans)).type

/-! ### Changed tables -/

theorem insert (hown : Own uid n) (hmade : Made (t.insert n r) r) : Sound uid (t.insert n r) := by
  have hsub : t.keys ⊆ (OrderedMap.insert t n r).keys := fun k hk =>
    (t.mem_keys_insert).2 (Or.inr hk)
  constructor
  · exact OrderedMap.nodup_keys_insert h.keys _ _
  · intro k hk
    rw [OrderedMap.find?_insert, if_neg, h.builtin k hk]
    rintro rfl
    exact own_not_key hown (mem_catalog_keys_iff.2 (Or.inr hk))
  · exact hsub h.globals
  · intro k q hq
    rw [OrderedMap.find?_insert] at hq
    split at hq
    · rename_i hk
      cases hq
      exact Or.inr ⟨Or.inr (hk ▸ hown), hmade⟩
    · exact (h.made k q hq).imp_right fun hq => ⟨hq.1, hq.2.mono hsub⟩

theorem edit {f : Record → Record} (hf : ∀ r, Made t r → Made t (f r)) (n : String) :
    Sound uid (t.edit n f) := by
  have hkeys : ∀ k, k ∈ (t.edit n f).keys ↔ k ∈ t.keys := fun k => t.mem_keys_modify
  have hsub : t.keys ⊆ (t.edit n f).keys := fun k hk => (hkeys k).2 hk
  constructor
  · exact OrderedMap.nodup_keys_modify h.keys _ _
  · intro k hk
    obtain ⟨r, hr⟩ := t.exists_find?_of_mem_keys (h.mem_keys_of_builtin hk)
    rw [find?_edit, ← h.builtin k hk]
    split
    · rw [hr, Option.map_some, if_pos (h.builtin_eq_true hk hr)]
    · rfl
  · exact hsub h.globals
  · intro k q hq
    rw [find?_edit] at hq
    split at hq
    · obtain ⟨r, hr, rfl⟩ := Option.map_eq_some_iff.1 hq
      rcases h.made k r hr with hk | ⟨hname, hmade⟩
      · exact Or.inl hk
      · rw [if_neg (by simp [hmade.builtin])]
        exact Or.inr ⟨hname, (hf r hmade).mono hsub⟩
    · exact (h.made k q hq).imp_right fun hq => ⟨hq.1, hq.2.mono hsub⟩

omit h in
theorem modify_eq_edit (hbuiltin : ∀ r, t.find? n = some r → r.builtin = false)
    (f : Record → Record) : t.modify n f = t.edit n f := by
  unfold Table.edit OrderedMap.modify
  cases hr : t.find? n with
  | none => rfl
  | some r =>
    dsimp only
    rw [if_neg (by simp [hbuiltin r hr])]

theorem modify {f : Record → Record} (hf : ∀ r, Made t r → Made t (f r)) (hn : n ∉ builtinNames) :
    Sound uid (t.modify n f) := by
  rw [modify_eq_edit fun r hr => (h.made_of_not_builtin hn hr).builtin]
  exact h.edit hf n

end Sound

end Table

/-! ### Environments -/

/-- The environment of a file that consulted no other one. -/
structure Environment.Sound (env : Environment) : Prop where
  table : Table.Sound env.uid env.types
  outermost : env.scopes.outermost = globalName
  inner : ∀ n ∈ env.scopes.inner, n ∈ env.types.keys
  generated : ∀ k < env.count, Ty.generatedName env.uid k ∈ env.types.keys

namespace Environment

variable {env env' : Environment} {type : Ty} {n : String}

theorem sound_start (uid : String) : (start uid).Sound where
  table := Table.sound_catalog uid
  outermost := rfl
  inner := by
    intro n hn
    cases hn
  generated := by
    intro k hk
    cases hk

theorem Sound.withTypes (h : env.Sound) {t : Table} (ht : Table.Sound env.uid t)
    (hsub : env.types.keys ⊆ t.keys) : ({ env with types := t } : Environment).Sound :=
  ⟨ht, h.outermost, fun n hn => hsub (h.inner n hn), fun k hk => hsub (h.generated k hk)⟩

theorem keys_subset_edit (t : Table) (n : String) (f : Record → Record) :
    t.keys ⊆ (t.edit n f).keys := fun _ hk => (t.mem_keys_modify).2 hk

theorem Sound.withEdit (h : env.Sound) {f : Record → Record}
    (hf : ∀ r, Table.Made env.types r → Table.Made env.types (f r)) (n : String) :
    ({ env with types := env.types.edit n f } : Environment).Sound :=
  h.withTypes (h.table.edit hf n) (keys_subset_edit _ _ _)

/-- The records and scopes that were there stay, and types that were covered stay so. -/
structure Keeps (env env' : Environment) : Prop where
  sound : env'.Sound
  subset : env.types.keys ⊆ env'.types.keys

theorem Keeps.trans {env₁ env₂ env₃ : Environment} (h : Keeps env₁ env₂) (h' : Keeps env₂ env₃) :
    Keeps env₁ env₃ := ⟨h'.sound, fun _ hn => h'.subset (h.subset hn)⟩

theorem Sound.keeps_edit (h : env.Sound) {f : Record → Record}
    (hf : ∀ r, Table.Made env.types r → Table.Made env.types (f r)) (n : String) :
    Keeps env { env with types := env.types.edit n f } :=
  ⟨h.withEdit hf n, keys_subset_edit _ _ _⟩

theorem Sound.current_mem_keys (h : env.Sound) : env.scopes.current ∈ env.types.keys := by
  unfold Scopes.current
  cases hi : env.scopes.inner with
  | nil =>
    rw [List.headD_nil, h.outermost]
    exact h.table.globals
  | cons n ns => exact h.inner n (hi ▸ List.mem_cons_self)

theorem Sound.covers_object (h : env.Sound) : env.types.Covers .object :=
  Table.covers_named (h.table.mem_keys_of_builtin (by decide))

theorem Sound.covers_of_lookup? (h : env.Sound) {name : Name} {target : Option Ty}
    (ht : env.lookup? name target = some type) : env.types.Covers type := by
  obtain ⟨d, hd, rfl⟩ := Option.map_eq_some_iff.1 ht
  exact h.table.covers_of_resolve? hd

/-! ### New records -/

theorem keys_subset_put (env : Environment) (n : String) (r : Record) :
    env.types.keys ⊆ (env.put n r).types.keys := fun _ hk => (env.types.mem_keys_insert).2 (Or.inr hk)

theorem mem_keys_put (env : Environment) (n : String) (r : Record) :
    n ∈ (env.put n r).types.keys := (env.types.mem_keys_insert).2 (Or.inl rfl)

theorem Sound.keeps_put (h : env.Sound) (hown : Own env.uid n) (span : Option Span)
    (ht : env.types.Covers type) :
    Keeps env (env.put n { proto := some { type := type, span := span } }) :=
  ⟨h.withTypes (h.table.insert hown (Table.made_new span (ht.mono (keys_subset_put _ _ _))))
    (keys_subset_put _ _ _), keys_subset_put _ _ _⟩

theorem Sound.withNext (h : env.Sound) (hnext : Ty.generatedName env.uid env.count ∈ env.types.keys) :
    ({ env with count := env.count + 1 } : Environment).Sound := by
  refine ⟨h.table, h.outermost, h.inner, fun k hk => ?_⟩
  rcases Nat.lt_succ_iff_lt_or_eq.1 hk with hk | rfl
  · exact h.generated k hk
  · exact hnext

theorem keeps_newScope (h : env.Sound) (span : Option Span) : Keeps env (env.newScope span).2 := by
  have hput := h.keeps_put (own_generatedName env.uid env.count) span
    (Table.covers_named h.current_mem_keys)
  have hnext := hput.sound.withNext (mem_keys_put _ _ _)
  refine ⟨⟨hnext.table, hnext.outermost, fun n hn => ?_, hnext.generated⟩, hput.subset⟩
  rcases List.mem_cons.1 hn with rfl | hn
  · exact mem_keys_put _ _ _
  · exact hnext.inner n hn

theorem Sound.mem_keys_of_isReserved (h : env.Sound) (hn : env.isReserved n = true) :
    n ∈ env.types.keys := by
  rcases Bool.or_eq_true_iff.1 hn with hn | hn
  · cases hr : env.types.find? n with
    | none => simp [hr] at hn
    | some r => exact env.types.mem_keys_of_find? hr
  · rcases Bool.or_eq_true_iff.1 hn with hn | hn
    · exact (of_decide_eq_true hn).trans h.outermost ▸ h.table.globals
    · exact h.inner n (of_decide_eq_true hn)

theorem Sound.isReserved_of_catalog (h : env.Sound) (hn : n ∈ Catalog.table.keys) :
    env.isReserved n = true := by
  unfold isReserved
  rcases mem_catalog_keys_iff.1 hn with rfl | hn
  · simp [Scopes.contains, h.outermost]
  · obtain ⟨r, hr⟩ := env.types.exists_find?_of_mem_keys (h.table.mem_keys_of_builtin hn)
    simp [hr, h.table.builtin_eq_true hn hr]

/-- The name of a new object is generated, or it is the wanted one and the file's own. -/
theorem Sound.objectName_cases (h : env.Sound) (name : Option String)
    (hname : ∀ n, name = some n → Own env.uid n ∨ n ∈ Catalog.table.keys) :
    (env.objectName name = env.newName ∧ ∀ n, name = some n → n ∈ env.types.keys) ∨
      ∃ n, name = some n ∧ env.objectName name = (n, env) ∧ Own env.uid n := by
  cases name with
  | none => exact Or.inl ⟨rfl, by simp⟩
  | some n =>
    rw [objectName_some]
    split
    · rename_i hres
      exact Or.inl ⟨rfl, fun k hk => Option.some.inj hk ▸ h.mem_keys_of_isReserved hres⟩
    · rename_i hres
      exact Or.inr ⟨n, rfl, rfl, (hname n rfl).resolve_right fun hkey =>
        hres (h.isReserved_of_catalog hkey)⟩

/-- There is a record of a new object, and one of the wanted name. -/
theorem keeps_newFleetingObject (h : env.Sound) (name : Option String) (span : Option Span)
    (hname : ∀ n, name = some n → Own env.uid n ∨ n ∈ Catalog.table.keys) :
    Keeps env (env.newFleetingObject name span).2 ∧
      (env.newFleetingObject name span).1 ∈ (env.newFleetingObject name span).2.types.keys ∧
      ∀ n, name = some n → n ∈ (env.newFleetingObject name span).2.types.keys := by
  unfold newFleetingObject
  dsimp only
  rcases h.objectName_cases name hname with ⟨he, hkey⟩ | ⟨n, rfl, he, hown⟩
  · rw [he]
    have hput := h.keeps_put (own_generatedName env.uid env.count) span h.covers_object
    exact ⟨⟨hput.sound.withNext (mem_keys_put _ _ _), hput.subset⟩, mem_keys_put _ _ _,
      fun n hn => hput.subset (hkey n hn)⟩
  · rw [he]
    refine ⟨h.keeps_put hown span h.covers_object, mem_keys_put _ _ _, ?_⟩
    rintro k ⟨⟩
    exact mem_keys_put _ _ _

/-! ### Bindings -/

theorem keeps_addVariable (h : env.Sound) (name : Name) (target : Option Ty)
    (ht : env.types.Covers type) (span : Option Span) :
    Keeps env (env.addVariable name target (some type) span) :=
  h.keeps_edit (fun _ hr => hr.define name ⟨rfl, ht⟩) _

theorem keeps_popScope? (h : env.Sound) (hpop : env.popScope? = some (n, env')) :
    Keeps env env' := by
  unfold popScope? at hpop
  split at hpop
  · cases hpop
  · cases hpop
    have hedit := h.keeps_edit (fun _ hr => hr.undefine (some "this")) (env.scope none)
    exact ⟨⟨hedit.sound.table, hedit.sound.outermost,
      fun n hn => hedit.sound.inner n (List.mem_of_mem_tail hn), hedit.sound.generated⟩, hedit.subset⟩

theorem keeps_setBinding (h : env.Sound) (owner : String) (name : Name)
    (ht : env.types.Covers type) (span : Option Span) :
    Keeps env (env.setBinding owner name type span) := by
  have hfresh := h.keeps_edit (fun _ hr => hr.define name ⟨rfl, ht⟩)
    (f := fun r => r.define name { type := type, span := span }) owner
  unfold setBinding
  dsimp only
  split
  · exact hfresh
  · rename_i o r hfound
    split
    · exact hfresh
    · rename_i hb
      have hr : env.types.find? o = some r :=
        Table.find?_of_mem_chainFrom (List.mem_of_find?_eq_some hfound)
      have hbuiltin : ∀ q, env.types.find? o = some q → q.builtin = false := by
        intro q hq
        cases hr.symm.trans hq
        simpa using hb
      rw [Table.Sound.modify_eq_edit hbuiltin]
      exact h.keeps_edit (fun _ hr => hr.retype name ht) o

theorem keeps_addOrSet (h : env.Sound) (name : Name) (target : Option Ty)
    (ht : env.types.Covers type) (span : Option Span) :
    Keeps env (env.addOrSet name target (some type) span).2 := by
  rw [addOrSet_some]
  split
  · exact h.keeps_edit (fun _ hr => hr.relink ⟨rfl, ht⟩) _
  · exact keeps_setBinding h _ _ ht _

theorem keeps_addOrSet_none (h : env.Sound) (name : Name) (span : Option Span) :
    Keeps env (env.addOrSet name none none span).2 := by
  rw [env.addOrSet_none name none span (by simp)]
  obtain ⟨hnew, hkey, -⟩ := keeps_newFleetingObject h none span (by simp)
  exact hnew.trans (keeps_addOrSet hnew.sound _ _ (Table.covers_named hkey) _)

/-! ### Objects and constructors -/

theorem keeps_newObject (h : env.Sound) (name : Option String) (span : Option Span)
    (hname : ∀ n, name = some n → Own env.uid n ∨ n ∈ Catalog.table.keys) :
    Keeps env (env.newObject name span).2 ∧
      (env.newObject name span).1 ∈ (env.newObject name span).2.types.keys := by
  have hscope := keeps_newScope h span
  obtain ⟨hobj, hkey, -⟩ := keeps_newFleetingObject hscope.sound name span hname
  have hthis := keeps_addVariable hobj.sound (some "this") none (Table.covers_named hkey) span
  exact ⟨(hscope.trans hobj).trans hthis, hthis.subset hkey⟩

theorem Sound.keeps_modify (h : env.Sound) {f : Record → Record}
    (hf : ∀ r, Table.Made env.types r → Table.Made env.types (f r)) (hn : Own env.uid n) :
    Keeps env { env with types := env.types.modify n f } := by
  have hsub : env.types.keys ⊆ (env.types.modify n f).keys := fun k hk =>
    (env.types.mem_keys_modify).2 hk
  have hn' : n ∉ builtinNames := fun hb =>
    own_not_key hn (mem_catalog_keys_iff.2 (Or.inr hb))
  exact ⟨h.withTypes (h.table.modify hf hn') hsub, hsub⟩

/-- Linking the constructor record `key` to the prototype object and the instance to `key`. -/
theorem keeps_links (h : env.Sound) {key object protoName : String} (hkey : Own env.uid key)
    (hobject : Own env.uid object) (hmem : key ∈ env.types.keys)
    (hproto : protoName ∈ env.types.keys) :
    Keeps env { env with
      types := (env.types.modify key fun r =>
        { r with proto := some { type := .named protoName } }).modify object fun r =>
          { r with proto := some { type := .named key } } } := by
  have h₁ := h.keeps_modify (fun _ hr => hr.relink (Table.local_named hproto)) hkey
  exact h₁.trans (h₁.sound.keeps_modify
    (fun _ hr => hr.relink (Table.local_named (h₁.subset hmem))) hobject)

theorem keeps_createConstructor (h : env.Sound) {object : String}
    (hown : ∀ n ∈ derivedNames object, Own env.uid n) :
    Keeps env (env.createConstructor (.named object) object) := by
  have hobject : Own env.uid object := hown _ (by simp [derivedNames])
  have hc : Own env.uid (Ty.constructorKey (.named object)) := hown _ (by simp [derivedNames])
  have hp : Own env.uid (Ty.protoKey (Ty.constructorKey (.named object))) :=
    hown _ (by simp [derivedNames])
  unfold createConstructor
  dsimp only
  generalize Ty.constructorKey (.named object) = key at hc hp ⊢
  obtain ⟨h₁, -, hkey₁⟩ := keeps_newFleetingObject h (some key) none
    (by rintro n ⟨⟩; exact Or.inl hc)
  have huid₁ := env.newFleetingObject_uid (some key) none
  generalize (env.newFleetingObject (some key) none).2 = env₁ at h₁ hkey₁ huid₁ ⊢
  obtain ⟨h₂, hkey₂, -⟩ := keeps_newFleetingObject h₁.sound (some (Ty.protoKey key)) none
    (by rintro n ⟨⟩; exact Or.inl (huid₁ ▸ hp))
  have huid₂ := env₁.newFleetingObject_uid (some (Ty.protoKey key)) none
  generalize env₁.newFleetingObject (some (Ty.protoKey key)) none = made at h₂ hkey₂ huid₂ ⊢
  have huid : made.2.uid = env.uid := huid₂.trans huid₁
  refine (h₁.trans h₂).trans (keeps_links h₂.sound ?_ ?_ (h₂.subset (hkey₁ _ rfl)) hkey₂)
  · rw [huid]
    exact hc
  · rw [huid]
    exact hobject

end Environment

end ContentAssist
