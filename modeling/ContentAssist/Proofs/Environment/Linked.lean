import ContentAssist.Proofs.Environment.Intact
import Mathlib.Data.List.Perm.Subperm

/-! # Linked scopes

The scopes of a stack are linked if the prototype link of each names the scope below it, and that of
the global one `Object`: then the chain from the innermost scope is the stack, with `Object` behind
it. Every operation keeps this but one: setting the link of a scope. New records have names that no
scope has, and bindings leave links alone.

* `Table.Links`, `map_chain_of_links`: records that link to one another, and their chain;
* `Environment.Linked`: the invariant, `Linked.map_chain`: the chain of the scopes;
* `linked_newScope`, `linked_addOrSet`, ...: the operations. -/

namespace ContentAssist

open Catalog (globalName)

namespace Table

variable {t t' : Table} {n last : String} {ns : List String} {f : Record → Record}

/-! ### Links of records -/

/-- The type that the prototype link of a record names. -/
def link? (t : Table) (n : String) : Option Ty := ((t.find? n).bind (·.proto)).map (·.type)

theorem link?_insert_of_ne {name : String} (h : name ≠ n) (r : Record) :
    link? (t.insert name r) n = t.link? n := by
  unfold link?
  rw [OrderedMap.find?_insert, if_neg h]

theorem link?_insert_self (t : Table) (n : String) (r : Record) :
    link? (t.insert n r) n = r.proto.map (·.type) := by
  unfold link?
  rw [OrderedMap.find?_insert, if_pos rfl]
  rfl

theorem link?_modify_of_ne {name : String} (h : name ≠ n) :
    link? (t.modify name f) n = t.link? n := by
  unfold link?
  rw [OrderedMap.find?_modify, if_neg h]

theorem link?_modify (hf : ∀ r, (f r).proto = r.proto) (name n : String) :
    link? (t.modify name f) n = t.link? n := by
  unfold link?
  rw [OrderedMap.find?_modify]
  split
  · cases t.find? n with
    | none => rfl
    | some r => exact congrArg (Option.map (·.type)) (hf r)
  · rfl

theorem link?_edit_of_ne {name : String} (h : name ≠ n) : (t.edit name f).link? n = t.link? n :=
  link?_modify_of_ne h

theorem link?_edit (hf : ∀ r, (f r).proto = r.proto) (name n : String) :
    (t.edit name f).link? n = t.link? n := by
  refine link?_modify (fun r => ?_) name n
  split
  · rfl
  · exact hf r

theorem exists_find?_of_link? {type : Ty} (h : t.link? n = some type) :
    ∃ r d, t.find? n = some r ∧ r.proto = some d ∧ d.type = type := by
  obtain ⟨d, hd, htype⟩ := Option.map_eq_some_iff.1 h
  obtain ⟨r, hr, hproto⟩ := Option.bind_eq_some_iff.1 hd
  exact ⟨r, d, hr, hproto, htype⟩

/-! ### Records that link to one another -/

/-- Each record links to the next one, and the last of them to `last`. -/
def Links (t : Table) (last : String) : List String → Prop
  | [] => True
  | n :: ns => t.link? n = some (.named (ns.headD last)) ∧ t.Links last ns

theorem Links.transport (h : t.Links last ns) (hlink : ∀ n ∈ ns, t'.link? n = t.link? n) :
    t'.Links last ns := by
  induction ns with
  | nil => trivial
  | cons n ns ih =>
    obtain ⟨hn, hns⟩ := h
    exact ⟨(hlink n List.mem_cons_self).trans hn,
      ih hns fun m hm => hlink m (List.mem_cons_of_mem _ hm)⟩

theorem Links.link? {above below : List String} (h : t.Links last (above ++ n :: below)) :
    t.link? n = some (.named (below.headD last)) := by
  induction above with
  | nil => exact h.1
  | cons m above ih => exact ih h.2

theorem Links.of_suffix {above : List String} (h : t.Links last (above ++ ns)) : t.Links last ns := by
  induction above with
  | nil => exact h
  | cons m above ih => exact ih h.2

/-- Records that link to one another, up to one without a link, are a chain. -/
theorem map_chainFrom_of_links {fuel : Nat} {seen : List String} {r : Record}
    (h : t.Links last ns) (hlast : t.find? last = some r) (hend : r.proto = none)
    (hnodup : (ns ++ [last]).Nodup) (hseen : ∀ n ∈ ns ++ [last], n ∉ seen)
    (hfuel : ns.length + 1 ≤ fuel) :
    (t.chainFrom fuel seen (ns.headD last)).map (·.1) = ns ++ [last] := by
  induction ns generalizing seen fuel with
  | nil =>
    obtain ⟨fuel, rfl⟩ : ∃ f, fuel = f + 1 := ⟨fuel - 1, by omega⟩
    rw [List.headD_nil, chainFrom, if_neg (hseen last (by simp)), hlast]
    simp [hend]
  | cons n ns ih =>
    obtain ⟨hn, hns⟩ := h
    obtain ⟨r, d, hr, hproto, htype⟩ := exists_find?_of_link? hn
    obtain ⟨fuel, rfl⟩ : ∃ f, fuel = f + 1 := ⟨fuel - 1, by omega⟩
    rw [List.cons_append, List.nodup_cons] at hnodup
    have hunseen : ∀ m ∈ ns ++ [last], m ∉ n :: seen := by
      intro m hm hmem
      rcases List.mem_cons.1 hmem with rfl | hmem
      · exact hnodup.1 hm
      · exact hseen m (List.mem_cons_of_mem _ hm) hmem
    have hrest : (t.chainFrom fuel (n :: seen) (ns.headD last)).map (·.1) = ns ++ [last] := by
      refine ih hns hnodup.2 hunseen ?_
      rw [List.length_cons] at hfuel
      omega
    rw [List.headD_cons, chainFrom, if_neg (hseen n List.mem_cons_self), hr]
    simp only [hproto, htype, Ty.key, List.map_cons, hrest]
    rfl

/-- **The chain of records that link to one another** is made of them. -/
theorem map_chain_of_links {r : Record} (h : t.Links last ns) (hlast : t.find? last = some r)
    (hend : r.proto = none) (hnodup : (ns ++ [last]).Nodup) :
    (t.chain (ns.headD last)).map (·.1) = ns ++ [last] := by
  have hkeys : ns ++ [last] ⊆ t.keys := by
    intro n hn
    rcases List.mem_append.1 hn with hn | hn
    · obtain ⟨above, below, rfl⟩ := List.append_of_mem hn
      obtain ⟨r', -, hr', -⟩ := exists_find?_of_link? h.link?
      exact t.mem_keys_of_find? hr'
    · obtain rfl := List.mem_singleton.1 hn
      exact t.mem_keys_of_find? hlast
  have hlength : ns.length + 1 ≤ t.size := by
    have hle := (List.subperm_of_subset hnodup hkeys).length_le
    have hsize : t.keys.length = t.size := List.length_map _
    rwa [List.length_append, List.length_singleton, hsize] at hle
  exact map_chainFrom_of_links h hlast hend hnodup (by simp) hlength

end Table

namespace Environment

variable {env env' : Environment} {n : String}

/-! ### Linked environments -/

/-- Each scope of the stack links to the one below it, and the global one to `Object`. The inner
scopes have different names that were generated for the file. -/
structure Linked (env : Environment) : Prop where
  intact : env.types.Intact
  outermost : env.scopes.outermost = globalName
  links : env.types.Links "Object" (env.scopes.inner ++ [globalName])
  generated : ∀ n ∈ env.scopes.inner, ∃ k < env.count, n = Ty.generatedName env.uid k
  nodup : env.scopes.inner.Nodup

theorem linked_start (uid : String) : (start uid).Linked where
  intact := Table.intact_catalog
  outermost := rfl
  links := ⟨rfl, trivial⟩
  generated := by
    intro n hn
    cases hn
  nodup := List.nodup_nil

theorem Linked.current_eq (h : env.Linked) :
    env.scopes.current = (env.scopes.inner ++ [globalName]).headD "Object" := by
  unfold Scopes.current
  rw [h.outermost]
  cases env.scopes.inner <;> rfl

theorem contains_iff (h : env.Linked) :
    env.scopes.contains n = true ↔ n ∈ env.scopes.inner ++ [globalName] := by
  rw [Scopes.contains, h.outermost, Bool.or_eq_true, decide_eq_true_eq, decide_eq_true_eq,
    List.mem_append, List.mem_singleton, or_comm]

theorem Linked.contains_current (h : env.Linked) : env.scopes.contains env.scopes.current = true := by
  rw [contains_iff h, h.current_eq]
  cases env.scopes.inner <;> exact List.mem_cons_self

/-- Scopes have neither the name of a builtin record nor that of a constructor. -/
theorem Linked.scope_name (h : env.Linked) (hn : env.scopes.contains n = true) :
    IsBase n ∧ n ∉ builtinNames := by
  rcases List.mem_append.1 ((contains_iff h).1 hn) with hn | hn
  · obtain ⟨k, -, rfl⟩ := h.generated n hn
    exact ⟨isBase_generatedName _ _, generatedName_not_builtin _ _⟩
  · obtain rfl := List.mem_singleton.1 hn
    exact ⟨isBase_of_mem_catalogNames (List.mem_cons_of_mem _ (mem_catalog_keys_iff.2 (Or.inl rfl))),
      by decide +kernel⟩

theorem Linked.nodup_stack (h : env.Linked) :
    (env.scopes.inner ++ [globalName] ++ ["Object"]).Nodup := by
  have hglobal : globalName ∉ env.scopes.inner := by
    intro hn
    obtain ⟨k, -, hk⟩ := h.generated _ hn
    exact own_not_key (hk ▸ own_generatedName env.uid k) (mem_catalog_keys_iff.2 (Or.inl rfl))
  have hobject : "Object" ∉ env.scopes.inner ++ [globalName] := fun hn =>
    (h.scope_name ((contains_iff h).2 hn)).2 (by decide +kernel)
  refine List.nodup_append.2 ⟨List.nodup_append.2 ⟨h.nodup, List.nodup_singleton _, ?_⟩,
    List.nodup_singleton _, ?_⟩
  · rintro n hn m hm rfl
    exact hglobal (List.mem_singleton.1 hm ▸ hn)
  · rintro n hn m hm rfl
    exact hobject (List.mem_singleton.1 hm ▸ hn)

/-- **The chain of a scope** is the stack from there on, with `Object` behind it. -/
theorem Linked.map_chain_of_suffix (h : env.Linked) {ns : List String}
    (hsuffix : n :: ns <:+ env.scopes.inner ++ [globalName]) :
    (env.types.chain n).map (·.1) = n :: ns ++ ["Object"] := by
  obtain ⟨r, hr, hend⟩ : ∃ r, env.types.find? "Object" = some r ∧ r.proto = none := by
    rw [h.intact "Object" (by decide +kernel)]
    exact ⟨Catalog.builtinRecord "Object" _, rfl, rfl⟩
  have hlinks := h.links
  have hnodup := h.nodup_stack
  obtain ⟨above, habove⟩ := hsuffix
  rw [← habove] at hlinks hnodup
  rw [List.append_assoc] at hnodup
  exact Table.map_chain_of_links hlinks.of_suffix hr hend (List.nodup_append.1 hnodup).2.1

/-- **The chain of the innermost scope** is the stack, with `Object` behind it. -/
theorem Linked.map_chain (h : env.Linked) :
    (env.types.chain env.scopes.current).map (·.1) =
      env.scopes.inner ++ [globalName, "Object"] := by
  rw [h.current_eq]
  cases hinner : env.scopes.inner with
  | nil =>
    exact h.map_chain_of_suffix (by rw [hinner]; exact List.suffix_rfl)
  | cons n ns =>
    have hsuffix : n :: (ns ++ [globalName]) <:+ env.scopes.inner ++ [globalName] := by
      rw [hinner]
      exact List.suffix_rfl
    rw [List.cons_append, List.headD_cons, h.map_chain_of_suffix hsuffix, List.cons_append,
      List.append_assoc]
    rfl

theorem Linked.lookup_prototype (h : env.Linked) : env.lookup? (some "prototype") none ≠ none := by
  have hchain := h.map_chain
  have hlink : ∃ type, env.types.link? env.scopes.current = some type := by
    have hlinks := h.links
    rw [h.current_eq]
    cases hinner : env.scopes.inner <;> rw [hinner] at hlinks <;> exact ⟨_, hlinks.1⟩
  obtain ⟨type, htype⟩ := hlink
  obtain ⟨r, d, hr, hproto, -⟩ := Table.exists_find?_of_link? htype
  unfold lookup? lookupDefinition? Table.resolve?
  rw [show env.scope none = env.scopes.current from rfl]
  cases hes : env.types.chain env.scopes.current with
  | nil => simp [hes] at hchain
  | cons e es =>
    have hfirst : e.1 = env.scopes.current := by
      have hhead := congrArg List.head? hchain
      rw [hes, List.map_cons, List.head?_cons] at hhead
      rw [h.current_eq]
      cases hinner : env.scopes.inner <;> rw [hinner] at hhead <;> exact Option.some.inj hhead
    have he : env.types.find? e.1 = some e.2 :=
      Table.find?_of_mem_chainFrom (hes ▸ List.mem_cons_self)
    rw [hfirst] at he
    cases hr.symm.trans he
    rw [List.findSome?_cons, Record.answer?_prototype, hproto]
    simp

/-! ### Operations that leave the stack and its links alone -/

/-- A change that keeps the stack and the links of its scopes. -/
theorem Linked.transport (h : env.Linked) (hscopes : env'.scopes = env.scopes)
    (huid : env'.uid = env.uid) (hcount : env.count ≤ env'.count) (hintact : env'.types.Intact)
    (hlink : ∀ n, env.scopes.contains n = true → env'.types.link? n = env.types.link? n) :
    env'.Linked where
  intact := hintact
  outermost := by rw [hscopes, h.outermost]
  links := by
    rw [hscopes]
    exact h.links.transport fun n hn => hlink n ((contains_iff h).2 hn)
  generated := by
    intro n hn
    rw [hscopes] at hn
    obtain ⟨k, hk, rfl⟩ := h.generated n hn
    exact ⟨k, Nat.lt_of_lt_of_le hk hcount, by rw [huid]⟩
  nodup := by
    rw [hscopes]
    exact h.nodup

theorem linked_addVariable (h : env.Linked) (name : Name) (target type : Option Ty)
    (span : Option Span) : (env.addVariable name target type span).Linked :=
  h.transport rfl rfl (Nat.le_refl _) (intact_addVariable h.intact name target type span)
    fun n _ => Table.link?_edit (by intro r; rfl) (env.scope target) n

theorem Linked.newName_not_scope (h : env.Linked) :
    env.scopes.contains (Ty.generatedName env.uid env.count) = false := by
  rw [← Bool.not_eq_true, contains_iff h, List.mem_append, not_or, List.mem_singleton]
  constructor
  · intro hn
    obtain ⟨k, hk, heq⟩ := h.generated _ hn
    have := generatedName_count_inj heq
    omega
  · intro heq
    exact own_not_key (heq ▸ own_generatedName env.uid env.count)
      (mem_catalog_keys_iff.2 (Or.inl rfl))

theorem Linked.objectName_not_scope (h : env.Linked) (name : Option String) :
    env.scopes.contains (env.objectName name).1 = false := by
  cases name with
  | none => exact h.newName_not_scope
  | some n =>
    rw [objectName_some]
    split
    · exact h.newName_not_scope
    · rename_i hfree
      rw [isReserved, Bool.or_eq_true, not_or, Bool.not_eq_true, Bool.not_eq_true] at hfree
      exact hfree.2

theorem ne_of_not_scope {name : String} (hname : env.scopes.contains name = false)
    (hn : env.scopes.contains n = true) : name ≠ n := by
  rintro rfl
  rw [hname] at hn
  cases hn

theorem linked_newFleetingObject (h : env.Linked) (name : Option String) (span : Option Span) :
    (env.newFleetingObject name span).2.Linked := by
  refine h.transport (env.newFleetingObject_scopes name span) (env.newFleetingObject_uid name span)
    (env.le_newFleetingObject_count name span) (intact_newFleetingObject h.intact name span) ?_
  intro n hn
  have htypes : (env.newFleetingObject name span).2.types = OrderedMap.insert
      (env.objectName name).2.types (env.objectName name).1
        { proto := some { type := .object, span := span } } := rfl
  rw [htypes, Table.link?_insert_of_ne (ne_of_not_scope (h.objectName_not_scope name) hn),
    env.objectName_types]

theorem linked_setBinding (h : env.Linked) (owner : String) (name : Name) (type : Ty)
    (span : Option Span) : (env.setBinding owner name type span).Linked := by
  refine h.transport (env.setBinding_scopes owner name type span)
    (env.setBinding_uid owner name type span)
    (Nat.le_of_eq (env.setBinding_count owner name type span).symm)
    (intact_setBinding h.intact owner name type span) fun n _ => ?_
  unfold setBinding
  dsimp only
  split
  · exact Table.link?_edit (by intro r; rfl) owner n
  · split
    · exact Table.link?_edit (by intro r; rfl) owner n
    · exact Table.link?_modify (by intro r; rfl) _ n

/-- The link that is set is always that of the target itself: its chain begins with it, and ends
there if it has no link. -/
theorem setPrototype_eq (env : Environment) (target : String) (type : Ty) (span : Option Span) :
    env.setPrototype target type span = { env with
      types := env.types.edit target fun r =>
        { r with proto := some { type := type, span := span } } } := by
  have howner : ((env.firstOnChain? target (·.proto.isSome)).map (·.1)).getD target = target := by
    unfold firstOnChain? Table.chain
    cases env.types.size with
    | zero => rfl
    | succ fuel =>
      rw [Table.chainFrom, if_neg List.not_mem_nil]
      cases env.types.find? target with
      | none => rfl
      | some r =>
        dsimp only
        cases hproto : r.proto with
        | none => simp [hproto]
        | some d => simp [hproto]
  unfold setPrototype
  rw [howner]

theorem linked_setPrototype (h : env.Linked) {target : String}
    (htarget : env.scopes.contains target = false) (type : Ty) (span : Option Span) :
    (env.setPrototype target type span).Linked := by
  rw [setPrototype_eq]
  exact h.transport rfl rfl (Nat.le_refl _) (h.intact.edit _ _) fun n hn =>
    Table.link?_edit_of_ne (ne_of_not_scope htarget hn)

theorem Linked.exists_record (h : env.Linked) (hsound : env.Sound) (hn : env.scopes.contains n = true) :
    ∃ r, env.types.find? n = some r ∧ r.builtin = false := by
  obtain ⟨above, below, hstack⟩ := List.append_of_mem ((contains_iff h).1 hn)
  obtain ⟨r, -, hr, -⟩ := Table.exists_find?_of_link? (Table.Links.link? (hstack ▸ h.links))
  exact ⟨r, hr, (hsound.table.made_of_not_builtin (h.scope_name hn).2 hr).builtin⟩

theorem linked_addOrSet (h : env.Linked) {name : Name} {target : Option Ty}
    (htarget : name = some "prototype" → env.scopes.contains (env.scope target) = false) (type : Ty)
    (span : Option Span) : (env.addOrSet name target (some type) span).2.Linked := by
  rw [addOrSet_some]
  split
  · rename_i hname
    exact linked_setPrototype h (htarget hname) type span
  · exact linked_setBinding h _ _ _ _

/-! ### Scopes and constructors -/

theorem linked_newScope (h : env.Linked) (span : Option Span) :
    (env.newScope span).2.Linked := by
  have hname := h.newName_not_scope
  have htypes : (env.newScope span).2.types = OrderedMap.insert env.types
      (Ty.generatedName env.uid env.count)
        { proto := some { type := .named env.scopes.current, span := span } } := rfl
  constructor
  · exact intact_newScope h.intact span
  · exact h.outermost
  · rw [newScope_scopes, htypes]
    refine ⟨?_, h.links.transport fun n hn => ?_⟩
    · rw [Table.link?_insert_self, h.current_eq]
      rfl
    · exact Table.link?_insert_of_ne (ne_of_not_scope hname ((contains_iff h).2 hn)) _
  · intro n hn
    rcases List.mem_cons.1 hn with rfl | hn
    · exact ⟨env.count, Nat.lt_succ_self _, rfl⟩
    · obtain ⟨k, hk, rfl⟩ := h.generated n hn
      exact ⟨k, Nat.lt_succ_of_lt hk, rfl⟩
  · refine List.nodup_cons.2 ⟨fun hn => ?_, h.nodup⟩
    rw [(contains_iff h).2 (List.mem_append_left _ hn)] at hname
    cases hname

theorem linked_newObject (h : env.Linked) (name : Option String) (span : Option Span) :
    (env.newObject name span).2.Linked :=
  linked_addVariable (linked_newFleetingObject (linked_newScope h span) name span) _ _ _ _

theorem Linked.newObject_not_scope (h : env.Linked) (name : Option String) (span : Option Span) :
    (env.newObject name span).2.scopes.contains (env.newObject name span).1 = false := by
  rw [newObject_scopes, ← newScope_scopes env span]
  exact (linked_newScope h span).objectName_not_scope name

theorem linked_popScope? (h : env.Linked) (hpop : env.popScope? = some (n, env')) :
    env'.Linked := by
  have hintact := intact_popScope? h.intact hpop
  unfold popScope? at hpop
  split at hpop
  · cases hpop
  · cases hpop
    have hlinks : (env.removeVariable (some "this") none).types.Links "Object"
        (env.scopes.inner ++ [globalName]) :=
      h.links.transport fun n _ => Table.link?_edit (by intro r; rfl) (env.scope none) n
    refine ⟨hintact, h.outermost, ?_, fun n hn => h.generated n (List.mem_of_mem_tail hn),
      h.nodup.tail⟩
    show Table.Links _ _ (env.scopes.inner.tail ++ [globalName])
    cases hinner : env.scopes.inner with
    | nil =>
      rw [hinner] at hlinks
      exact hlinks
    | cons n ns =>
      rw [hinner] at hlinks
      exact hlinks.2

theorem linked_createConstructor (h : env.Linked) (result : Ty)
    (hscope : env.scopes.contains n = false) (hbuiltin : n ∉ builtinNames) :
    (env.createConstructor result n).Linked := by
  have hkey := linked_newFleetingObject h (some (Ty.constructorKey result)) none
  have hproto := linked_newFleetingObject hkey
    (some (Ty.protoKey (Ty.constructorKey result))) none
  refine hproto.transport rfl rfl (Nat.le_refl _)
    (intact_createConstructor h.intact result hbuiltin) fun m hm => ?_
  have hm' : env.scopes.contains m = true := by simpa using hm
  have hne : Ty.constructorKey result ≠ m := by
    rintro rfl
    exact not_isBase_constructorKey result (h.scope_name hm').1
  unfold createConstructor
  dsimp only
  rw [Table.link?_modify_of_ne (ne_of_not_scope hscope hm'), Table.link?_modify_of_ne hne]

/-! ### New records leave the records of the scopes alone -/

theorem Linked.find?_newScope (h : env.Linked) (hn : env.scopes.contains n = true)
    (span : Option Span) : (env.newScope span).2.types.find? n = env.types.find? n := by
  show OrderedMap.find? (OrderedMap.insert env.types (Ty.generatedName env.uid env.count) _) n = _
  rw [OrderedMap.find?_insert, if_neg (ne_of_not_scope h.newName_not_scope hn)]

theorem Linked.find?_newFleetingObject (h : env.Linked) (hn : env.scopes.contains n = true)
    (name : Option String) (span : Option Span) :
    (env.newFleetingObject name span).2.types.find? n = env.types.find? n := by
  show OrderedMap.find? (OrderedMap.insert (env.objectName name).2.types (env.objectName name).1 _) n = _
  rw [OrderedMap.find?_insert, if_neg (ne_of_not_scope (h.objectName_not_scope name) hn),
    env.objectName_types]

theorem Linked.find?_createConstructor (h : env.Linked) (hn : env.scopes.contains n = true)
    (result : Ty) {object : String} (hscope : env.scopes.contains object = false) :
    (env.createConstructor result object).types.find? n = env.types.find? n := by
  have hkey := linked_newFleetingObject h (some (Ty.constructorKey result)) none
  have hne : Ty.constructorKey result ≠ n := by
    rintro rfl
    exact not_isBase_constructorKey result (h.scope_name hn).1
  unfold createConstructor
  dsimp only
  rw [OrderedMap.find?_modify, if_neg (ne_of_not_scope hscope hn), OrderedMap.find?_modify, if_neg hne,
    hkey.find?_newFleetingObject (by simpa using hn), h.find?_newFleetingObject hn]

end Environment

end ContentAssist
