import ContentAssist.Proofs.Environment.Nearest

/-! # Writing in the global record

The global scope is the outermost one, and its record may be changed. No operation puts another record in
its place or takes a binding out of it. A binding of it changes in two ways only: the name is declared in
the global scope, or it is assigned to and the nearest binding is that of the global scope. Nothing is
asked of the links between the scopes, so this also holds where one of them is cut.

* `Grounded`: the global scope and its record;
* `Touches`: what an operation does to the bindings of that record;
* `touches_newScope`, `touches_addOrSet`, ...: the operations;
* `owns_addVariable`, `owns_addOrSet`: the two ways to bind a name there. -/

namespace ContentAssist.Environment

open Catalog (globalName)

variable {env env' env'' : Environment} {W : Name → Prop} {name x : Name}

/-- The global scope is the outermost one and no other, and its record may be changed. -/
structure Grounded (env : Environment) : Prop where
  outermost : env.scopes.outermost = globalName
  inner : globalName ∉ env.scopes.inner
  record : ∃ r, env.types.find? globalName = some r ∧ r.builtin = false

theorem grounded_start (uid : String) : (start uid).Grounded :=
  ⟨rfl, List.not_mem_nil, Catalog.globalRecord, rfl, rfl⟩

theorem Grounded.contains_globalName (h : env.Grounded) : env.scopes.contains globalName = true := by
  rw [Scopes.contains, h.outermost]
  simp

theorem Grounded.current_ne_global (h : env.Grounded) (hinner : env.scopes.inner ≠ []) :
    env.scopes.current ≠ globalName := by
  obtain ⟨n, ns, hcons⟩ := List.exists_cons_of_ne_nil hinner
  have hn := h.inner
  rw [hcons] at hn
  rw [Scopes.current, hcons]
  exact (List.ne_of_not_mem_cons hn).symm

theorem Grounded.owns_iff (h : env.Grounded) :
    env.types.Owns globalName x ↔ env.types.binding? globalName x ≠ none := by
  obtain ⟨r, hr, hb⟩ := h.record
  rw [Table.binding?_of_find? hr, ← Option.isSome_iff_ne_none]
  constructor
  · rintro ⟨r', hr', -, hmember⟩
    cases hr.symm.trans hr'
    exact hmember
  · exact fun hmember => ⟨r, hr, hb, hmember⟩

/-- The global scope stays what it is, bindings of its record stay bound, and only those of the given names
may change. -/
structure Touches (W : Name → Prop) (env env' : Environment) : Prop where
  grounded : env'.Grounded
  owned : ∀ x, env.types.Owns globalName x → env'.types.Owns globalName x
  binding : ∀ x, env'.types.binding? globalName x ≠ env.types.binding? globalName x → W x

namespace Touches

theorem refl (h : env.Grounded) : Touches W env env :=
  ⟨h, fun _ hx => hx, fun _ hne => absurd rfl hne⟩

theorem trans (h : Touches W env env') (h' : Touches W env' env'') :
    Touches W env env'' := by
  refine ⟨h'.grounded, fun x hx => h'.owned x (h.owned x hx), fun x hne => ?_⟩
  by_cases hsame : env'.types.binding? globalName x = env.types.binding? globalName x
  · exact h'.binding x (hsame ▸ hne)
  · exact h.binding x hsame

theorem mono (h : Touches W env env') {V : Name → Prop}
    (hw : ∀ x, W x → V x) : Touches V env env' :=
  ⟨h.grounded, h.owned, fun x hne => hw x (h.binding x hne)⟩

theorem of_find? (h : env.Grounded) (houtermost : env'.scopes.outermost = globalName)
    (hinner : globalName ∉ env'.scopes.inner)
    (hfind : env'.types.find? globalName = env.types.find? globalName) : Touches W env env' := by
  refine ⟨⟨houtermost, hinner, ?_⟩, fun x hx => ?_, fun x hne => absurd ?_ hne⟩
  · rw [hfind]
    exact h.record
  · unfold Table.Owns
    rw [hfind]
    exact hx
  · unfold Table.binding?
    rw [hfind]

/-- A record is changed. If it is that of the global scope, bound names stay bound, and the members of other
than the given names stay. -/
theorem modify (h : env.Grounded) {n : String} {f : Record → Record}
    (hbuiltin : ∀ r, (f r).builtin = r.builtin)
    (hbound : n = globalName → ∀ r x, (r.member? x).isSome = true → ((f r).member? x).isSome = true)
    (hmember : n = globalName → ∀ r x, ¬ W x → (f r).member? x = r.member? x) :
    Touches W env { env with types := env.types.modify n f } := by
  by_cases hn : n = globalName
  · refine ⟨⟨h.outermost, h.inner, ?_⟩, fun x hx => hx.modify n fun r hb hr => ?_, fun x hne => ?_⟩
    · obtain ⟨r, hr, hb⟩ := h.record
      refine ⟨f r, ?_, (hbuiltin r).trans hb⟩
      rw [OrderedMap.find?_modify, if_pos hn, hr]
      rfl
    · exact ⟨(hbuiltin r).trans hb, hbound hn r x hr⟩
    · by_contra hx
      exact hne (Table.binding?_modify_of_member fun r => hmember hn r x hx)
  · refine of_find? h h.outermost h.inner ?_
    rw [OrderedMap.find?_modify, if_neg hn]

theorem edit (h : env.Grounded) {n : String} {f : Record → Record}
    (hbuiltin : ∀ r, (f r).builtin = r.builtin)
    (hbound : n = globalName → ∀ r x, (r.member? x).isSome = true → ((f r).member? x).isSome = true)
    (hmember : n = globalName → ∀ r x, ¬ W x → (f r).member? x = r.member? x) :
    Touches W env { env with types := env.types.edit n f } := by
  refine modify h (fun r => ?_) (fun hn r x hr => ?_) fun hn r x hx => ?_
  · split
    · rfl
    · exact hbuiltin r
  · split
    · exact hr
    · exact hbound hn r x hr
  · split
    · rfl
    · exact hmember hn r x hx

end Touches

theorem isSome_define {r : Record} {d : Definition} (hr : (r.member? x).isSome = true) :
    ((r.define name d).member? x).isSome = true := by
  rw [Record.member?_define]
  split
  · rfl
  · exact hr

theorem generatedName_ne_global (uid : String) (k : Nat) : Ty.generatedName uid k ≠ globalName := fun heq =>
  own_not_key (own_generatedName uid k) (mem_catalog_keys_iff.2 (Or.inl heq))

section Operations
variable (h : env.Grounded)
include h

/-! ### New records -/

theorem Grounded.objectName_ne_global (name : Option String) : (env.objectName name).1 ≠ globalName := by
  cases name with
  | none => exact generatedName_ne_global _ _
  | some n =>
    rw [objectName_some]
    split
    · exact generatedName_ne_global _ _
    · rename_i hfree
      rintro rfl
      exact hfree (by rw [isReserved, h.contains_globalName, Bool.or_true])

theorem touches_newScope (span : Option Span) : Touches W env (env.newScope span).2 := by
  have hne := generatedName_ne_global env.uid env.count
  refine .of_find? h h.outermost ?_ (env.types.find?_insert_of_ne hne _)
  rw [newScope_scopes]
  exact List.not_mem_cons_of_ne_of_not_mem hne.symm h.inner

theorem touches_newFleetingObject (name : Option String) (span : Option Span) :
    Touches W env (env.newFleetingObject name span).2 := by
  have hscopes := env.newFleetingObject_scopes name span
  refine .of_find? h (by rw [hscopes, h.outermost]) (by rw [hscopes]; exact h.inner) ?_
  show OrderedMap.find? (OrderedMap.insert (env.objectName name).2.types (env.objectName name).1 _) _ = _
  rw [OrderedMap.find?_insert_of_ne _ (h.objectName_ne_global name), env.objectName_types]

theorem touches_createConstructor (result : Ty) (object : String) :
    Touches W env (env.createConstructor result object) := by
  have hlink : ∀ (env : Environment), env.Grounded → ∀ (n : String) (d : Definition),
      Touches W env { env with types := env.types.modify n fun r => { r with proto := some d } } :=
    fun _ h _ _ => .modify h (fun _ => rfl) (fun _ _ _ hr => hr) fun _ _ _ _ => rfl
  have hkey := touches_newFleetingObject (W := W) h (some (Ty.constructorKey result)) none
  have hproto := hkey.trans (touches_newFleetingObject hkey.grounded
    (some (Ty.protoKey (Ty.constructorKey result))) none)
  unfold createConstructor
  dsimp only
  generalize (env.newFleetingObject (some (Ty.constructorKey result)) none).2.newFleetingObject
    (some (Ty.protoKey (Ty.constructorKey result))) none = made at hproto ⊢
  have hkeyLink := hproto.trans
    (hlink _ hproto.grounded (Ty.constructorKey result) { type := .named made.1 })
  exact hkeyLink.trans
    (hlink _ hkeyLink.grounded object { type := .named (Ty.constructorKey result) })

/-! ### Bindings -/

theorem touches_addVariable (name : Name) (target type : Option Ty) (span : Option Span) :
    Touches (fun x => x = name ∧ env.scope target = globalName) env
      (env.addVariable name target type span) := by
  refine .edit h (fun _ => rfl) (fun _ _ _ => isSome_define) fun hn r x hx => ?_
  rw [Record.member?_define, if_neg fun heq => hx ⟨heq.symm, hn⟩]

theorem owns_addVariable {target : Option Ty} (type : Option Ty) (span : Option Span)
    (htarget : env.scope target = globalName) :
    (env.addVariable name target type span).types.Owns globalName name := by
  obtain ⟨r, hr, hb⟩ := h.record
  unfold addVariable
  rw [htarget]
  exact .of_define hr hb _ _

theorem touches_newObject (name : Option String) (span : Option Span) :
    Touches W env (env.newObject name span).2 := by
  have hscope := touches_newScope (W := W) h span
  have hobject := touches_newFleetingObject (W := W) hscope.grounded name span
  refine (hscope.trans hobject).trans ((touches_addVariable hobject.grounded _ _ _ _).mono ?_)
  rintro x ⟨-, hglobal⟩
  refine absurd hglobal (hobject.grounded.current_ne_global ?_)
  rw [newFleetingObject_scopes]
  exact List.cons_ne_nil _ _

theorem touches_popScope? {n : String} (hpop : env.popScope? = some (n, env')) :
    Touches W env env' := by
  unfold popScope? at hpop
  split at hpop
  · cases hpop
  · rename_i hinner
    cases hpop
    have hcurrent := h.current_ne_global (by simpa using hinner)
    refine .of_find? h h.outermost (fun hmem => h.inner (List.mem_of_mem_tail hmem)) ?_
    exact (Table.find?_edit _ _ _ _).trans (if_neg hcurrent)

/-! ### Assignments -/

theorem touches_setPrototype (target : String) (type : Ty) (span : Option Span) :
    Touches W env (env.setPrototype target type span) :=
  .edit h (fun _ => rfl) (fun _ _ _ hr => hr) fun _ _ _ _ => rfl

/-- A name is assigned to, and perhaps its nearest binding is that of the global record. -/
theorem touches_setBinding (target : String) (name : Name) (type : Ty) (span : Option Span) :
    Touches (fun x => x = name ∧ env.ownerOf target name = globalName) env
      (env.setBinding target name type span) := by
  have hdefine : env.ownerOf target name = target →
      Touches (fun x => x = name ∧ env.ownerOf target name = globalName) env
        { env with types := env.types.edit target (·.define name { type := type, span := span }) } := by
    intro howner
    refine .edit h (fun _ => rfl) (fun _ _ _ => isSome_define) fun hn r x hx => ?_
    rw [Record.member?_define, if_neg fun heq => hx ⟨heq.symm, howner.trans hn⟩]
  unfold setBinding
  dsimp only
  split
  · rename_i hfound
    exact hdefine (by rw [ownerOf, hfound])
  · rename_i owner r hfound
    split
    · rename_i hb
      exact hdefine (by rw [ownerOf, hfound]; exact if_pos hb)
    · rename_i hb
      have howner : env.ownerOf target name = owner := by
        rw [ownerOf, hfound]
        exact if_neg hb
      refine .modify h (fun _ => rfl) (fun _ r x hr => ?_) fun hn r x hx => ?_
      · rw [Record.member?_retype]
        split
        · rw [Option.isSome_map]
          exact hr
        · exact hr
      · rw [Record.member?_retype, if_neg fun heq => hx ⟨heq.symm, howner.trans hn⟩]

/-- What an assignment binds is bound in the record whose binding it sets. -/
theorem owns_setBinding {target : String} (type : Ty) (span : Option Span)
    (howner : env.ownerOf target name = globalName) :
    (env.setBinding target name type span).types.Owns globalName name := by
  obtain ⟨r, hr, hb⟩ := h.record
  unfold ownerOf at howner
  unfold setBinding
  dsimp only
  split
  · rename_i hfound
    rw [hfound] at howner
    obtain rfl : target = globalName := howner
    exact .of_define hr hb _ _
  · rename_i owner r' hfound
    rw [hfound] at howner
    dsimp only at howner
    split
    · rename_i hb'
      rw [if_pos hb'] at howner
      obtain rfl := howner
      exact .of_define hr hb _ _
    · rename_i hb'
      rw [if_neg hb'] at howner
      obtain rfl := howner
      have hr' := Table.find?_of_mem_chainFrom (List.mem_of_find?_eq_some hfound)
      have hmember : (r'.member? name).isSome = true := by simpa using List.find?_some hfound
      exact Table.Owns.retype ⟨r', hr', by simpa using hb', hmember⟩ _ _ _

theorem touches_addOrSet (name : Name) (target : Option Ty) (type : Ty) (span : Option Span) :
    Touches
      (fun x => x = name ∧ x ≠ some "prototype" ∧ env.ownerOf (env.scope target) name = globalName) env
      (env.addOrSet name target (some type) span).2 := by
  rw [addOrSet_some]
  split
  · exact touches_setPrototype h _ _ _
  · rename_i hname
    exact (touches_setBinding h _ _ _ _).mono fun x ⟨hx, howner⟩ => ⟨hx, hx ▸ hname, howner⟩

theorem owns_addOrSet {target : Option Ty} (type : Ty) (span : Option Span)
    (hname : name ≠ some "prototype") (howner : env.ownerOf (env.scope target) name = globalName) :
    (env.addOrSet name target (some type) span).2.types.Owns globalName name := by
  rw [addOrSet_some, if_neg hname]
  exact owns_setBinding h type span howner

/-! ### Summaries of other files -/

/-- Members of another file may replace those of the global record, but none of them is lost. -/
theorem touches_mergeSummary (m : Summary) (target : String) :
    Touches (fun _ => True) env (env.mergeSummary m target) := by
  have hadded : Touches (fun _ => True) env { env with types := env.types.addMissing m.types } := by
    obtain ⟨r, hr, -⟩ := h.record
    refine .of_find? h h.outermost h.inner ?_
    rw [Table.find?_addMissing, hr, Option.some_or]
  unfold mergeSummary
  dsimp only
  split
  · exact hadded
  · rename_i provided hprovided
    refine hadded.trans (.edit hadded.grounded (fun _ => rfl) (fun _ r x hr => ?_) fun _ _ _ hx => ?_)
    · unfold Record.member? overlay
      rw [OrderedMap.find?_foldl_insert_reverse, Option.isSome_or, Bool.or_eq_true]
      exact Or.inr hr
    · exact absurd trivial hx

end Operations

end ContentAssist.Environment
