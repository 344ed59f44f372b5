import ContentAssist.Proofs.Environment.Linked

/-! # Single bindings

What becomes of the binding of one name in one record under each operation. An assignment sets the
nearest binding on the chain of its target, or makes one in the target itself if there is none or the
nearest one is builtin; it touches no other binding, and it touches a link only if the name is
`prototype`.

* `Table.binding?`: the binding of a name in a record, with a lemma for each way to change a table;
* `Environment.ownerOf`: the record whose binding an assignment sets;
* `Environment.Assigns`, `assigns_addOrSet`: what an assignment changes at most;
* `Table.Lacks`, `Summary.Lacks`, `lacks_addVariable`, ...: a name that is bound nowhere. -/

namespace ContentAssist

/-! ### Members of changed records -/

namespace Record

variable (r : Record) (name x : Name)

theorem member?_define (d : Definition) :
    (r.define name d).member? x = if name = x then some d else r.member? x :=
  r.members.find?_insert _ _ _

theorem member?_undefine :
    (r.undefine name).member? x = if name = x then none else r.member? x :=
  r.members.find?_erase _ _

theorem member?_retype (type : Ty) :
    ({ r with members := r.members.modify name fun d => { d with type := type } } : Record).member? x =
      if name = x then (r.member? x).map fun d => { d with type := type } else r.member? x :=
  r.members.find?_modify _ _ _

theorem member?_overlay_eq_none {provided : Record} (h : r.member? x = none)
    (hp : provided.member? x = none) : (Environment.overlay r provided).member? x = none := by
  have hkey : x ∉ provided.members.entries.map (·.1) := provided.members.find?_eq_none_iff.1 hp
  have hfind : OrderedMap.findIn x provided.members.entries.reverse = none :=
    OrderedMap.findIn_eq_none_iff.2 (by simpa using hkey)
  unfold member? Environment.overlay
  rw [OrderedMap.find?_foldl_insert_reverse, hfind, Option.none_or]
  exact h

end Record

/-! ### Bindings of a table -/

namespace Table

variable {t others : Table} {n name : String} {x y : Name} {r : Record} {f : Record → Record}

/-- The binding of a name in a record. -/
def binding? (t : Table) (n : String) (x : Name) : Option Definition :=
  (t.find? n).bind (·.member? x)

theorem binding?_of_find? (h : t.find? n = some r) : t.binding? n x = r.member? x := by
  rw [binding?, h, Option.bind_some]

theorem binding?_insert (t : Table) (n name : String) (x : Name) (r : Record) :
    binding? (t.insert name r) n x = if name = n then r.member? x else t.binding? n x := by
  unfold binding?
  rw [OrderedMap.find?_insert]
  split <;> rfl

theorem binding?_modify (t : Table) (n name : String) (x : Name) (f : Record → Record) :
    binding? (t.modify name f) n x =
      if name = n then (t.find? n).bind fun r => (f r).member? x else t.binding? n x := by
  unfold binding?
  rw [OrderedMap.find?_modify]
  split
  · exact Option.bind_map
  · rfl

theorem binding?_modify_of_member (hf : ∀ r, (f r).member? x = r.member? x) :
    binding? (t.modify name f) n x = t.binding? n x := by
  rw [binding?_modify]
  split
  · exact congrArg (t.find? n).bind (funext hf)
  · rfl

theorem binding?_edit_of_member (hf : ∀ r, (f r).member? x = r.member? x) :
    (t.edit name f).binding? n x = t.binding? n x := by
  refine binding?_modify_of_member fun r => ?_
  split
  · rfl
  · exact hf r

theorem binding?_edit_of_ne (hne : name ≠ n) : (t.edit name f).binding? n x = t.binding? n x := by
  rw [edit, binding?_modify, if_neg hne]

theorem binding?_edit_define {d : Definition} (h : ¬ (n = name ∧ x = y)) :
    (t.edit name (·.define y d)).binding? n x = t.binding? n x := by
  by_cases hn : n = name
  · refine binding?_edit_of_member fun r => ?_
    rw [Record.member?_define, if_neg fun hy => h ⟨hn, hy.symm⟩]
  · exact binding?_edit_of_ne (Ne.symm hn)

theorem binding?_retype {type : Ty} (h : ¬ (n = name ∧ x = y)) :
    binding? (t.modify name fun r =>
      { r with members := r.members.modify y fun d => { d with type := type } }) n x =
        t.binding? n x := by
  by_cases hn : n = name
  · refine binding?_modify_of_member fun r => ?_
    rw [Record.member?_retype, if_neg fun hy => h ⟨hn, hy.symm⟩]
  · rw [binding?_modify, if_neg (Ne.symm hn)]

end Table

/-! ### Assignments -/

namespace Environment

variable {env : Environment} {target owner n : String} {name x y : Name} {type : Ty} {r : Record}
  {span : Option Span}

/-- The record whose binding of a name an assignment sets: that of the nearest binding on the chain of
the target, or the target itself if there is none or the nearest one is builtin. -/
def ownerOf (env : Environment) (target : String) (name : Name) : String :=
  match env.firstOnChain? target fun r => (r.member? name).isSome with
  | none => target
  | some (owner, r) => if r.builtin then target else owner

theorem binding?_setBinding (h : ¬ (n = env.ownerOf target name ∧ x = name)) :
    (env.setBinding target name type span).types.binding? n x = env.types.binding? n x := by
  unfold ownerOf at h
  unfold setBinding
  dsimp only
  split
  · rename_i hfound
    rw [hfound] at h
    exact Table.binding?_edit_define h
  · rename_i owner r hfound
    rw [hfound] at h
    dsimp only at h
    split
    · rename_i hb
      rw [if_pos hb] at h
      exact Table.binding?_edit_define h
    · rename_i hb
      rw [if_neg hb] at h
      exact Table.binding?_retype h

/-- The nearest binding gets the type, unless it is builtin. -/
theorem type_setBinding
    (hfound : env.firstOnChain? target (fun r => (r.member? name).isSome) = some (owner, r))
    (hb : r.builtin = false) :
    ((env.setBinding target name type span).types.binding? owner name).map (·.type) = some type := by
  have hr : env.types.find? owner = some r :=
    Table.find?_of_mem_chainFrom (List.mem_of_find?_eq_some hfound)
  have hmember : (r.member? name).isSome = true := by simpa using List.find?_some hfound
  obtain ⟨d, hd⟩ := Option.isSome_iff_exists.1 hmember
  unfold setBinding
  rw [hfound]
  dsimp only
  rw [if_neg (by simp [hb]), Table.binding?_modify, if_pos rfl, hr, Option.bind_some,
    Record.member?_retype, if_pos rfl, hd]
  rfl

theorem link?_setBinding (env : Environment) (target : String) (name : Name) (type : Ty)
    (span : Option Span) (n : String) :
    (env.setBinding target name type span).types.link? n = env.types.link? n := by
  unfold setBinding
  dsimp only
  split
  · exact Table.link?_edit (by intro r; rfl) _ n
  · split
    · exact Table.link?_edit (by intro r; rfl) _ n
    · exact Table.link?_modify (by intro r; rfl) _ n

theorem binding?_setPrototype (env : Environment) (target : String) (type : Ty)
    (span : Option Span) (n : String) (x : Name) :
    (env.setPrototype target type span).types.binding? n x = env.types.binding? n x :=
  Table.binding?_edit_of_member fun _ => rfl

/-- What an assignment to the name `x` of a target changes at most: the binding of `x` that it sets,
or, if the name is `prototype`, the link of the target. -/
structure Assigns (x : Name) (target : Option Ty) (env env' : Environment) : Prop where
  scopes : env'.scopes = env.scopes
  binding : ∀ n y, env'.types.binding? n y ≠ env.types.binding? n y →
    x ≠ some "prototype" ∧ y = x ∧ n = env.ownerOf (env.scope target) x
  link : ∀ n, env'.types.link? n ≠ env.types.link? n →
    x = some "prototype" ∧ n = env.scope target

/-- **An assignment changes one binding at most**, that of its name. -/
theorem assigns_addOrSet (env : Environment) (x : Name) (target : Option Ty) (type : Ty)
    (span : Option Span) : Assigns x target env (env.addOrSet x target (some type) span).2 := by
  refine ⟨env.addOrSet_some_scopes x type target span, fun n y hne => ?_, fun n hne => ?_⟩
  · rw [addOrSet_some] at hne
    split at hne
    · exact absurd (binding?_setPrototype _ _ _ _ _ _) hne
    · rename_i hx
      by_contra hother
      exact hne (binding?_setBinding fun h => hother ⟨hx, h.2, h.1⟩)
  · rw [addOrSet_some] at hne
    split at hne
    · rename_i hx
      refine ⟨hx, Classical.byContradiction fun hn => hne ?_⟩
      rw [setPrototype_eq]
      exact Table.link?_edit_of_ne (Ne.symm hn)
    · exact absurd (link?_setBinding _ _ _ _ _ _) hne

end Environment

/-! ### Names that are bound nowhere -/

namespace Table

variable {t others : Table} {n : String} {x : Name} {r : Record} {f : Record → Record}

/-- No record binds the name. -/
def Lacks (t : Table) (x : Name) : Prop := ∀ n, t.binding? n x = none

theorem lacks_iff : t.Lacks x ↔ ∀ n ∈ t.keys, t.binding? n x = none := by
  refine ⟨fun h n _ => h n, fun h n => ?_⟩
  by_cases hn : n ∈ t.keys
  · exact h n hn
  · rw [binding?, t.find?_eq_none_iff.2 hn, Option.bind_none]

instance (t : Table) (x : Name) : Decidable (t.Lacks x) := decidable_of_iff _ lacks_iff.symm

theorem Lacks.member? (h : t.Lacks x) (hr : t.find? n = some r) : r.member? x = none :=
  (binding?_of_find? hr).symm.trans (h n)

theorem Lacks.insert (h : t.Lacks x) (n : String) (hr : r.member? x = none) :
    Lacks (t.insert n r) x := by
  intro m
  rw [binding?_insert]
  split
  · exact hr
  · exact h m

theorem Lacks.modify (h : t.Lacks x) (n : String)
    (hf : ∀ r, r.member? x = none → (f r).member? x = none) : Lacks (t.modify n f) x := by
  intro m
  rw [binding?_modify]
  split
  · cases hr : t.find? m with
    | none => rfl
    | some r => exact hf r (h.member? hr)
  · exact h m

theorem Lacks.edit (h : t.Lacks x) (n : String)
    (hf : ∀ r, r.member? x = none → (f r).member? x = none) : (t.edit n f).Lacks x := by
  refine h.modify n fun r hr => ?_
  split
  · exact hr
  · exact hf r hr

theorem Lacks.addMissing (h : t.Lacks x) (hothers : others.Lacks x) :
    (t.addMissing others).Lacks x := by
  intro n
  rw [binding?, find?_addMissing]
  cases hr : t.find? n with
  | none => exact hothers n
  | some r => exact h.member? hr

end Table

/-- Neither the provided record nor one of the others binds the name. -/
structure Summary.Lacks (m : Summary) (x : Name) : Prop where
  types : m.types.Lacks x
  provided : ∀ r, m.provided = .record r → r.member? x = none

namespace Environment

variable {env env' : Environment} {x name : Name} (h : env.types.Lacks x)
include h

theorem lacks_addVariable (hname : name ≠ x) (target type : Option Ty) (span : Option Span) :
    (env.addVariable name target type span).types.Lacks x :=
  h.edit _ fun r hr => by rw [Record.member?_define, if_neg hname, hr]

theorem lacks_newScope (span : Option Span) : (env.newScope span).2.types.Lacks x :=
  h.insert _ rfl

theorem lacks_newFleetingObject (name : Option String) (span : Option Span) :
    (env.newFleetingObject name span).2.types.Lacks x := by
  have htypes : (env.objectName name).2.types.Lacks x := by rwa [env.objectName_types name]
  exact htypes.insert _ rfl

theorem lacks_popScope? {n : String} (hpop : env.popScope? = some (n, env')) : env'.types.Lacks x := by
  unfold popScope? at hpop
  split at hpop
  · cases hpop
  · cases hpop
    refine h.edit _ fun r hr => ?_
    rw [Record.member?_undefine]
    split
    · rfl
    · exact hr

theorem lacks_addOrSet (hname : name ≠ x) (target : Option Ty) (type : Ty) (span : Option Span) :
    (env.addOrSet name target (some type) span).2.types.Lacks x := by
  intro n
  by_contra hne
  obtain ⟨-, rfl, -⟩ := (env.assigns_addOrSet name target type span).binding n x (by rwa [h n])
  exact hname rfl

theorem lacks_mergeSummary {m : Summary} (hm : m.Lacks x) (target : String) :
    (env.mergeSummary m target).types.Lacks x := by
  have hmerged := h.addMissing hm.types
  unfold mergeSummary
  dsimp only
  split
  · exact hmerged
  · rename_i provided hprovided
    exact hmerged.edit target fun r hr =>
      r.member?_overlay_eq_none x hr (hm.provided provided hprovided)

end Environment

end ContentAssist
