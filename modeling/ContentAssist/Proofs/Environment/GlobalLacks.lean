import ContentAssist.Proofs.Environment.Binding

/-! # A name that the global scope lacks

No operation binds a name in the global scope unless it is given that scope: new records have other
names, and an assignment to another record looks for a binding along the chain, so it reaches the global
scope only where that has one.

* `Environment.GlobalLacks`: the global scope does not bind the name;
* `Linked.current_ne_global`: inside any other scope the innermost scope is not the global one;
* `globalLacks_newScope`, `globalLacks_addOrSet`, ...: the operations. -/

namespace ContentAssist.Environment

open Catalog (globalName)

variable {env env' : Environment} {x name : Name}

/-- The global scope does not bind the name. -/
def GlobalLacks (env : Environment) (x : Name) : Prop := env.types.binding? globalName x = none

theorem Linked.contains_globalName (h : env.Linked) : env.scopes.contains globalName = true :=
  (contains_iff h).2 (List.mem_append_right _ List.mem_cons_self)

theorem Linked.exists_global (h : env.Linked) : ∃ r, env.types.find? globalName = some r := by
  obtain ⟨r, -, hr, -⟩ := Table.exists_find?_of_link? (Table.Links.link? h.links)
  exact ⟨r, hr⟩

theorem Linked.ne_global_of_mem (h : env.Linked) {n : String} (hn : n ∈ env.scopes.inner) :
    n ≠ globalName := by
  rintro rfl
  have hnodup := (List.nodup_append.1 h.nodup_stack).1
  exact (List.nodup_append.1 hnodup).2.2 _ hn _ List.mem_cons_self rfl

/-- The innermost scope is the global one only if there is no other. -/
theorem Linked.current_ne_global (h : env.Linked) (hinner : env.scopes.inner ≠ []) :
    env.scopes.current ≠ globalName := by
  obtain ⟨n, ns, hcons⟩ := List.exists_cons_of_ne_nil hinner
  have hn : n ∈ env.scopes.inner := by
    rw [hcons]
    exact List.mem_cons_self
  rw [Scopes.current, hcons]
  exact h.ne_global_of_mem hn

theorem globalLacks_of_find? (h : env.GlobalLacks x)
    (hfind : env'.types.find? globalName = env.types.find? globalName) : env'.GlobalLacks x := by
  unfold GlobalLacks Table.binding?
  rw [hfind]
  exact h

/-! ### New records -/

theorem globalLacks_newScope (hlinked : env.Linked) (h : env.GlobalLacks x) (span : Option Span) :
    (env.newScope span).2.GlobalLacks x :=
  globalLacks_of_find? h (hlinked.find?_newScope hlinked.contains_globalName span)

theorem globalLacks_newFleetingObject (hlinked : env.Linked) (h : env.GlobalLacks x)
    (name : Option String) (span : Option Span) :
    (env.newFleetingObject name span).2.GlobalLacks x :=
  globalLacks_of_find? h (hlinked.find?_newFleetingObject hlinked.contains_globalName name span)

theorem globalLacks_createConstructor (hlinked : env.Linked) (h : env.GlobalLacks x) (result : Ty)
    {object : String} (hscope : env.scopes.contains object = false) :
    (env.createConstructor result object).GlobalLacks x :=
  globalLacks_of_find? h (hlinked.find?_createConstructor hlinked.contains_globalName result hscope)

/-! ### Bindings -/

theorem globalLacks_addVariable (h : env.GlobalLacks x) {target : Option Ty} (type : Option Ty)
    (span : Option Span) (htarget : name = x → env.scope target ≠ globalName) :
    (env.addVariable name target type span).GlobalLacks x := by
  refine (Table.binding?_edit_define ?_).trans h
  rintro ⟨hscope, rfl⟩
  exact htarget rfl hscope.symm

theorem globalLacks_newObject (hlinked : env.Linked) (h : env.GlobalLacks x) (name : Option String)
    (span : Option Span) : (env.newObject name span).2.GlobalLacks x := by
  have hscope := linked_newScope hlinked span
  refine globalLacks_addVariable
    (globalLacks_newFleetingObject hscope (globalLacks_newScope hlinked h span) name span) _ _ fun _ => ?_
  refine (linked_newFleetingObject hscope name span).current_ne_global ?_
  rw [newFleetingObject_scopes]
  exact List.cons_ne_nil _ _

theorem globalLacks_popScope? (h : env.GlobalLacks x) {n : String}
    (hpop : env.popScope? = some (n, env')) : env'.GlobalLacks x := by
  unfold popScope? at hpop
  split at hpop
  · cases hpop
  · cases hpop
    show Table.binding? (env.types.edit (env.scope none) _) globalName x = none
    unfold Table.edit
    rw [Table.binding?_modify]
    split
    · obtain hr | ⟨r, hr⟩ := (env.types.find? globalName).eq_none_or_eq_some
      · rw [hr, Option.bind_none]
      · rw [hr, Option.bind_some]
        have hmember : r.member? x = none := (Table.binding?_of_find? hr).symm.trans h
        split
        · exact hmember
        · rw [Record.member?_undefine, hmember]
          split <;> rfl
    · exact h

theorem ownerOf_ne_global (h : env.GlobalLacks x) {target : String} (htarget : target ≠ globalName) :
    env.ownerOf target x ≠ globalName := by
  unfold ownerOf
  cases hfound : env.firstOnChain? target fun r => (r.member? x).isSome with
  | none => exact htarget
  | some e =>
    dsimp only
    split
    · exact htarget
    · intro howner
      have hr : env.types.find? e.1 = some e.2 :=
        Table.find?_of_mem_chainFrom (List.mem_of_find?_eq_some hfound)
      have hmember : (e.2.member? x).isSome = true := by simpa using List.find?_some hfound
      rw [← Table.binding?_of_find? hr, howner, h] at hmember
      cases hmember

theorem globalLacks_addOrSet (h : env.GlobalLacks x) {target : Option Ty} (type : Ty)
    (span : Option Span) (htarget : name = x → env.scope target ≠ globalName) :
    (env.addOrSet name target (some type) span).2.GlobalLacks x := by
  by_contra hne
  obtain ⟨-, rfl, howner⟩ :=
    (env.assigns_addOrSet name target type span).binding globalName x fun heq => hne (heq.trans h)
  exact ownerOf_ne_global h (htarget rfl) howner.symm

end ContentAssist.Environment
