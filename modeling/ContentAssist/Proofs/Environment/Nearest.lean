import ContentAssist.Proofs.Environment.Binding

/-! # The nearest binding of a name

Along linked scopes a name is looked up from the inside to the outside. `Nearest` says of a part of the
stack that no scope above the owner binds the name and the owner does. Most operations keep it whatever
they are given: new records bear names that no scope has, and an assignment sets the binding that the
name has already. Only a declaration in one of the scopes above the owner would hide it.

* `Environment.Nearest`: the invariant;
* `Nearest.firstOnChain?`: the binding that is found from any of the scopes down to the owner;
* `Nearest.lookup_ne_none`: from the innermost scope some binding is found;
* `Nearest.addVariable`, `Nearest.addOrSet`, ...: the operations. -/

namespace ContentAssist

open Catalog (globalName)

/-! ### Records that bind a name -/

namespace Table

variable {t : Table} {x : Name} {owner name : String} {f : Record → Record}

/-- The record binds the name and may be changed. -/
def Owns (t : Table) (owner : String) (x : Name) : Prop :=
  ∃ r, t.find? owner = some r ∧ r.builtin = false ∧ (r.member? x).isSome = true

theorem Owns.modify (h : t.Owns owner x) (name : String)
    (hf : ∀ r, r.builtin = false → (r.member? x).isSome = true →
      (f r).builtin = false ∧ ((f r).member? x).isSome = true) : Owns (t.modify name f) owner x := by
  obtain ⟨r, hr, hb, hmember⟩ := h
  unfold Owns
  rw [OrderedMap.find?_modify]
  split
  · exact ⟨f r, by rw [hr]; rfl, hf r hb hmember⟩
  · exact ⟨r, hr, hb, hmember⟩

theorem Owns.of_define {r : Record} (hr : t.find? owner = some r) (hb : r.builtin = false) (x : Name)
    (d : Definition) : (t.edit owner (·.define x d)).Owns owner x := by
  refine ⟨r.define x d, ?_, hb, ?_⟩
  · rw [find?_edit, if_pos rfl, hr, Option.map_some, if_neg (by simp [hb])]
  · rw [Record.member?_define, if_pos rfl]
    rfl

theorem Owns.define (h : t.Owns owner x) (name : String) (y : Name) (d : Definition) :
    (t.edit name (·.define y d)).Owns owner x := by
  refine h.modify name fun r hb hmember => ?_
  rw [hb, if_neg Bool.false_ne_true, Record.member?_define]
  refine ⟨hb, ?_⟩
  split
  · rfl
  · exact hmember

theorem Owns.undefine (h : t.Owns owner x) (hne : name ≠ owner) (y : Name) :
    (t.edit name (·.undefine y)).Owns owner x := by
  obtain ⟨r, hr, hrest⟩ := h
  exact ⟨r, by rw [find?_edit, if_neg hne, hr], hrest⟩

theorem Owns.retype (h : t.Owns owner x) (name : String) (y : Name) (type : Ty) :
    Owns (t.modify name fun r =>
      { r with members := r.members.modify y fun d => { d with type := type } }) owner x := by
  refine h.modify name fun r hb hmember => ⟨hb, ?_⟩
  rw [Record.member?_retype]
  split
  · rw [Option.isSome_map]
    exact hmember
  · exact hmember

end Table

namespace Environment

variable {x : Name} {above below : List String} {owner n : String} {env env' : Environment}

/-! ### The nearest binding -/

/-- The scopes are linked, those from `above` on to the owner and `below` are the outer part of the
stack, the owner binds the name, and none above it does. -/
structure Nearest (x : Name) (above : List String) (owner : String) (below : List String)
    (env : Environment) : Prop where
  linked : env.Linked
  stack : above ++ owner :: below <:+ env.scopes.inner ++ [globalName]
  free : ∀ n ∈ above, env.types.binding? n x = none
  bound : env.types.Owns owner x

namespace Nearest

theorem of_current (hlinked : env.Linked) (hbound : env.types.Owns env.scopes.current x) :
    ∃ below, Nearest x [] env.scopes.current below env := by
  have hcurrent := hlinked.current_eq
  cases hinner : env.scopes.inner with
  | nil =>
    refine ⟨[], hlinked, ?_, fun _ hn => absurd hn List.not_mem_nil, hbound⟩
    rw [hcurrent, hinner]
    exact List.suffix_rfl
  | cons n ns =>
    refine ⟨ns ++ [globalName], hlinked, ?_, fun _ hn => absurd hn List.not_mem_nil, hbound⟩
    rw [hcurrent, hinner]
    exact List.suffix_rfl

section
variable (h : Nearest x above owner below env)
include h

theorem contains_of_mem (hn : n ∈ above ++ owner :: below) : env.scopes.contains n = true :=
  (contains_iff h.linked).2 (h.stack.subset hn)

/-- From every scope down to the owner it is the owner's binding that is found. -/
theorem firstOnChain? {inside rest : List String} (hinside : inside <:+ above)
    (hn : inside ++ owner :: below = n :: rest) :
    ∃ r, env.firstOnChain? n (fun r => (r.member? x).isSome) = some (owner, r) ∧
      r.builtin = false := by
  have hsuffix : n :: rest <:+ env.scopes.inner ++ [globalName] := by
    obtain ⟨outside, houtside⟩ := hinside
    exact List.IsSuffix.trans ⟨outside, by rw [← hn, ← List.append_assoc, houtside]⟩ h.stack
  have hchain := h.linked.map_chain_of_suffix hsuffix
  rw [← hn, List.append_assoc, List.cons_append] at hchain
  obtain ⟨es, es', hes, hinner, houter⟩ := List.map_eq_append_iff.1 hchain
  obtain ⟨e, es'', hes', rfl, -⟩ := List.map_eq_cons_iff.1 houter
  have hfind : ∀ e ∈ env.types.chain n, env.types.find? e.1 = some e.2 := fun e he =>
    Table.find?_of_mem_chainFrom he
  obtain ⟨r, hr, hb, hmember⟩ := h.bound
  have he : env.types.find? e.1 = some e.2 := hfind e (by simp [hes, hes'])
  cases hr.symm.trans he
  -- no scope above the owner binds the name
  have hfree : es.find? (fun e => (e.2.member? x).isSome) = none := by
    refine List.find?_eq_none.2 fun k hk => ?_
    have hmem : k.1 ∈ above := hinside.subset (hinner ▸ List.mem_map_of_mem hk)
    rw [← Table.binding?_of_find? (hfind k (by simp [hes, hk])), h.free _ hmem]
    exact Bool.false_ne_true
  refine ⟨e.2, ?_, hb⟩
  unfold Environment.firstOnChain?
  rw [hes, hes', List.find?_append, hfree, Option.none_or]
  exact List.find?_cons_of_pos hmember

theorem lookup_ne_none : env.lookup? x none ≠ none := by
  by_cases hx : x = some "prototype"
  · rw [hx]
    exact h.linked.lookup_prototype
  · obtain ⟨r, hr, -, hmember⟩ := h.bound
    have howner : owner ∈ (env.types.chain env.scopes.current).map (·.1) := by
      rw [h.linked.map_chain, show env.scopes.inner ++ [globalName, "Object"] =
        env.scopes.inner ++ [globalName] ++ ["Object"] by simp]
      exact List.mem_append_left _ (h.stack.subset (List.mem_append_right _ List.mem_cons_self))
    obtain ⟨e, he, rfl⟩ := List.mem_map.1 howner
    have hfind : env.types.find? e.1 = some e.2 := Table.find?_of_mem_chainFrom he
    cases hr.symm.trans hfind
    unfold lookup? lookupDefinition? Table.resolve?
    rw [show env.scope none = env.scopes.current from rfl]
    intro hnone
    have hall := List.findSome?_eq_none_iff.1 (Option.map_eq_none_iff.1 hnone) e he
    rw [Table.answer?, if_neg hx] at hall
    rw [hall] at hmember
    cases hmember

/-- No assignment makes a binding above the owner. -/
theorem ownerOf_not_mem (target : String) : env.ownerOf target x ∉ above := by
  intro hmem
  have hfound : target ∈ above → ∃ r, env.firstOnChain? target (fun r => (r.member? x).isSome) =
      some (owner, r) ∧ r.builtin = false := by
    intro htarget
    obtain ⟨outside, inside, hsplit⟩ := List.append_of_mem htarget
    have hinside : target :: inside <:+ above := ⟨outside, hsplit.symm⟩
    exact h.firstOnChain? hinside (List.cons_append ..)
  unfold ownerOf at hmem
  cases hf : env.firstOnChain? target (fun r => (r.member? x).isSome) with
  | none =>
    rw [hf] at hmem
    obtain ⟨r, hr, -⟩ := hfound hmem
    rw [hf] at hr
    cases hr
  | some e =>
    rw [hf] at hmem
    dsimp only at hmem
    split at hmem
    · rename_i hbuiltin
      obtain ⟨r, hr, hb⟩ := hfound hmem
      rw [hf] at hr
      cases hr
      rw [hb] at hbuiltin
      cases hbuiltin
    · have he : env.types.find? e.1 = some e.2 :=
        Table.find?_of_mem_chainFrom (List.mem_of_find?_eq_some hf)
      have hmember : (e.2.member? x).isSome = true := by simpa using List.find?_some hf
      rw [← Table.binding?_of_find? he, h.free _ hmem] at hmember
      cases hmember

/-- A change that keeps the records of the scopes, with more scopes on top perhaps. -/
theorem transport (hlinked : env'.Linked) (hstack : env.scopes.inner <:+ env'.scopes.inner)
    (hfind : ∀ n, env.scopes.contains n = true → env'.types.find? n = env.types.find? n) :
    Nearest x above owner below env' where
  linked := hlinked
  stack := by
    obtain ⟨top, htop⟩ := hstack
    exact h.stack.trans ⟨top, by rw [← htop, List.append_assoc]⟩
  free := by
    intro n hn
    unfold Table.binding?
    rw [hfind n (h.contains_of_mem (List.mem_append_left _ hn))]
    exact h.free n hn
  bound := by
    unfold Table.Owns
    rw [hfind owner (h.contains_of_mem (List.mem_append_right _ List.mem_cons_self))]
    exact h.bound

theorem transport_of_scopes (hlinked : env'.Linked) (hscopes : env'.scopes = env.scopes)
    (hfind : ∀ n, env.scopes.contains n = true → env'.types.find? n = env.types.find? n) :
    Nearest x above owner below env' :=
  h.transport hlinked (hscopes ▸ List.suffix_rfl) hfind

/-! ### New records -/

theorem newScope (span : Option Span) : Nearest x above owner below (env.newScope span).2 :=
  h.transport (linked_newScope h.linked span) (List.suffix_cons _ _) fun _ hn =>
    h.linked.find?_newScope hn span

theorem newFleetingObject (name : Option String) (span : Option Span) :
    Nearest x above owner below (env.newFleetingObject name span).2 :=
  h.transport_of_scopes (linked_newFleetingObject h.linked name span)
    (newFleetingObject_scopes _ _ _) fun _ hn => h.linked.find?_newFleetingObject hn name span

theorem createConstructor (result : Ty) {object : String}
    (hscope : env.scopes.contains object = false) (hbuiltin : object ∉ builtinNames) :
    Nearest x above owner below (env.createConstructor result object) :=
  h.transport_of_scopes (linked_createConstructor h.linked result hscope hbuiltin)
    (createConstructor_scopes _ _ _) fun _ hn => h.linked.find?_createConstructor hn result hscope

theorem mergeSummary (m : Summary) {target : String}
    (htarget : ∀ r, m.provided = .record r → env.scopes.contains target = false) :
    Nearest x above owner below (env.mergeSummary m target) := by
  have hfind : ∀ n, env.scopes.contains n = true →
      (env.mergeSummary m target).types.find? n = env.types.find? n := by
    intro n hn
    obtain ⟨front, back, hstack⟩ := List.append_of_mem ((contains_iff h.linked).1 hn)
    obtain ⟨r, -, hr, -⟩ := Table.exists_find?_of_link? (Table.Links.link? (hstack ▸ h.linked.links))
    unfold Environment.mergeSummary
    dsimp only
    split
    · rw [Table.find?_addMissing, hr, Option.some_or]
    · rename_i provided hprovided
      rw [Table.find?_edit, if_neg (ne_of_not_scope (htarget provided hprovided) hn),
        Table.find?_addMissing, hr, Option.some_or]
  refine h.transport_of_scopes ?_ (mergeSummary_scopes _ _ _) hfind
  refine h.linked.transport (mergeSummary_scopes _ _ _) (mergeSummary_uid _ _ _)
    (Nat.le_of_eq (mergeSummary_count _ _ _).symm) (intact_mergeSummary h.linked.intact m target)
    fun n hn => ?_
  unfold Table.link?
  rw [hfind n hn]

/-! ### Bindings -/

/-- A name is bound, not the one above the owner. -/
theorem addVariable {name : Name} {target : Option Ty} (type : Option Ty) (span : Option Span)
    (htarget : name = x → env.scope target ∉ above) :
    Nearest x above owner below (env.addVariable name target type span) where
  linked := linked_addVariable h.linked name target type span
  stack := h.stack
  free := by
    intro n hn
    refine (Table.binding?_edit_define ?_).trans (h.free n hn)
    rintro ⟨rfl, rfl⟩
    exact htarget rfl hn
  bound := h.bound.define _ _ _

theorem setBinding (target : String) (name : Name) (type : Ty) (span : Option Span) :
    Nearest x above owner below (env.setBinding target name type span) where
  linked := linked_setBinding h.linked target name type span
  stack := by
    rw [setBinding_scopes]
    exact h.stack
  free := by
    intro n hn
    refine (binding?_setBinding ?_).trans (h.free n hn)
    rintro ⟨rfl, rfl⟩
    exact h.ownerOf_not_mem target hn
  bound := by
    unfold Environment.setBinding
    dsimp only
    split
    · exact h.bound.define _ _ _
    · split
      · exact h.bound.define _ _ _
      · exact h.bound.retype _ _ _

theorem addOrSet {name : Name} {target : Option Ty}
    (htarget : name = some "prototype" → env.scopes.contains (env.scope target) = false) (type : Ty)
    (span : Option Span) : Nearest x above owner below (env.addOrSet name target (some type) span).2 := by
  rw [addOrSet_some]
  split
  · rename_i hname
    refine h.transport_of_scopes (linked_setPrototype h.linked (htarget hname) type span)
      (setPrototype_scopes _ _ _ _) fun n hn => ?_
    rw [setPrototype_eq]
    exact (Table.find?_edit _ _ _ _).trans (if_neg (ne_of_not_scope (htarget hname) hn))
  · exact h.setBinding _ _ _ _

/-! ### The innermost scope -/

theorem current_not_mem (hinner : env.scopes.inner ≠ [])
    (htail : above ++ owner :: below <:+ env.scopes.inner.tail ++ [globalName]) :
    env.scopes.current ∉ above ++ owner :: below := by
  have hnodup := (List.nodup_append.1 h.linked.nodup_stack).1
  obtain ⟨n, ns, hcons⟩ := List.exists_cons_of_ne_nil hinner
  rw [hcons] at hnodup htail
  rw [show env.scopes.current = n by rw [Scopes.current, hcons]; rfl]
  exact fun hn => (List.nodup_cons.1 hnodup).1 (htail.subset hn)

theorem popScope? {name : String}
    (htail : above ++ owner :: below <:+ env.scopes.inner.tail ++ [globalName])
    (hpop : env.popScope? = some (name, env')) : Nearest x above owner below env' := by
  have hinner : env.scopes.inner ≠ [] := fun hnil => by
    rw [env.popScope?_eq_none_iff.2 hnil] at hpop
    cases hpop
  have hcurrent := h.current_not_mem hinner htail
  have hlinked := linked_popScope? h.linked hpop
  unfold Environment.popScope? at hpop
  split at hpop
  · cases hpop
  · cases hpop
    refine ⟨hlinked, htail, fun n hn => ?_, h.bound.undefine ?_ _⟩
    · refine Eq.trans ?_ (h.free n hn)
      refine Table.binding?_edit_of_ne ?_
      rintro rfl
      exact hcurrent (List.mem_append_left _ hn)
    · rintro rfl
      exact hcurrent (List.mem_append_right _ List.mem_cons_self)

theorem newScope_current_not_mem (span : Option Span) :
    (env.newScope span).2.scopes.current ∉ above ++ owner :: below :=
  (h.newScope span).current_not_mem (List.cons_ne_nil _ _) h.stack

theorem newObject (name : Option String) (span : Option Span) :
    Nearest x above owner below (env.newObject name span).2 := by
  refine ((h.newScope span).newFleetingObject name span).addVariable _ _ fun _ hmem => ?_
  have hcurrent := h.newScope_current_not_mem span
  refine hcurrent (List.mem_append_left _ ?_)
  have hscopes := (env.newScope span).2.newFleetingObject_scopes name span
  rwa [Environment.scope, hscopes] at hmem

end

end Nearest

end Environment

end ContentAssist
