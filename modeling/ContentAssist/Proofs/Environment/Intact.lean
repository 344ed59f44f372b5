import ContentAssist.Proofs.Environment.Sound

/-! # Builtin records stay as they are

Two guards keep the builtin records of the catalog: an edit passes over a record that is builtin, and
a new object never gets the name of one. The few writes without a guard are at names that no builtin
record has, those of constructor records and of objects just made.

Unlike `Sound` this asks nothing of the types that are handed to an operation, and it outlives the
summaries of other files, whatever they hold.

* `Table.Intact`: the builtin records are those of the catalog;
* `objectName_not_builtin`: the name of a new object;
* `intact_newScope`, `intact_addOrSet`, ...: the operations. -/

namespace ContentAssist

namespace Table

variable {t : Table} {n : String} {r : Record}

/-- The builtin records are those of the catalog. -/
def Intact (t : Table) : Prop := ∀ n ∈ builtinNames, t.find? n = Catalog.table.find? n

theorem intact_catalog : Intact Catalog.table := fun _ _ => rfl

theorem mem_builtinNames_iff (hr : Catalog.table.find? n = some r) :
    n ∈ builtinNames ↔ r.builtin = true := by
  constructor
  · intro hn
    exact (catalog_builtin _ (Catalog.table.mem_of_find? hr) hn).2
  · intro hb
    rcases mem_catalog_keys_iff.1 (Catalog.table.mem_keys_of_find? hr) with rfl | hn
    · cases hr
      cases hb
    · exact hn

theorem Intact.exists_builtin (h : t.Intact) (hn : n ∈ builtinNames) :
    ∃ r, t.find? n = some r ∧ r.builtin = true := by
  obtain ⟨r, hr⟩ := Catalog.table.exists_find?_of_mem_keys (mem_catalog_keys_iff.2 (Or.inr hn))
  exact ⟨r, (h n hn).trans hr, (mem_builtinNames_iff hr).1 hn⟩

theorem Intact.edit (h : t.Intact) (name : String) (f : Record → Record) : (t.edit name f).Intact := by
  intro n hn
  obtain ⟨r, hr, hb⟩ := h.exists_builtin hn
  rw [find?_edit, ← h n hn]
  split
  · rw [hr, Option.map_some, if_pos hb]
  · rfl

theorem Intact.insert (h : t.Intact) {name : String} (hname : name ∉ builtinNames) (r : Record) :
    Intact (t.insert name r) := by
  intro n hn
  have hne : name ≠ n := fun he => hname (he ▸ hn)
  rw [OrderedMap.find?_insert, if_neg hne, h n hn]

theorem Intact.modify (h : t.Intact) {name : String} (hname : name ∉ builtinNames)
    (f : Record → Record) : Intact (t.modify name f) := by
  intro n hn
  have hne : name ≠ n := fun he => hname (he ▸ hn)
  rw [OrderedMap.find?_modify, if_neg hne, h n hn]

theorem Intact.addMissing (h : t.Intact) (others : Table) : (t.addMissing others).Intact := by
  intro n hn
  obtain ⟨r, hr, -⟩ := h.exists_builtin hn
  rw [find?_addMissing, hr, Option.some_or, ← hr, h n hn]

end Table

/-! ### Names that no builtin record has -/

theorem generatedName_not_builtin (uid : String) (k : Nat) :
    Ty.generatedName uid k ∉ builtinNames := fun hn =>
  own_not_key (own_generatedName uid k) (mem_catalog_keys_iff.2 (Or.inr hn))

theorem isBase_of_mem_builtinNames {n : String} (hn : n ∈ builtinNames) : IsBase n :=
  isBase_of_mem_catalogNames (List.mem_cons_of_mem _ (mem_catalog_keys_iff.2 (Or.inr hn)))

theorem constructorKey_not_builtin (type : Ty) : Ty.constructorKey type ∉ builtinNames := fun hn =>
  not_isBase_constructorKey type (isBase_of_mem_builtinNames hn)

namespace Environment

open Table (Intact)

variable {env env' : Environment} {n : String}

theorem objectName_not_builtin (h : env.types.Intact) (name : Option String) :
    (env.objectName name).1 ∉ builtinNames := by
  cases name with
  | none => exact generatedName_not_builtin _ _
  | some n =>
    rw [objectName_some]
    split
    · exact generatedName_not_builtin _ _
    · rename_i hfree
      intro hn
      obtain ⟨r, hr, hb⟩ := h.exists_builtin hn
      exact hfree (by simp [isReserved, hr, hb])

/-! ### Records and scopes -/

section Objects
variable (h : env.types.Intact) (name : Option String) (span : Option Span)
include h

theorem intact_newScope : (env.newScope span).2.types.Intact :=
  h.insert (generatedName_not_builtin _ _) _

theorem intact_newFleetingObject : (env.newFleetingObject name span).2.types.Intact := by
  have hname := objectName_not_builtin h name
  have htypes : (env.objectName name).2.types.Intact := (env.objectName_types name).symm ▸ h
  exact htypes.insert hname _

theorem intact_newObject : (env.newObject name span).2.types.Intact :=
  (intact_newFleetingObject (intact_newScope h span) name span).edit _ _

omit span in
theorem intact_popScope? (hpop : env.popScope? = some (n, env')) : env'.types.Intact := by
  unfold popScope? at hpop
  split at hpop
  · cases hpop
  · cases hpop
    exact h.edit _ _

/-- The object that a constructor makes is not builtin, so its link may be set without a look at
the mark. -/
theorem newObject_not_builtin : (env.newObject name span).1 ∉ builtinNames :=
  objectName_not_builtin (intact_newScope h span) name

omit span in
theorem intact_createConstructor (result : Ty) (hn : n ∉ builtinNames) :
    (env.createConstructor result n).types.Intact := by
  have hkey := intact_newFleetingObject h (some (Ty.constructorKey result)) none
  have hproto := intact_newFleetingObject hkey (some (Ty.protoKey (Ty.constructorKey result))) none
  exact (hproto.modify (constructorKey_not_builtin result) _).modify hn _

end Objects

/-! ### Bindings, assignments and summaries -/

theorem intact_addVariable (h : env.types.Intact) (name : Name) (target type : Option Ty)
    (span : Option Span) : (env.addVariable name target type span).types.Intact :=
  h.edit (env.scope target) _

theorem intact_setBinding (h : env.types.Intact) (owner : String) (name : Name) (type : Ty)
    (span : Option Span) : (env.setBinding owner name type span).types.Intact := by
  unfold setBinding
  dsimp only
  split
  · exact h.edit _ _
  · rename_i o r hfound
    split
    · exact h.edit _ _
    · rename_i hb
      refine h.modify (fun hn => hb ?_) _
      obtain ⟨r', hr', hb'⟩ := h.exists_builtin hn
      cases (Table.find?_of_mem_chainFrom (List.mem_of_find?_eq_some hfound)).symm.trans hr'
      exact hb'

theorem intact_addOrSet (h : env.types.Intact) (name : Name) (target : Option Ty) (type : Ty)
    (span : Option Span) : (env.addOrSet name target (some type) span).2.types.Intact := by
  rw [addOrSet_some]
  split
  · exact h.edit _ _
  · exact intact_setBinding h _ _ _ _

theorem intact_addOrSet_none (h : env.types.Intact) (name : Name) (span : Option Span) :
    (env.addOrSet name none none span).2.types.Intact := by
  rw [env.addOrSet_none name none span (by simp)]
  exact intact_addOrSet (intact_newFleetingObject h none span) _ _ _ _

theorem intact_mergeSummary (h : env.types.Intact) (m : Summary) (target : String) :
    (env.mergeSummary m target).types.Intact := by
  have hmerged : (env.types.addMissing m.types).Intact := h.addMissing m.types
  unfold mergeSummary
  dsimp only
  split
  · exact hmerged
  · exact hmerged.edit _ _

end Environment

end ContentAssist
