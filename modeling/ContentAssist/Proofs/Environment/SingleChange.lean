import ContentAssist.Proofs.Environment.Binding
import ContentAssist.Proofs.Record.Resolution

/-! # An assignment changes one thing

After an assignment the name stands for the assigned type, and the table differs from the one before in
one place: the type of the nearest binding, a new member of the target's own record if there is none or
the nearest one is builtin, or the target's own link if the name is `prototype`. Finding the place and
looking the name up afterwards are two walks along a chain whose links the assignment does not change,
so they come to the same record.

* `Table.DiffersInMember`, `Table.DiffersInLink`: tables that differ in one place;
* `firstOnChain?_eq_resolution?`: the walk of an assignment finds what the name resolves to;
* `Table.DiffersInMember.resolves`: the name resolves to the member that differs;
* `Environment.AssignedIn`, `assignedIn_addOrSet`: what an assignment to a record does;
* `Environment.addOrSet_changes_one`: what an assignment does to an environment. -/

namespace ContentAssist

namespace Table

variable {t t' : Table} {n owner start : String} {name : Name} {d : Definition} {type : Ty} {r : Record}

/-! ### Tables that differ in one place -/

/-- The tables differ in one member of one record only: in the second one the record `owner` binds
`name` to `d`. -/
structure DiffersInMember (owner : String) (name : Name) (d : Definition) (t t' : Table) : Prop where
  others : ∀ n, n ≠ owner → t'.find? n = t.find? n
  record : ∃ r r', t.find? owner = some r ∧ t'.find? owner = some r' ∧
    r'.member? name = some d ∧ (∀ x, x ≠ name → r'.member? x = r.member? x) ∧
    r'.proto = r.proto ∧ r'.builtin = r.builtin

/-- The tables differ in one link only: in the second one that of the record `owner` is `d`. -/
structure DiffersInLink (owner : String) (d : Definition) (t t' : Table) : Prop where
  others : ∀ n, n ≠ owner → t'.find? n = t.find? n
  record : ∃ r, t.find? owner = some r ∧ t'.find? owner = some { r with proto := some d }

theorem differsInMember_define (hr : t.find? owner = some r) (hb : r.builtin = false) (name : Name)
    (d : Definition) : DiffersInMember owner name d t (t.edit owner (·.define name d)) where
  others n hn := by rw [find?_edit, if_neg (Ne.symm hn)]
  record := by
    refine ⟨r, r.define name d, hr, ?_, ?_, fun x hx => ?_, rfl, rfl⟩
    · rw [find?_edit, if_pos rfl, hr, Option.map_some, hb]
      rfl
    · rw [Record.member?_define, if_pos rfl]
    · rw [Record.member?_define, if_neg (Ne.symm hx)]

theorem differsInMember_retype (hr : t.find? owner = some r) (hd : r.member? name = some d) (type : Ty) :
    DiffersInMember owner name { d with type := type } t
      (t.modify owner fun r =>
        { r with members := r.members.modify name fun d => { d with type := type } }) where
  others n hn := by rw [OrderedMap.find?_modify, if_neg (Ne.symm hn)]
  record := by
    refine ⟨r, { r with members := r.members.modify name fun d => { d with type := type } }, hr, ?_, ?_,
      fun x hx => ?_, rfl, rfl⟩
    · rw [OrderedMap.find?_modify, if_pos rfl, hr, Option.map_some]
    · rw [Record.member?_retype, if_pos rfl, hd, Option.map_some]
    · rw [Record.member?_retype, if_neg (Ne.symm hx)]

theorem differsInLink_edit (hr : t.find? owner = some r) (hb : r.builtin = false) (d : Definition) :
    DiffersInLink owner d t (t.edit owner fun r => { r with proto := some d }) where
  others n hn := by rw [find?_edit, if_neg (Ne.symm hn)]
  record := by
    refine ⟨r, hr, ?_⟩
    rw [find?_edit, if_pos rfl, hr, Option.map_some, hb]
    rfl

theorem edit_of_find?_eq_none (hr : t.find? owner = none) (f : Record → Record) : t.edit owner f = t := by
  unfold edit OrderedMap.modify
  rw [hr]

theorem find?_edit_of_builtin (hr : t.find? n = some r) (hb : r.builtin = true) (owner : String)
    (f : Record → Record) : (t.edit owner f).find? n = some r := by
  rw [find?_edit, hr]
  split
  · rw [Option.map_some, if_pos hb]
  · rfl

/-! ### Resolving the name afterwards -/

theorem answer?_of_ne (hname : name ≠ some "prototype") (r : Record) :
    answer? r name = r.member? name := if_neg hname

/-- What is resolved is a binding of the record in which it is found. -/
theorem Resolves.binding {h : Nat} (hname : name ≠ some "prototype")
    (hd : Resolves t name h start owner d) :
    ∃ r, t.find? owner = some r ∧ r.member? name = some d := by
  induction hd with
  | here hr hd => exact ⟨_, hr, by rwa [answer?_of_ne hname] at hd⟩
  | up _ _ _ _ ih => exact ih

/-- **The member that differs** is what the name resolves to, if it did so before. -/
theorem DiffersInMember.resolves {d' : Definition} {h : Nat} (hdiffers : DiffersInMember owner name d' t t')
    (hname : name ≠ some "prototype") (hd : Resolves t name h start owner d) :
    Resolves t' name h start owner d' := by
  obtain ⟨r, r', hr, hr', hmember, -⟩ := hdiffers.record
  induction hd with
  | here hr₀ hd₀ => exact .here hr' (by rwa [answer?_of_ne hname])
  | @up h n o s p d hs hnone hp hd ih =>
    -- the records in front of the owner do not bind the name, so they are other ones
    have hne : n ≠ o := by
      rintro rfl
      obtain ⟨r₀, hr₀, hbound⟩ := hd.binding hname
      rw [hs] at hr₀
      cases hr₀
      rw [answer?_of_ne hname, hbound] at hnone
      cases hnone
    exact .up ((hdiffers.others n hne).trans hs) hnone hp (ih hdiffers hr hr')

theorem DiffersInMember.resolves_self (hdiffers : DiffersInMember owner name d t t')
    (hname : name ≠ some "prototype") : Resolves t' name 0 owner owner d := by
  obtain ⟨r, r', hr, hr', hmember, -⟩ := hdiffers.record
  exact .here hr' (by rwa [answer?_of_ne hname])

theorem DiffersInLink.resolves (hdiffers : DiffersInLink owner d t t') :
    Resolves t' (some "prototype") 0 owner owner d := by
  obtain ⟨r, hr, hr'⟩ := hdiffers.record
  exact .here hr' rfl

end Table

namespace Environment

open Table (DiffersInMember DiffersInLink Resolves)

variable {env : Environment} {start owner : String} {name : Name} {d : Definition} {type : Ty}
  {r : Record} {span : Option Span}

/-! ### The place of an assignment -/

/-- **The walk of an assignment** comes to the binding that the name resolves to. -/
theorem firstOnChain?_eq_resolution? (env : Environment) (start : String)
    (hname : name ≠ some "prototype") :
    env.firstOnChain? start (fun r => (r.member? name).isSome) =
      (env.types.resolution? start name).bind fun e =>
        (env.types.find? e.1).map fun r => (e.1, r) := by
  unfold firstOnChain? Table.resolution?
  have hchain : ∀ e ∈ env.types.chain start, env.types.find? e.1 = some e.2 :=
    fun e he => Table.find?_of_mem_chainFrom he
  generalize env.types.chain start = es at hchain
  induction es with
  | nil => rfl
  | cons e es ih =>
    rw [List.find?_cons, List.findSome?_cons, Table.answer?_of_ne hname]
    dsimp only
    cases e.2.member? name with
    | none => exact ih fun k hk => hchain k (List.mem_cons_of_mem _ hk)
    | some d =>
      dsimp only [Option.isSome_some, Option.map_some, Option.bind_some]
      rw [hchain e List.mem_cons_self]
      rfl

/-- The nearest binding gets the type if its record may be changed. -/
theorem setBinding_of_resolution? (hname : name ≠ some "prototype")
    (hres : env.types.resolution? start name = some (owner, d)) (hr : env.types.find? owner = some r)
    (hb : r.builtin = false) (type : Ty) (span : Option Span) :
    DiffersInMember owner name { d with type := type } env.types
      (env.setBinding start name type span).types := by
  obtain ⟨h, hresolves⟩ := Table.resolution?_eq_some_iff.1 hres
  obtain ⟨r', hr', hd⟩ := hresolves.binding hname
  cases hr.symm.trans hr'
  unfold setBinding
  rw [firstOnChain?_eq_resolution? env start hname, hres, Option.bind_some, hr]
  simp only [Option.map_some, hb]
  exact Table.differsInMember_retype hr hd type

/-- Without a binding that may be changed the record at the start gets one. -/
theorem setBinding_eq_edit (hname : name ≠ some "prototype")
    (hres : ∀ owner d r, env.types.resolution? start name = some (owner, d) →
      env.types.find? owner = some r → r.builtin = true) (type : Ty) (span : Option Span) :
    (env.setBinding start name type span).types =
      env.types.edit start (·.define name { type := type, span := span }) := by
  unfold setBinding
  rw [firstOnChain?_eq_resolution? env start hname]
  cases hfound : env.types.resolution? start name with
  | none => rfl
  | some e =>
    obtain ⟨owner, d⟩ := e
    cases hr : env.types.find? owner with
    | none => simp [hr]
    | some r => simp [hr, hres owner d r hfound hr]

/-! ### The table and the names of targets -/

/-- A target stands for the same record if the same constructors have records. -/
theorem scope_eq {env env' : Environment} (hscopes : env'.scopes = env.scopes)
    (hkeys : ∀ result, Ty.constructorKey result ∈ env'.types.keys ↔
      Ty.constructorKey result ∈ env.types.keys) (target : Option Ty) :
    env'.scope target = env.scope target := by
  match target with
  | none => exact congrArg Scopes.current hscopes
  | some (.named _) => rfl
  | some (.function result _) =>
    have hcontains : env'.types.contains (Ty.constructorKey result) =
        env.types.contains (Ty.constructorKey result) := by
      rw [Bool.eq_iff_iff, OrderedMap.contains_iff, OrderedMap.contains_iff]
      exact hkeys result
    unfold scope
    dsimp only
    rw [hcontains]

/-- An assignment adds no record to the table and takes none away. -/
theorem mem_keys_addOrSet_some {n : String} (name : Name) (target : Option Ty) (type : Ty)
    (span : Option Span) :
    n ∈ (env.addOrSet name target (some type) span).2.types.keys ↔ n ∈ env.types.keys := by
  rw [addOrSet_some]
  split
  · rw [setPrototype_eq]
    exact env.types.mem_keys_modify
  · unfold setBinding
    dsimp only
    split
    · exact env.types.mem_keys_modify
    · split <;> exact env.types.mem_keys_modify

/-- What becomes of the table when `type` is assigned to `name` in the record `start`. -/
structure AssignedIn (start : String) (name : Name) (type : Ty) (span : Option Span) (t t' : Table) :
    Prop where
  /-- The name then stands for the type. -/
  lookup : ∀ r, t.find? start = some r → r.builtin = false →
    (t'.resolve? start name).map (·.type) = some type
  /-- A nearest binding in a record that may be changed gets the type. -/
  overwritten : name ≠ some "prototype" → ∀ owner d r, t.resolution? start name = some (owner, d) →
    t.find? owner = some r → r.builtin = false →
      DiffersInMember owner name { d with type := type } t t'
  /-- If there is none, or it is in a builtin record, the record itself gets a new member. -/
  added : name ≠ some "prototype" → (∀ owner d r, t.resolution? start name = some (owner, d) →
    t.find? owner = some r → r.builtin = true) → ∀ r, t.find? start = some r → r.builtin = false →
      r.member? name = none ∧ DiffersInMember start name { type := type, span := span } t t'
  /-- The name `prototype` stands for the link of the record itself. -/
  linked : name = some "prototype" → ∀ r, t.find? start = some r → r.builtin = false →
    DiffersInLink start { type := type, span := span } t t'
  absent : t.find? start = none → t' = t
  builtin : ∀ n r, t.find? n = some r → r.builtin = true → t'.find? n = some r

theorem assignedIn_setPrototype (env : Environment) (start : String) (type : Ty) (span : Option Span) :
    AssignedIn start (some "prototype") type span env.types
      (env.setPrototype start type span).types := by
  rw [setPrototype_eq]
  have hlink (r : Record) (hr : env.types.find? start = some r) (hb : r.builtin = false) :=
    Table.differsInLink_edit hr hb { type := type, span := span }
  refine ⟨fun r hr hb => ?_, fun hname => absurd rfl hname, fun hname => absurd rfl hname,
    fun _ => hlink, fun hnone => Table.edit_of_find?_eq_none hnone _,
    fun n r hr hb => Table.find?_edit_of_builtin hr hb _ _⟩
  rw [Table.resolve?_eq_map_resolution?,
    Table.resolution?_eq_some_iff.2 ⟨0, (hlink r hr hb).resolves⟩]
  rfl

theorem find?_setBinding_of_builtin {n : String} (hr : env.types.find? n = some r)
    (hb : r.builtin = true) (start : String) (name : Name) (type : Ty) (span : Option Span) :
    (env.setBinding start name type span).types.find? n = some r := by
  unfold setBinding
  dsimp only
  split
  · exact Table.find?_edit_of_builtin hr hb _ _
  · rename_i owner r' hfound
    split
    · exact Table.find?_edit_of_builtin hr hb _ _
    · rename_i hb'
      have hne : owner ≠ n := by
        rintro rfl
        cases hr.symm.trans (Table.find?_of_mem_chainFrom (List.mem_of_find?_eq_some hfound))
        exact hb' hb
      rw [OrderedMap.find?_modify, if_neg hne, hr]

/-- Where no binding may be changed the record at the start does not bind the name. -/
theorem member?_eq_none (hname : name ≠ some "prototype")
    (hres : ∀ owner d r, env.types.resolution? start name = some (owner, d) →
      env.types.find? owner = some r → r.builtin = true)
    (hr : env.types.find? start = some r) (hb : r.builtin = false) : r.member? name = none := by
  cases hd : r.member? name with
  | none => rfl
  | some d =>
    have hfound : env.types.resolution? start name = some (start, d) :=
      Table.resolution?_of_answer? hr (by rwa [Table.answer?_of_ne hname])
    rw [hres start d r hfound hr] at hb
    cases hb

theorem assignedIn_setBinding (env : Environment) (start : String) (hname : name ≠ some "prototype")
    (type : Ty) (span : Option Span) :
    AssignedIn start name type span env.types (env.setBinding start name type span).types := by
  have hover (owner : String) (d : Definition) (r : Record)
      (hres : env.types.resolution? start name = some (owner, d))
      (hr : env.types.find? owner = some r) (hb : r.builtin = false) :=
    setBinding_of_resolution? hname hres hr hb type span
  have hadd (hres : ∀ owner d r, env.types.resolution? start name = some (owner, d) →
      env.types.find? owner = some r → r.builtin = true) (r : Record)
      (hr : env.types.find? start = some r) (hb : r.builtin = false) :
      DiffersInMember start name { type := type, span := span } env.types
        (env.setBinding start name type span).types := by
    rw [setBinding_eq_edit hname hres]
    exact Table.differsInMember_define hr hb _ _
  refine ⟨fun r hr hb => ?_, fun _ => hover,
    fun _ hres r hr hb => ⟨member?_eq_none hname hres hr hb, hadd hres r hr hb⟩,
    fun heq => absurd heq hname, fun hnone => ?_,
    fun n r hr hb => find?_setBinding_of_builtin hr hb _ _ _ _⟩
  · rw [Table.resolve?_eq_map_resolution?]
    by_cases hexists : ∃ owner d r, env.types.resolution? start name = some (owner, d) ∧
        env.types.find? owner = some r ∧ r.builtin = false
    · obtain ⟨owner, d, r', hres, hr', hb'⟩ := hexists
      obtain ⟨h, hresolves⟩ := Table.resolution?_eq_some_iff.1 hres
      rw [Table.resolution?_eq_some_iff.2
        ⟨h, (hover owner d r' hres hr' hb').resolves hname hresolves⟩]
      rfl
    · have hnone (owner : String) (d : Definition) (r' : Record)
          (hres : env.types.resolution? start name = some (owner, d))
          (hr' : env.types.find? owner = some r') : r'.builtin = true := by
        rw [← Bool.not_eq_false]
        exact fun hb' => hexists ⟨owner, d, r', hres, hr', hb'⟩
      rw [Table.resolution?_eq_some_iff.2 ⟨0, (hadd hnone r hr hb).resolves_self hname⟩]
      rfl
  · rw [setBinding_eq_edit hname, Table.edit_of_find?_eq_none hnone]
    intro owner d r hres
    rw [Table.resolution?_eq_none hnone] at hres
    cases hres

/-- **An assignment to a record** changes one binding or one link. -/
theorem assignedIn_addOrSet (env : Environment) (start : String) (name : Name) (type : Ty)
    (span : Option Span) : AssignedIn start name type span env.types
      (env.addOrSet name (some (.named start)) (some type) span).2.types := by
  rw [addOrSet_some]
  split
  · rename_i hname
    rw [hname]
    exact assignedIn_setPrototype env start type span
  · rename_i hname
    exact assignedIn_setBinding env start hname type span

/-! ### What an assignment does to an environment -/

/-- What is assigned is a given type, or else a new object, for which a record is put into the table
first. -/
inductive Provides (env : Environment) (span : Option Span) : Option Ty → Ty → Environment → Prop
  | given (type : Ty) : Provides env span (some type) type env
  | fresh {made : Environment}
    (name : made.types.find? (Ty.generatedName env.uid env.count) =
      some { proto := some { type := .object, span := span } })
    (others : ∀ n, n ≠ Ty.generatedName env.uid env.count →
      made.types.find? n = env.types.find? n)
    (scopes : made.scopes = env.scopes) :
    Provides env span none (.named (Ty.generatedName env.uid env.count)) made

theorem provides_newFleetingObject (env : Environment) (span : Option Span) :
    Provides env span none (.named (Ty.generatedName env.uid env.count))
      (env.newFleetingObject none span).2 :=
  .fresh (env.types.find?_insert_self _ _) (fun _ hn => env.types.find?_insert_of_ne (Ne.symm hn) _)
    rfl

variable {made : Environment} {target givenType : Option Ty} {answer : Ty}

theorem Provides.scopes (h : Provides env span givenType answer made) : made.scopes = env.scopes := by
  cases h with
  | given => rfl
  | fresh _ _ hscopes => exact hscopes

theorem Provides.constructorKey_mem (h : Provides env span givenType answer made) (result : Ty) :
    Ty.constructorKey result ∈ made.types.keys ↔ Ty.constructorKey result ∈ env.types.keys := by
  cases h with
  | given => exact Iff.rfl
  | fresh _ hothers _ =>
    have hne : Ty.constructorKey result ≠ Ty.generatedName env.uid env.count := fun heq =>
      not_isBase_constructorKey result (heq ▸ isBase_generatedName _ _)
    rw [← OrderedMap.contains_iff, ← OrderedMap.contains_iff, OrderedMap.contains, hothers _ hne]
    rfl

/-- An assignment is one to the record that its target stands for, in the environment in which the type
is provided. -/
theorem addOrSet_eq (env : Environment) (name : Name) (target givenType : Option Ty)
    (span : Option Span) : ∃ answer made, Provides env span givenType answer made ∧
      env.addOrSet name target givenType span =
        (answer, (made.addOrSet name (some (.named (env.scope target))) (some answer) span).2) := by
  cases givenType with
  | some type =>
    refine ⟨type, env, .given type, ?_⟩
    rw [addOrSet_some]
    unfold addOrSet
    dsimp only
    split <;> rfl
  | none =>
    refine ⟨_, _, provides_newFleetingObject env span, ?_⟩
    rw [addOrSet_some]
    unfold addOrSet
    dsimp only
    split <;> rfl

/-- Where the table ends the chains of objects with a builtin `Object`. -/
def EndsInObject (t : Table) : Prop := ∀ r, t.find? "Object" = some r → r.builtin = true ∧ r.proto = none

/-- The table of an analysis does, as its builtin records are those of the catalog. -/
theorem endsInObject_of_intact {t : Table} (h : t.Intact) : EndsInObject t := by
  intro r hr
  rw [h "Object" (by decide +kernel)] at hr
  obtain ⟨r', hr', hbuiltin⟩ : ∃ r, Catalog.table.find? "Object" = some r ∧
      r.builtin = true ∧ r.proto = none := ⟨Catalog.builtinRecord "Object" _, rfl, rfl, rfl⟩
  cases hr.symm.trans hr'
  exact hbuiltin

/-- From a new object a name resolves to a builtin binding, if it does at all. -/
theorem builtin_of_resolution?_object {t : Table} (hstart : t.find? start =
      some { proto := some { type := .object, span := span } })
    (hobject : EndsInObject t) (hname : name ≠ some "prototype")
    (hres : t.resolution? start name = some (owner, d)) (hr : t.find? owner = some r) :
    r.builtin = true := by
  obtain ⟨h, hresolves⟩ := Table.resolution?_eq_some_iff.1 hres
  cases hresolves with
  | here hr₀ hd =>
    cases hstart.symm.trans hr₀
    rw [Table.answer?_of_ne hname] at hd
    cases hd
  | up hr₀ _ hp hd =>
    cases hstart.symm.trans hr₀
    cases hp
    cases hd with
    | here hr₁ _ =>
      cases hr.symm.trans hr₁
      exact (hobject r hr).1
    | up hr₁ _ hp' _ =>
      rw [(hobject _ hr₁).2] at hp'
      cases hp'

/-- An assignment to the object that is made for it leaves the other records alone. -/
theorem AssignedIn.find?_of_object {t t' : Table} {n : String}
    (h : AssignedIn start name type span t t')
    (hstart : t.find? start = some { proto := some { type := .object, span := span } })
    (hobject : EndsInObject t) (hn : n ≠ start) : t'.find? n = t.find? n := by
  by_cases hname : name = some "prototype"
  · exact (h.linked hname _ hstart rfl).others n hn
  · have hadded := h.added hname
      (fun _ _ _ hres hr => builtin_of_resolution?_object hstart hobject hname hres hr) _ hstart rfl
    exact hadded.2.others n hn

theorem Provides.find?_of_ne (h : Provides env span givenType answer made) {n : String}
    (hn : givenType = none → n ≠ Ty.generatedName env.uid env.count) :
    made.types.find? n = env.types.find? n := by
  cases h with
  | given => rfl
  | fresh _ hothers _ => exact hothers n (hn rfl)

theorem Provides.find?_of_some (h : Provides env span givenType answer made)
    (hfresh : givenType = none → env.types.find? (Ty.generatedName env.uid env.count) = none) {n : String}
    (hr : env.types.find? n = some r) : made.types.find? n = some r := by
  refine (h.find?_of_ne fun hnone => ?_).trans hr
  rintro rfl
  rw [hfresh hnone] at hr
  cases hr

/-- If the record of the target was not there, it is there now only as that of the new object. -/
theorem Provides.eq_generatedName (h : Provides env span givenType answer made)
    (hnone : env.types.find? start = none) (hr : made.types.find? start = some r) :
    givenType = none ∧ start = Ty.generatedName env.uid env.count ∧
      r = { proto := some { type := .object, span := span } } := by
  cases h with
  | given =>
    rw [hnone] at hr
    cases hr
  | fresh hname hothers _ =>
    have hstart : start = Ty.generatedName env.uid env.count := by
      by_contra hne
      rw [hothers start hne, hnone] at hr
      cases hr
    rw [hstart, hname] at hr
    cases hr
    exact ⟨rfl, hstart, rfl⟩

/-- Without a record of the target nothing but a new record differs. -/
theorem Provides.find?_of_missing (h : Provides env span givenType answer made)
    (hnone : env.types.find? start = none)
    (hend : start ≠ Ty.generatedName env.uid env.count ∨ EndsInObject env.types) {t : Table}
    (hassigned : AssignedIn start name answer span made.types t) {n : String}
    (hn : givenType = none → n ≠ Ty.generatedName env.uid env.count) :
    t.find? n = env.types.find? n := by
  refine Eq.trans ?_ (h.find?_of_ne hn)
  cases hmade : made.types.find? start with
  | none => rw [hassigned.absent hmade]
  | some r =>
    obtain ⟨hgiven, hstart, rfl⟩ := h.eq_generatedName hnone hmade
    have hobject : EndsInObject made.types := by
      intro r hr
      refine hend.resolve_left (not_not.2 hstart) r ?_
      rwa [h.find?_of_ne fun _ heq => ?_] at hr
      exact generatedName_not_builtin env.uid env.count (heq ▸ by decide +kernel)
    exact hassigned.find?_of_object hmade hobject (hstart ▸ hn hgiven)

theorem Provides.scope_addOrSet (h : Provides env span givenType answer made) (name : Name)
    (owner target : Option Ty) :
    (made.addOrSet name owner (some answer) span).2.scope target = env.scope target :=
  scope_eq ((made.addOrSet_some_scopes _ _ _ _).trans h.scopes)
    (fun result => (mem_keys_addOrSet_some name _ _ span).trans (h.constructorKey_mem result)) target

/-- **An assignment changes one binding or one link**, and the name then stands for the type. A type that
is not given is that of an object made before. If the target has no record, nothing else changes in the
table; this also holds if the target is just the object that is made, if that ends in a builtin
`Object`, as it does in an analysis (`endsInObject_of_intact`). -/
theorem addOrSet_changes_one (env : Environment) (name : Name) (target givenType : Option Ty)
    (span : Option Span)
    (hfresh : givenType = none → env.types.find? (Ty.generatedName env.uid env.count) = none) :
    let start := env.scope target
    let answer := (env.addOrSet name target givenType span).1
    let env' := (env.addOrSet name target givenType span).2
    ∃ made, Provides env span givenType answer made ∧
      (∀ n r, env.types.find? n = some r → made.types.find? n = some r) ∧
      AssignedIn start name answer span made.types env'.types ∧
      (∀ r, made.types.find? start = some r → r.builtin = false →
        env'.lookup? name target = some answer) ∧
      env'.scopes = env.scopes ∧
      (env.types.find? start = none →
        start ≠ Ty.generatedName env.uid env.count ∨ EndsInObject env.types →
          ∀ n, (givenType = none → n ≠ Ty.generatedName env.uid env.count) →
            env'.types.find? n = env.types.find? n) := by
  intro start answer env'
  obtain ⟨answer₀, made, hprovides, heq⟩ := addOrSet_eq env name target givenType span
  have hanswer : answer = answer₀ := by
    show (env.addOrSet name target givenType span).1 = answer₀
    rw [heq]
  have henv' : env' = (made.addOrSet name (some (.named start)) (some answer₀) span).2 := by
    show (env.addOrSet name target givenType span).2 = _
    rw [heq]
  rw [hanswer, henv']
  have hassigned := assignedIn_addOrSet made start name answer₀ span
  refine ⟨made, hprovides, fun n r => hprovides.find?_of_some hfresh, hassigned, fun r hr hb => ?_,
    (made.addOrSet_some_scopes _ _ _ _).trans hprovides.scopes,
    fun hnone hend n => hprovides.find?_of_missing hnone hend hassigned⟩
  unfold lookup? lookupDefinition?
  rw [hprovides.scope_addOrSet]
  exact hassigned.lookup r hr hb

/-- A scope without names of its own, below the global one in which `x` is a number. -/
def belowNumber : Environment :=
  (((Environment.start "file").addVariable (some "x") none (some .number) none).newScope none).2

/-- In the inner scope `x` is assigned a new object: the name then stands for it, and of the records that
were there only the global one differs, in the type of `x`. -/
theorem addOrSet_changes_one_outer :
    belowNumber.types.find? (Ty.generatedName belowNumber.uid belowNumber.count) = none ∧
    (belowNumber.addOrSet (some "x") none none none).2.lookup? (some "x") none =
      some (belowNumber.addOrSet (some "x") none none none).1 ∧
    ∃ made : Environment, (∀ n r, belowNumber.types.find? n = some r → made.types.find? n = some r) ∧
      DiffersInMember "Global" (some "x")
        { type := (belowNumber.addOrSet (some "x") none none none).1 } made.types
        (belowNumber.addOrSet (some "x") none none none).2.types := by
  have hfresh : belowNumber.types.find? (Ty.generatedName belowNumber.uid belowNumber.count) = none := by
    decide +kernel
  obtain ⟨made, hprovides, hkept, hassigned, hlookup, -⟩ :=
    addOrSet_changes_one belowNumber (some "x") none none none fun _ => hfresh
  have hstart : belowNumber.types.find? (belowNumber.scope none) =
      some { proto := some { type := .named "Global" } } := by decide +kernel
  have hglobal : ∃ r, belowNumber.types.find? "Global" = some r ∧
      r.member? (some "x") = some { type := .number } ∧ r.builtin = false :=
    ⟨(belowNumber.types.find? "Global").getD {}, by decide +kernel⟩
  obtain ⟨r, hr, hx, hb⟩ := hglobal
  have hres : made.types.resolution? (belowNumber.scope none) (some "x") =
      some ("Global", { type := .number }) :=
    Table.resolution?_eq_some_iff.2
      ⟨1, .up (hkept _ _ hstart) rfl rfl (.here (hkept _ _ hr) hx)⟩
  exact ⟨hfresh, hlookup _ (hkept _ _ hstart) rfl, made, hkept,
    hassigned.overwritten (by decide) "Global" _ r hres (hkept _ _ hr) hb⟩

end Environment

end ContentAssist
