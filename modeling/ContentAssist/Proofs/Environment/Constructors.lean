import ContentAssist.Proofs.Environment.Operation
import ContentAssist.Proofs.Environment.SingleChange

/-! # Constructors and their instances

An instance links to the record of its constructor, which links to that of the prototype object. A name
that neither of the first two binds is looked up from the instance as from the prototype object, and so an
instance sees what is written there. This stays so while members of the prototype object are written: such
a write binds names in the prototype object only, or gives a new type to a binding that is there already.
Such a binding may be one of another record that the prototype object links to. The write is lost to the
instance when the link is then replaced, and only then.

* `Table.resolution?_of_link?`: a name is looked up through a link;
* `Environment.Wired`: how the three records are linked, `wired_createConstructor`: they are made so;
* `Wired.writeMember`, `Wired.writeMembers`: one write, and a sequence of them;
* `lookup?_of_last_write`: what a member of the prototype object is in the end;
* `constructor_mirrors_prototype`: what the instance sees. -/

namespace ContentAssist

open Ty (constructorKey protoKey)

namespace Table

variable {t t' : Table} {n o : String} {name : Name} {type : Ty} {d : Definition} {f : Record → Record}

/-! ### Looking a name up through links -/

/-- A record that does not bind a name leaves it to the record that it links to. -/
theorem resolution?_of_link? (hname : name ≠ some "prototype") (hfree : t.binding? n name = none)
    (hlink : t.link? n = some type) : t.resolution? n name = t.resolution? type.key name := by
  obtain ⟨r, p, hr, hproto, rfl⟩ := exists_find?_of_link? hlink
  have hnone : answer? r name = none := by
    rw [answer?_of_ne hname, ← binding?_of_find? hr, hfree]
  refine Option.ext fun ⟨o, d⟩ => ?_
  rw [resolution?_eq_some_iff, resolution?_eq_some_iff]
  constructor
  · rintro ⟨h, hd⟩
    cases hd with
    | here hr' hd =>
      cases hr.symm.trans hr'
      cases hnone.symm.trans hd
    | up hr' _ hproto' hd =>
      cases hr.symm.trans hr'
      cases hproto.symm.trans hproto'
      exact ⟨_, hd⟩
  · rintro ⟨h, hd⟩
    exact ⟨h + 1, .up hr hnone hproto hd⟩

/-- A record that binds a name answers for it. -/
theorem resolution?_of_binding? (hname : name ≠ some "prototype") (hbound : t.binding? n name = some d) :
    t.resolution? n name = some (n, d) := by
  obtain ⟨r, hr, hd⟩ := Option.bind_eq_some_iff.1 hbound
  exact resolution?_of_answer? hr (by rwa [answer?_of_ne hname])

/-- A name resolves alike where the links and its bindings are the same. -/
theorem Resolves.transport {h : Nat} (hname : name ≠ some "prototype")
    (hbinding : ∀ n, t'.binding? n name = t.binding? n name) (hlink : ∀ n, t'.link? n = t.link? n)
    (hd : Resolves t name h n o d) : Resolves t' name h n o d := by
  induction hd with
  | @here n r d hr hd =>
    have hbound : t'.binding? n name = some d := by
      rw [hbinding, binding?_of_find? hr, ← answer?_of_ne hname, hd]
    obtain ⟨r', hr', hd'⟩ := Option.bind_eq_some_iff.1 hbound
    exact .here hr' (by rwa [answer?_of_ne hname])
  | @up h n o r p d hr hnone hproto _ ih =>
    have hlinked : t'.link? n = some p.type := by
      rw [hlink, link?, hr, Option.bind_some, hproto, Option.map_some]
    obtain ⟨r', p', hr', hproto', htype⟩ := exists_find?_of_link? hlinked
    have hnone' : answer? r' name = none := by
      rw [answer?_of_ne hname, ← binding?_of_find? hr', hbinding, binding?_of_find? hr,
        ← answer?_of_ne hname, hnone]
    exact .up hr' hnone' hproto' (htype ▸ ih)

theorem resolution?_congr (hname : name ≠ some "prototype")
    (hbinding : ∀ n, t'.binding? n name = t.binding? n name) (hlink : ∀ n, t'.link? n = t.link? n)
    (n : String) : t'.resolution? n name = t.resolution? n name := by
  refine Option.ext fun ⟨o, d⟩ => ?_
  rw [resolution?_eq_some_iff, resolution?_eq_some_iff]
  constructor
  · rintro ⟨h, hd⟩
    exact ⟨h, hd.transport hname (fun n => (hbinding n).symm) fun n => (hlink n).symm⟩
  · rintro ⟨h, hd⟩
    exact ⟨h, hd.transport hname hbinding hlink⟩

/-! ### Records that may be changed -/

/-- There is a record of the name, and it may be changed. -/
def Changeable (t : Table) (n : String) : Prop := ∃ r, t.find? n = some r ∧ r.builtin = false

theorem Changeable.mem_keys (h : t.Changeable n) : n ∈ t.keys := by
  obtain ⟨r, hr, -⟩ := h
  exact t.mem_keys_of_find? hr

theorem Changeable.modify (h : t.Changeable n) (hf : ∀ r, (f r).builtin = r.builtin) (m : String) :
    Changeable (t.modify m f) n := by
  obtain ⟨r, hr, hb⟩ := h
  unfold Changeable
  rw [OrderedMap.find?_modify, hr]
  split
  · exact ⟨f r, rfl, (hf r).trans hb⟩
  · exact ⟨r, rfl, hb⟩

theorem Changeable.edit (h : t.Changeable n) (hf : ∀ r, (f r).builtin = r.builtin) (m : String) :
    (t.edit m f).Changeable n := by
  refine h.modify (fun r => ?_) m
  split
  · rfl
  · exact hf r

end Table

namespace Environment

open Table (Changeable)

variable {env : Environment} {result type : Ty} {params : List String} {object n : String} {name x : Name}
  {target : Option Ty} {span : Option Span}

/-! ### Single assignments -/

theorem changeable_addOrSet (h : env.types.Changeable n) (name : Name) (target : Option Ty) (type : Ty)
    (span : Option Span) : (env.addOrSet name target (some type) span).2.types.Changeable n := by
  rw [addOrSet_some]
  split
  · rw [setPrototype_eq]
    exact Changeable.edit h (by intro r; rfl) _
  · unfold setBinding
    dsimp only
    split
    · exact Changeable.edit h (by intro r; rfl) _
    · split
      · exact Changeable.edit h (by intro r; rfl) _
      · exact Changeable.modify h (by intro r; rfl) _

/-- The record whose binding an assignment sets binds the name already, if it is not the target. -/
theorem binding?_ownerOf_ne_none {start : String} (hne : env.ownerOf start name ≠ start) :
    env.types.binding? (env.ownerOf start name) name ≠ none := by
  unfold ownerOf at hne ⊢
  cases hfound : env.firstOnChain? start (fun r => (r.member? name).isSome) with
  | none => simp [hfound] at hne
  | some e =>
    rw [hfound] at hne
    dsimp only at hne ⊢
    split at hne
    · exact absurd rfl hne
    · rename_i hb
      have hmember : (e.2.member? name).isSome = true := by simpa using List.find?_some hfound
      rw [if_neg hb, Table.binding?_of_find?
        (Table.find?_of_mem_chainFrom (List.mem_of_find?_eq_some hfound))]
      exact Option.isSome_iff_ne_none.1 hmember

/-- **An assignment binds no new name** but in its target. -/
theorem binding?_addOrSet_eq_none (hne : n ≠ env.scope target) (hfree : env.types.binding? n x = none)
    (name : Name) (type : Ty) (span : Option Span) :
    (env.addOrSet name target (some type) span).2.types.binding? n x = none := by
  by_contra hbound
  obtain ⟨-, rfl, rfl⟩ := (env.assigns_addOrSet name target type span).binding n x
    (fun hsame => hbound (hsame.trans hfree))
  exact binding?_ownerOf_ne_none hne hfree

/-- An assignment under another name leaves a name alone, unless it sets a link. -/
theorem resolution?_addOrSet_of_ne (hx : x ≠ some "prototype") (hname : name ≠ x)
    (hlink : name ≠ some "prototype") (target : Option Ty) (type : Ty) (span : Option Span) (n : String) :
    (env.addOrSet name target (some type) span).2.types.resolution? n x = env.types.resolution? n x := by
  have hassigns := env.assigns_addOrSet name target type span
  refine Table.resolution?_congr hx (fun m => ?_) (fun m => ?_) n
  · by_contra hne
    exact hname (hassigns.binding m x hne).2.1.symm
  · by_contra hne
    exact hlink (hassigns.link m hne).1

/-- **An instance sees what its constructor links to**, but for the names that are bound on the way. -/
theorem lookup?_of_links {p : Ty} (hx : x ≠ some "prototype")
    (hupward : env.types.link? object = some (.named n)) (honward : env.types.link? n = some p)
    (hobject : env.types.binding? object x = none) (hconstructor : env.types.binding? n x = none)
    (hscope : env.scope (some p) = p.key) :
    env.lookup? x (some (.named object)) = env.lookup? x (some p) := by
  rw [lookup?_eq_map_resolution?, lookup?_eq_map_resolution?, hscope]
  exact congrArg (Option.map _) ((Table.resolution?_of_link? hx hobject hupward).trans
    (Table.resolution?_of_link? hx hconstructor honward))

/-! ### Wired records -/

/-- The instance links to the record of its constructor, and that to the prototype object. -/
structure Wired (result : Ty) (object : String) (env : Environment) : Prop where
  upward : env.types.link? object = some (.named (constructorKey result))
  onward : env.types.link? (constructorKey result) = some (.named (protoKey (constructorKey result)))
  constructor : env.types.Changeable (constructorKey result)
  prototype : env.types.Changeable (protoKey (constructorKey result))
  ne_constructor : object ≠ constructorKey result
  ne_prototype : object ≠ protoKey (constructorKey result)

theorem scope_of_key_mem (type : Ty) (h : type.key ∈ env.types.keys) : env.scope (some type) = type.key := by
  match type, h with
  | .named _, _ => rfl
  | .function result params, h =>
    show (if env.types.contains (constructorKey result) then constructorKey result else "Function") =
      constructorKey result
    exact if_pos (env.types.contains_iff.2 h)

namespace Wired
variable (h : Wired result object env)
include h

theorem scope_function (params : List String) :
    env.scope (some (.function result params)) = constructorKey result :=
  scope_of_key_mem (.function result params) h.constructor.mem_keys

/-- The name `prototype` of the constructor stands for the prototype object. -/
theorem lookup?_prototype (params : List String) :
    env.lookup? (some "prototype") (some (.function result params)) =
      some (.named (protoKey (constructorKey result))) := by
  obtain ⟨r, d, hr, hproto, htype⟩ := Table.exists_find?_of_link? h.onward
  have hresolves : env.types.resolution? (constructorKey result) (some "prototype") =
      some (constructorKey result, d) :=
    Table.resolution?_of_answer? hr hproto
  rw [lookup?_eq_map_resolution?, h.scope_function, hresolves, Option.map_some, htype]

/-- The instance sees what the prototype object sees. -/
theorem lookup?_instance (hx : x ≠ some "prototype") (hobject : env.types.binding? object x = none)
    (hconstructor : env.types.binding? (constructorKey result) x = none) :
    env.lookup? x (some (.named object)) =
      env.lookup? x (some (.named (protoKey (constructorKey result)))) :=
  lookup?_of_links hx h.upward h.onward hobject hconstructor rfl

end Wired

/-! ### New constructors -/

section Create
variable (hkey : env.isReserved (constructorKey result) = false)
  (hproto : env.isReserved (protoKey (constructorKey result)) = false)
  (hobject : object ≠ constructorKey result) (hobject' : object ≠ protoKey (constructorKey result))
include hkey hproto

/-- Where their names are not reserved, a constructor and its prototype object get new records, also if
there have been others; besides, the instance gets its link. -/
theorem types_createConstructor (object : String) :
    (env.createConstructor result object).types =
      (((env.types.insert (constructorKey result) { proto := some { type := .object } }).insert
        (protoKey (constructorKey result)) { proto := some { type := .object } }).modify
          (constructorKey result) fun r =>
            { r with proto := some { type := .named (protoKey (constructorKey result)) } }).modify
        object fun r => { r with proto := some { type := .named (constructorKey result) } } := by
  have hfree : (env.put (constructorKey result)
      { proto := some { type := .object } }).isReserved (protoKey (constructorKey result)) = false := by
    unfold isReserved put at *
    rwa [OrderedMap.find?_insert, if_neg (constructorKey_ne_protoKey _ _)]
  unfold createConstructor
  simp only [newFleetingObject_some, hkey, hfree, Bool.false_eq_true, if_false]
  rfl

include hobject hobject'

theorem find?_createConstructor (n : String) :
    (env.createConstructor result object).types.find? n =
      if n = constructorKey result then
        some { proto := some { type := .named (protoKey (constructorKey result)) } }
      else if n = protoKey (constructorKey result) then some { proto := some { type := .object } }
      else (env.types.find? n).map fun r =>
        if n = object then { r with proto := some { type := .named (constructorKey result) } } else r := by
  have hne : constructorKey result ≠ protoKey (constructorKey result) := constructorKey_ne_protoKey _ _
  rw [types_createConstructor hkey hproto, OrderedMap.find?_modify, OrderedMap.find?_modify,
    OrderedMap.find?_insert, OrderedMap.find?_insert]
  by_cases hn : n = constructorKey result
  · subst hn
    simp [hobject, hne.symm]
  by_cases hn' : n = protoKey (constructorKey result)
  · subst hn'
    simp [hobject', hne, hn]
  rw [if_neg hn, if_neg hn', if_neg (Ne.symm hn), if_neg (Ne.symm hn'), if_neg (Ne.symm hn)]
  by_cases hn'' : n = object
  · simp [hn'']
  · simp [hn'', Ne.symm hn'']

/-- **The records of a new constructor** are wired. -/
theorem wired_createConstructor {r : Record} (hr : env.types.find? object = some r) :
    Wired result object (env.createConstructor result object) := by
  have hfind := find?_createConstructor hkey hproto hobject hobject'
  have hne : protoKey (constructorKey result) ≠ constructorKey result :=
    (constructorKey_ne_protoKey _ _).symm
  refine ⟨?_, ?_, ?_, ?_, hobject, hobject'⟩
  · rw [Table.link?, hfind, if_neg hobject, if_neg hobject', hr]
    simp
  · rw [Table.link?, hfind, if_pos rfl]
    rfl
  · exact ⟨_, (hfind _).trans (if_pos rfl), rfl⟩
  · exact ⟨_, (hfind _).trans ((if_neg hne).trans (if_pos rfl)), rfl⟩

/-- The chain of the instance goes through the constructor and its prototype object to `Object`. -/
theorem map_chain_createConstructor {r : Record} (hr : env.types.find? object = some r)
    (hb : r.builtin = false) (hstandard : env.types.find? "Object" = Catalog.table.find? "Object") :
    ((env.createConstructor result object).types.chain object).map (·.1) =
      [object, constructorKey result, protoKey (constructorKey result), "Object"] := by
  have hwired := wired_createConstructor hkey hproto hobject hobject' hr
  have hfind := find?_createConstructor hkey hproto hobject hobject'
  have hne : protoKey (constructorKey result) ≠ constructorKey result :=
    (constructorKey_ne_protoKey _ _).symm
  obtain ⟨o, ho, hob, hend⟩ : ∃ o, Catalog.table.find? "Object" = some o ∧ o.builtin = true ∧
      o.proto = none := ⟨Catalog.builtinRecord "Object" _, rfl, rfl, rfl⟩
  have hbase : IsBase "Object" := isBase_of_mem_builtinNames (by decide +kernel)
  have hkey' : "Object" ≠ constructorKey result := fun h => not_isBase_constructorKey result (h ▸ hbase)
  have hproto' : "Object" ≠ protoKey (constructorKey result) := fun h =>
    not_isBase_protoKey result (h ▸ hbase)
  have hobject'' : "Object" ≠ object := by
    rintro rfl
    cases (hr.symm.trans hstandard).trans ho
    cases hb.symm.trans hob
  have hlast : (env.createConstructor result object).types.find? "Object" = some o := by
    rw [hfind, if_neg hkey', if_neg hproto', hstandard, ho, Option.map_some, if_neg hobject'']
  have honward : (env.createConstructor result object).types.link? (protoKey (constructorKey result)) =
      some (.named "Object") := by
    rw [Table.link?, hfind, if_neg hne, if_pos rfl]
    rfl
  have hlinks : Table.Links (env.createConstructor result object).types "Object"
      [object, constructorKey result, protoKey (constructorKey result)] :=
    ⟨hwired.upward, hwired.onward, honward, trivial⟩
  refine Table.map_chain_of_links hlinks hlast hend ?_
  simp [hobject, hobject', hobject''.symm, hne.symm, hkey'.symm, hproto'.symm]

end Create

/-! ### Members of the prototype object -/

/-- An assignment to a member. -/
structure MemberWrite where
  name : Name
  type : Ty
  span : Option Span := none

/-- Assigns to a member of the prototype object of a function. -/
def writeMember (f : Ty) (env : Environment) (w : MemberWrite) : Environment :=
  (env.addOrSet w.name (env.lookup? (some "prototype") (some f)) (some w.type) w.span).2

/-- Assigns to members of the prototype object, one after the other. -/
def writeMembers (env : Environment) (f : Ty) (ws : List MemberWrite) : Environment :=
  ws.foldl (writeMember f) env

/-- Writes under other names change no binding of a name. -/
theorem binding?_writeMembers_of_ne (env : Environment) (f : Ty) {ws : List MemberWrite}
    (hws : ∀ v ∈ ws, v.name ≠ x) (n : String) :
    (env.writeMembers f ws).types.binding? n x = env.types.binding? n x := by
  induction ws generalizing env with
  | nil => rfl
  | cons v ws ih =>
    refine (ih _ fun v hv => hws v (List.mem_cons_of_mem _ hv)).trans ?_
    by_contra hne
    exact hws v List.mem_cons_self ((env.assigns_addOrSet v.name _ v.type v.span).binding n x hne).2.1.symm

/-- They leave what a record binds itself alone, also if they replace its link. -/
theorem lookup?_writeMembers_of_bound (f : Ty) {ws : List MemberWrite} (hx : x ≠ some "prototype")
    (hbound : env.types.binding? n x ≠ none) (hws : ∀ v ∈ ws, v.name ≠ x) :
    (env.writeMembers f ws).lookup? x (some (.named n)) = env.lookup? x (some (.named n)) := by
  obtain ⟨d, hd⟩ := Option.ne_none_iff_exists'.1 hbound
  have hlater := env.binding?_writeMembers_of_ne f hws n
  rw [lookup?_eq_map_resolution?, lookup?_eq_map_resolution?]
  exact congrArg (Option.map _) ((Table.resolution?_of_binding? hx (hlater.trans hd)).trans
    (Table.resolution?_of_binding? hx hd).symm)

namespace Wired
variable (h : Wired result object env) (w : MemberWrite)
include h

theorem writeMember_eq : env.writeMember (.function result params) w =
    (env.addOrSet w.name (some (.named (protoKey (constructorKey result)))) (some w.type) w.span).2 := by
  unfold Environment.writeMember
  rw [h.lookup?_prototype]

/-- **A write** leaves the records wired. -/
theorem writeMember : Wired result object (env.writeMember (.function result params) w) := by
  rw [h.writeMember_eq]
  have hassigns := env.assigns_addOrSet w.name (some (.named (protoKey (constructorKey result)))) w.type
    w.span
  have hlink : ∀ n, n ≠ protoKey (constructorKey result) →
      (env.addOrSet w.name (some (.named (protoKey (constructorKey result)))) (some w.type)
        w.span).2.types.link? n = env.types.link? n := by
    intro n hn
    by_contra hne
    exact hn (hassigns.link n hne).2
  exact ⟨(hlink _ h.ne_prototype).trans h.upward,
    (hlink _ (constructorKey_ne_protoKey _ _)).trans h.onward,
    changeable_addOrSet h.constructor _ _ _ _, changeable_addOrSet h.prototype _ _ _ _, h.ne_constructor,
    h.ne_prototype⟩

/-- It binds names in the prototype object only. -/
theorem binding?_writeMember (hn : n ≠ protoKey (constructorKey result))
    (hfree : env.types.binding? n x = none) :
    (env.writeMember (.function result params) w).types.binding? n x = none := by
  rw [h.writeMember_eq]
  exact binding?_addOrSet_eq_none hn hfree _ _ _

/-- The member that was written stands for the type. -/
theorem lookup?_writeMember :
    (env.writeMember (.function result params) w).lookup? w.name
      (some (.named (protoKey (constructorKey result)))) = some w.type := by
  obtain ⟨r, hr, hb⟩ := h.prototype
  rw [h.writeMember_eq]
  exact (assignedIn_addOrSet env (protoKey (constructorKey result)) w.name w.type w.span).lookup r hr hb

omit w in
/-- **A sequence of writes** leaves the records wired, and binds names in the prototype object only. -/
theorem writeMembers (params : List String) (ws : List MemberWrite) :
    Wired result object (env.writeMembers (.function result params) ws) ∧
      ∀ n x, n ≠ protoKey (constructorKey result) → env.types.binding? n x = none →
        (env.writeMembers (.function result params) ws).types.binding? n x = none := by
  induction ws generalizing env with
  | nil => exact ⟨h, fun _ _ _ hfree => hfree⟩
  | cons w ws ih =>
    obtain ⟨hwired, hfree⟩ := ih (h.writeMember w)
    exact ⟨hwired, fun n x hn hnone => hfree n x hn (h.binding?_writeMember w hn hnone)⟩

omit w in
/-- Writes under other names leave a member of the prototype object alone. -/
theorem lookup?_writeMembers_of_ne (hx : x ≠ some "prototype") {ws : List MemberWrite}
    (hws : ∀ v ∈ ws, v.name ≠ x ∧ v.name ≠ some "prototype") :
    (env.writeMembers (.function result params) ws).lookup? x
        (some (.named (protoKey (constructorKey result)))) =
      env.lookup? x (some (.named (protoKey (constructorKey result)))) := by
  induction ws generalizing env with
  | nil => rfl
  | cons w ws ih =>
    obtain ⟨hname, hlink⟩ := hws w List.mem_cons_self
    refine (ih (h.writeMember w) fun v hv => hws v (List.mem_cons_of_mem _ hv)).trans ?_
    rw [h.writeMember_eq, lookup?_eq_map_resolution?, lookup?_eq_map_resolution?]
    exact congrArg (Option.map _) (resolution?_addOrSet_of_ne hx hname hlink _ _ _ _)

/-- **The last write counts**: a member of the prototype object is what was written last, unless the
write changed a binding of another record and the link of the prototype object was replaced after that. -/
theorem lookup?_of_last_write (hname : w.name ≠ some "prototype") (before : List MemberWrite)
    {after : List MemberWrite} (hafter : ∀ v ∈ after, v.name ≠ w.name)
    (hlinks : (env.writeMembers (.function result params) (before ++ [w])).types.binding?
      (protoKey (constructorKey result)) w.name = none → ∀ v ∈ after, v.name ≠ some "prototype") :
    (env.writeMembers (.function result params) (before ++ w :: after)).lookup? w.name
      (some (.named (protoKey (constructorKey result)))) = some w.type := by
  let written := env.writeMembers (.function result params) (before ++ [w])
  have hsplit : env.writeMembers (.function result params) (before ++ w :: after) =
      written.writeMembers (.function result params) after := by
    simp [written, Environment.writeMembers, List.foldl_append]
  have hlast : written = (env.writeMembers (.function result params) before).writeMember
      (.function result params) w := by
    simp [written, Environment.writeMembers, List.foldl_append]
  have hbefore := (h.writeMembers params before).1
  have hwired : Wired result object written := hlast ▸ hbefore.writeMember w
  have hread : written.lookup? w.name (some (.named (protoKey (constructorKey result)))) = some w.type :=
    hlast ▸ hbefore.lookup?_writeMember w
  rw [hsplit, ← hread]
  by_cases hbound : written.types.binding? (protoKey (constructorKey result)) w.name = none
  · exact hwired.lookup?_writeMembers_of_ne hname fun v hv => ⟨hafter v hv, hlinks hbound v hv⟩
  · exact lookup?_writeMembers_of_bound _ hname hbound hafter

omit w in
/-- **Where the prototype of the function is another record**, the instance sees what that one sees. -/
theorem lookup?_of_linked (params : List String) {p : Ty} (hp : p.key ∈ env.types.keys) (span : Option Span)
    (hx : x ≠ some "prototype") :
    let linked := (env.addOrSet (some "prototype") (some (.function result params)) (some p) span).2
    linked.types.binding? object x = none → linked.types.binding? (constructorKey result) x = none →
      linked.lookup? x (some (.named object)) = linked.lookup? x (some p) := by
  intro linked hobject hconstructor
  have htypes : linked.types = env.types.edit (constructorKey result) fun r =>
      { r with proto := some { type := p, span := span } } := by
    show (env.addOrSet _ _ _ _).2.types = _
    rw [addOrSet_some, if_pos rfl, h.scope_function, setPrototype_eq]
  have hupward : linked.types.link? object = some (.named (constructorKey result)) := by
    rw [htypes, Table.link?_edit_of_ne h.ne_constructor.symm, h.upward]
  have honward : linked.types.link? (constructorKey result) = some p := by
    obtain ⟨r, hr, hb⟩ := h.constructor
    rw [htypes, Table.link?, Table.find?_edit, if_pos rfl, hr]
    simp [hb]
  have hscope : linked.scope (some p) = p.key := by
    refine scope_of_key_mem p ?_
    rw [htypes]
    exact (env.types.mem_keys_modify).2 hp
  exact lookup?_of_links hx hupward honward hobject hconstructor hscope

end Wired

/-! ### What an instance sees -/

/-- **Instances mirror the prototypes of their constructors.** Where `Object` is the standard one and the
names of the constructor and of its prototype object are not reserved, a new constructor of an object that
is not builtin is wired to it: the chain of the object goes through the two to `Object`, and the name
`prototype` of the function stands for the prototype object, also if there was such a constructor before.

After any writes to members of what the function has as its prototype, the object sees what that has, under
each name that is not its own; `prototype` is no such name, as it stands for the link. This is what was
written last, if the prototype object then binds the name itself or its link is not written any more. And
whatever happens as long as the records are wired, once `prototype` of the function is set to a record, be it
one whose chain leads back here, the object sees what that record sees, under the names that neither it nor
the constructor binds. -/
theorem constructor_mirrors_prototype (env : Environment) (result : Ty) (params : List String)
    (object : String) (r : Record)
    (hstandard : env.types.find? "Object" = Catalog.table.find? "Object")
    (hr : env.types.find? object = some r) (hb : r.builtin = false)
    (hobject : object ≠ constructorKey result) (hobject' : object ≠ protoKey (constructorKey result))
    (hkey : env.isReserved (constructorKey result) = false)
    (hproto : env.isReserved (protoKey (constructorKey result)) = false) :
    let f : Ty := .function result params
    let proto : Ty := .named (protoKey (constructorKey result))
    let made := env.createConstructor result object
    (made.types.chain object).map (·.1) = [object, constructorKey result, proto.key, "Object"] ∧
    made.lookup? (some "prototype") (some f) = some proto ∧
    (∀ ws, let later := made.writeMembers f ws
      later.Wired result object ∧ ∀ x, x ≠ some "prototype" → r.member? x = none →
        later.lookup? x (some (.named object)) = later.lookup? x (some proto)) ∧
    (∀ before w after, w.name ≠ some "prototype" → r.member? w.name = none →
      (∀ v ∈ after, v.name ≠ w.name) →
      ((made.writeMembers f (before ++ [w])).types.binding? (protoKey (constructorKey result)) w.name = none →
        ∀ v ∈ after, v.name ≠ some "prototype") →
        (made.writeMembers f (before ++ w :: after)).lookup? w.name (some (.named object)) =
          some w.type) ∧
    ∀ later p span x, Wired result object later → p.key ∈ later.types.keys → x ≠ some "prototype" →
      let linked := (later.addOrSet (some "prototype") (some f) (some p) span).2
      linked.types.binding? object x = none → linked.types.binding? (constructorKey result) x = none →
        linked.lookup? x (some (.named object)) = linked.lookup? x (some p) := by
  intro f proto made
  have hwired : Wired result object made := wired_createConstructor hkey hproto hobject hobject' hr
  have hfind := find?_createConstructor hkey hproto hobject hobject'
  have hown (x : Name) (hx : r.member? x = none) : made.types.binding? object x = none := by
    rw [Table.binding?, hfind, if_neg hobject, if_neg hobject', hr, Option.map_some, if_pos rfl]
    exact hx
  have hnew (x : Name) : made.types.binding? (constructorKey result) x = none := by
    rw [Table.binding?, hfind, if_pos rfl]
    rfl
  have hsees (ws : List MemberWrite) (x : Name) (hx : x ≠ some "prototype") (hmember : r.member? x = none) :
      (made.writeMembers f ws).lookup? x (some (.named object)) =
        (made.writeMembers f ws).lookup? x (some proto) := by
    obtain ⟨hlater, hfree⟩ := hwired.writeMembers params ws
    exact hlater.lookup?_instance hx (hfree _ _ hobject' (hown x hmember))
      (hfree _ _ (constructorKey_ne_protoKey _ _) (hnew x))
  refine ⟨map_chain_createConstructor hkey hproto hobject hobject' hr hb hstandard,
    hwired.lookup?_prototype params, fun ws => ⟨(hwired.writeMembers params ws).1, hsees ws⟩,
    fun before w after hname hmember hafter hlinks => ?_, fun later p span x hlater hp hx => ?_⟩
  · rw [hsees _ _ hname hmember]
    exact hwired.lookup?_of_last_write w hname before hafter hlinks
  · exact hlater.lookup?_of_linked params hp span hx

/-- An instance with a member of its own, the records of a constructor that was there before, and a record
that links to the instance. -/
def redeclared : Environment :=
  ((((Environment.start "file").put "Fun"
    { members := ⟨[(some "own", { type := .number })]⟩, proto := some { type := .object } }).put "?Fun:"
    { members := ⟨[(some "size", { type := .object })]⟩, proto := some { type := .named "Fun" } }).put
      "?Fun:~proto" { proto := some { type := .named "?Fun:" } }).put "Loop"
    { members := ⟨[(some "size", { type := .number })]⟩, proto := some { type := .named "Fun" } }

/-- The constructor is made anew. A standard name that is written twice is in the end what was written last,
also if the link is replaced after that, and of `Loop`, whose chain leads back through the instance, the
instance sees the size. -/
theorem constructor_mirrors_prototype_redeclared :
    let f : Ty := .function (.named "Fun") ["a"]
    let made := redeclared.createConstructor (.named "Fun") "Fun"
    redeclared.isReserved "?Fun:" = false ∧
    (made.types.chain "Fun").map (·.1) = ["Fun", "?Fun:", "?Fun:~proto", "Object"] ∧
    (made.writeMembers f [⟨some "toString", .number, none⟩, ⟨some "size", .number, none⟩,
      ⟨some "toString", .string, none⟩, ⟨some "prototype", .named "Loop", none⟩]).lookup? (some "toString")
        (some (.named "Fun")) = some .string ∧
    (made.addOrSet (some "prototype") (some f) (some (.named "Loop")) none).2.lookup? (some "size")
      (some (.named "Fun")) = some .number := by
  have hkey : constructorKey (.named "Fun") = "?Fun:" := by decide +kernel
  have hreserved : redeclared.isReserved (constructorKey (.named "Fun")) = false := by decide +kernel
  obtain ⟨hchain, -, hwrites, hlast, hlinked⟩ := constructor_mirrors_prototype redeclared (.named "Fun") ["a"]
    "Fun" { members := ⟨[(some "own", { type := .number })]⟩, proto := some { type := .object } }
    (by decide +kernel) (by decide +kernel) rfl (by decide +kernel) (by decide +kernel) hreserved
    (by decide +kernel)
  refine ⟨hkey ▸ hreserved, hchain.trans (by decide +kernel), ?_, ?_⟩
  · exact hlast [⟨some "toString", .number, none⟩, ⟨some "size", .number, none⟩]
      ⟨some "toString", .string, none⟩ [⟨some "prototype", .named "Loop", none⟩] (by decide) rfl (by decide)
      fun hfree => absurd hfree (by decide +kernel)
  · exact (hlinked _ (.named "Loop") none (some "size") (hwrites []).1 (by decide +kernel) (by decide)
      (by decide +kernel) (by decide +kernel)).trans (by decide +kernel)

/-- An instance, a record with a member and one without. -/
def replaceable : Environment :=
  (((Environment.start "file").put "Fun" { proto := some { type := .object } }).put "Q"
    { members := ⟨[(some "m", { type := .string })]⟩, proto := some { type := .object } }).put "R"
    { proto := some { type := .object } }

/-- The prototype object is linked to `Q`, so that the write changes the member of `Q`; then it is linked to
`R`, and the instance does not see the member any more. -/
theorem written_member_lost :
    ¬ ∀ (env : Environment) (result : Ty) (params : List String) (object : String) (r : Record),
        env.types.find? "Object" = Catalog.table.find? "Object" → env.types.find? object = some r →
        r.builtin = false → object ≠ constructorKey result → object ≠ protoKey (constructorKey result) →
        env.isReserved (constructorKey result) = false →
        env.isReserved (protoKey (constructorKey result)) = false →
        ∀ before (w : MemberWrite) after, w.name ≠ some "prototype" → r.member? w.name = none →
          (∀ v ∈ after, v.name ≠ w.name) →
            ((env.createConstructor result object).writeMembers (.function result params)
              (before ++ w :: after)).lookup? w.name (some (.named object)) = some w.type := by
  intro h
  have hseen := h replaceable (.named "Fun") [] "Fun" { proto := some { type := .object } }
    (by decide +kernel) (by decide +kernel) rfl (by decide +kernel) (by decide +kernel) (by decide +kernel)
    (by decide +kernel) [⟨some "prototype", .named "Q", none⟩] ⟨some "m", .number, none⟩
    [⟨some "prototype", .named "R", none⟩] (by decide) rfl (by decide)
  exact absurd hseen (by decide +kernel)

end Environment

end ContentAssist
