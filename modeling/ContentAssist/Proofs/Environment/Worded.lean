import ContentAssist.Proofs.Environment.Operation

/-! # The words of an environment

A program and the catalog give an environment its words: the names of variables, members and parameters.
The names of records are words, too, or they are made up: they are generated, or derived from a function
type, as those of a constructor's record and of its prototype object are. Prototype links may end in any
of these names. Types of members end in a derived one only where links are read as values.

`K` says which words are known, and `L` that links may be read as values.

* `Ending`, `Ty.Worded`: the names that a type may end in;
* `Record.Worded`, `Table.Worded`, `Summary.Worded`, `Environment.Worded`: the invariant;
* `Worded.newScope`, `Worded.addOrSet`, `Worded.mergeSummary`, ...: the operations keep it. -/

namespace ContentAssist

variable {K : String → Prop} {L : Prop} {name : Name} {n : String} {type : Ty} {d : Definition}
  {r : Record} {t : Table}

/-! ### Types -/

/-- The name is one that was derived from a function type. -/
def Ty.isDerived (n : String) : Bool := Text.startsWith "?" n

/-- A name that types may end in: a known word, a generated name, or a derived one if `L` holds. -/
def Ending (K : String → Prop) (L : Prop) (n : String) : Prop :=
  K n ∨ Ty.isGenerated n = true ∨ L ∧ Ty.isDerived n = true

theorem Ending.link (h : Ending K L n) : Ending K True n :=
  h.imp_right (Or.imp_right fun h => ⟨trivial, h.2⟩)

theorem ending_generatedName (uid : String) (k : Nat) : Ending K L (Ty.generatedName uid k) := by
  refine Or.inr (Or.inl (Text.startsWith_iff.2 ⟨uid ++ "~" ++ toString k, ?_⟩))
  rw [Ty.generatedName, String.append_assoc, String.append_assoc, String.append_assoc]

namespace Ty

theorem isDerived_constructorKey (result : Ty) : isDerived (constructorKey result) = true := by
  refine Text.startsWith_iff.2 ⟨String.ofList (result.chars ++ [':']), String.toList_injective ?_⟩
  simp [constructorKey, text, chars, Text.join]

theorem isDerived_protoKey (result : Ty) : isDerived (protoKey (constructorKey result)) = true := by
  obtain ⟨rest, hrest⟩ := Text.startsWith_iff.1 (isDerived_constructorKey result)
  refine Text.startsWith_iff.2 ⟨rest ++ protoSuffix, ?_⟩
  rw [protoKey, hrest, String.append_assoc]

/-- The type ends in such a name, and its parameters are known words. -/
def Worded (K : String → Prop) (L : Prop) : Ty → Prop
  | named n => Ending K L n
  | function result params => result.Worded K L ∧ ∀ p ∈ params, K p

/-- The words of a type: the name that it ends in, and its parameters. -/
def words : Ty → List String
  | named n => [n]
  | function result params => result.words ++ params

theorem worded_of_words (h : ∀ x ∈ type.words, K x) : type.Worded K L := by
  induction type with
  | named n => exact Or.inl (h n List.mem_cons_self)
  | function result params ih =>
    exact ⟨ih fun x hx => h x (List.mem_append_left _ hx), fun p hp => h p (List.mem_append_right _ hp)⟩

namespace Worded

theorem link (h : type.Worded K L) : type.Worded K True := by
  induction type with
  | named n => exact Ending.link h
  | function result params ih => exact ⟨ih h.1, h.2⟩

theorem leaf (h : type.Worded K L) : Ending K L type.leaf := by
  induction type with
  | named n => exact h
  | function result params ih => exact ih h.1

theorem result (h : type.Worded K L) : type.result.Worded K L := by
  cases type with
  | named n => exact h
  | function result params => exact h.1

theorem withResult {result : Ty} (h : type.Worded K L) (hr : result.Worded K L) :
    (type.withResult result).Worded K L := by
  cases type with
  | named n => exact hr
  | function _ params => exact ⟨hr, h.2⟩

end Worded

end Ty

/-! ### Records -/

/-- The names of members are known words, and the types of members and of the link are worded. -/
structure Record.Worded (K : String → Prop) (L : Prop) (r : Record) : Prop where
  names : ∀ x, some x ∈ r.members.keys → K x
  types : ∀ d ∈ r.members.values, d.type.Worded K L
  link : ∀ d, r.proto = some d → d.type.Worded K True

namespace Record

/-- The words of a record. -/
def words (r : Record) : List String :=
  r.members.keys.filterMap id ++ r.definitions.flatMap fun d => d.type.words

theorem worded_of_words (h : ∀ x ∈ r.words, K x) : r.Worded K L := by
  have htype : ∀ {L : Prop}, ∀ d ∈ r.definitions, d.type.Worded K L := fun d hd =>
    Ty.worded_of_words fun x hx => h x (List.mem_append_right _ (List.mem_flatMap.2 ⟨d, hd, hx⟩))
  refine ⟨fun x hx => h x (List.mem_append_left _ (List.mem_filterMap.2 ⟨some x, hx, rfl⟩)),
    fun d hd => htype d (List.mem_append_left _ hd), fun d hd => htype d (List.mem_append_right _ ?_)⟩
  rw [hd]
  exact List.mem_singleton_self d

theorem worded_new (span : Option Span) (h : type.Worded K True) :
    Worded K L { proto := some { type := type, span := span } } := by
  refine ⟨fun x hx => absurd hx List.not_mem_nil, fun d hd => absurd hd List.not_mem_nil, ?_⟩
  rintro d ⟨⟩
  exact h

namespace Worded

variable (h : r.Worded K L)
include h

theorem define (hname : ∀ x, name = some x → K x) (ht : d.type.Worded K L) :
    (r.define name d).Worded K L := by
  refine ⟨fun x hx => ?_, fun e he => ?_, h.link⟩
  · rcases (r.members.mem_keys_insert).1 hx with hx | hx
    · exact hname x hx.symm
    · exact h.names x hx
  · rcases OrderedMap.mem_values_insert he with rfl | he
    · exact ht
    · exact h.types e he

theorem undefine (name : Name) : (r.undefine name).Worded K L where
  names := fun x hx => h.names x ((List.filter_sublist.map _).subset hx)
  types := fun d hd => h.types d ((List.filter_sublist.map _).subset hd)
  link := h.link

theorem relink (hd : d.type.Worded K True) : Worded K L { r with proto := some d } := by
  refine ⟨h.names, h.types, ?_⟩
  rintro e ⟨⟩
  exact hd

theorem retype (name : Name) (ht : type.Worded K L) :
    Worded K L { r with members := r.members.modify name fun d => { d with type := type } } := by
  refine ⟨fun x hx => h.names x ((r.members.mem_keys_modify).1 hx), fun d hd => ?_, h.link⟩
  unfold OrderedMap.modify at hd
  split at hd
  · exact h.types d hd
  · rcases OrderedMap.mem_values_insert hd with rfl | hd
    · exact ht
    · exact h.types d hd

theorem overlay {provided : Record} (hp : provided.Worded K L) :
    (Environment.overlay r provided).Worded K L := by
  refine ⟨fun x hx => ?_, fun d hd => ?_, fun d hd => ?_⟩
  · exact (OrderedMap.mem_keys_foldl_insert hx).elim (hp.names x) (h.names x)
  · exact (OrderedMap.mem_values_foldl_insert hd).elim (hp.types d) (h.types d)
  · have hd : provided.proto.or r.proto = some d := hd
    rcases Option.or_eq_some_iff.1 hd with hd | ⟨-, hd⟩
    · exact hp.link d hd
    · exact h.link d hd

/-- What is found under a name; a link is found where links are read as values only. -/
theorem type_of_answer? (hname : name = some "prototype" → L) (hd : Table.answer? r name = some d) :
    d.type.Worded K L := by
  unfold Table.answer? at hd
  split at hd
  · rename_i hproto
    have hL : L = True := eq_true (hname hproto)
    exact hL ▸ h.link d hd
  · exact h.types d (r.members.mem_values_of_find? hd)

end Worded

end Record

/-! ### Tables -/

/-- All records of the table are worded. -/
def Table.Worded (K : String → Prop) (L : Prop) (t : Table) : Prop := ∀ r ∈ t.values, r.Worded K L

namespace Table.Worded

variable {f : Record → Record} (h : t.Worded K L)
include h

theorem record (hr : t.find? n = some r) : r.Worded K L := h r (t.mem_values_of_find? hr)

theorem insert (hr : r.Worded K L) (n : String) : Worded K L (t.insert n r) := by
  intro q hq
  rcases OrderedMap.mem_values_insert hq with rfl | hq
  · exact hr
  · exact h q hq

theorem modify (hf : ∀ r, r.Worded K L → (f r).Worded K L) (n : String) :
    Worded K L (OrderedMap.modify t n f) := by
  unfold OrderedMap.modify
  split
  · exact h
  · rename_i r hr
    exact h.insert (hf r (h.record hr)) n

theorem edit (hf : ∀ r, r.Worded K L → (f r).Worded K L) (n : String) : (t.edit n f).Worded K L := by
  refine h.modify (fun r hr => ?_) n
  split
  · exact hr
  · exact hf r hr

theorem addMissing {others : Table} (hothers : others.Worded K L) : (t.addMissing others).Worded K L :=
  fun r hr => (Table.mem_values_addMissing hr).elim (h r) (hothers r)

theorem type_of_resolve? (hname : name = some "prototype" → L) (hd : t.resolve? n name = some d) :
    d.type.Worded K L := by
  obtain ⟨e, he, hans⟩ := List.exists_of_findSome?_eq_some hd
  exact (h.record (Table.find?_of_mem_chainFrom he)).type_of_answer? hname hans

end Table.Worded

/-! ### Summaries -/

/-- What another file provides is worded, and so are its records. -/
structure Summary.Worded (K : String → Prop) (L : Prop) (m : Summary) : Prop where
  type : ∀ t, m.provided = .type t → t.Worded K L
  record : ∀ r, m.provided = .record r → r.Worded K L
  types : m.types.Worded K L

/-! ### Environments -/

/-- The words of the catalog, and those that every analysis binds or looks up. -/
def Catalog.words : List String :=
  "" :: "this" :: "arguments" :: table.keys ++ table.values.flatMap Record.words

namespace Environment

variable {env env' : Environment} {target : Option Ty} {span : Option Span}

/-- The table is worded, and the scopes have known names or generated ones. -/
structure Worded (K : String → Prop) (L : Prop) (env : Environment) : Prop where
  table : env.types.Worded K L
  scopes : ∀ n ∈ env.scopes.toList, Ending K True n

theorem mem_words_of_builtin (hn : n ∈ Catalog.table.keys) : n ∈ Catalog.words := by
  simp [Catalog.words, hn]

section
variable (hK : ∀ x ∈ Catalog.words, K x)
include hK

theorem worded_builtin {n : String} (hn : n ∈ Catalog.table.keys) : (Ty.named n).Worded K L :=
  Or.inl (hK n (mem_words_of_builtin hn))

theorem worded_object : Ty.object.Worded K L := worded_builtin hK (by decide +kernel)

theorem worded_start (uid : String) : (start uid).Worded K L := by
  refine ⟨fun r hr => Record.worded_of_words fun x hx => hK x ?_, fun n hn => ?_⟩
  · have hrecord : x ∈ Catalog.table.values.flatMap Record.words := List.mem_flatMap.2 ⟨r, hr, hx⟩
    simp [Catalog.words, hrecord]
  · obtain rfl := List.mem_singleton.1 hn
    exact Or.inl (hK _ (mem_words_of_builtin List.mem_cons_self))

end

namespace Worded

variable (h : env.Worded K L)
include h

theorem current : Ending K True env.scopes.current := h.scopes _ env.scopes.current_mem_toList

theorem type_of_lookup? (hname : name = some "prototype" → L) (ht : env.lookup? name target = some type) :
    type.Worded K L := by
  obtain ⟨d, hd, rfl⟩ := Option.map_eq_some_iff.1 ht
  exact h.table.type_of_resolve? hname hd

theorem withTypes (ht : t.Worded K L) : Worded K L { env with types := t } := ⟨ht, h.scopes⟩

theorem put (n : String) (span : Option Span) (ht : type.Worded K True) :
    Worded K L (env.put n { proto := some { type := type, span := span } }) :=
  h.withTypes (h.table.insert (Record.worded_new span ht) n)

theorem newScope (span : Option Span) : (env.newScope span).2.Worded K L := by
  have hcurrent : (Ty.named env.scopes.current).Worded K True := h.current
  have hput := h.put (Ty.generatedName env.uid env.count) span hcurrent
  refine ⟨hput.table, fun n hn => ?_⟩
  rcases Scopes.mem_toList_push.1 hn with hn | rfl
  · exact h.scopes n hn
  · exact ending_generatedName _ _

theorem popScope? (hpop : env.popScope? = some (n, env')) : env'.Worded K L := by
  unfold Environment.popScope? at hpop
  split at hpop
  · cases hpop
  · cases hpop
    exact ⟨h.table.edit (fun r hr => hr.undefine _) _,
      fun n hn => h.scopes n (Scopes.mem_toList_of_mem_pop hn)⟩

theorem setBinding (owner : String) (hname : ∀ x, name = some x → K x) (ht : type.Worded K L)
    (span : Option Span) : (env.setBinding owner name type span).Worded K L := by
  have hfresh := h.withTypes (h.table.edit
    (fun r hr => hr.define (d := { type := type, span := span }) hname ht) owner)
  unfold Environment.setBinding
  dsimp only
  split
  · exact hfresh
  · split
    · exact hfresh
    · exact h.withTypes (h.table.modify (fun r hr => hr.retype name ht) _)

theorem addOrSet (hname : ∀ x, name = some x → K x) (ht : type.Worded K L) (target : Option Ty)
    (span : Option Span) : (env.addOrSet name target (some type) span).2.Worded K L := by
  rw [addOrSet_some]
  split
  · exact h.withTypes (h.table.edit (fun _ hr => hr.relink ht.link) _)
  · exact h.setBinding _ hname ht _

theorem addVariable (hname : ∀ x, name = some x → K x) (ht : type.Worded K L) (target : Option Ty)
    (span : Option Span) : (env.addVariable name target (some type) span).Worded K L :=
  h.withTypes (h.table.edit (fun _ hr => hr.define hname ht) _)

theorem mergeSummary {m : Summary} (hm : m.Worded K L) (target : String) :
    (env.mergeSummary m target).Worded K L := by
  have hadded := h.table.addMissing hm.types
  unfold Environment.mergeSummary
  dsimp only
  split
  · exact h.withTypes hadded
  · rename_i provided hprovided
    exact h.withTypes (hadded.edit (fun r hr => hr.overlay (hm.record provided hprovided)) target)

variable (hK : ∀ x ∈ Catalog.words, K x)
include hK

theorem newFleetingObject (name : Option String) (span : Option Span) :
    (env.newFleetingObject name span).2.Worded K L := by
  have hnone : (env.newFleetingObject none span).2.Worded K L :=
    ⟨(h.put _ span (worded_object hK)).table, h.scopes⟩
  cases name with
  | none => exact hnone
  | some n =>
    rw [newFleetingObject_some]
    split
    · exact hnone
    · exact h.put n span (worded_object hK)

end Worded

/-- The name of a new object is the wanted one or a generated one. -/
theorem ending_newFleetingObject (env : Environment) {name : Option String}
    (hname : ∀ n, name = some n → Ending K L n) (span : Option Span) :
    Ending K L (env.newFleetingObject name span).1 := by
  cases name with
  | none => exact ending_generatedName _ _
  | some n =>
    rw [newFleetingObject_some]
    split
    · exact ending_generatedName _ _
    · exact hname n rfl

theorem ending_newObject (env : Environment) {name : Option String}
    (hname : ∀ n, name = some n → K n) (span : Option Span) : Ending K L (env.newObject name span).1 :=
  ending_newFleetingObject _ (fun n hn => Or.inl (hname n hn)) span

namespace Worded

variable (hK : ∀ x ∈ Catalog.words, K x) (h : env.Worded K L)
include hK h

theorem newObject {name : Option String} (hname : ∀ n, name = some n → K n) (span : Option Span) :
    (env.newObject name span).2.Worded K L := by
  have hthis : ∀ x : String, some "this" = some x → K x := by
    rintro x ⟨⟩
    exact hK _ (by simp [Catalog.words])
  have hobject : (Ty.named (env.newObject name span).1).Worded K L := ending_newObject env hname span
  exact ((h.newScope span).newFleetingObject hK name span).addVariable hthis hobject none span

theorem addOrSet_none (hname : ∀ x, name = some x → K x)
    (htarget : ∀ r params, target ≠ some (.function r params)) (span : Option Span) :
    (env.addOrSet name target none span).2.Worded K L := by
  rw [Environment.addOrSet_none _ _ _ _ htarget]
  have hobject : (Ty.named (Ty.generatedName env.uid env.count)).Worded K L := ending_generatedName _ _
  exact (h.newFleetingObject hK none span).addOrSet hname hobject _ _

theorem createConstructor (result : Ty) (instanceName : String) :
    (env.createConstructor result instanceName).Worded K L := by
  have hkey : Ending K True (Ty.constructorKey result) :=
    Or.inr (Or.inr ⟨trivial, Ty.isDerived_constructorKey result⟩)
  unfold Environment.createConstructor
  dsimp only
  have hrecord := h.newFleetingObject hK (some (Ty.constructorKey result)) none
  have hproto := hrecord.newFleetingObject hK (some (Ty.protoKey (Ty.constructorKey result))) none
  have hwanted : ∀ n, some (Ty.protoKey (Ty.constructorKey result)) = some n → Ending K True n := by
    rintro n ⟨⟩
    exact Or.inr (Or.inr ⟨trivial, Ty.isDerived_protoKey result⟩)
  have hname := ending_newFleetingObject
    (env.newFleetingObject (some (Ty.constructorKey result)) none).2 hwanted none
  refine hproto.withTypes ((hproto.table.modify (fun r hr => ?_) _).modify (fun r hr => ?_) _)
  · exact hr.relink (d := { type := .named _ }) hname
  · exact hr.relink (d := { type := .named _ }) hkey

end Worded

end Environment

end ContentAssist
