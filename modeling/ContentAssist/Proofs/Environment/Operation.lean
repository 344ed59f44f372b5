import ContentAssist.Proofs.Environment.Closed
import Mathlib.Logic.Relation

/-! # Operations that may generate a name

What an analysis does to an environment is a sequence of a few operations, of which each generates at
most one name, and generates it from the environment as it finds it. As long as the names that are
still to come name no record, the generated name is that of no record either. A name that a program
wants for a record is no generated one, and what other files offer is asked not to be one of this
file's.

* `Operation`: the operations;
* `operations_newObject`, `operations_createConstructor`, `operations_addOrSet_none`: what is made of
  several of them;
* `Fresh`: the names to come name no record, `Operation.fresh`: this stays so;
* `Generates`: a name is generated that is that of no record, `Operation.count_or_generates`;
* `Operations.nodup_keys`: no two records get one name. -/

namespace ContentAssist

open Inference Relation
open Ty (constructorKey protoKey generatedName)

namespace Environment

variable {offered : Summary → Prop} {env env' : Environment} {n : String} {uid : String}

/-! ### Operations -/

/-- A name that a program wants for a record: that of a constructor, or one derived from a type. -/
inductive Wanted : String → Prop
  | constructor {name : String} (h : isConstructorName name = true) : Wanted name
  | constructorKey (t : Ty) : Wanted (constructorKey t)
  | protoKey (t : Ty) : Wanted (protoKey (constructorKey t))

/-- One operation of an analysis; the summaries that it takes over are offered. -/
inductive Operation (offered : Summary → Prop) : Environment → Environment → Prop
  | enterScope (env : Environment) (span : Option Span) : Operation offered env (env.newScope span).2
  | create (env : Environment) (span : Option Span) :
      Operation offered env (env.newFleetingObject none span).2
  | createNamed (env : Environment) {name : String} (span : Option Span) (hname : Wanted name) :
      Operation offered env (env.newFleetingObject (some name) span).2
  | modify (env : Environment) (name : String) (f : Record → Record) :
      Operation offered env { env with types := env.types.modify name f }
  | leaveScope {env env' : Environment} {name : String} (h : env.popScope? = some (name, env')) :
      Operation offered env env'
  | merge (env : Environment) {m : Summary} (hm : offered m) (target : String) :
      Operation offered env (env.mergeSummary m target)

/-- Operations one after the other. -/
abbrev Operations (offered : Summary → Prop) : Environment → Environment → Prop :=
  ReflTransGen (Operation offered)

theorem operation_addVariable (env : Environment) (name : Name) (target type : Option Ty)
    (span : Option Span) : Operation offered env (env.addVariable name target type span) :=
  .modify env _ _

theorem operation_addOrSet_some (env : Environment) (name : Name) (target : Option Ty) (t : Ty)
    (span : Option Span) : Operation offered env (env.addOrSet name target (some t) span).2 := by
  rw [addOrSet_some]
  split
  · exact .modify env _ _
  · unfold setBinding
    dsimp only
    split
    · exact .modify env _ _
    · split <;> exact .modify env _ _

theorem operations_addOrSet_none (env : Environment) (name : Name) (target : Option Ty)
    (htarget : ∀ r params, target ≠ some (.function r params)) (span : Option Span) :
    Operations offered env (env.addOrSet name target none span).2 := by
  rw [addOrSet_none _ _ _ _ htarget]
  exact .tail (.single (.create env span)) (operation_addOrSet_some _ _ _ _ _)

/-- A new object gets the wanted name unless that is reserved. -/
theorem newFleetingObject_some (env : Environment) (name : String) (span : Option Span) :
    env.newFleetingObject (some name) span =
      if env.isReserved name then env.newFleetingObject none span
      else (name, env.put name { proto := some { type := .object, span := span } }) := by
  unfold newFleetingObject
  rw [objectName_some]
  by_cases h : env.isReserved name = true
  · rw [if_pos h, if_pos h]
    rfl
  · rw [if_neg h, if_neg h]

theorem operations_newFleetingObject (env : Environment) (name : Option String) (span : Option Span)
    (hname : ∀ n, name = some n → Wanted n) :
    Operations offered env (env.newFleetingObject name span).2 := by
  cases name with
  | none => exact .single (.create env span)
  | some n => exact .single (.createNamed env span (hname n rfl))

theorem operations_newObject (env : Environment) (name : Option String) (span : Option Span)
    (hname : ∀ n, name = some n → Wanted n) : Operations offered env (env.newObject name span).2 :=
  .tail (.head (.enterScope env span) (operations_newFleetingObject _ name span hname))
    (operation_addVariable _ _ _ _ _)

theorem operations_createConstructor (env : Environment) (result : Ty) (instanceName : String) :
    Operations offered env (env.createConstructor result instanceName) := by
  unfold createConstructor
  dsimp only
  have hrecord : Operation offered env
      (env.newFleetingObject (some (constructorKey result)) none).2 :=
    .createNamed env none (.constructorKey result)
  generalize (env.newFleetingObject (some (constructorKey result)) none).2 = env₁ at hrecord ⊢
  have hproto : Operation offered env₁
      (env₁.newFleetingObject (some (protoKey (constructorKey result))) none).2 :=
    .createNamed env₁ none (.protoKey result)
  generalize env₁.newFleetingObject (some (protoKey (constructorKey result))) none = made at hproto ⊢
  have hlinks : Operations offered made.2 { made.2 with
      types := (made.2.types.modify (constructorKey result) fun r =>
        { r with proto := some { type := .named made.1 } }).modify instanceName fun r =>
          { r with proto := some { type := .named (constructorKey result) } } } :=
    .tail (.single (.modify made.2 (constructorKey result) _)) (.modify _ instanceName _)
  exact .head hrecord (.head hproto hlinks)

/-! ### Names to come -/

/-- The names that are generated next name no record. -/
def Fresh (env : Environment) : Prop :=
  ∀ k, env.count ≤ k → generatedName env.uid k ∉ env.types.keys

theorem fresh_start (uid : String) : (start uid).Fresh := fun k _ hk =>
  own_not_key (own_generatedName uid k) hk

theorem Wanted.ne_generatedName (h : Wanted n) (uid : String) (k : Nat) : generatedName uid k ≠ n := by
  cases h with
  | constructor h =>
    rintro rfl
    rw [generatedName_not_isConstructorName] at h
    cases h
  | constructorKey t => exact fun h => not_isBase_constructorKey t (h ▸ isBase_generatedName uid k)
  | protoKey t => exact fun h => not_isBase_protoKey t (h ▸ isBase_generatedName uid k)

theorem generatedName_ne_of_lt {k l : Nat} (h : k < l) : generatedName uid l ≠ generatedName uid k :=
  fun heq => Nat.ne_of_gt h (generatedName_count_inj heq)

theorem Fresh.put_newName (h : env.Fresh) (r : Record) :
    (env.newName.2.put env.newName.1 r).Fresh := by
  intro k hk hmem
  rcases (env.types.mem_keys_insert).1 hmem with heq | hmem
  · exact generatedName_ne_of_lt (Nat.lt_of_succ_le hk) heq
  · exact h k (Nat.le_of_succ_le hk) hmem

theorem Fresh.put (h : env.Fresh) (hn : ∀ k, generatedName env.uid k ≠ n) (r : Record) :
    (env.put n r).Fresh := by
  intro k hk hmem
  rcases (env.types.mem_keys_insert).1 hmem with heq | hmem
  · exact hn k heq
  · exact h k hk hmem

theorem Fresh.modify (h : env.Fresh) (name : String) (f : Record → Record) :
    ({ env with types := env.types.modify name f } : Environment).Fresh := fun k hk hmem =>
  h k hk ((env.types.mem_keys_modify).1 hmem)

theorem mem_keys_of_mergeSummary {m : Summary} {target : String}
    (hn : n ∈ (env.mergeSummary m target).types.keys) : n ∈ env.types.keys ∨ n ∈ m.types.keys := by
  unfold mergeSummary at hn
  dsimp only at hn
  split at hn
  · exact Table.mem_keys_addMissing.1 hn
  · exact Table.mem_keys_addMissing.1 ((OrderedMap.mem_keys_modify _).1 hn)

/-- **An operation keeps the names to come fresh** if the summaries on offer have no records with names
generated for the file. -/
theorem Operation.fresh (hoffered : ∀ m, offered m → ∀ k, generatedName env.uid k ∉ m.types.keys)
    (h : Operation offered env env') (hfresh : env.Fresh) : env'.uid = env.uid ∧ env'.Fresh := by
  cases h with
  | enterScope span => exact ⟨rfl, hfresh.put_newName _⟩
  | create span => exact ⟨rfl, hfresh.put_newName _⟩
  | @createNamed name span hname =>
    refine ⟨env.newFleetingObject_uid _ _, ?_⟩
    rw [newFleetingObject_some]
    split
    · exact hfresh.put_newName _
    · exact hfresh.put (hname.ne_generatedName env.uid) _
  | modify name f => exact ⟨rfl, hfresh.modify name f⟩
  | leaveScope hpop =>
    unfold popScope? at hpop
    split at hpop
    · cases hpop
    · cases hpop
      exact ⟨rfl, hfresh.modify _ _⟩
  | @merge m hm target =>
    refine ⟨env.mergeSummary_uid m target, fun k hk hmem => ?_⟩
    rw [env.mergeSummary_uid] at hmem
    rw [env.mergeSummary_count] at hk
    rcases mem_keys_of_mergeSummary hmem with hmem | hmem
    · exact hfresh k hk hmem
    · exact hoffered m hm k hmem

theorem Operations.fresh (hoffered : ∀ m, offered m → ∀ k, generatedName uid k ∉ m.types.keys)
    (h : Operations offered (start uid) env) : env.uid = uid ∧ env.Fresh := by
  induction h with
  | refl => exact ⟨rfl, fresh_start uid⟩
  | tail _ hop ih =>
    obtain ⟨rfl, hfresh⟩ := ih
    exact hop.fresh hoffered hfresh

/-! ### Generating a name -/

/-- A name is generated that names no record yet, and becomes the name of a record; the records that
were there stay. -/
structure Generates (env env' : Environment) : Prop where
  count : env'.count = env.count + 1
  absent : generatedName env.uid env.count ∉ env.types.keys
  record : ∃ r, env'.types = env.types.insert (generatedName env.uid env.count) r
  kept : ∀ n ∈ env.types.keys, env'.types.find? n = env.types.find? n

theorem Fresh.generates (h : env.Fresh) (r : Record) :
    Generates env (env.newName.2.put env.newName.1 r) := by
  have habsent := h env.count (Nat.le_refl _)
  refine ⟨rfl, habsent, ⟨r, rfl⟩, fun n hn => ?_⟩
  refine env.types.find?_insert_of_ne ?_ r
  rintro rfl
  exact habsent hn

/-- **An operation generates at most one name**, and one that names no record. -/
theorem Operation.count_or_generates (h : Operation offered env env') (hfresh : env.Fresh) :
    env'.count = env.count ∨ Generates env env' := by
  cases h with
  | enterScope span =>
    obtain ⟨hcount, habsent, hrecord, hkept⟩ :=
      hfresh.generates { proto := some { type := .named env.scopes.current, span := span } }
    exact Or.inr ⟨hcount, habsent, hrecord, hkept⟩
  | create span => exact Or.inr (hfresh.generates _)
  | @createNamed name span hname =>
    rw [newFleetingObject_some]
    split
    · exact Or.inr (hfresh.generates _)
    · exact Or.inl rfl
  | modify name f => exact Or.inl rfl
  | leaveScope hpop => exact Or.inl (count_of_popScope? hpop)
  | merge hm target => exact Or.inl (env.mergeSummary_count _ target)

/-! ### Keys -/

theorem nodup_keys_addMissing {t : Table} (ht : t.keys.Nodup) (others : Table) :
    (t.addMissing others).keys.Nodup := by
  unfold Table.addMissing
  generalize others.entries = es
  induction es generalizing t with
  | nil => exact ht
  | cons e es ih =>
    refine ih ?_
    dsimp only
    split
    · exact ht
    · exact OrderedMap.nodup_keys_insert ht _ _

theorem nodup_keys_newFleetingObject (h : env.types.keys.Nodup) (name : Option String)
    (span : Option Span) : (env.newFleetingObject name span).2.types.keys.Nodup := by
  show (OrderedMap.insert (env.objectName name).2.types (env.objectName name).1 _).keys.Nodup
  rw [env.objectName_types]
  exact OrderedMap.nodup_keys_insert h _ _

/-- **An operation keeps the names of the records apart**, whatever the summaries on offer hold. -/
theorem Operation.nodup_keys (hop : Operation offered env env') (h : env.types.keys.Nodup) :
    env'.types.keys.Nodup := by
  cases hop with
  | enterScope span => exact OrderedMap.nodup_keys_insert h _ _
  | create span => exact nodup_keys_newFleetingObject h none span
  | createNamed span hname => exact nodup_keys_newFleetingObject h _ span
  | modify name f => exact OrderedMap.nodup_keys_modify h name f
  | leaveScope hpop =>
    unfold popScope? at hpop
    split at hpop
    · cases hpop
    · cases hpop
      exact OrderedMap.nodup_keys_modify h _ _
  | @merge m hm target =>
    have hadded := nodup_keys_addMissing h m.types
    unfold mergeSummary
    dsimp only
    split
    · exact hadded
    · exact OrderedMap.nodup_keys_modify hadded _ _

theorem Operations.nodup_keys (h : Operations offered (start uid) env) : env.types.keys.Nodup := by
  induction h with
  | refl =>
    have hcatalog : Catalog.table.keys.Nodup := by decide +kernel
    exact hcatalog
  | tail _ hop ih => exact hop.nodup_keys ih

end Environment

end ContentAssist
