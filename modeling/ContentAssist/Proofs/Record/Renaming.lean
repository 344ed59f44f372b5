import ContentAssist.Proofs.Record.Names
import Mathlib.Logic.Function.Basic

/-! # Renaming records

Records are found by name, so a table whose records are renamed throughout, in its keys, its types and
its links, answers as before, with renamed answers. The one thing that is more than a name is the name
of a constructor's record, which is made from a type: it is renamed with the type if the type is that of
a base name. Any other function type makes a name with two marks in front, of which no table that a
program makes has a record.

* `Ty.rename`, `Record.rename`, `Table.rename`: renaming;
* `Renames`: what is asked of the map of names;
* `key_rename`: the name that a type stands for;
* `find?_rename`, `chain_rename`, `resolve?_rename`: looking up in a renamed table;
* `rename_insert`, `rename_modify`: changing it;
* `rename_congr`, `rename_catalog`: tables that are renamed alike, and one that stays. -/

namespace ContentAssist

open Inference
open Ty (constructorKey protoKey)

/-! ### Relabelled maps -/

namespace OrderedMap

variable {κ κ' ν ν' : Type}

/-- The map with other keys and values in the same order. -/
def relabel (f : κ → κ') (g : ν → ν') (m : OrderedMap κ ν) : OrderedMap κ' ν' :=
  ⟨m.entries.map fun e => (f e.1, g e.2)⟩

@[simp] theorem keys_relabel (f : κ → κ') (g : ν → ν') (m : OrderedMap κ ν) :
    (m.relabel f g).keys = m.keys.map f := by
  simp [relabel, keys]

@[simp] theorem size_relabel (f : κ → κ') (g : ν → ν') (m : OrderedMap κ ν) :
    (m.relabel f g).size = m.size := List.length_map _

theorem relabel_congr {f f' : κ → κ'} {g g' : ν → ν'} {m : OrderedMap κ ν}
    (h : ∀ e ∈ m.entries, f e.1 = f' e.1 ∧ g e.2 = g' e.2) : m.relabel f g = m.relabel f' g' :=
  congrArg OrderedMap.mk (List.map_congr_left fun e he => Prod.ext (h e he).1 (h e he).2)

theorem relabel_id (m : OrderedMap κ ν) : m.relabel id id = m :=
  congrArg OrderedMap.mk (List.map_id _)

variable [DecidableEq κ] [DecidableEq κ'] {f : κ → κ'} (hf : f.Injective) (g : ν → ν')
include hf

theorem find?_relabel (m : OrderedMap κ ν) (k : κ) :
    (m.relabel f g).find? (f k) = (m.find? k).map g := by
  obtain ⟨es⟩ := m
  change findIn (f k) (es.map fun e => (f e.1, g e.2)) = (findIn k es).map g
  induction es with
  | nil => rfl
  | cons e es ih =>
    obtain ⟨l, v⟩ := e
    by_cases h : l = k
    · simp [findIn, h]
    · simp [findIn, h, hf.ne h, ih]

theorem relabel_insert (m : OrderedMap κ ν) (k : κ) (v : ν) :
    (m.insert k v).relabel f g = (m.relabel f g).insert (f k) (g v) := by
  obtain ⟨es⟩ := m
  change (⟨(insertInto k v es).map fun e => (f e.1, g e.2)⟩ : OrderedMap κ' ν') =
    ⟨insertInto (f k) (g v) (es.map fun e => (f e.1, g e.2))⟩
  congr 1
  induction es with
  | nil => rfl
  | cons e es ih =>
    obtain ⟨l, w⟩ := e
    by_cases h : l = k
    · simp [insertInto, h]
    · simp [insertInto, h, hf.ne h, ih]

theorem relabel_modify (m : OrderedMap κ ν) (k : κ) {a : ν → ν} {a' : ν' → ν'}
    (h : ∀ v, g (a v) = a' (g v)) :
    (m.modify k a).relabel f g = (m.relabel f g).modify (f k) a' := by
  unfold modify
  rw [find?_relabel hf]
  cases m.find? k with
  | none => rfl
  | some v =>
    dsimp only [Option.map_some]
    rw [relabel_insert hf, h]

end OrderedMap

/-! ### Renaming -/

/-- The type with its leaf renamed. -/
def Ty.rename (f : String → String) : Ty → Ty
  | named name => named (f name)
  | function result params => function (result.rename f) params

/-- The definition with its type renamed. -/
def Definition.rename (f : String → String) (d : Definition) : Definition :=
  { d with type := d.type.rename f }

/-- The record with all its types renamed. -/
def Record.rename (f : String → String) (r : Record) : Record :=
  { r with members := r.members.mapValues (·.rename f), proto := r.proto.map (·.rename f) }

/-- The table with its records and all their types renamed. -/
def Table.rename (f : String → String) (t : Table) : Table := OrderedMap.relabel f (·.rename f) t

namespace Ty

variable (f : String → String) (t : Ty)

@[simp] theorem rename_named (name : String) : (named name).rename f = named (f name) := rfl

@[simp] theorem rename_function (r : Ty) (params : List String) :
    (function r params).rename f = function (r.rename f) params := rfl

@[simp] theorem result_rename : (t.rename f).result = t.result.rename f := by cases t <;> rfl

@[simp] theorem withResult_rename (r : Ty) :
    (t.rename f).withResult (r.rename f) = (t.withResult r).rename f := by cases t <;> rfl

theorem rename_congr {g : String → String} (h : f t.leaf = g t.leaf) : t.rename f = t.rename g := by
  induction t with
  | named name => exact congrArg named h
  | function r params ih => exact congrArg (function · params) (ih h)

theorem rename_id (t : Ty) : t.rename id = t := by
  induction t with
  | named name => rfl
  | function r params ih => exact congrArg (function · params) ih

theorem rename_injective {f : String → String} (hf : f.Injective) : (rename f).Injective := by
  intro t t' h
  induction t generalizing t' with
  | named name =>
    cases t' with
    | named name' => exact congrArg named (hf (named.inj h))
    | function r params => cases h
  | function r params ih =>
    cases t' with
    | named name => cases h
    | function r' params' =>
      obtain ⟨hr, hparams⟩ := function.inj h
      rw [ih hr, hparams]

end Ty

/-! ### Renaming records -/

namespace Record

variable (f : String → String) (r : Record)

@[simp] theorem builtin_rename : (r.rename f).builtin = r.builtin := rfl

@[simp] theorem proto_rename : (r.rename f).proto = r.proto.map (·.rename f) := rfl

@[simp] theorem member?_rename (name : Name) :
    (r.rename f).member? name = (r.member? name).map (·.rename f) :=
  OrderedMap.find?_mapValues _ _ _

theorem rename_define (name : Name) (d : Definition) :
    (r.define name d).rename f = (r.rename f).define name (d.rename f) := by
  unfold Record.rename define
  congr 1
  exact OrderedMap.relabel_insert Function.injective_id _ r.members name d

theorem rename_undefine (name : Name) : (r.undefine name).rename f = (r.rename f).undefine name := by
  unfold Record.rename undefine OrderedMap.erase OrderedMap.mapValues
  congr 2
  rw [List.filter_map]
  rfl

theorem rename_retype (name : Name) (type : Ty) :
    ({ r with members := r.members.modify name fun d => { d with type := type } } : Record).rename f =
      { r.rename f with
        members := (r.rename f).members.modify name fun d => { d with type := type.rename f } } := by
  unfold Record.rename
  congr 1
  exact OrderedMap.relabel_modify Function.injective_id _ r.members name fun _ => rfl

theorem rename_relink (d : Definition) :
    ({ r with proto := some d } : Record).rename f = { r.rename f with proto := some (d.rename f) } :=
  rfl

theorem answer?_rename (name : Name) :
    Table.answer? (r.rename f) name = (Table.answer? r name).map (·.rename f) := by
  unfold Table.answer?
  split
  · rfl
  · exact r.member?_rename f name

theorem rename_congr {g : String → String} (h : ∀ d ∈ r.definitions, f d.type.leaf = g d.type.leaf) :
    r.rename f = r.rename g := by
  have hd : ∀ d ∈ r.definitions, d.rename f = d.rename g := fun d hd =>
    congrArg (fun t => { d with type := t }) (Ty.rename_congr f d.type (h d hd))
  have hmembers : r.members.mapValues (·.rename f) = r.members.mapValues (·.rename g) :=
    congrArg OrderedMap.mk (List.map_congr_left fun e he =>
      congrArg (Prod.mk e.1) (hd e.2 (List.mem_append_left _ (List.mem_map.2 ⟨e, he, rfl⟩))))
  have hproto : r.proto.map (·.rename f) = r.proto.map (·.rename g) :=
    Option.map_congr fun d hp => hd d (List.mem_append_right _ (Option.mem_toList.2 hp))
  unfold Record.rename
  rw [hmembers, hproto]

theorem rename_id (r : Record) : r.rename id = r := by
  have hd : (fun d : Definition => d.rename id) = id :=
    funext fun d => congrArg (fun t => { d with type := t }) d.type.rename_id
  unfold Record.rename
  rw [hd, Option.map_id]
  exact congrArg (fun m => { r with members := m }) r.members.relabel_id

end Record

/-! ### Maps of names -/

/-- The types that the rules of the inference name. -/
def standardTypes : List Ty :=
  [.object, .global, .number, .string, .boolean, .array, .regExp, .error, .arguments,
    .named "Function"]

theorem leaf_mem_catalogNames : ∀ t ∈ standardTypes, t.leaf ∈ catalogNames := by decide +kernel

/-- The name has two marks of a function type in front. -/
def IsNested (name : String) : Prop := ['?', '?'] <+: name.toList

/-- A map of names that goes with the names that are made from other ones: base names stay base names,
and what is derived from them is renamed with them. The names of the catalog, and those that programs
choose for constructors, stay. -/
structure Renames (f : String → String) : Prop where
  injective : f.Injective
  base : ∀ {n}, IsBase (f n) ↔ IsBase n
  constructorKey : ∀ {n}, IsBase n → f (constructorKey (.named n)) = Ty.constructorKey (.named (f n))
  protoKey : ∀ {n}, IsBase n →
    f (protoKey (Ty.constructorKey (.named n))) = Ty.protoKey (Ty.constructorKey (.named (f n)))
  nested : ∀ {n}, IsNested (f n) → IsNested n
  standard : ∀ {n}, n ∈ catalogNames → f n = n
  constructor : ∀ {n}, isConstructorName n = true → f n = n

theorem isNested_constructorKey {t : Ty} (h : ∀ n, t = .named n → ¬ IsBase n) :
    IsNested (constructorKey t) := by
  unfold IsNested
  rw [toList_constructorKey]
  cases t with
  | function r params => exact ⟨_, rfl⟩
  | named name =>
    have hhead : name.toList.head? = some '?' := not_not.1 (h name rfl)
    obtain ⟨cs, hcs⟩ := List.head?_eq_some_iff.1 hhead
    exact ⟨cs ++ [':'], by simp [Ty.chars, hcs]⟩

/-- A base name and the names that are derived from it have at most one mark. -/
theorem not_isNested_of_mem_derivedNames {base n : String} (hbase : IsBase base)
    (hn : n ∈ derivedNames base) : ¬ IsNested n := by
  -- behind the mark of a derived name stands the base, or what follows it
  have hmark : ∀ rest : List Char, rest.head? ≠ some '?' →
      ¬ ['?', '?'] <+: '?' :: (base.toList ++ rest) := by
    rintro rest hrest ⟨cs, hcs⟩
    have hhead := congrArg List.head? (List.cons.inj hcs).2
    rw [List.head?_append] at hhead
    cases hb : base.toList.head? with
    | none => exact hrest (by simpa [hb, eq_comm] using hhead)
    | some c => exact hbase (by simpa [hb, eq_comm] using hhead)
  simp only [derivedNames, List.mem_cons, List.not_mem_nil, or_false] at hn
  unfold IsNested
  rcases hn with rfl | rfl | rfl
  · rintro ⟨cs, hcs⟩
    exact hbase (by rw [← hcs]; rfl)
  · rw [toList_constructorKey]
    exact hmark [':'] (by decide)
  · rw [toList_protoKey, toList_constructorKey, List.append_assoc]
    exact hmark ([':'] ++ Ty.protoSuffix.toList) (by decide)

namespace Renames

variable {f : String → String} (hf : Renames f)
include hf

/-- The name that a type stands for is renamed with it, but for names with two marks. -/
theorem key_rename (t : Ty) :
    (t.rename f).key = f t.key ∨ IsNested t.key ∧ IsNested (t.rename f).key := by
  match t with
  | .named name => exact Or.inl rfl
  | .function (.named name) params =>
    by_cases hbase : IsBase name
    · exact Or.inl (hf.constructorKey hbase).symm
    · refine Or.inr ⟨isNested_constructorKey ?_, isNested_constructorKey ?_⟩
      · rintro n ⟨⟩
        exact hbase
      · rintro n ⟨⟩
        exact fun hn => hbase (hf.base.1 hn)
  | .function (.function r params') params =>
    exact Or.inr ⟨isNested_constructorKey (by rintro n ⟨⟩), isNested_constructorKey (by rintro n ⟨⟩)⟩

theorem rename_standard {t : Ty} (ht : t ∈ standardTypes) : t.rename f = t :=
  (Ty.rename_congr (g := id) f t (hf.standard (leaf_mem_catalogNames t ht))).trans t.rename_id

end Renames

/-! ### Renamed tables -/

namespace Table

/-- No record has a name with two marks. -/
def Plain (t : Table) : Prop := ∀ n ∈ t.keys, ¬ IsNested n

variable {f : String → String} (hf : Renames f) {t : Table}

theorem Plain.insert (h : t.Plain) {n : String} (hn : ¬ IsNested n) (r : Record) :
    Plain (t.insert n r) := fun k hk => by
  rcases (t.mem_keys_insert).1 hk with rfl | hk
  · exact hn
  · exact h k hk

theorem Plain.modify (h : t.Plain) (n : String) (a : Record → Record) : Plain (t.modify n a) :=
  fun k hk => h k ((t.mem_keys_modify).1 hk)

/-- A table is renamed alike by maps that agree on its names and those that its types are made of. -/
theorem rename_congr {g : String → String} (hkeys : t.keys.Nodup)
    (h : ∀ n r, t.find? n = some r → f n = g n ∧ ∀ d ∈ r.definitions, f d.type.leaf = g d.type.leaf) :
    t.rename f = t.rename g := by
  refine OrderedMap.relabel_congr fun e he => ?_
  obtain ⟨hname, hleaves⟩ := h e.1 e.2 (OrderedMap.findIn_of_mem hkeys he)
  exact ⟨hname, e.2.rename_congr f hleaves⟩

theorem rename_id (t : Table) : t.rename id = t := by
  have hr : (fun r : Record => r.rename id) = id := funext fun r => r.rename_id
  unfold Table.rename
  rw [hr]
  exact OrderedMap.relabel_id t

theorem plain_catalog : Plain Catalog.table := fun _ hn =>
  not_isNested_of_mem_derivedNames (isBase_of_mem_catalogNames (List.mem_cons_of_mem _ hn))
    List.mem_cons_self

include hf

theorem rename_catalog : Table.rename f Catalog.table = Catalog.table := by
  refine (rename_congr (g := id) (by decide +kernel) fun n r hr => ⟨?_, fun d hd => ?_⟩).trans
    (rename_id _)
  · exact hf.standard (List.mem_cons_of_mem _ (Catalog.table.mem_keys_of_find? hr))
  · obtain ⟨base, hbase, hatom⟩ := atom?_of_catalog hr hd
    rw [leaf_of_atom? hatom]
    exact hf.standard hbase

theorem find?_rename (t : Table) (n : String) :
    (t.rename f).find? (f n) = (t.find? n).map (·.rename f) :=
  OrderedMap.find?_relabel hf.injective _ t n

theorem rename_insert (t : Table) (n : String) (r : Record) :
    rename f (t.insert n r) = (t.rename f).insert (f n) (r.rename f) :=
  OrderedMap.relabel_insert hf.injective _ t n r

theorem rename_modify (t : Table) (n : String) {a a' : Record → Record}
    (h : ∀ r, (a r).rename f = a' (r.rename f)) :
    rename f (t.modify n a) = (t.rename f).modify (f n) a' :=
  OrderedMap.relabel_modify hf.injective _ t n h

theorem rename_edit (t : Table) (n : String) {a a' : Record → Record}
    (h : ∀ r, (a r).rename f = a' (r.rename f)) :
    (t.edit n a).rename f = (t.rename f).edit (f n) a' := by
  refine rename_modify hf t n fun r => ?_
  rw [Record.builtin_rename]
  split
  · rfl
  · exact h r

theorem Plain.rename (h : t.Plain) : (t.rename f).Plain := by
  intro k hk
  obtain ⟨n, hn, rfl⟩ := List.mem_map.1 (OrderedMap.keys_relabel f _ t ▸ hk)
  exact fun hnested => h n hn (hf.nested hnested)

omit hf in
theorem Plain.find?_eq_none (h : t.Plain) {n : String} (hn : IsNested n) : t.find? n = none :=
  t.find?_eq_none_iff.2 fun hk => h n hk hn

theorem find?_key_rename (h : t.Plain) (type : Ty) :
    (t.rename f).find? (type.rename f).key = (t.find? type.key).map (·.rename f) := by
  rcases hf.key_rename type with hkey | ⟨hkey, hkey'⟩
  · rw [hkey, find?_rename hf]
  · rw [h.find?_eq_none hkey, (h.rename hf).find?_eq_none hkey']
    rfl

omit hf in
theorem chainFrom_of_find?_eq_none {n : String} (h : t.find? n = none) (fuel : Nat)
    (seen : List String) : t.chainFrom fuel seen n = [] := by
  cases fuel with
  | zero => rfl
  | succ fuel =>
    rw [chainFrom]
    split
    · rfl
    · rw [h]

theorem chainFrom_rename (h : t.Plain) (fuel : Nat) (seen : List String) (n : String) :
    (t.rename f).chainFrom fuel (seen.map f) (f n) =
      (t.chainFrom fuel seen n).map fun e => (f e.1, e.2.rename f) := by
  induction fuel generalizing seen n with
  | zero => rfl
  | succ fuel ih =>
    rw [chainFrom, chainFrom, find?_rename hf]
    by_cases hseen : n ∈ seen
    · rw [if_pos hseen, if_pos (List.mem_map_of_mem hseen)]
      rfl
    · rw [if_neg hseen, if_neg fun hm => hseen ((List.mem_map_of_injective hf.injective).1 hm)]
      cases hr : t.find? n with
      | none => rfl
      | some r =>
        dsimp only [Option.map_some, Record.proto_rename]
        cases hp : r.proto with
        | none => rfl
        | some p =>
          dsimp only [Option.map_some, Definition.rename]
          rw [List.map_cons]
          congr 1
          -- the link leads to the renamed record, or nowhere in both tables
          rcases hf.key_rename p.type with hkey | ⟨hkey, hkey'⟩
          · rw [hkey]
            exact ih (n :: seen) p.type.key
          · rw [chainFrom_of_find?_eq_none (h.find?_eq_none hkey),
              chainFrom_of_find?_eq_none ((h.rename hf).find?_eq_none hkey')]
            rfl

/-- **A chain** of the renamed table is the renamed chain. -/
theorem chain_rename (h : t.Plain) (n : String) :
    (t.rename f).chain (f n) = (t.chain n).map fun e => (f e.1, e.2.rename f) := by
  unfold chain
  rw [show (t.rename f).size = t.size from OrderedMap.size_relabel f _ t]
  exact chainFrom_rename hf h t.size [] n

/-- **What a name resolves to** in the renamed table is renamed. -/
theorem resolve?_rename (h : t.Plain) (n : String) (name : Name) :
    (t.rename f).resolve? (f n) name = (t.resolve? n name).map (·.rename f) := by
  unfold resolve?
  rw [chain_rename hf h]
  induction t.chain n with
  | nil => rfl
  | cons e es ih =>
    rw [List.map_cons, List.findSome?_cons, List.findSome?_cons, Record.answer?_rename, ih]
    cases answer? e.2 name <;> rfl

end Table

end ContentAssist
