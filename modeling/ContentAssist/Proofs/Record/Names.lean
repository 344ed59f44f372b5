import ContentAssist.Inference.Enter
import ContentAssist.Proofs.Record.Resolution

/-! # Names of records

A record is named by a base name: that of a builtin, one generated for a file, or that of a
constructor of the program; the constructor record of the base and the record of its prototype have
names of their own, derived from it. A base is found again in a derived name, so names with different
bases are different. Which names a file can make is said by `Own`.

* `base_unique`: a derived name has one base;
* `generatedName_uid_inj`, `generatedName_count_inj`: the names generated for two files differ, and so
  do those generated for one;
* `own_not_standard`: what a file makes is not what the catalog is made of;
* `mem_derivedNames_leaf`: a type that refers to a name with some base has a leaf with that base. -/

namespace ContentAssist

open Ty Inference

variable {n base base' uid uid' : String} {k k' : Nat} {type : Ty}

/-! ### Derived names -/

/-- The name, that of its constructor record, and that of the prototype object of the latter. -/
def derivedNames (base : String) : List String :=
  [base, constructorKey (.named base), protoKey (constructorKey (.named base))]

/-- Whether a name is no derived one. -/
def IsBase (name : String) : Prop := name.toList.head? ≠ some '?'

theorem toList_constructorKey (t : Ty) : (constructorKey t).toList = '?' :: t.chars ++ [':'] := by
  simp [constructorKey, text, chars, Text.join]

theorem toList_protoKey (key : String) : (protoKey key).toList = key.toList ++ protoSuffix.toList := by
  simp [protoKey]

theorem not_isBase_constructorKey (t : Ty) : ¬ IsBase (constructorKey t) := by
  simp [IsBase, toList_constructorKey]

theorem not_isBase_protoKey (t : Ty) : ¬ IsBase (protoKey (constructorKey t)) := by
  simp [IsBase, toList_protoKey, toList_constructorKey]

theorem constructorKey_ne_protoKey (t t' : Ty) : constructorKey t ≠ protoKey (constructorKey t') := by
  intro h
  have hlast := congrArg (fun s => s.toList.reverse.head?) h
  simp [toList_constructorKey, toList_protoKey, protoSuffix] at hlast

theorem chars_inj_of_constructorKey {t t' : Ty} (h : constructorKey t = constructorKey t') :
    t.chars = t'.chars := by
  have h' := congrArg String.toList h
  rw [toList_constructorKey, toList_constructorKey] at h'
  exact (List.cons.inj (List.append_cancel_right h')).2

theorem protoKey_inj {key key' : String} (h : protoKey key = protoKey key') : key = key' := by
  have h' := congrArg String.toList h
  rw [toList_protoKey, toList_protoKey] at h'
  exact String.toList_injective (List.append_cancel_right h')

theorem isBase_of_mem_derivedNames (hn : n ∈ derivedNames base) (hbase : IsBase n) : n = base := by
  simp only [derivedNames, List.mem_cons, List.not_mem_nil, or_false] at hn
  rcases hn with rfl | rfl | rfl
  · rfl
  · exact absurd hbase (not_isBase_constructorKey _)
  · exact absurd hbase (not_isBase_protoKey _)

theorem base_unique (hbase : IsBase base) (hbase' : IsBase base') (hn : n ∈ derivedNames base)
    (hn' : n ∈ derivedNames base') : base = base' := by
  have hinj : ∀ {b b' : String}, constructorKey (.named b) = constructorKey (.named b') → b = b' :=
    fun h => String.toList_injective (chars_inj_of_constructorKey h)
  have hn₀ := hn
  simp only [derivedNames, List.mem_cons, List.not_mem_nil, or_false] at hn
  rcases hn with rfl | rfl | rfl
  · exact isBase_of_mem_derivedNames hn' hbase
  · simp only [derivedNames, List.mem_cons, List.not_mem_nil, or_false] at hn'
    rcases hn' with h | h | h
    · exact absurd (h ▸ hbase') (not_isBase_constructorKey _)
    · exact hinj h
    · exact absurd h (constructorKey_ne_protoKey _ _)
  · simp only [derivedNames, List.mem_cons, List.not_mem_nil, or_false] at hn'
    rcases hn' with h | h | h
    · exact absurd (h ▸ hbase') (not_isBase_protoKey _)
    · exact absurd h.symm (constructorKey_ne_protoKey _ _)
    · exact hinj (protoKey_inj h)

/-! ### Generated names -/

theorem toList_generatedName (uid : String) (k : Nat) :
    (generatedName uid k).toList = "gen~".toList ++ (uid.toList ++ '~' :: Nat.toDigits 10 k) := by
  simp [generatedName, generatedMark, Nat.toString_eq_repr, Nat.toList_repr]

theorem isBase_generatedName (uid : String) (k : Nat) : IsBase (generatedName uid k) := by
  simp [IsBase, toList_generatedName]

theorem tilde_not_mem_toDigits (k : Nat) : '~' ∉ Nat.toDigits 10 k := by
  intro h
  simpa using Nat.isDigit_of_mem_toDigits (by decide) (by decide) h

/-- The file is found again in a generated name: it ends at the last tilde. -/
theorem generatedName_uid_inj (h : generatedName uid k = generatedName uid' k') : uid = uid' := by
  have h' := congrArg String.toList h
  rw [toList_generatedName, toList_generatedName] at h'
  have hsplit := congrArg (Text.splitLast '~') (List.append_cancel_left h')
  rw [Text.splitLast_append (tilde_not_mem_toDigits k),
    Text.splitLast_append (tilde_not_mem_toDigits k')] at hsplit
  exact String.toList_injective (Prod.mk.inj (Option.some.inj hsplit)).1

theorem generatedName_count_inj (h : generatedName uid k = generatedName uid k') : k = k' := by
  have h' := congrArg String.toList h
  rw [toList_generatedName, toList_generatedName] at h'
  have hdigits := (List.cons.inj (List.append_cancel_left (List.append_cancel_left h'))).2
  rw [← Nat.ofDigitChars_ten_toDigits (n := k), hdigits, Nat.ofDigitChars_ten_toDigits]

/-! ### What a file makes -/

/-- A name with a base that was generated for the file. -/
def IsGeneratedFor (uid n : String) : Prop := ∃ k, n ∈ derivedNames (generatedName uid k)

/-- A name with the name of a constructor of a program as its base. -/
def IsConstructorRecord (n : String) : Prop :=
  ∃ base, isConstructorName base = true ∧ base ∉ Catalog.table.keys ∧ n ∈ derivedNames base

/-- The names of the records that a file can make. -/
def Own (uid n : String) : Prop := IsGeneratedFor uid n ∨ IsConstructorRecord n

theorem isBase_of_isConstructorName (h : isConstructorName base = true) : IsBase base := by
  unfold isConstructorName at h
  intro hhead
  rw [hhead] at h
  revert h
  decide

theorem generatedName_not_isConstructorName (uid : String) (k : Nat) :
    isConstructorName (generatedName uid k) = false := by
  unfold isConstructorName
  rw [toList_generatedName]
  rfl

theorem own_of_generated {uid : String} (hn : n ∈ derivedNames (generatedName uid k)) : Own uid n :=
  Or.inl ⟨k, hn⟩

theorem own_generatedName (uid : String) (k : Nat) : Own uid (generatedName uid k) :=
  own_of_generated (k := k) List.mem_cons_self

theorem Own.exists_base (h : Own uid n) : ∃ base, IsBase base ∧ n ∈ derivedNames base ∧
    ((∃ k, base = generatedName uid k) ∨ isConstructorName base = true ∧ base ∉ Catalog.table.keys) := by
  rcases h with ⟨k, hn⟩ | ⟨base, hc, hkey, hn⟩
  · exact ⟨_, isBase_generatedName _ _, hn, Or.inl ⟨k, rfl⟩⟩
  · exact ⟨base, isBase_of_isConstructorName hc, hn, Or.inr ⟨hc, hkey⟩⟩

theorem uid_eq_of_generated (h : IsGeneratedFor uid n) (h' : Own uid' n) : uid = uid' := by
  obtain ⟨k, hn⟩ := h
  obtain ⟨base, hbase, hn', hform⟩ := h'.exists_base
  have heq := base_unique (isBase_generatedName uid k) hbase hn hn'
  rcases hform with ⟨k', rfl⟩ | ⟨hc, -⟩
  · exact generatedName_uid_inj heq
  · rw [← heq, generatedName_not_isConstructorName] at hc
    cases hc

/-! ### The names of the catalog -/

/-- The names of the builtin records. -/
def builtinNames : List String := Catalog.builtinMembers.map (·.1)

/-- The names that the types of the builtin records are made of: there is no record of `boolean`. -/
def builtinAtoms : List String := "boolean" :: builtinNames

/-- The names that the types of the catalog are made of. -/
def catalogNames : List String := "boolean" :: Catalog.table.keys

theorem mem_catalog_keys_iff : n ∈ Catalog.table.keys ↔ n = Catalog.globalName ∨ n ∈ builtinNames := by
  have hkeys : Catalog.table.keys = Catalog.globalName :: builtinNames := by decide +kernel
  rw [hkeys, List.mem_cons]

theorem builtinAtoms_subset : builtinAtoms ⊆ catalogNames :=
  List.cons_subset_cons _ fun _ hn => mem_catalog_keys_iff.2 (Or.inr hn)

/-- A name with one of the given bases. -/
def IsDerivedFrom (bases : List String) (n : String) : Prop := ∃ base ∈ bases, n ∈ derivedNames base

theorem isBase_of_mem_catalogNames (h : base ∈ catalogNames) : IsBase base := by
  have hall : ∀ base ∈ catalogNames, base.toList.head? ≠ some '?' := by decide +kernel
  exact hall base h

theorem own_not_standard (h : Own uid n) : ¬ IsDerivedFrom catalogNames n := by
  rintro ⟨base', hmem, hn'⟩
  obtain ⟨base, hbase, hn, hform⟩ := h.exists_base
  obtain rfl := base_unique hbase (isBase_of_mem_catalogNames hmem) hn hn'
  rcases hform with ⟨k, rfl⟩ | ⟨hc, hkey⟩
  · have hall : ∀ base ∈ catalogNames, base.toList.head? ≠ some 'g' := by decide +kernel
    exact hall _ hmem (by rw [toList_generatedName]; rfl)
  · rcases List.mem_cons.1 hmem with rfl | hmem
    · revert hc
      decide
    · exact hkey hmem

theorem isDerivedFrom_self {bases : List String} (h : n ∈ bases) : IsDerivedFrom bases n :=
  ⟨n, h, List.mem_cons_self⟩

theorem own_not_key (h : Own uid n) : n ∉ Catalog.table.keys := fun hn =>
  own_not_standard h (isDerivedFrom_self (List.mem_cons_of_mem _ hn))

/-! ### References -/

theorem mem_derivedNames_leaf (hbase : IsBase base) (hn : n ∈ derivedNames base)
    (href : n ∈ type.references) : type.leaf ∈ derivedNames base := by
  have hnamed : ∀ {r : Ty}, r.chars = (Ty.named base).chars → r.leaf = base := by
    intro r hr
    cases r with
    | named name => exact String.toList_injective hr
    | function r params => exact absurd (by rw [← show _ = base.toList from hr]; rfl) hbase
  induction type with
  | named name => exact List.mem_singleton.1 href ▸ hn
  | function r params ih =>
    simp only [references, List.mem_cons] at href
    simp only [derivedNames, List.mem_cons, List.not_mem_nil, or_false] at hn
    rcases href with rfl | rfl | href
    · rcases hn with h | h | h
      · exact absurd (h ▸ hbase) (not_isBase_constructorKey _)
      · exact List.mem_cons.2 (Or.inl (hnamed (r := r) (chars_inj_of_constructorKey h)))
      · exact absurd h (constructorKey_ne_protoKey _ _)
    · rcases hn with h | h | h
      · exact absurd (h ▸ hbase) (not_isBase_protoKey _)
      · exact absurd h.symm (constructorKey_ne_protoKey _ _)
      · exact List.mem_cons.2 (Or.inl (hnamed (r := r) (chars_inj_of_constructorKey (protoKey_inj h))))
    · exact ih href

/-- The leaves of the types that the analysis of a file comes by. -/
def Known (uid n : String) : Prop := Own uid n ∨ n ∈ catalogNames

theorem not_generated_of_reference (hleaf : Known uid type.leaf) (href : n ∈ type.references)
    (huid : uid' ≠ uid) : ¬ IsGeneratedFor uid' n := by
  rintro ⟨k, hn⟩
  have hmem := mem_derivedNames_leaf (isBase_generatedName uid' k) hn href
  rcases hleaf with hleaf | hleaf
  · exact huid (uid_eq_of_generated ⟨k, hmem⟩ hleaf)
  · exact own_not_standard (own_of_generated hmem) (isDerivedFrom_self hleaf)

/-! ### The types of the catalog -/

/-- The name that a type is made of if it has at most one function level. -/
def Ty.atom? : Ty → Option String
  | named name => some name
  | function (named name) _ => some name
  | function (function _ _) _ => none

theorem leaf_of_atom? (h : type.atom? = some base) : type.leaf = base := by
  match type, h with
  | .named _, h => exact Option.some.inj h
  | .function (.named _) _, h => exact Option.some.inj h

theorem mem_derivedNames_of_atom? (h : type.atom? = some base) (href : n ∈ type.references) :
    n ∈ derivedNames base := by
  match type, h with
  | .named _, rfl => exact List.mem_cons.2 (Or.inl (List.mem_singleton.1 href))
  | .function (.named _) _, rfl =>
    simp only [references, List.mem_cons, List.not_mem_nil, or_false] at href
    simp only [derivedNames, List.mem_cons, List.not_mem_nil, or_false]
    tauto

/-- The types of the catalog have at most one function level, and builtin records do not mention the
global one. -/
theorem catalog_types : ∀ e ∈ Catalog.table.entries, ∀ d ∈ e.2.definitions, d.path = none ∧
    d.type.atom?.any (· ∈ if e.1 = Catalog.globalName then catalogNames else builtinAtoms) := by
  decide +kernel

theorem catalog_builtin : ∀ e ∈ Catalog.table.entries, e.1 ∈ builtinNames →
    e.1 ≠ Catalog.globalName ∧ e.2.builtin = true := by
  decide +kernel

variable {r : Record} {d : Definition}

theorem path_of_catalog (hr : Catalog.table.find? n = some r) (hd : d ∈ r.definitions) :
    d.path = none := (catalog_types _ (Catalog.table.mem_of_find? hr) d hd).1

theorem atom?_of_builtin (hn : n ∈ builtinNames) (hr : Catalog.table.find? n = some r)
    (hd : d ∈ r.definitions) : ∃ base ∈ builtinAtoms, d.type.atom? = some base := by
  have hmem := Catalog.table.mem_of_find? hr
  have h := (catalog_types _ hmem d hd).2
  rw [if_neg (catalog_builtin _ hmem hn).1] at h
  obtain ⟨base, hbase, hin⟩ := (Option.any_eq_true _ _).1 h
  exact ⟨base, of_decide_eq_true hin, hbase⟩

theorem atom?_of_catalog (hr : Catalog.table.find? n = some r) (hd : d ∈ r.definitions) :
    ∃ base ∈ catalogNames, d.type.atom? = some base := by
  have h := (catalog_types _ (Catalog.table.mem_of_find? hr) d hd).2
  obtain ⟨base, hbase, hin⟩ := (Option.any_eq_true _ _).1 h
  refine ⟨base, ?_, hbase⟩
  have hin := of_decide_eq_true hin
  split at hin
  · exact hin
  · exact builtinAtoms_subset hin

end ContentAssist
