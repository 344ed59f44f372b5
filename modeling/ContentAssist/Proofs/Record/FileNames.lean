import ContentAssist.Proofs.Record.Renaming
import Mathlib.Data.List.DropRight

/-! # The names of another file

The records of a program are generated for its file, so the same program in another file has records of
other names. `renameFile` gives each name that was generated for a file, and what is derived from it, the
name that goes with it in the other one. It can give two names one, so it is no map of names as renaming
needs it; `swapFiles`, which gives the names of the other file in exchange, is one, and a file that
consults no other one does not tell the two apart.

* `generatedNumber?`, `constructorBase?`, `protoBase?`: what a name was made from;
* `onBase`: renaming derived names with their base, `RenamesBases.renames`;
* `derivedNames_renameFile`, `renameFile_of_not_generated`: what is renamed;
* `renames_swapFiles`, `swapFiles_of_known`: exchanging the names of two files. -/

namespace ContentAssist

open Inference
open Ty (constructorKey protoKey generatedName generatedMark protoSuffix)

variable {base n u v : String} {k : Nat} {g g' : String → String}

/-! ### What a name was made from -/

/-- What the name was made from, if it is what is guessed. -/
def madeFrom? {α : Type} (make : α → String) (guess : String → α) (name : String) : Option α :=
  if make (guess name) = name then some (guess name) else none

theorem madeFrom?_make {α : Type} {make : α → String} {guess : String → α}
    (h : ∀ a, guess (make a) = a) (a : α) : madeFrom? make guess (make a) = some a := by
  unfold madeFrom?
  rw [h, if_pos rfl]

theorem eq_of_madeFrom? {α : Type} {make : α → String} {guess : String → α} {a : α}
    (h : madeFrom? make guess n = some a) : n = make a := by
  unfold madeFrom? at h
  split at h
  · rename_i heq
    cases h
    exact heq.symm
  · cases h

/-- The number of a name that was generated for the file. -/
def generatedNumber? (uid : String) : String → Option Nat :=
  madeFrom? (generatedName uid) fun name =>
    Nat.ofDigitChars 10 (name.toList.drop (generatedMark ++ uid ++ "~").length) 0

/-- The name without the mark in front and the ending. -/
def unmarked (ending : List Char) (name : String) : String :=
  String.ofList (name.toList.tail.rdrop ending.length)

/-- The base of the name of a constructor's record. -/
def constructorBase? : String → Option String :=
  madeFrom? (fun base => constructorKey (.named base)) (unmarked [':'])

/-- The base of the name of the record for a prototype object. -/
def protoBase? : String → Option String :=
  madeFrom? (fun base => protoKey (constructorKey (.named base))) (unmarked (':' :: protoSuffix.toList))

theorem generatedNumber?_generatedName (uid : String) (k : Nat) :
    generatedNumber? uid (generatedName uid k) = some k := by
  refine madeFrom?_make (fun k => ?_) k
  unfold generatedName
  rw [String.toList_append, List.drop_left' String.length_toList, Nat.toString_eq_repr,
    Nat.toList_repr, Nat.ofDigitChars_ten_toDigits]

theorem generatedNumber?_eq_none (h : ∀ k, n ≠ generatedName u k) : generatedNumber? u n = none :=
  Option.eq_none_iff_forall_ne_some.2 fun k hk => h k (eq_of_madeFrom? hk)

theorem unmarked_eq {ending : List Char} (h : n.toList = '?' :: base.toList ++ ending) :
    unmarked ending n = base := by
  unfold unmarked
  rw [h, List.cons_append, List.tail_cons, List.rdrop_append_length, String.ofList_toList]

theorem constructorBase?_constructorKey (base : String) :
    constructorBase? (constructorKey (.named base)) = some base :=
  madeFrom?_make (fun base => unmarked_eq (toList_constructorKey (.named base))) base

theorem protoBase?_protoKey (base : String) :
    protoBase? (protoKey (constructorKey (.named base))) = some base := by
  refine madeFrom?_make (fun base => ?_) base
  have hname : (protoKey (constructorKey (.named base))).toList =
      '?' :: base.toList ++ (':' :: protoSuffix.toList) := by
    rw [toList_protoKey, toList_constructorKey, List.append_assoc]
    rfl
  exact unmarked_eq hname

/-! ### Renaming with the base -/

/-- The name with its base renamed. -/
def onBase (g : String → String) (name : String) : String :=
  match constructorBase? name with
  | some base => constructorKey (.named (g base))
  | none =>
    match protoBase? name with
    | some base => protoKey (constructorKey (.named (g base)))
    | none => g name

theorem onBase_constructorKey (g : String → String) (base : String) :
    onBase g (constructorKey (.named base)) = constructorKey (.named (g base)) := by
  unfold onBase
  rw [constructorBase?_constructorKey]

theorem onBase_protoKey (g : String → String) (base : String) :
    onBase g (protoKey (constructorKey (.named base))) =
      protoKey (constructorKey (.named (g base))) := by
  have hnone : constructorBase? (protoKey (constructorKey (.named base))) = none :=
    Option.eq_none_iff_forall_ne_some.2 fun b hb =>
      constructorKey_ne_protoKey _ _ (eq_of_madeFrom? hb).symm
  unfold onBase
  rw [hnone, protoBase?_protoKey]

/-- A name is that of a constructor's record, or that of a prototype object, or it stands for itself. -/
theorem onBase_cases (n : String) : (∃ base, n = constructorKey (.named base)) ∨
    (∃ base, n = protoKey (constructorKey (.named base))) ∨ ∀ g, onBase g n = g n := by
  cases hc : constructorBase? n with
  | some base =>
    have hn := eq_of_madeFrom? hc
    exact Or.inl ⟨base, hn⟩
  | none =>
    cases hp : protoBase? n with
    | some base =>
      have hn := eq_of_madeFrom? hp
      exact Or.inr (Or.inl ⟨base, hn⟩)
    | none =>
      refine Or.inr (Or.inr fun g => ?_)
      unfold onBase
      rw [hc, hp]

theorem onBase_of_isBase (g : String → String) (h : IsBase n) : onBase g n = g n := by
  rcases onBase_cases n with ⟨base, rfl⟩ | ⟨base, rfl⟩ | hself
  · exact absurd h (not_isBase_constructorKey _)
  · exact absurd h (not_isBase_protoKey _)
  · exact hself g

theorem derivedNames_onBase (g : String → String) (h : IsBase base) :
    (derivedNames base).map (onBase g) = derivedNames (g base) := by
  unfold derivedNames
  simp only [List.map_cons, List.map_nil, onBase_of_isBase g h, onBase_constructorKey, onBase_protoKey]

theorem onBase_congr (h : IsBase base) (hn : n ∈ derivedNames base) (heq : g base = g' base) :
    onBase g n = onBase g' n := by
  have hmap : (derivedNames base).map (onBase g) = (derivedNames base).map (onBase g') := by
    rw [derivedNames_onBase g h, derivedNames_onBase g' h, heq]
  exact List.map_inj_left.1 hmap n hn

/-- A map of base names that undoes itself. The names of the catalog, and those that programs choose for
constructors, stay, as do all names that are no base. -/
structure RenamesBases (g : String → String) : Prop where
  involutive : g.Involutive
  base : ∀ {n}, IsBase n → IsBase (g n)
  derived : ∀ {n}, ¬ IsBase n → g n = n
  standard : ∀ {n}, n ∈ catalogNames → g n = n
  constructor : ∀ {n}, isConstructorName n = true → g n = n

namespace RenamesBases

variable (hg : RenamesBases g)
include hg

theorem involutive_onBase : (onBase g).Involutive := by
  intro n
  rcases onBase_cases n with ⟨base, rfl⟩ | ⟨base, rfl⟩ | hself
  · rw [onBase_constructorKey, onBase_constructorKey, hg.involutive]
  · rw [onBase_protoKey, onBase_protoKey, hg.involutive]
  · rw [hself]
    by_cases hn : IsBase n
    · rw [onBase_of_isBase g (hg.base hn), hg.involutive]
    · rw [hg.derived hn, hself, hg.derived hn]

theorem isBase_onBase_iff : IsBase (onBase g n) ↔ IsBase n := by
  rcases onBase_cases n with ⟨base, rfl⟩ | ⟨base, rfl⟩ | hself
  · rw [onBase_constructorKey]
    exact iff_of_false (not_isBase_constructorKey _) (not_isBase_constructorKey _)
  · rw [onBase_protoKey]
    exact iff_of_false (not_isBase_protoKey _) (not_isBase_protoKey _)
  · rw [hself]
    refine ⟨fun h => ?_, hg.base⟩
    by_contra hn
    exact hn (hg.derived hn ▸ h)

theorem onBase_of_isNested (h : IsNested n) : onBase g n = n := by
  -- what is derived from a base has no two marks
  have hbase : ∀ base, n ∈ derivedNames base → g base = base := fun _ hn =>
    hg.derived fun hb => not_isNested_of_mem_derivedNames hb hn h
  rcases onBase_cases n with ⟨base, rfl⟩ | ⟨base, rfl⟩ | hself
  · rw [onBase_constructorKey, hbase base (by simp [derivedNames])]
  · rw [onBase_protoKey, hbase base (by simp [derivedNames])]
  · rw [hself, hbase n List.mem_cons_self]

/-- Renaming with the base is a map of names as renaming needs it. -/
theorem renames : Renames (onBase g) where
  injective := hg.involutive_onBase.injective
  base := hg.isBase_onBase_iff
  constructorKey h := by rw [onBase_constructorKey, onBase_of_isBase g h]
  protoKey h := by rw [onBase_protoKey, onBase_of_isBase g h]
  nested {n} h := by
    have hstays := hg.onBase_of_isNested h
    rw [hg.involutive_onBase] at hstays
    exact hstays ▸ h
  standard h := by rw [onBase_of_isBase g (isBase_of_mem_catalogNames h), hg.standard h]
  constructor h := by rw [onBase_of_isBase g (isBase_of_isConstructorName h), hg.constructor h]

end RenamesBases

/-! ### The names of two files -/

/-- The name generated for the file `v` that goes with a name generated for the file `u`. -/
def renameBase (u v name : String) : String :=
  match generatedNumber? u name with
  | some k => generatedName v k
  | none => name

/-- The name as it is for the file `v` instead of the file `u`. -/
def renameFile (u v : String) : String → String := onBase (renameBase u v)

/-- A name generated for one of two files becomes the one generated for the other. -/
def swapBase (u v name : String) : String :=
  match generatedNumber? u name with
  | some k => generatedName v k
  | none => renameBase v u name

/-- The name with two files exchanged. -/
def swapFiles (u v : String) : String → String := onBase (swapBase u v)

theorem renameBase_generatedName (u v : String) (k : Nat) :
    renameBase u v (generatedName u k) = generatedName v k := by
  unfold renameBase
  rw [generatedNumber?_generatedName]

theorem renameBase_of_ne (v : String) (h : ∀ k, n ≠ generatedName u k) : renameBase u v n = n := by
  unfold renameBase
  rw [generatedNumber?_eq_none h]

/-- **What was generated for the file** is renamed, with all that is derived from it. -/
theorem derivedNames_renameFile (u v : String) (k : Nat) :
    (derivedNames (generatedName u k)).map (renameFile u v) = derivedNames (generatedName v k) := by
  rw [renameFile, derivedNames_onBase _ (isBase_generatedName u k), renameBase_generatedName]

/-- **All other names stay.** -/
theorem renameFile_of_not_generated (v : String) (h : ¬ IsGeneratedFor u n) : renameFile u v n = n := by
  have hbase : ∀ base, n ∈ derivedNames base → renameBase u v base = base := fun _ hn =>
    renameBase_of_ne v fun k hk => h ⟨k, hk ▸ hn⟩
  unfold renameFile
  rcases onBase_cases n with ⟨base, rfl⟩ | ⟨base, rfl⟩ | hself
  · rw [onBase_constructorKey, hbase base (by simp [derivedNames])]
  · rw [onBase_protoKey, hbase base (by simp [derivedNames])]
  · rw [hself, hbase n List.mem_cons_self]

theorem swapBase_left (u v : String) (k : Nat) :
    swapBase u v (generatedName u k) = generatedName v k := by
  unfold swapBase
  rw [generatedNumber?_generatedName]

theorem swapBase_right (u v : String) (k : Nat) :
    swapBase u v (generatedName v k) = generatedName u k := by
  by_cases huv : u = v
  · rw [huv, swapBase_left]
  · unfold swapBase
    rw [generatedNumber?_eq_none fun j h => huv (generatedName_uid_inj h).symm,
      renameBase_generatedName]

theorem swapBase_of_ne (hu : ∀ k, n ≠ generatedName u k) (hv : ∀ k, n ≠ generatedName v k) :
    swapBase u v n = n := by
  unfold swapBase
  rw [generatedNumber?_eq_none hu, renameBase_of_ne u hv]

/-- A name is one of the two files', or it stays. -/
theorem swapBase_cases (u v n : String) :
    (∃ k, n = generatedName u k) ∨ (∃ k, n = generatedName v k) ∨ swapBase u v n = n := by
  by_cases hu : ∃ k, n = generatedName u k
  · exact Or.inl hu
  · by_cases hv : ∃ k, n = generatedName v k
    · exact Or.inr (Or.inl hv)
    · exact Or.inr (Or.inr (swapBase_of_ne (not_exists.1 hu) (not_exists.1 hv)))

theorem generatedName_ne_standard (hn : n ∈ catalogNames) (k : Nat) : n ≠ generatedName u k := by
  rintro rfl
  exact own_not_standard (own_generatedName u k) (isDerivedFrom_self hn)

theorem generatedName_ne_constructorName (hn : isConstructorName n = true) (k : Nat) :
    n ≠ generatedName u k := by
  rintro rfl
  rw [generatedName_not_isConstructorName] at hn
  cases hn

theorem renamesBases_swapBase (u v : String) : RenamesBases (swapBase u v) where
  involutive n := by
    rcases swapBase_cases u v n with ⟨k, rfl⟩ | ⟨k, rfl⟩ | hself
    · rw [swapBase_left, swapBase_right]
    · rw [swapBase_right, swapBase_left]
    · rw [hself, hself]
  base {n} h := by
    rcases swapBase_cases u v n with ⟨k, rfl⟩ | ⟨k, rfl⟩ | hself
    · rw [swapBase_left]
      exact isBase_generatedName v k
    · rw [swapBase_right]
      exact isBase_generatedName u k
    · rwa [hself]
  derived {n} h := by
    rcases swapBase_cases u v n with ⟨k, rfl⟩ | ⟨k, rfl⟩ | hself
    · exact absurd (isBase_generatedName u k) h
    · exact absurd (isBase_generatedName v k) h
    · exact hself
  standard h := swapBase_of_ne (generatedName_ne_standard h) (generatedName_ne_standard h)
  constructor h := swapBase_of_ne (generatedName_ne_constructorName h) (generatedName_ne_constructorName h)

/-- **Exchanging the names of two files** is a map of names as renaming needs it. -/
theorem renames_swapFiles (u v : String) : Renames (swapFiles u v) :=
  (renamesBases_swapBase u v).renames

theorem swapFiles_generatedName (u v : String) (k : Nat) :
    swapFiles u v (generatedName u k) = generatedName v k := by
  rw [swapFiles, onBase_of_isBase _ (isBase_generatedName u k), swapBase_left]

/-- A file that consults no other one has no names of the other file, so it does not matter what these
become. -/
theorem swapFiles_of_known (v : String) (h : Known u n) : swapFiles u v n = renameFile u v n := by
  rcases h with hown | hstandard
  · obtain ⟨base, hbase, hn, ⟨k, rfl⟩ | ⟨hname, -⟩⟩ := hown.exists_base
    · refine onBase_congr hbase hn ?_
      rw [swapBase_left, renameBase_generatedName]
    · refine onBase_congr hbase hn ?_
      rw [(renamesBases_swapBase u v).constructor hname,
        renameBase_of_ne v (generatedName_ne_constructorName hname)]
  · refine onBase_congr (isBase_of_mem_catalogNames hstandard) List.mem_cons_self ?_
    rw [(renamesBases_swapBase u v).standard hstandard,
      renameBase_of_ne v (generatedName_ne_standard hstandard)]

end ContentAssist
