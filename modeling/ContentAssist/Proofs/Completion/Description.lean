import ContentAssist.Completion.Description
import ContentAssist.Proofs.Record.Resolution

/-! # Where descriptions end

A description shows generated records by their members, and the results of methods in full again.
`Ends` says without fuel that this comes to an end. As many levels as there are records are enough:
a record that is met inside its own description is met there again and again.

* `Ends`: the description of a name ends;
* `isSome_describe?_iff`: a type has a description if and only if that of its leaf ends. -/

namespace ContentAssist

theorem mapM_eq_some_iff {α β : Type} {f : α → Option β} {as : List α} {bs : List β} :
    as.mapM f = some bs ↔ List.Forall₂ (fun a b => f a = some b) as bs := by
  induction as generalizing bs with
  | nil => simp [eq_comm]
  | cons a as ih =>
    rw [List.mapM_cons, List.forall₂_cons_left_iff]
    constructor
    · intro h
      obtain ⟨b, hb, h⟩ := Option.bind_eq_some_iff.1 h
      obtain ⟨bs', hbs, h⟩ := Option.bind_eq_some_iff.1 h
      cases h
      exact ⟨b, bs', hb, ih.1 hbs, rfl⟩
    · rintro ⟨b, bs', hb, hbs, rfl⟩
      rw [hb, ih.2 hbs]
      rfl

theorem isSome_mapM_iff {α β : Type} {f : α → Option β} {as : List α} :
    (as.mapM f).isSome = true ↔ ∀ a ∈ as, (f a).isSome = true := by
  induction as with
  | nil => simp
  | cons a as ih =>
    rw [List.mapM_cons, List.forall_mem_cons, ← ih]
    cases f a with
    | none => simp
    | some b => cases as.mapM f <;> simp

namespace Table

variable {t : Table} {deep : Bool} {name : String} {r : Record} {fuel : Nat}

/-- The description of a name ends. Only a generated record that is shown in full leads on, to the
types of its members. -/
inductive Ends (t : Table) : Bool → String → Prop
  | plain {deep : Bool} {name : String} (h : Ty.isGenerated name = false) : Ends t deep name
  | missing {deep : Bool} {name : String} (h : t.find? name = none) : Ends t deep name
  | brief {name : String} : Ends t false name
  | full {name : String} {r : Record} (hr : t.find? name = some r)
      (h : ∀ m ∈ r.members.entries, Ends t m.2.type.isFunction m.2.type.leaf) : Ends t true name

/-! ### One level -/

theorem isSome_describeName_of_not_generated (h : Ty.isGenerated name = false) :
    (t.describeName fuel deep name).isSome = true := by
  unfold describeName
  rw [h]
  rfl

theorem isSome_describeName_of_missing (h : t.find? name = none) :
    (t.describeName fuel deep name).isSome = true := by
  unfold describeName
  split
  · rfl
  · rw [h]
    rfl

theorem isSome_describeName_brief : (t.describeName fuel false name).isSome = true := by
  unfold describeName
  split
  · rfl
  · cases t.find? name <;> rfl

theorem describeName_zero (hg : Ty.isGenerated name = true) (hr : t.find? name = some r) :
    t.describeName 0 true name = none := by
  unfold describeName
  rw [hg, hr]
  rfl

theorem isSome_describeName_succ_iff (hg : Ty.isGenerated name = true)
    (hr : t.find? name = some r) :
    (t.describeName (fuel + 1) true name).isSome = true ↔ ∀ m ∈ r.members.entries,
      (t.describeName fuel m.2.type.isFunction m.2.type.leaf).isSome = true := by
  rw [describeName.eq_def, hg, hr]
  simp only [Bool.not_true, Bool.false_eq_true, ↓reduceIte, Option.isSome_map, isSome_mapM_iff]

/-- A name whose description leads on is shown in full, and it is that of a generated record. -/
theorem describeName_cases (t : Table) (deep : Bool) (name : String) :
    (Ends t deep name ∧ ∀ fuel, (t.describeName fuel deep name).isSome = true) ∨
      deep = true ∧ Ty.isGenerated name = true ∧ ∃ r, t.find? name = some r := by
  cases hg : Ty.isGenerated name with
  | false => exact Or.inl ⟨.plain hg, fun _ => isSome_describeName_of_not_generated hg⟩
  | true =>
    cases hr : t.find? name with
    | none => exact Or.inl ⟨.missing hr, fun _ => isSome_describeName_of_missing hr⟩
    | some r =>
      cases deep with
      | false => exact Or.inl ⟨.brief, fun _ => isSome_describeName_brief⟩
      | true => exact Or.inr ⟨rfl, rfl, r, rfl⟩

/-! ### More fuel -/

theorem isSome_describeName_succ (h : (t.describeName fuel deep name).isSome = true) :
    (t.describeName (fuel + 1) deep name).isSome = true := by
  induction fuel generalizing deep name with
  | zero =>
    rcases describeName_cases t deep name with ⟨-, hall⟩ | ⟨rfl, hg, r, hr⟩
    · exact hall 1
    · rw [describeName_zero hg hr] at h
      cases h
  | succ fuel ih =>
    rcases describeName_cases t deep name with ⟨-, hall⟩ | ⟨rfl, hg, r, hr⟩
    · exact hall _
    · rw [isSome_describeName_succ_iff hg hr] at h ⊢
      exact fun m hm => ih (h m hm)

theorem isSome_describeName_mono {fuel' : Nat} (hle : fuel ≤ fuel')
    (h : (t.describeName fuel deep name).isSome = true) :
    (t.describeName fuel' deep name).isSome = true := by
  induction hle with
  | refl => exact h
  | step _ ih => exact isSome_describeName_succ ih

/-- What has a description with some fuel has one with as much fuel as there are records that were
not seen, if those that were seen have none with that fuel. -/
theorem isSome_describeName_of_unseen {seen : List String} {fuel' : Nat}
    (h : (t.describeName fuel deep name).isSome = true)
    (hseen : ∀ m ∈ seen, t.describeName fuel true m = none) (hle : t.unseen seen ≤ fuel') :
    (t.describeName fuel' deep name).isSome = true := by
  induction fuel generalizing deep name seen fuel' with
  | zero =>
    rcases describeName_cases t deep name with ⟨-, hall⟩ | ⟨rfl, hg, r, hr⟩
    · exact hall _
    · rw [describeName_zero hg hr] at h
      cases h
  | succ fuel ih =>
    have hless : ∀ m ∈ seen, t.describeName fuel true m = none := by
      intro m hm
      refine Option.not_isSome_iff_eq_none.1 fun hsome => ?_
      have := isSome_describeName_succ hsome
      rw [hseen m hm] at this
      cases this
    rcases describeName_cases t deep name with ⟨-, hall⟩ | ⟨rfl, hg, r, hr⟩
    · exact hall _
    · cases hname : (t.describeName fuel true name).isSome with
      | true => exact ih hname hless hle
      | false =>
        -- the record needs all its fuel, so its members are described without meeting it again
        have hnew : name ∉ seen := by
          intro hmem
          rw [hseen name hmem] at h
          cases h
        have hlt := t.unseen_cons_lt hnew hr
        obtain ⟨fuel', rfl⟩ : ∃ f, fuel' = f + 1 := ⟨fuel' - 1, by omega⟩
        rw [isSome_describeName_succ_iff hg hr] at h ⊢
        have hseen' : ∀ k ∈ name :: seen, t.describeName fuel true k = none := by
          intro k hk
          rcases List.mem_cons.1 hk with rfl | hk
          · simpa using hname
          · exact hless k hk
        exact fun m hm => ih (h m hm) hseen' (by omega)

/-! ### Ends -/

theorem ends_of_isSome_describeName (h : (t.describeName fuel deep name).isSome = true) :
    Ends t deep name := by
  induction fuel generalizing deep name with
  | zero =>
    rcases describeName_cases t deep name with ⟨hends, -⟩ | ⟨rfl, hg, r, hr⟩
    · exact hends
    · rw [describeName_zero hg hr] at h
      cases h
  | succ fuel ih =>
    rcases describeName_cases t deep name with ⟨hends, -⟩ | ⟨rfl, hg, r, hr⟩
    · exact hends
    · rw [isSome_describeName_succ_iff hg hr] at h
      exact .full hr fun m hm => ih (h m hm)

/-- Finitely many descriptions get along with the same fuel. -/
theorem exists_common_fuel {α : Type} (as : List α) (shown : α → Bool × String)
    (h : ∀ a ∈ as, ∃ fuel, (t.describeName fuel (shown a).1 (shown a).2).isSome = true) :
    ∃ fuel, ∀ a ∈ as, (t.describeName fuel (shown a).1 (shown a).2).isSome = true := by
  induction as with
  | nil => exact ⟨0, by simp⟩
  | cons a as ih =>
    obtain ⟨f, hf⟩ := h a List.mem_cons_self
    obtain ⟨g, hg⟩ := ih fun b hb => h b (List.mem_cons_of_mem _ hb)
    refine ⟨max f g, fun b hb => ?_⟩
    rcases List.mem_cons.1 hb with rfl | hb
    · exact isSome_describeName_mono (Nat.le_max_left _ _) hf
    · exact isSome_describeName_mono (Nat.le_max_right _ _) (hg b hb)

theorem Ends.exists_fuel (h : Ends t deep name) :
    ∃ fuel, (t.describeName fuel deep name).isSome = true := by
  induction h with
  | plain hg => exact ⟨0, isSome_describeName_of_not_generated hg⟩
  | missing hr => exact ⟨0, isSome_describeName_of_missing hr⟩
  | brief => exact ⟨0, isSome_describeName_brief⟩
  | @full name r hr _ ih =>
    obtain ⟨fuel, hfuel⟩ := exists_common_fuel r.members.entries
      (fun m => (m.2.type.isFunction, m.2.type.leaf)) ih
    cases hg : Ty.isGenerated name with
    | false => exact ⟨0, isSome_describeName_of_not_generated hg⟩
    | true => exact ⟨fuel + 1, (isSome_describeName_succ_iff hg hr).2 hfuel⟩

/-- **Enough fuel**: as many levels as there are records show every description that ends. -/
theorem isSome_describeName_iff :
    (t.describeName t.size deep name).isSome = true ↔ Ends t deep name := by
  constructor
  · exact ends_of_isSome_describeName
  · intro h
    obtain ⟨fuel, hfuel⟩ := h.exists_fuel
    have hnone : ∀ m ∈ ([] : List String), t.describeName fuel true m = none := by simp
    exact isSome_describeName_of_unseen hfuel hnone (t.unseen_le_size [])

/-- A type shown by its result has a description if and only if that of its leaf ends. -/
theorem isSome_describe?_iff {type : Ty} :
    (t.describe? type false true).isSome = true ↔ Ends t true type.leaf := by
  cases type with
  | named name => exact isSome_describeName_iff
  | function r params => exact isSome_describeName_iff

end Table

end ContentAssist
