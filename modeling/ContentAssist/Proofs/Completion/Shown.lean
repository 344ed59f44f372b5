import ContentAssist.Proofs.Completion.Description
import ContentAssist.Proofs.Text.Pieces

/-! # The names in a description

A description consists of names and punctuation. The names are those of members, and the names that
types end in; a generated record is shown by its members, so its own name is not among them.

* `Shows`, `ShowsType`: the names that a description shows for types;
* `infix_of_showsType`: each of them stands in the description;
* `mem_describe?`: any other character is punctuation, or is one of the name of a member or
  parameter. -/

namespace ContentAssist

/-- What is computed for a list has one element for each of the list. -/
theorem mem_of_mapM {α β : Type} {f : α → Option β} {as : List α} {bs : List β}
    (h : as.mapM f = some bs) :
    (∀ a ∈ as, ∃ b ∈ bs, f a = some b) ∧ ∀ b ∈ bs, ∃ a ∈ as, f a = some b := by
  have hall := mapM_eq_some_iff.1 h
  clear h
  induction hall with
  | nil => simp
  | @cons a b as bs hab _ ih =>
    obtain ⟨hleft, hright⟩ := ih
    constructor
    · intro c hc
      rcases List.mem_cons.1 hc with rfl | hc
      · exact ⟨b, List.mem_cons_self, hab⟩
      · obtain ⟨d, hd, hcd⟩ := hleft c hc
        exact ⟨d, List.mem_cons_of_mem _ hd, hcd⟩
    · intro d hd
      rcases List.mem_cons.1 hd with rfl | hd
      · exact ⟨a, List.mem_cons_self, hab⟩
      · obtain ⟨c, hc, hcd⟩ := hright d hd
        exact ⟨c, List.mem_cons_of_mem _ hc, hcd⟩

/-- A parameter at some level of the type has the character in its name. -/
def Ty.InParam (c : Char) : Ty → Prop
  | .named _ => False
  | .function r params => (∃ p ∈ params, c ∈ p.toList) ∨ r.InParam c

namespace Table

variable {t : Table} {deep : Bool} {name x : String} {r : Record} {fuel : Nat} {s : String} {c : Char}
  {type : Ty} {signature : Bool}

/-- The characters of a description that are part of no name. -/
def punctuation : List Char := " :,.()->\x7b\x7d".toList

/-- The description of the name shows `x`: it is the name itself, or shown for a member of the
generated record that has the name. -/
inductive Shows (t : Table) (x : String) : Bool → String → Prop
  | name {deep : Bool} (h : Ty.isGenerated x = false) : Shows t x deep x
  | member {name : String} {r : Record} {m : Name × Definition} (hg : Ty.isGenerated name = true)
      (hr : t.find? name = some r) (hm : m ∈ r.members.entries)
      (h : Shows t x m.2.type.isFunction m.2.type.leaf) : Shows t x true name

/-- The description of the type shows `x`. -/
def ShowsType (t : Table) (type : Ty) (signature deep : Bool) (x : String) : Prop :=
  match type with
  | .named name => t.Shows x deep name
  | .function r _ => t.Shows x (!signature) r.leaf

/-! ### Names stand in descriptions -/

theorem infix_braced {parts : List String} {part : String} (h : part ∈ parts) :
    part.toList <:+: (braced parts).toList := by
  have hjoined : part.toList <:+: (Text.joined ", " parts).toList := Text.infix_joined h
  unfold braced
  rw [String.toList_append, String.toList_append]
  exact (hjoined.trans (List.suffix_append _ _).isInfix).trans (List.prefix_append _ _).isInfix

theorem infix_of_shows (h : t.Shows x deep name) (hs : t.describeName fuel deep name = some s) :
    x.toList <:+: s.toList := by
  induction h generalizing fuel s with
  | name hplain =>
    unfold describeName at hs
    rw [hplain] at hs
    cases hs
    exact List.infix_rfl
  | @member name r m hg hr hm _ ih =>
    cases fuel with
    | zero =>
      rw [describeName_zero hg hr] at hs
      cases hs
    | succ fuel =>
      rw [describeName.eq_def, hg, hr] at hs
      obtain ⟨parts, hparts, rfl⟩ := Option.map_eq_some_iff.1 hs
      obtain ⟨part, hpart, hm⟩ := (mem_of_mapM hparts).1 m hm
      obtain ⟨shown, hshown, rfl⟩ := Option.map_eq_some_iff.1 hm
      refine ((ih hshown).trans ?_).trans (infix_braced hpart)
      rw [String.toList_append]
      exact (List.suffix_append _ _).isInfix

theorem infix_of_showsType (h : t.ShowsType type signature deep x)
    (hs : t.describe? type signature deep = some s) : x.toList <:+: s.toList := by
  cases type with
  | named name => exact infix_of_shows h hs
  | function r params =>
    cases signature with
    | false => exact infix_of_shows h hs
    | true =>
      obtain ⟨shown, hshown, rfl⟩ := Option.map_eq_some_iff.1 hs
      rw [String.toList_append]
      exact (infix_of_shows h hshown).trans (List.suffix_append _ _).isInfix

/-! ### The other characters -/

theorem mem_punctuation_of_sep (h : c ∈ ", ".toList) : c ∈ punctuation := by
  have hall : ", ".toList ⊆ punctuation := by decide
  exact hall h

theorem mem_braced {parts : List String} (h : c ∈ (braced parts).toList) :
    c ∈ punctuation ∨ ∃ part ∈ parts, c ∈ part.toList := by
  have hbraces : "\x7b ".toList ⊆ punctuation ∧ " \x7d".toList ⊆ punctuation := by decide
  unfold braced at h
  rw [String.toList_append, String.toList_append, List.mem_append, List.mem_append] at h
  rcases h with (h | h) | h
  · exact Or.inl (hbraces.1 h)
  · exact (Text.mem_joined h).imp_left mem_punctuation_of_sep
  · exact Or.inl (hbraces.2 h)

/-- A member of some record of the table has the character in its name. -/
def InMemberName (t : Table) (c : Char) : Prop :=
  ∃ r ∈ t.values, ∃ key, some key ∈ r.members.keys ∧ c ∈ key.toList

theorem inMemberName_of_mem_shownName (hr : t.find? name = some r) {key : Name}
    (hkey : key ∈ r.members.keys) (hc : c ∈ (shownName key).toList) : t.InMemberName c := by
  cases key with
  | none => exact absurd hc List.not_mem_nil
  | some key => exact ⟨r, t.mem_values_of_find? hr, key, hkey, hc⟩

/-- What the description of a name is made of, unless it goes on to the types of members. -/
theorem mem_describeName_of_flat
    (h : Ty.isGenerated name = false ∨ t.find? name = none ∨ deep = false)
    (hs : t.describeName fuel deep name = some s) (hc : c ∈ s.toList) :
    c ∈ punctuation ∨ t.InMemberName c ∨ ∃ x, t.Shows x deep name ∧ c ∈ x.toList := by
  have hdots : " : \x7b...\x7d".toList ⊆ punctuation := by decide
  rw [describeName.eq_def] at hs
  cases hg : Ty.isGenerated name with
  | false =>
    rw [hg] at hs
    cases hs
    exact Or.inr (Or.inr ⟨name, .name hg, hc⟩)
  | true =>
    have hflat := h.resolve_left (by simp [hg])
    rw [hg] at hs
    cases hr : t.find? name with
    | none =>
      rw [hr] at hs
      cases hs
      exact Or.inl ((mem_braced hc).resolve_right (by simp))
    | some r =>
      obtain rfl := hflat.resolve_left (by simp [hr])
      rw [hr] at hs
      cases hs
      rcases mem_braced hc with hc | ⟨part, hpart, hc⟩
      · exact Or.inl hc
      · obtain ⟨key, hkey, rfl⟩ := List.mem_map.1 hpart
        rw [String.toList_append, List.mem_append] at hc
        rcases hc with hc | hc
        · exact Or.inr (Or.inl (inMemberName_of_mem_shownName hr hkey hc))
        · exact Or.inl (hdots hc)

theorem flat_or_full (t : Table) (deep : Bool) (name : String) :
    (Ty.isGenerated name = false ∨ t.find? name = none ∨ deep = false) ∨
      (Ty.isGenerated name = true ∧ (∃ r, t.find? name = some r) ∧ deep = true) := by
  cases Ty.isGenerated name <;> cases t.find? name <;> cases deep <;> simp

/-- **What the description of a name is made of**: punctuation, names of members, and the names that
it shows. -/
theorem mem_describeName (hs : t.describeName fuel deep name = some s) (hc : c ∈ s.toList) :
    c ∈ punctuation ∨ t.InMemberName c ∨ ∃ x, t.Shows x deep name ∧ c ∈ x.toList := by
  have hcolon : " : ".toList ⊆ punctuation := by decide
  induction fuel generalizing deep name s with
  | zero =>
    rcases flat_or_full t deep name with hflat | ⟨hg, ⟨r, hr⟩, rfl⟩
    · exact mem_describeName_of_flat hflat hs hc
    · rw [describeName_zero hg hr] at hs
      cases hs
  | succ fuel ih =>
    rcases flat_or_full t deep name with hflat | ⟨hg, ⟨r, hr⟩, rfl⟩
    · exact mem_describeName_of_flat hflat hs hc
    · rw [describeName.eq_def, hg, hr] at hs
      obtain ⟨parts, hparts, rfl⟩ := Option.map_eq_some_iff.1 hs
      rcases mem_braced hc with hc | ⟨part, hpart, hc⟩
      · exact Or.inl hc
      · obtain ⟨m, hm, hpart⟩ := (mem_of_mapM hparts).2 part hpart
        obtain ⟨shown, hshown, rfl⟩ := Option.map_eq_some_iff.1 hpart
        rw [String.toList_append, String.toList_append, List.mem_append, List.mem_append] at hc
        rcases hc with (hc | hc) | hc
        · exact Or.inr (Or.inl (inMemberName_of_mem_shownName hr (List.mem_map.2 ⟨m, hm, rfl⟩) hc))
        · exact Or.inl (hcolon hc)
        · -- what is shown for a member is shown for the record
          refine (ih hshown hc).imp_right (Or.imp_right ?_)
          rintro ⟨x, hx, hc⟩
          exact ⟨x, .member hg hr hm hx, hc⟩

/-! ### Signatures -/

/-- The characters of a signature in front of its result. -/
theorem mem_signatureHead (hc : c ∈ (signatureHead type).toList) : c ∈ punctuation ∨ type.InParam c := by
  have hopen : "(".toList ⊆ punctuation := by decide
  have hsep : ",".toList ⊆ punctuation := by decide
  have harrow : ") -> ".toList ⊆ punctuation := by decide
  induction type with
  | named name => exact absurd hc List.not_mem_nil
  | function r params ih =>
    rw [signatureHead] at hc
    simp only [String.toList_append, List.mem_append] at hc
    rcases hc with ((hc | hc) | hc) | hc
    · exact Or.inl (hopen hc)
    · exact (Text.mem_joined hc).imp (@hsep c) Or.inl
    · exact Or.inl (harrow hc)
    · exact (ih hc).imp_right Or.inr

/-- **What a description is made of**: punctuation, names of members and parameters, and the names that
it shows. -/
theorem mem_describe? (hs : t.describe? type signature deep = some s) (hc : c ∈ s.toList) :
    c ∈ punctuation ∨ t.InMemberName c ∨ type.InParam c ∨
      ∃ x, t.ShowsType type signature deep x ∧ c ∈ x.toList := by
  cases type with
  | named name => exact (mem_describeName hs hc).imp_right (Or.imp_right Or.inr)
  | function r params =>
    cases signature with
    | false => exact (mem_describeName hs hc).imp_right (Or.imp_right Or.inr)
    | true =>
      obtain ⟨shown, hshown, rfl⟩ := Option.map_eq_some_iff.1 hs
      rw [String.toList_append, List.mem_append] at hc
      rcases hc with hc | hc
      · exact (mem_signatureHead hc).imp_right fun hp => Or.inr (Or.inl hp)
      · exact (mem_describeName hshown hc).imp_right (Or.imp_right Or.inr)

end Table

end ContentAssist
