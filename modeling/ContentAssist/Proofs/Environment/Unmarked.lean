import ContentAssist.Proofs.Environment.Worded
import ContentAssist.Proofs.Text.Pieces

/-! # Unmarked words

Internal names bear marks: a generated name a tilde, a derived one a question mark. No identifier of the
script language has such a character, and no word of the catalog.

* `Ty.isInternal`: the names that are made up for records;
* `Unmarked`: a word without marks;
* `unmarked_catalog`: the words of the catalog. -/

namespace ContentAssist

variable {x y : String} {c : Char}

/-- The name was made up for a record. -/
def Ty.isInternal (name : String) : Bool := isGenerated name || isDerived name

/-- The characters by which internal names are told from others. -/
def nameMarks : List Char := ['?', '~']

/-- The word has no mark, like all identifiers of the script language. -/
def Unmarked (x : String) : Prop := ∀ c ∈ x.toList, c ∉ nameMarks

instance (x : String) : Decidable (Unmarked x) := List.decidableBAll (· ∉ nameMarks) x.toList

theorem Unmarked.append (hx : Unmarked x) (hy : Unmarked y) : Unmarked (x ++ y) := by
  intro c hc
  rw [String.toList_append, List.mem_append] at hc
  exact hc.elim (hx c) (hy c)

theorem Unmarked.joined {parts : List String} (hy : Unmarked y) (h : ∀ p ∈ parts, Unmarked p) :
    Unmarked (Text.joined y parts) := by
  intro c hc
  rcases Text.mem_joined hc with hc | ⟨p, hp, hc⟩
  · exact hy c hc
  · exact h p hp c hc

theorem exists_mark_of_isInternal (h : Ty.isInternal x = true) : ∃ c ∈ x.toList, c ∈ nameMarks := by
  rcases Bool.or_eq_true_iff.1 h with h | h
  · obtain ⟨rest, rfl⟩ := Text.startsWith_iff.1 h
    exact ⟨'~', by simp [Ty.generatedMark], by decide⟩
  · obtain ⟨rest, rfl⟩ := Text.startsWith_iff.1 h
    exact ⟨'?', by simp, by decide⟩

theorem Unmarked.not_isDerived (h : Unmarked x) : Ty.isDerived x = false := by
  refine Bool.eq_false_iff.2 fun hd => ?_
  obtain ⟨c, hc, hmark⟩ := exists_mark_of_isInternal (Bool.or_eq_true_iff.2 (Or.inr hd))
  exact h c hc hmark

/-! ### The words of a type that was read -/

namespace Ty

theorem mem_of_mem_readParams {s : List Char} (hx : x ∈ readParams s) (hc : c ∈ x.toList) : c ∈ s := by
  unfold readParams at hx
  split at hx
  · cases hx
  · obtain ⟨p, hp, rfl⟩ := List.mem_map.1 hx
    rw [String.toList_ofList] at hc
    exact (Text.infix_of_mem_pieces hp).subset hc

theorem mem_of_mem_words_unnest {levels : Nat} {body : List Char} (hx : x ∈ (unnest levels body).words)
    (hc : c ∈ x.toList) : c ∈ body := by
  induction levels generalizing body with
  | zero =>
    obtain rfl := List.mem_singleton.1 hx
    rwa [String.toList_ofList] at hc
  | succ levels ih =>
    rw [unnest] at hx
    cases hs : Text.splitLast ':' body with
    | none =>
      rw [hs] at hx
      exact ih ((List.mem_append.1 hx).resolve_right List.not_mem_nil)
    | some parts =>
      obtain ⟨before, after⟩ := parts
      rw [hs] at hx
      rw [(Text.splitLast_eq_some hs).1]
      rcases List.mem_append.1 hx with hx | hx
      · exact List.mem_append_left _ (ih hx)
      · exact List.mem_append_right _ (List.mem_cons_of_mem _ (mem_of_mem_readParams hx hc))

/-- The characters of a text of a type behind its question marks. -/
def body (s : List Char) : List Char := s.dropWhile (· = '?')

/-- The words of a type are unmarked if the text that it was read from has no mark in its body. -/
theorem unmarked_of_mem_words_ofText {s : String} (hs : ∀ c ∈ body s.toList, c ∉ nameMarks)
    (hx : x ∈ (ofText s).words) : Unmarked x := by
  have hproto : Text.occurs protoSuffix.toList s.toList = false := by
    refine Bool.eq_false_iff.2 fun h => ?_
    -- the tilde would stand in the body
    obtain ⟨front, rest, hfront⟩ := Text.occurs_iff.1 h
    have htilde : '~' ∈ s.toList := by
      rw [← hfront]
      exact List.mem_append_left _ (List.mem_append_right _ (by decide))
    rw [← @List.takeWhile_append_dropWhile _ (· = '?') s.toList, List.mem_append] at htilde
    rcases htilde with htilde | htilde
    · exact absurd (List.mem_takeWhile_imp htilde) (by decide)
    · exact hs _ htilde (by decide)
  unfold ofText ofChars at hx
  rw [hproto, if_neg Bool.false_ne_true] at hx
  exact fun c hc => hs c (mem_of_mem_words_unnest hx hc)

end Ty

/-! ### The catalog -/

/-- A member of the catalog: its name is unmarked, and so is the body of the text of its type. -/
def UnmarkedEntry (e : String × String) : Prop :=
  Unmarked e.1 ∧ ∀ c ∈ Ty.body e.2.toList, c ∉ nameMarks

instance (e : String × String) : Decidable (UnmarkedEntry e) :=
  haveI := List.decidableBAll (· ∉ nameMarks) (Ty.body e.2.toList)
  inferInstanceAs (Decidable (Unmarked e.1 ∧ _))

theorem unmarked_of_members {entries : List (String × String)} (h : ∀ e ∈ entries, UnmarkedEntry e)
    {r : Record} (hr : r.members = Catalog.members entries)
    (hproto : ∀ d, r.proto = some d → d.type = .object) : ∀ x ∈ r.words, Unmarked x := by
  have hentry : ∀ m ∈ r.members.entries, ∃ e ∈ entries, (some e.1, { type := .ofText e.2 }) = m := by
    intro m hm
    rw [hr] at hm
    exact List.mem_map.1 hm
  intro x hx
  rcases List.mem_append.1 hx with hx | hx
  · obtain ⟨key, hkey, hid⟩ := List.mem_filterMap.1 hx
    obtain ⟨m, hm, rfl⟩ := List.mem_map.1 hkey
    obtain ⟨e, he, rfl⟩ := hentry m hm
    cases hid
    exact (h e he).1
  · obtain ⟨d, hd, hx⟩ := List.mem_flatMap.1 hx
    rcases List.mem_append.1 hd with hd | hd
    · obtain ⟨m, hm, rfl⟩ := List.mem_map.1 hd
      obtain ⟨e, he, rfl⟩ := hentry m hm
      exact Ty.unmarked_of_mem_words_ofText (h e he).2 hx
    · rw [hproto d (Option.mem_toList.1 hd)] at hx
      obtain rfl := List.mem_singleton.1 hx
      decide

/-- **The words of the catalog are unmarked.** -/
theorem unmarked_catalog : ∀ x ∈ Catalog.words, Unmarked x := by
  have hglobals : ∀ e ∈ Catalog.globalMembers, UnmarkedEntry e := by decide +kernel
  have hbuiltins : ∀ r ∈ Catalog.builtinMembers, ∀ e ∈ r.2, UnmarkedEntry e := by decide +kernel
  have hown : ∀ x ∈ "" :: "this" :: "arguments" :: Catalog.table.keys, Unmarked x := by decide +kernel
  intro x hx
  rcases List.mem_append.1 hx with hx | hx
  · exact hown x hx
  · obtain ⟨r, hr, hx⟩ := List.mem_flatMap.1 hx
    rcases List.mem_cons.1 hr with rfl | hr
    · refine unmarked_of_members hglobals rfl ?_ x hx
      rintro d ⟨⟩
      rfl
    · obtain ⟨e, he, rfl⟩ := List.mem_map.1 hr
      obtain ⟨b, hb, rfl⟩ := List.mem_map.1 he
      refine unmarked_of_members (hbuiltins b hb) rfl ?_ x hx
      intro d hd
      change (if b.1 = "Object" then none else some { type := .object }) = some d at hd
      split at hd
      · cases hd
      · cases hd
        rfl

end ContentAssist
