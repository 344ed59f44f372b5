import ContentAssist.Ty
import Mathlib.Data.List.Infix
import Mathlib.Data.List.TakeWhile

/-! # Reading the text of a type back

The text of a function type has a question mark in front and a colon behind the result. A text with
fewer colons than question marks is read as well; what is then written has the missing colons, and is
read as the same type.

* `ofText_text_ofText`: a type that was read is read again from its own text;
* `text_ofText_text`: the text of a type stays the same when it is read and written, if the name at
  the leaf can be read (`HasReadableLeaf`). -/

namespace ContentAssist

namespace Text

theorem occurs_iff {p s : List Char} : occurs p s = true ↔ p <:+: s := by
  induction s with
  | nil => simp [occurs]
  | cons c rest ih =>
    rw [occurs, Bool.or_eq_true, List.isPrefixOf_iff_prefix, ih, List.infix_cons_iff]

theorem infix_of_infix_append_cons {p x y : List Char} {c : Char} (hc : c ∉ p)
    (h : p <:+: x ++ c :: y) : p <:+: x ∨ p <:+: y := by
  induction x with
  | nil =>
    rcases List.infix_cons_iff.1 h with h | h
    · cases p with
      | nil => exact Or.inl (List.nil_infix)
      | cons d p =>
        obtain ⟨rfl, -⟩ := List.cons_prefix_cons.1 h
        exact absurd List.mem_cons_self hc
    · exact Or.inr h
  | cons a x ih =>
    rcases List.infix_cons_iff.1 h with h | h
    · refine Or.inl (List.IsPrefix.isInfix ?_)
      rcases List.prefix_or_prefix_of_prefix h (List.prefix_append (a :: x) (c :: y)) with hp | hp
      · exact hp
      · obtain ⟨q, rfl⟩ := hp
        have hq : q <+: c :: y := (List.prefix_append_right_inj (a :: x)).1 h
        cases q with
        | nil => simp
        | cons d q =>
          obtain ⟨rfl, -⟩ := List.cons_prefix_cons.1 hq
          exact absurd (List.mem_append_right _ List.mem_cons_self) hc
    · exact (ih h).imp_left fun h => h.trans (List.suffix_cons a x).isInfix

end Text

namespace Ty

/-! ### Levels and colons -/

/-- The number of question marks that a text begins with. -/
def marks (s : List Char) : Nat := (s.takeWhile (· = '?')).length

/-- The text of a type behind its question marks, as it is written: with a colon for each level. -/
def fillColons : Nat → List Char → List Char
  | 0, body => body
  | levels + 1, body =>
    match Text.splitLast ':' body with
    | none => fillColons levels body ++ [':']
    | some (before, after) => fillColons levels before ++ ':' :: after

theorem join_readParams (s : List Char) :
    Text.join [','] ((readParams s).map String.toList) = s := by
  unfold readParams
  split
  · rename_i h
    rw [List.isEmpty_iff.1 h]
    rfl
  · have hid : String.toList ∘ String.ofList = id := funext fun _ => String.toList_ofList
    rw [List.map_map, hid, List.map_id, Text.join_pieces]

theorem chars_unnest (levels : Nat) (body : List Char) :
    (unnest levels body).chars = List.replicate levels '?' ++ fillColons levels body := by
  induction levels generalizing body with
  | zero => simp [unnest, chars, fillColons]
  | succ levels ih =>
    rw [unnest, fillColons]
    cases Text.splitLast ':' body with
    | none => simp [chars, ih, List.replicate_succ, Text.join]
    | some parts =>
      obtain ⟨before, after⟩ := parts
      simp [chars, ih, List.replicate_succ, join_readParams]

theorem unnest_fillColons (levels : Nat) (body : List Char) :
    unnest levels (fillColons levels body) = unnest levels body := by
  induction levels generalizing body with
  | zero => rfl
  | succ levels ih =>
    rw [fillColons, unnest, unnest]
    cases hsplit : Text.splitLast ':' body with
    | none =>
      simp only [Text.splitLast_append List.not_mem_nil, ih]
      rfl
    | some parts =>
      obtain ⟨before, after⟩ := parts
      simp only [Text.splitLast_append (Text.splitLast_eq_some hsplit).2, ih]

theorem fillColons_eq_self {levels : Nat} {body : List Char} (h : levels ≤ body.count ':') :
    fillColons levels body = body := by
  induction levels generalizing body with
  | zero => rfl
  | succ levels ih =>
    rw [fillColons]
    cases hsplit : Text.splitLast ':' body with
    | none =>
      have hcount := List.count_eq_zero.2 (Text.splitLast_eq_none_iff.1 hsplit)
      omega
    | some parts =>
      obtain ⟨before, after⟩ := parts
      obtain ⟨rfl, hafter⟩ := Text.splitLast_eq_some hsplit
      rw [List.count_append, List.count_cons_self, List.count_eq_zero.2 hafter] at h
      simp only [ih (show levels ≤ before.count ':' by omega)]

theorem infix_of_infix_fillColons {p : List Char} (hp : ':' ∉ p) (levels : Nat) {body : List Char}
    (h : p <:+: fillColons levels body) : p <:+: body := by
  induction levels generalizing body with
  | zero => exact h
  | succ levels ih =>
    rw [fillColons] at h
    cases hsplit : Text.splitLast ':' body with
    | none =>
      simp only [hsplit] at h
      rcases Text.infix_of_infix_append_cons hp h with h | h
      · exact ih h
      · rw [List.infix_nil.1 h]
        exact List.nil_infix
    | some parts =>
      obtain ⟨before, after⟩ := parts
      obtain ⟨rfl, -⟩ := Text.splitLast_eq_some hsplit
      simp only [hsplit] at h
      rcases Text.infix_of_infix_append_cons hp h with h | h
      · exact (ih h).trans (List.prefix_append _ _).isInfix
      · exact h.trans ((List.suffix_cons _ _).trans (List.suffix_append _ _)).isInfix

theorem head_fillColons (levels : Nat) {body : List Char} (h : body.head? ≠ some '?') :
    (fillColons levels body).head? ≠ some '?' := by
  induction levels generalizing body with
  | zero => exact h
  | succ levels ih =>
    have hclosed : ∀ {s : List Char} (after : List Char), s.head? ≠ some '?' →
        (s ++ ':' :: after).head? ≠ some '?' := by
      intro s after hs
      cases s with
      | nil => simp
      | cons c s => exact hs
    rw [fillColons]
    cases hsplit : Text.splitLast ':' body with
    | none => exact hclosed _ (ih h)
    | some parts =>
      obtain ⟨before, after⟩ := parts
      obtain ⟨rfl, -⟩ := Text.splitLast_eq_some hsplit
      refine hclosed _ (ih fun hbefore => h ?_)
      rw [List.head?_append, hbefore]
      rfl

/-! ### Reading what was written -/

/-- Every text is a number of question marks and a body that begins with none. -/
theorem exists_body (s : List Char) :
    ∃ body, s = List.replicate (marks s) '?' ++ body ∧ body.head? ≠ some '?' := by
  refine ⟨s.dropWhile (· = '?'), ?_, ?_⟩
  · have hmarks : s.takeWhile (· = '?') = List.replicate (marks s) '?' :=
      List.eq_replicate_iff.2 ⟨rfl, fun c hc => by simpa using List.mem_takeWhile_imp hc⟩
    rw [← hmarks, List.takeWhile_append_dropWhile]
  · intro hhead
    have h := List.head?_dropWhile_not (fun c : Char => decide (c = '?')) s
    rw [hhead] at h
    simp at h

theorem ofChars_eq_unnest {levels : Nat} {body : List Char} (hbody : body.head? ≠ some '?')
    (hproto : ¬ protoSuffix.toList <:+: List.replicate levels '?' ++ body) :
    ofChars (List.replicate levels '?' ++ body) = unnest levels body := by
  have htake : body.takeWhile (· = '?') = [] := by
    cases body with
    | nil => rfl
    | cons c rest => exact List.takeWhile_cons_of_neg (by simpa using hbody)
  have hdrop : body.dropWhile (· = '?') = body := by
    cases body with
    | nil => rfl
    | cons c rest => exact List.dropWhile_cons_of_neg (by simpa using hbody)
  have hall : ∀ c ∈ List.replicate levels '?', decide (c = '?') = true := by
    intro c hc
    exact decide_eq_true (List.eq_of_mem_replicate hc)
  rw [ofChars, if_neg (by rwa [Text.occurs_iff]), List.takeWhile_append_of_pos hall,
    List.dropWhile_append_of_pos hall, htake, hdrop, List.append_nil, List.length_replicate]

theorem mark_not_mem_protoSuffix : '?' ∉ protoSuffix.toList := by decide

theorem colon_not_mem_protoSuffix : ':' ∉ protoSuffix.toList := by decide

theorem infix_of_infix_replicate_append {levels : Nat} {body : List Char}
    (h : protoSuffix.toList <:+: List.replicate levels '?' ++ body) :
    protoSuffix.toList <:+: body := by
  induction levels with
  | zero => exact h
  | succ levels ih =>
    rcases Text.infix_of_infix_append_cons (x := []) mark_not_mem_protoSuffix h with h | h
    · exact absurd (List.infix_nil.1 h) (by decide)
    · exact ih h

/-- **A type that was read** is read again from its own text. -/
theorem ofChars_chars_ofChars (s : List Char) : ofChars (ofChars s).chars = ofChars s := by
  by_cases hs : protoSuffix.toList <:+: s
  · rw [show ofChars s = named (String.ofList s) from if_pos (Text.occurs_iff.2 hs), chars,
      String.toList_ofList]
    exact if_pos (Text.occurs_iff.2 hs)
  · obtain ⟨body, hbody, hhead⟩ := exists_body s
    generalize marks s = levels at hbody
    subst hbody
    have hfilled : ¬ protoSuffix.toList <:+: List.replicate levels '?' ++ fillColons levels body := by
      intro h
      have hin := infix_of_infix_fillColons colon_not_mem_protoSuffix levels
        (infix_of_infix_replicate_append h)
      exact hs (hin.trans (List.suffix_append _ _).isInfix)
    rw [ofChars_eq_unnest hhead hs, chars_unnest,
      ofChars_eq_unnest (head_fillColons levels hhead) hfilled, unnest_fillColons]

/-- A text that can be read in full is written again as it stands. -/
theorem chars_ofChars {s : List Char}
    (h : protoSuffix.toList <:+: s ∨ marks s ≤ s.count ':') : (ofChars s).chars = s := by
  by_cases hs : protoSuffix.toList <:+: s
  · rw [show ofChars s = named (String.ofList s) from if_pos (Text.occurs_iff.2 hs), chars,
      String.toList_ofList]
  · have hle := h.resolve_left hs
    obtain ⟨body, hbody, hhead⟩ := exists_body s
    generalize marks s = levels at hbody hle
    subst hbody
    rw [List.count_append, List.count_eq_zero.2 (by simp), Nat.zero_add] at hle
    rw [ofChars_eq_unnest hhead hs, chars_unnest, fillColons_eq_self hle]

/-- The name at the leaf can be read in full: it begins with no question mark, or is that of a
prototype object, or has a colon for each question mark in front. -/
def HasReadableLeaf (t : Ty) : Prop :=
  Text.startsWith "?" t.leaf = false ∨ Text.occurs protoSuffix.toList t.leaf.toList = true ∨
    marks t.leaf.toList ≤ t.leaf.toList.count ':'

theorem leaf_infix_chars (t : Ty) : t.leaf.toList <:+: t.chars := by
  induction t with
  | named name => exact List.infix_rfl
  | function r params ih =>
    rw [chars]
    exact ih.trans ((List.suffix_cons _ _).isInfix.trans (List.prefix_append _ _).isInfix)

theorem marks_eq_zero {s : String} (h : Text.startsWith "?" s = false) : marks s.toList = 0 := by
  unfold Text.startsWith at h
  unfold marks
  generalize s.toList = cs at h
  cases cs with
  | nil => rfl
  | cons c rest =>
    have hc : c ≠ '?' := by
      rintro rfl
      simp at h
    rw [List.takeWhile_cons_of_neg (by simpa using hc), List.length_nil]

theorem marks_append_colon (s s' : List Char) : marks (s ++ ':' :: s') = marks s := by
  induction s with
  | nil => rfl
  | cons c s ih =>
    by_cases hc : c = '?'
    · simpa [marks, hc] using ih
    · simp [marks, hc]

/-- Each function level adds a question mark in front and at least one colon. -/
theorem marks_le_count_chars {t : Ty} (h : marks t.leaf.toList ≤ t.leaf.toList.count ':') :
    marks t.chars ≤ t.chars.count ':' := by
  induction t with
  | named name => exact h
  | function r params ih =>
    have hmarks : marks (function r params).chars = marks r.chars + 1 := by
      rw [← marks_append_colon r.chars (Text.join [','] (params.map String.toList))]
      rfl
    have hle := ih h
    rw [hmarks, chars, List.cons_append, List.count_cons_of_ne (by decide), List.count_append,
      List.count_cons_self]
    omega

theorem chars_ofChars_chars {t : Ty} (ht : t.HasReadableLeaf) : (ofChars t.chars).chars = t.chars := by
  refine chars_ofChars ?_
  rcases ht with ht | ht | ht
  · refine Or.inr (marks_le_count_chars ?_)
    rw [marks_eq_zero ht]
    exact Nat.zero_le _
  · exact Or.inl ((Text.occurs_iff.1 ht).trans t.leaf_infix_chars)
  · exact Or.inr (marks_le_count_chars ht)

theorem ofText_text_ofText (s : String) : ofText (ofText s).text = ofText s := by
  unfold ofText text
  rw [String.toList_ofList, ofChars_chars_ofChars]

theorem text_ofText_text {t : Ty} (ht : t.HasReadableLeaf) : (ofText t.text).text = t.text := by
  unfold ofText text
  rw [String.toList_ofList, chars_ofChars_chars ht]

end Ty

end ContentAssist
