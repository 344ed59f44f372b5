import ContentAssist.Proofs.Text.Pieces

/-! # Which types and texts survive the type codec

The text of a type has no brackets: what a level of function returns ends at the last colon that is
left, its parameters are separated by commas, a list with no parameter and the list with one empty
parameter look alike, and a text with `~proto` in it is never taken apart.

* `Nest.exists_unnest`: a nest of functions with a plain leaf and separable parameters is read back
  level by level;
* `readable_ofText`: nothing but such types, and names that are not taken apart, is ever read;
* `le_count_fillColons`: what is written for a text has a colon for each of its levels, so a text with
  fewer of them is not written again;
* `type_codec_exact`: exactly which types and which texts go through the codec unchanged. -/

namespace ContentAssist

namespace Ty

/-! ### Types that can be read back -/

/-- The parameter lists of the levels of function, from the outside in. -/
def paramLists : Ty → List (List String)
  | named _ => []
  | function r params => params :: r.paramLists

/-- A parameter list that is read back from between its commas: it is not the list with one empty
parameter, and no parameter has a separator or `~proto` in it. -/
structure Separable (params : List String) : Prop where
  notOnlyEmpty : params ≠ [""]
  comma : ∀ p ∈ params, ',' ∉ p.toList
  colon : ∀ p ∈ params, ':' ∉ p.toList
  proto : ∀ p ∈ params, Text.occurs protoSuffix.toList p.toList = false

/-- A nest of functions (or a name) that is read back level by level. -/
structure Nest (t : Ty) : Prop where
  unmarked : Text.startsWith "?" t.leaf = false
  proto : Text.occurs protoSuffix.toList t.leaf.toList = false
  separable : ∀ params ∈ t.paramLists, Separable params

/-- A type that can be read: a name that is not taken apart, or a nest of functions. -/
def IsReadable : Ty → Prop
  | named name =>
    Text.startsWith "?" name = false ∨ Text.occurs protoSuffix.toList name.toList = true
  | function r params => Nest (function r params)

theorem separable_nil : Separable [] where
  notOnlyEmpty := (List.cons_ne_nil _ _).symm
  comma := fun _ h => absurd h List.not_mem_nil
  colon := fun _ h => absurd h List.not_mem_nil
  proto := fun _ h => absurd h List.not_mem_nil

theorem Nest.function_iff {r : Ty} {params : List String} :
    Nest (function r params) ↔ Nest r ∧ Separable params := by
  constructor
  · intro h
    exact ⟨⟨h.unmarked, h.proto, fun ps hps => h.separable ps (List.mem_cons_of_mem _ hps)⟩,
      h.separable params List.mem_cons_self⟩
  · rintro ⟨hr, hparams⟩
    refine ⟨hr.unmarked, hr.proto, fun ps hps => ?_⟩
    rcases List.mem_cons.1 hps with rfl | hps
    · exact hparams
    · exact hr.separable ps hps

theorem startsWith_mark_eq_false_iff {s : String} :
    Text.startsWith "?" s = false ↔ s.toList.head? ≠ some '?' := by
  unfold Text.startsWith
  cases s.toList with
  | nil => exact iff_of_true rfl (by simp)
  | cons c rest =>
    have hmark : "?".toList.isPrefixOf (c :: rest) = ('?' == c) := Bool.and_true _
    rw [hmark, beq_eq_false_iff_ne, List.head?_cons, Ne, Ne, Option.some.injEq, eq_comm]

/-! ### Types read back from their own text -/

theorem not_infix_join_params {params : List String} (h : Separable params) :
    ¬ protoSuffix.toList <:+: Text.join [','] (params.map String.toList) := by
  intro hin
  obtain ⟨q, hq, hin⟩ := Text.infix_of_infix_join (by decide) (by decide) hin
  obtain ⟨p, hp, rfl⟩ := List.mem_map.1 hq
  have hno := h.proto p hp
  rw [Text.occurs_iff.2 hin] at hno
  exact Bool.noConfusion hno

theorem colon_not_mem_join_params {params : List String} (h : Separable params) :
    ':' ∉ Text.join [','] (params.map String.toList) := by
  intro hmem
  have hin : [':'] <:+: Text.join [','] (params.map String.toList) :=
    (List.singleton_infix_iff _ _).2 hmem
  obtain ⟨q, hq, hin⟩ := Text.infix_of_infix_join (by decide) (by decide) hin
  obtain ⟨p, hp, rfl⟩ := List.mem_map.1 hq
  exact h.colon p hp ((List.singleton_infix_iff _ _).1 hin)

/-- A list that ends in the empty parameter alone is written like one with no parameter, which is
why `Separable` excludes it. -/
theorem readParams_join {params : List String} (h : Separable params) :
    readParams (Text.join [','] (params.map String.toList)) = params := by
  have hid : String.ofList ∘ String.toList = id := funext fun _ => String.ofList_toList
  cases params with
  | nil => rfl
  | cons p params =>
    have hcomma : ∀ q ∈ (p :: params).map String.toList, ',' ∉ q := by
      intro q hq
      obtain ⟨p', hp', rfl⟩ := List.mem_map.1 hq
      exact h.comma p' hp'
    have hne : Text.join [','] ((p :: params).map String.toList) ≠ [] := by
      intro hnil
      have hpieces := Text.pieces_join (by simp) hcomma
      rw [hnil, Text.pieces, List.map_cons, List.cons.injEq] at hpieces
      obtain ⟨hp, hparams⟩ := hpieces
      have hempty : p = "" := String.toList_injective hp.symm
      exact h.notOnlyEmpty (by rw [hempty, List.map_eq_nil_iff.1 hparams.symm])
    rw [readParams, if_neg (by simpa using hne), Text.pieces_join (by simp) hcomma, List.map_map,
      hid, List.map_id]

theorem Nest.not_infix_chars {t : Ty} (h : Nest t) : ¬ protoSuffix.toList <:+: t.chars := by
  induction t with
  | named name =>
    intro hin
    change protoSuffix.toList <:+: name.toList at hin
    have hno : Text.occurs protoSuffix.toList name.toList = false := h.proto
    rw [Text.occurs_iff.2 hin] at hno
    exact Bool.noConfusion hno
  | function r params ih =>
    obtain ⟨hr, hparams⟩ := Nest.function_iff.1 h
    intro hin
    rcases Text.infix_of_infix_append_cons colon_not_mem_protoSuffix hin with hin | hin
    · exact ih hr (@infix_of_infix_replicate_append 1 _ hin)
    · exact not_infix_join_params hparams hin

/-- **A nest of functions** is read from behind as many question marks as it has levels. -/
theorem Nest.exists_unnest {t : Ty} (h : Nest t) :
    ∃ levels body, t.chars = List.replicate levels '?' ++ body ∧ body.head? ≠ some '?' ∧
      unnest levels body = t := by
  induction t with
  | named name =>
    refine ⟨0, name.toList, rfl, startsWith_mark_eq_false_iff.1 h.unmarked, ?_⟩
    rw [unnest, String.ofList_toList]
  | function r params ih =>
    obtain ⟨hr, hparams⟩ := Nest.function_iff.1 h
    obtain ⟨levels, body, hchars, hhead, hread⟩ := ih hr
    refine ⟨levels + 1, body ++ ':' :: Text.join [','] (params.map String.toList), ?_, ?_, ?_⟩
    · rw [chars, hchars, List.replicate_succ, List.cons_append, List.append_assoc, List.cons_append]
    · cases body with
      | nil => simp
      | cons c body => exact hhead
    · rw [unnest, Text.splitLast_append (colon_not_mem_join_params hparams)]
      simp only [hread, readParams_join hparams]

theorem ofText_text {t : Ty} (h : t.IsReadable) : ofText t.text = t := by
  have hnest : ∀ {t : Ty}, Nest t → ofText t.text = t := by
    intro t h
    obtain ⟨levels, body, hchars, hhead, hread⟩ := h.exists_unnest
    have hproto : ¬ protoSuffix.toList <:+: List.replicate levels '?' ++ body :=
      hchars ▸ h.not_infix_chars
    rw [ofText, text, String.toList_ofList, hchars, ofChars_eq_unnest hhead hproto, hread]
  cases t with
  | function r params => exact hnest h
  | named name =>
    cases hproto : Text.occurs protoSuffix.toList name.toList with
    | true =>
      rw [ofText, text, String.toList_ofList, chars, ofChars, if_pos hproto, String.ofList_toList]
    | false =>
      have hmark := h.resolve_right (by simp [hproto])
      exact hnest ⟨hmark, hproto, fun _ h => absurd h List.not_mem_nil⟩

/-! ### What is read -/

theorem separable_readParams {s : List Char} (hcolon : ':' ∉ s)
    (hproto : ¬ protoSuffix.toList <:+: s) : Separable (readParams s) := by
  unfold readParams
  split
  · exact separable_nil
  · rename_i hne
    have hmem : ∀ p ∈ (Text.pieces ',' s).map String.ofList, p.toList ∈ Text.pieces ',' s := by
      intro p hp
      obtain ⟨q, hq, rfl⟩ := List.mem_map.1 hp
      rwa [String.toList_ofList]
    constructor
    case notOnlyEmpty =>
      intro hone
      obtain ⟨p, hpieces, hp⟩ := List.map_eq_singleton_iff.1 hone
      have hempty : p = [] := String.ofList_injective hp
      have hs := Text.join_pieces ',' s
      rw [hpieces, hempty] at hs
      exact hne (List.isEmpty_iff.2 hs.symm)
    case comma => exact fun p hp => Text.not_mem_of_mem_pieces (hmem p hp)
    case colon => exact fun p hp hc => hcolon ((Text.infix_of_mem_pieces (hmem p hp)).subset hc)
    case proto =>
      intro p hp
      refine Bool.eq_false_iff.2 fun hocc => hproto ?_
      exact (Text.occurs_iff.1 hocc).trans (Text.infix_of_mem_pieces (hmem p hp))

theorem nest_unnest (levels : Nat) {body : List Char} (hhead : body.head? ≠ some '?')
    (hproto : ¬ protoSuffix.toList <:+: body) : Nest (unnest levels body) := by
  induction levels generalizing body with
  | zero =>
    refine ⟨startsWith_mark_eq_false_iff.2 ?_, Bool.eq_false_iff.2 fun hocc => hproto ?_, ?_⟩
    · rwa [unnest, leaf, String.toList_ofList]
    · simpa [unnest, leaf] using Text.occurs_iff.1 hocc
    · exact fun _ h => absurd h List.not_mem_nil
  | succ levels ih =>
    rw [unnest]
    cases hsplit : Text.splitLast ':' body with
    | none => exact Nest.function_iff.2 ⟨ih hhead hproto, separable_nil⟩
    | some parts =>
      obtain ⟨before, after⟩ := parts
      obtain ⟨rfl, hafter⟩ := Text.splitLast_eq_some hsplit
      have hbefore : before.head? ≠ some '?' := by
        intro hmark
        refine hhead ?_
        rw [List.head?_append, hmark]
        rfl
      have hresult : Nest (unnest levels before) :=
        ih hbefore fun hin => hproto (hin.trans (List.prefix_append _ _).isInfix)
      have hparams : Separable (readParams after) := by
        refine separable_readParams hafter fun hin => hproto ?_
        exact hin.trans ((List.suffix_cons _ _).trans (List.suffix_append _ _)).isInfix
      exact Nest.function_iff.2 ⟨hresult, hparams⟩

/-- **Whatever text is read**, the type can be read again. -/
theorem readable_ofText (s : String) : (ofText s).IsReadable := by
  by_cases hs : protoSuffix.toList <:+: s.toList
  · rw [ofText, ofChars, if_pos (Text.occurs_iff.2 hs), String.ofList_toList]
    exact Or.inr (Text.occurs_iff.2 hs)
  · obtain ⟨body, hbody, hhead⟩ := exists_body s.toList
    have hnest : Nest (ofText s) := by
      rw [ofText, hbody, ofChars_eq_unnest hhead (hbody ▸ hs)]
      refine nest_unnest _ hhead fun hin => hs ?_
      rw [hbody]
      exact hin.trans (List.suffix_append _ _).isInfix
    cases ht : ofText s with
    | named name =>
      rw [ht] at hnest
      exact Or.inl hnest.unmarked
    | function r params =>
      rw [ht] at hnest
      exact hnest

/-! ### Texts that are written as they were read -/

theorem le_count_fillColons (levels : Nat) (body : List Char) :
    levels ≤ (fillColons levels body).count ':' := by
  induction levels generalizing body with
  | zero => exact Nat.zero_le _
  | succ levels ih =>
    rw [fillColons]
    split
    · have hle := ih body
      rw [List.count_append, List.count_singleton_self]
      omega
    · rename_i before after _
      have hle := ih before
      rw [List.count_append, List.count_cons_self]
      omega

theorem count_of_text_ofText {s : String} (h : (ofText s).text = s)
    (hproto : Text.occurs protoSuffix.toList s.toList = false) :
    marks s.toList ≤ s.toList.count ':' := by
  have hchars : (ofChars s.toList).chars = s.toList := by
    have htext := congrArg String.toList h
    rwa [text, String.toList_ofList] at htext
  have hs : ¬ protoSuffix.toList <:+: s.toList := fun hin => by
    rw [Text.occurs_iff.2 hin] at hproto
    exact Bool.noConfusion hproto
  obtain ⟨body, hbody, hhead⟩ := exists_body s.toList
  generalize marks s.toList = levels at hbody ⊢
  rw [hbody] at hchars hs ⊢
  -- the colons that were filled in are those of the text itself
  rw [ofChars_eq_unnest hhead hs, chars_unnest, List.append_cancel_left_eq] at hchars
  have hle := le_count_fillColons levels body
  rw [hchars] at hle
  rw [List.count_append]
  omega

/-- **The codec is exact.** A type is read back from its text if and only if it is a name that is
not taken apart or a nest of functions with a plain leaf and separable parameters; every text is
read as such a type, which therefore is read again from its own text; and a text is written as it
was read if and only if it has no question mark in front, has `~proto` in it, or has a colon for
each question mark in front. -/
theorem type_codec_exact :
    (∀ t : Ty, ofText t.text = t ↔ t.IsReadable) ∧
      (∀ s, (ofText s).IsReadable ∧ ofText (ofText s).text = ofText s) ∧
      ∀ s, (ofText s).text = s ↔ Text.startsWith "?" s = false ∨
        Text.occurs protoSuffix.toList s.toList = true ∨ marks s.toList ≤ s.toList.count ':' := by
  refine ⟨fun t => ⟨fun h => h ▸ readable_ofText t.text, ofText_text⟩,
    fun s => ⟨readable_ofText s, ofText_text (readable_ofText s)⟩, fun s => ⟨?_, ?_⟩⟩
  · intro h
    cases hproto : Text.occurs protoSuffix.toList s.toList with
    | true => exact Or.inr (Or.inl rfl)
    | false => exact Or.inr (Or.inr (count_of_text_ofText h hproto))
  · intro h
    have hcount : protoSuffix.toList <:+: s.toList ∨ marks s.toList ≤ s.toList.count ':' := by
      rcases h with h | h | h
      · exact Or.inr (by rw [marks_eq_zero h]; exact Nat.zero_le _)
      · exact Or.inl (Text.occurs_iff.1 h)
      · exact Or.inr h
    rw [ofText, text, chars_ofChars hcount, String.ofList_toList]

end Ty

end ContentAssist
