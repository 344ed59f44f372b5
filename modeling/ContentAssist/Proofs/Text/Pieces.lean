import ContentAssist.Proofs.Record.TypeText

/-! # Joined texts and their pieces

What stands in a text that was joined from parts, and when the parts are found again.

* `infix_join`, `mem_join`: each part stands in the text, and its characters are those of the parts and
  of the separator;
* `pieces_join`: the pieces of a joined text are its parts. -/

namespace ContentAssist.Text

theorem not_mem_of_mem_pieces {sep : Char} {s p : List Char} (h : p ∈ pieces sep s) : sep ∉ p := by
  induction s generalizing p with
  | nil =>
    rw [pieces, List.mem_singleton] at h
    simp [h]
  | cons c rest ih =>
    rw [pieces] at h
    by_cases hc : c = sep
    · rw [if_pos hc] at h
      rcases List.mem_cons.1 h with rfl | h
      · exact List.not_mem_nil
      · exact ih h
    · rw [if_neg hc] at h
      cases hps : pieces sep rest with
      | nil => exact absurd hps (pieces_ne_nil sep rest)
      | cons q qs =>
        simp only [hps] at h ih
        rcases List.mem_cons.1 h with rfl | h
        · have hq : sep ∉ q := ih List.mem_cons_self
          simp [Ne.symm hc, hq]
        · exact ih (List.mem_cons_of_mem _ h)

theorem infix_join {sep : List Char} {p : List Char} {parts : List (List Char)} (h : p ∈ parts) :
    p <:+: join sep parts := by
  induction parts with
  | nil => exact absurd h List.not_mem_nil
  | cons q parts ih =>
    cases parts with
    | nil =>
      rw [List.mem_singleton.1 h]
      exact List.infix_rfl
    | cons r parts =>
      rw [join]
      rcases List.mem_cons.1 h with rfl | h
      · rw [List.append_assoc]
        exact (List.prefix_append _ _).isInfix
      · exact (ih h).trans (List.suffix_append _ _).isInfix

theorem infix_of_mem_pieces {sep : Char} {s p : List Char} (h : p ∈ pieces sep s) : p <:+: s := by
  have hjoin : p <:+: join [sep] (pieces sep s) := infix_join h
  rwa [join_pieces] at hjoin

theorem infix_of_infix_join {p : List Char} {c : Char} (hp : p ≠ []) (hc : c ∉ p)
    {parts : List (List Char)} (h : p <:+: join [c] parts) : ∃ q ∈ parts, p <:+: q := by
  induction parts with
  | nil => exact absurd (List.infix_nil.1 h) hp
  | cons q parts ih =>
    cases parts with
    | nil => exact ⟨q, List.mem_cons_self, h⟩
    | cons r parts =>
      rw [join, List.append_assoc, List.singleton_append] at h
      rcases infix_of_infix_append_cons hc h with h | h
      · exact ⟨q, List.mem_cons_self, h⟩
      · obtain ⟨q', hq', hin⟩ := ih h
        exact ⟨q', List.mem_cons_of_mem _ hq', hin⟩

theorem pieces_of_not_mem {sep : Char} {s : List Char} (h : sep ∉ s) : pieces sep s = [s] := by
  induction s with
  | nil => rfl
  | cons c rest ih =>
    have hc : c ≠ sep := fun hc => h (hc ▸ List.mem_cons_self)
    have hrest : sep ∉ rest := fun hmem => h (List.mem_cons_of_mem _ hmem)
    rw [pieces, if_neg hc, ih hrest]

theorem pieces_append_cons {sep : Char} {s : List Char} (h : sep ∉ s) (rest : List Char) :
    pieces sep (s ++ sep :: rest) = s :: pieces sep rest := by
  induction s with
  | nil => rw [List.nil_append, pieces, if_pos rfl]
  | cons c s ih =>
    have hc : c ≠ sep := fun hc => h (hc ▸ List.mem_cons_self)
    have hs : sep ∉ s := fun hmem => h (List.mem_cons_of_mem _ hmem)
    rw [List.cons_append, pieces, if_neg hc, ih hs]

/-- **Joined parts are found again**, if there is a part and the separator is in none. -/
theorem pieces_join {sep : Char} {parts : List (List Char)} (hne : parts ≠ [])
    (h : ∀ p ∈ parts, sep ∉ p) : pieces sep (join [sep] parts) = parts := by
  induction parts with
  | nil => exact absurd rfl hne
  | cons p parts ih =>
    have hp : sep ∉ p := h p List.mem_cons_self
    cases parts with
    | nil => rw [join, pieces_of_not_mem hp]
    | cons q parts =>
      have hparts := ih (List.cons_ne_nil q parts) fun r hr => h r (List.mem_cons_of_mem _ hr)
      rw [join, List.append_assoc, List.singleton_append, pieces_append_cons hp, hparts]

theorem mem_join {sep : List Char} {parts : List (List Char)} {c : Char} (h : c ∈ join sep parts) :
    c ∈ sep ∨ ∃ p ∈ parts, c ∈ p := by
  induction parts with
  | nil => exact absurd h List.not_mem_nil
  | cons p parts ih =>
    cases parts with
    | nil => exact Or.inr ⟨p, List.mem_cons_self, h⟩
    | cons q parts =>
      rw [join, List.append_assoc, List.mem_append, List.mem_append] at h
      rcases h with h | h | h
      · exact Or.inr ⟨p, List.mem_cons_self, h⟩
      · exact Or.inl h
      · refine (ih h).imp_right ?_
        rintro ⟨q', hq', hc⟩
        exact ⟨q', List.mem_cons_of_mem _ hq', hc⟩

theorem infix_joined {sep : String} {p : String} {parts : List String} (h : p ∈ parts) :
    p.toList <:+: (joined sep parts).toList := by
  rw [joined, String.toList_ofList]
  exact infix_join (List.mem_map_of_mem h)

theorem mem_joined {sep : String} {parts : List String} {c : Char} (h : c ∈ (joined sep parts).toList) :
    c ∈ sep.toList ∨ ∃ p ∈ parts, c ∈ p.toList := by
  rw [joined, String.toList_ofList] at h
  refine (mem_join h).imp_right ?_
  rintro ⟨q, hq, hc⟩
  obtain ⟨p, hp, rfl⟩ := List.mem_map.1 hq
  exact ⟨p, hp, hc⟩

end ContentAssist.Text
