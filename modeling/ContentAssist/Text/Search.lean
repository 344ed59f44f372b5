/-! # Searching and cutting texts

Tests and cuts on texts, all stated on lists of characters.

Main facts: `startsWith_iff`, `splitLast_eq_some`, `splitLast_eq_none_iff`, `splitLast_append`,
`join_pieces`. -/

namespace ContentAssist.Text

/-- Whether the text `s` begins with `p`. -/
def startsWith (p s : String) : Bool := p.toList.isPrefixOf s.toList

theorem startsWith_iff {p s : String} : startsWith p s = true ↔ ∃ r, s = p ++ r := by
  rw [startsWith, List.isPrefixOf_iff_prefix]
  constructor
  · rintro ⟨r, hr⟩
    exact ⟨String.ofList r, String.toList_injective (by simp [hr])⟩
  · rintro ⟨r, rfl⟩
    exact ⟨r.toList, by simp⟩

/-- The text without its first `n` characters. -/
def dropFirst (n : Nat) (s : String) : String := String.ofList (s.toList.drop n)

/-- Whether `p` occurs somewhere in a list of characters. -/
def occurs (p : List Char) : List Char → Bool
  | [] => p.isEmpty
  | c :: rest => p.isPrefixOf (c :: rest) || occurs p rest

/-- Splits at the last occurrence of `sep`: what stands before it and what stands after it. -/
def splitLast (sep : Char) : List Char → Option (List Char × List Char)
  | [] => none
  | c :: rest =>
    match splitLast sep rest with
    | some (before, after) => some (c :: before, after)
    | none => if c = sep then some ([], rest) else none

/-- Splits at the first occurrence of `sep`: what stands before it and what stands after it. -/
def splitFirst (sep : Char) : List Char → Option (List Char × List Char)
  | [] => none
  | c :: rest =>
    if c = sep then some ([], rest)
    else (splitFirst sep rest).map fun r => (c :: r.1, r.2)

/-- The pieces between the occurrences of `sep`; there is always at least one. -/
def pieces (sep : Char) : List Char → List (List Char)
  | [] => [[]]
  | c :: rest =>
    if c = sep then [] :: pieces sep rest
    else
      match pieces sep rest with
      | [] => [[c]]
      | p :: ps => (c :: p) :: ps

/-- Writes the parts one after the other with `sep` between them. -/
def join (sep : List Char) : List (List Char) → List Char
  | [] => []
  | [p] => p
  | p :: q :: ps => p ++ sep ++ join sep (q :: ps)

/-- Writes the texts one after the other with `sep` between them. -/
def joined (sep : String) (parts : List String) : String :=
  String.ofList (join sep.toList (parts.map String.toList))

theorem splitLast_eq_none_iff {sep : Char} {s : List Char} : splitLast sep s = none ↔ sep ∉ s := by
  induction s with
  | nil => simp [splitLast]
  | cons c rest ih =>
    cases h : splitLast sep rest with
    | some r => simp [splitLast, h, show sep ∈ rest by simpa [h] using ih]
    | none =>
      have hr : sep ∉ rest := ih.1 h
      by_cases hc : c = sep
      · simp [splitLast, h, hc]
      · simp [splitLast, h, hc, hr, Ne.symm hc]

theorem splitLast_eq_some {sep : Char} {s before after : List Char}
    (h : splitLast sep s = some (before, after)) :
    s = before ++ sep :: after ∧ sep ∉ after := by
  induction s generalizing before after with
  | nil => simp [splitLast] at h
  | cons c rest ih =>
    cases hr : splitLast sep rest with
    | some r =>
      obtain ⟨b, a⟩ := r
      simp only [splitLast, hr, Option.some.injEq, Prod.mk.injEq] at h
      obtain ⟨rfl, rfl⟩ := h
      obtain ⟨h1, h2⟩ := ih hr
      exact ⟨by rw [h1]; rfl, h2⟩
    | none =>
      by_cases hc : c = sep
      · simp only [splitLast, hr, hc, if_true, Option.some.injEq, Prod.mk.injEq] at h
        obtain ⟨rfl, rfl⟩ := h
        exact ⟨by rw [hc]; rfl, splitLast_eq_none_iff.1 hr⟩
      · simp [splitLast, hr, hc] at h

theorem splitLast_append {sep : Char} {after : List Char} (h : sep ∉ after) (before : List Char) :
    splitLast sep (before ++ sep :: after) = some (before, after) := by
  induction before with
  | nil => simp [splitLast, splitLast_eq_none_iff.2 h]
  | cons c before ih => simp [splitLast, ih]

theorem pieces_ne_nil (sep : Char) (s : List Char) : pieces sep s ≠ [] := by
  cases s with
  | nil => simp [pieces]
  | cons c rest =>
    by_cases h : c = sep
    · simp [pieces, h]
    · simp only [pieces, h, if_false]
      split <;> simp

/-- **Nothing is lost**: the pieces joined by the separator are the text. -/
theorem join_pieces (sep : Char) (s : List Char) : join [sep] (pieces sep s) = s := by
  induction s with
  | nil => rfl
  | cons c rest ih =>
    cases hp : pieces sep rest with
    | nil => exact absurd hp (pieces_ne_nil sep rest)
    | cons p ps =>
      rw [hp] at ih
      by_cases h : c = sep
      · simp [pieces, h, hp, join, ih]
      · cases ps with
        | nil => simpa [pieces, h, hp, join] using ih
        | cons q qs => simpa [pieces, h, hp, join] using ih

end ContentAssist.Text
