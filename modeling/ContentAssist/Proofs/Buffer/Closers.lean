import ContentAssist.Buffer.Closers
import Mathlib.Data.String.Basic

/-! # The closing brackets that are missing

The brackets among the tokens are a word over six characters. Well-bracketed words are those in which
every bracket is closed by the one that belongs to it, what stands in between being well-bracketed, too.
Reading a word with a stack of the closing brackets still to come decides this, and what is on the stack
in the end is the only way to complete the word by closing brackets.

* `WellBracketed`: the words;
* `toList_missingClosers`: the scan of the tokens is that of their brackets;
* `read?`, `wellBracketed_iff`: the scan that refuses a bracket that does not fit;
* `missingClosers_completes`: what is appended to a buffer. -/

namespace ContentAssist

/-! ### Words of brackets -/

/-- The opening brackets and those that close them. -/
def bracketPairs : List (Char × Char) := [('\x7b', '\x7d'), ('(', ')'), ('[', ']')]

/-- Whether a character is a closing bracket. -/
def IsCloser (c : Char) : Prop := c ∈ bracketPairs.map (·.2)

instance (c : Char) : Decidable (IsCloser c) := inferInstanceAs (Decidable (c ∈ _))

/-- The words in which every bracket is closed by the one that belongs to it. -/
inductive WellBracketed : List Char → Prop
  | nil : WellBracketed []
  | wrap {o c : Char} {u v : List Char} (hpair : (o, c) ∈ bracketPairs) (hu : WellBracketed u)
      (hv : WellBracketed v) : WellBracketed (o :: u ++ c :: v)

/-- The closing bracket for an opening one. -/
def closerOf? (b : Char) : Option Char := (bracketPairs.find? (·.1 = b)).map (·.2)

theorem closerOf?_eq_some_iff {o c : Char} : closerOf? o = some c ↔ (o, c) ∈ bracketPairs := by
  unfold closerOf? bracketPairs
  constructor
  · intro h
    obtain ⟨e, he, rfl⟩ := Option.map_eq_some_iff.1 h
    have ho : e.1 = o := by simpa using List.find?_some he
    exact ho ▸ List.mem_of_find?_eq_some he
  · intro h
    simp only [List.mem_cons, List.not_mem_nil, or_false, Prod.mk.injEq] at h
    rcases h with ⟨rfl, rfl⟩ | ⟨rfl, rfl⟩ | ⟨rfl, rfl⟩ <;> rfl

theorem isCloser_of_mem {o c : Char} (h : (o, c) ∈ bracketPairs) : IsCloser c :=
  List.mem_map_of_mem h

theorem closerOf?_of_isCloser {c : Char} (h : IsCloser c) : closerOf? c = none := by
  simp only [IsCloser, bracketPairs, List.map_cons, List.map_nil, List.mem_cons, List.not_mem_nil,
    or_false] at h
  rcases h with rfl | rfl | rfl <;> rfl

/-- One bracket more, if it fits: `pending` holds the closing brackets still to come, innermost first. -/
def fit? (pending : List Char) (b : Char) : Option (List Char) :=
  match closerOf? b with
  | some c => some (c :: pending)
  | none =>
    match pending with
    | [] => none
    | c :: below => if b = c then some below else none

/-- One bracket more; one that does not fit is passed over. -/
def pendingStep (pending : List Char) (b : Char) : List Char := (fit? pending b).getD pending

/-- The closing brackets still to come after a word. -/
def pendingIn (pending word : List Char) : List Char := word.foldl pendingStep pending

variable {b c : Char} {pending below word : List Char}

theorem fit?_of_pair (h : (b, c) ∈ bracketPairs) : fit? pending b = some (c :: pending) := by
  unfold fit?
  rw [closerOf?_eq_some_iff.2 h]

theorem fit?_nil (h : closerOf? b = none) : fit? [] b = none := by
  unfold fit?
  rw [h]

theorem fit?_cons (h : closerOf? b = none) :
    fit? (c :: below) b = if b = c then some below else none := by
  unfold fit?
  rw [h]

theorem fit?_eq_some_iff {left : List Char} : fit? pending b = some left ↔
    (∃ c, (b, c) ∈ bracketPairs ∧ left = c :: pending) ∨ closerOf? b = none ∧ pending = b :: left := by
  cases hb : closerOf? b with
  | some c =>
    rw [fit?_of_pair (closerOf?_eq_some_iff.1 hb)]
    constructor
    · rintro ⟨rfl⟩
      exact Or.inl ⟨c, closerOf?_eq_some_iff.1 hb, rfl⟩
    · rintro (⟨c', hpair, rfl⟩ | ⟨hnone, -⟩)
      · cases hb.symm.trans (closerOf?_eq_some_iff.2 hpair)
        rfl
      · cases hnone
  | none =>
    have hpair {c : Char} : (b, c) ∉ bracketPairs := fun h => by
      rw [closerOf?_eq_some_iff.2 h] at hb
      cases hb
    cases pending with
    | nil => simp [fit?_nil hb, hpair]
    | cons c below =>
      rw [fit?_cons hb]
      by_cases hbc : b = c
      · subst hbc
        simp [hpair, eq_comm]
      · simp [hpair, hbc, Ne.symm hbc]

theorem isCloser_pendingStep (h : ∀ c ∈ pending, IsCloser c) (b : Char) :
    ∀ c ∈ pendingStep pending b, IsCloser c := by
  unfold pendingStep
  cases hfit : fit? pending b with
  | none => exact h
  | some left =>
    rcases fit?_eq_some_iff.1 hfit with ⟨c, hpair, rfl⟩ | ⟨-, rfl⟩
    · exact List.forall_mem_cons.2 ⟨isCloser_of_mem hpair, h⟩
    · exact (List.forall_mem_cons.1 h).2

theorem isCloser_pendingIn (h : ∀ c ∈ pending, IsCloser c) (word : List Char) :
    ∀ c ∈ pendingIn pending word, IsCloser c := by
  induction word generalizing pending with
  | nil => exact h
  | cons b word ih => exact ih (isCloser_pendingStep h b)

/-! ### The brackets of a token list -/

/-- The six brackets. -/
def bracketChars : List Char := bracketPairs.flatMap fun e => [e.1, e.2]

/-- The bracket that a token is, if it is a punctuator. -/
def Token.bracket? (t : Token) : Option Char :=
  if t.kind = "Punctuator" then bracketChars.find? fun b => t.text = String.singleton b else none

/-- The brackets among tokens. -/
def brackets (tokens : List Token) : List Char := tokens.filterMap Token.bracket?

theorem singleton_inj {a b : Char} : String.singleton a = String.singleton b ↔ a = b := by
  rw [← String.toList_inj, String.toList_singleton, String.toList_singleton, List.singleton_inj]

theorem closerFor?_eq_some_iff {opener closer : String} : closerFor? opener = some closer ↔
    ∃ o c, (o, c) ∈ bracketPairs ∧ opener = String.singleton o ∧ closer = String.singleton c := by
  unfold closerFor?
  constructor
  · intro h
    split_ifs at h with h1 h2 h3 <;> cases h
    · exact ⟨'\x7b', '\x7d', by decide, h1, rfl⟩
    · exact ⟨'(', ')', by decide, h2, rfl⟩
    · exact ⟨'[', ']', by decide, h3, rfl⟩
  · rintro ⟨o, c, h, rfl, rfl⟩
    simp only [bracketPairs, List.mem_cons, List.not_mem_nil, or_false, Prod.mk.injEq] at h
    rcases h with ⟨rfl, rfl⟩ | ⟨rfl, rfl⟩ | ⟨rfl, rfl⟩ <;> rfl

theorem text_of_bracket? {t : Token} (h : t.bracket? = some b) : t.text = String.singleton b := by
  unfold Token.bracket? at h
  split at h
  · simpa using List.find?_some h
  · cases h

theorem text_ne_of_bracket? {t : Token} (hkind : t.kind = "Punctuator") (h : t.bracket? = none)
    (hb : b ∈ bracketChars) : t.text ≠ String.singleton b := by
  unfold Token.bracket? at h
  rw [if_pos hkind, List.find?_eq_none] at h
  simpa using h b hb

theorem mem_bracketChars_of_mem {o : Char} (h : (o, c) ∈ bracketPairs) :
    o ∈ bracketChars ∧ c ∈ bracketChars :=
  ⟨List.mem_flatMap.2 ⟨_, h, List.mem_cons_self⟩,
    List.mem_flatMap.2 ⟨_, h, List.mem_cons_of_mem _ List.mem_cons_self⟩⟩

theorem mem_bracketChars_of_isCloser (h : IsCloser c) : c ∈ bracketChars := by
  obtain ⟨e, he, rfl⟩ := List.mem_map.1 h
  exact (mem_bracketChars_of_mem he).2

/-- A token that is no bracket is passed over. -/
theorem closeStep_of_bracket?_eq_none {t : Token} (ht : t.bracket? = none)
    (h : ∀ c ∈ pending, IsCloser c) :
    closeStep (pending.map String.singleton) t = pending.map String.singleton := by
  unfold closeStep
  split
  · rfl
  · rename_i hkind
    have hne {b : Char} := text_ne_of_bracket? (b := b) (not_not.1 hkind) ht
    have hnone : closerFor? t.text = none := by
      rw [Option.eq_none_iff_forall_ne_some]
      intro closer hcloser
      obtain ⟨o, c, hpair, htext, -⟩ := closerFor?_eq_some_iff.1 hcloser
      exact hne (mem_bracketChars_of_mem hpair).1 htext
    rw [hnone]
    cases pending with
    | nil => rfl
    | cons c below => exact if_neg (hne (mem_bracketChars_of_isCloser (h c List.mem_cons_self)))

theorem closeStep_of_bracket? {t : Token} (ht : t.bracket? = some b) (pending : List Char) :
    closeStep (pending.map String.singleton) t = (pendingStep pending b).map String.singleton := by
  have htext := text_of_bracket? ht
  have hkind : t.kind = "Punctuator" := by
    by_contra hkind
    simp [Token.bracket?, hkind] at ht
  unfold closeStep pendingStep
  rw [if_neg (not_not.2 hkind)]
  cases hb : closerOf? b with
  | some c =>
    rw [fit?_of_pair (closerOf?_eq_some_iff.1 hb)]
    have hfor : closerFor? t.text = some (String.singleton c) :=
      closerFor?_eq_some_iff.2 ⟨b, c, closerOf?_eq_some_iff.1 hb, htext, rfl⟩
    rw [hfor]
    rfl
  | none =>
    have hnone : closerFor? t.text = none := by
      rw [Option.eq_none_iff_forall_ne_some]
      intro closer hcloser
      obtain ⟨o, c, hpair, ho, -⟩ := closerFor?_eq_some_iff.1 hcloser
      rw [singleton_inj.1 (htext.symm.trans ho), closerOf?_eq_some_iff.2 hpair] at hb
      cases hb
    rw [hnone]
    cases pending with
    | nil => rw [fit?_nil hb]; rfl
    | cons c below =>
      rw [fit?_cons hb]
      by_cases hbc : b = c <;> simp [htext, hbc]

/-- **The scan of tokens is that of their brackets.** -/
theorem foldl_closeStep (tokens : List Token) (h : ∀ c ∈ pending, IsCloser c) :
    tokens.foldl closeStep (pending.map String.singleton) =
      (pendingIn pending (brackets tokens)).map String.singleton := by
  induction tokens generalizing pending with
  | nil => rfl
  | cons t tokens ih =>
    rw [List.foldl_cons]
    cases ht : t.bracket? with
    | none =>
      rw [closeStep_of_bracket?_eq_none ht h, ih h, brackets, brackets, List.filterMap_cons_none ht]
    | some b =>
      rw [closeStep_of_bracket? ht, ih (isCloser_pendingStep h b), brackets, brackets,
        List.filterMap_cons_some ht]
      rfl

theorem toList_missingClosers (tokens : List Token) :
    (missingClosers tokens).toList = pendingIn [] (brackets tokens) := by
  have hpending : pendingClosers tokens = (pendingIn [] (brackets tokens)).map String.singleton :=
    foldl_closeStep tokens fun _ h => absurd h List.not_mem_nil
  rw [missingClosers, hpending, String.toList_join]
  simp [List.flatMap_map]

/-! ### The scan that refuses -/

/-- The closing brackets still to come after a word in which every bracket fits. -/
def read? (pending word : List Char) : Option (List Char) := word.foldlM fit? pending

theorem read?_cons (pending : List Char) (b : Char) (word : List Char) :
    read? pending (b :: word) = (fit? pending b).bind fun p => read? p word := rfl

theorem read?_append (pending word rest : List Char) :
    read? pending (word ++ rest) = (read? pending word).bind fun p => read? p rest :=
  List.foldlM_append

theorem pendingIn_of_read? {left : List Char} (h : read? pending word = some left) :
    pendingIn pending word = left := by
  induction word generalizing pending with
  | nil => exact Option.some.inj h
  | cons b word ih =>
    rw [read?_cons] at h
    obtain ⟨p, hfit, hread⟩ := Option.bind_eq_some_iff.1 h
    rw [pendingIn, List.foldl_cons, pendingStep, hfit]
    exact ih hread

theorem read?_self (h : ∀ c ∈ pending, IsCloser c) : read? pending pending = some [] := by
  induction pending with
  | nil => rfl
  | cons c below ih =>
    obtain ⟨hc, hbelow⟩ := List.forall_mem_cons.1 h
    rw [read?_cons, fit?_cons (closerOf?_of_isCloser hc), if_pos rfl]
    exact ih hbelow

theorem eq_of_read? (h : ∀ c ∈ word, IsCloser c) (hread : read? pending word = some []) :
    word = pending := by
  induction word generalizing pending with
  | nil => exact (Option.some.inj hread).symm
  | cons b word ih =>
    obtain ⟨hb, hword⟩ := List.forall_mem_cons.1 h
    rw [read?_cons] at hread
    obtain ⟨left, hfit, hrest⟩ := Option.bind_eq_some_iff.1 hread
    rcases fit?_eq_some_iff.1 hfit with ⟨c, hpair, -⟩ | ⟨-, rfl⟩
    · cases (closerOf?_of_isCloser hb).symm.trans (closerOf?_eq_some_iff.2 hpair)
    · rw [ih hword hrest]

/-! ### Well-bracketed words -/

theorem read?_of_wellBracketed (h : WellBracketed word) (pending : List Char) :
    read? pending word = some pending := by
  induction h generalizing pending with
  | nil => rfl
  | @wrap o c u v hpair _ _ ihu ihv =>
    have hcloser := closerOf?_of_isCloser (isCloser_of_mem hpair)
    rw [List.cons_append, read?_cons, fit?_of_pair hpair, Option.bind_some, read?_append, ihu,
      Option.bind_some, read?_cons, fit?_cons hcloser, if_pos rfl]
    exact ihv pending

/-- The word closes one after the other the brackets that are to come, with well-bracketed words in front
of each and behind the last one. -/
def Closes : List Char → List Char → Prop
  | [], word => WellBracketed word
  | c :: below, word => ∃ u v, word = u ++ c :: v ∧ WellBracketed u ∧ Closes below v

theorem Closes.wrap {o c : Char} {u v : List Char} (hpair : (o, c) ∈ bracketPairs)
    (hu : WellBracketed u) (hv : Closes pending v) : Closes pending (o :: u ++ c :: v) := by
  cases pending with
  | nil => exact .wrap hpair hu hv
  | cons d below =>
    obtain ⟨u', v', rfl, hu', hv'⟩ := hv
    exact ⟨o :: u ++ c :: u', v', by simp, .wrap hpair hu hu', hv'⟩

theorem closes_of_read? (h : read? pending word = some []) : Closes pending word := by
  induction word generalizing pending with
  | nil =>
    obtain rfl : pending = [] := Option.some.inj h
    exact .nil
  | cons b word ih =>
    rw [read?_cons] at h
    obtain ⟨p, hfit, hread⟩ := Option.bind_eq_some_iff.1 h
    rcases fit?_eq_some_iff.1 hfit with ⟨c, hpair, rfl⟩ | ⟨-, rfl⟩
    · obtain ⟨u, v, rfl, hu, hv⟩ := ih hread
      exact hv.wrap hpair hu
    · exact ⟨[], word, rfl, .nil, ih hread⟩

/-- **Well-bracketed words** are those that can be read to the end and leave nothing to come. -/
theorem wellBracketed_iff : WellBracketed word ↔ read? [] word = some [] :=
  ⟨fun h => read?_of_wellBracketed h [], closes_of_read?⟩

/-- A word that can be completed is completed by what is to come after it, and by no other closing
brackets. -/
theorem completion_iff (h : ∃ rest, WellBracketed (word ++ rest)) {closers : List Char}
    (hclosers : ∀ c ∈ closers, IsCloser c) :
    WellBracketed (word ++ closers) ↔ closers = pendingIn [] word := by
  obtain ⟨rest, hrest⟩ := h
  rw [wellBracketed_iff, read?_append] at hrest
  obtain ⟨left, hleft, -⟩ := Option.bind_eq_some_iff.1 hrest
  rw [wellBracketed_iff, read?_append, hleft, Option.bind_some, pendingIn_of_read? hleft]
  constructor
  · exact eq_of_read? hclosers
  · rintro rfl
    exact read?_self hclosers

/-! ### What is appended -/

section Tokens
variable (tokens : List Token)

theorem isCloser_missingClosers : ∀ c ∈ (missingClosers tokens).toList, IsCloser c := by
  rw [toList_missingClosers]
  exact isCloser_pendingIn (by simp) _

/-- Behind the closing brackets that were missing none is missing. -/
theorem missingClosers_append {suffix : List Token}
    (h : brackets suffix = (missingClosers tokens).toList) : missingClosers (tokens ++ suffix) = "" := by
  have hclosers := isCloser_missingClosers tokens
  rw [← String.toList_eq_nil_iff, toList_missingClosers, brackets, List.filterMap_append, pendingIn,
    List.foldl_append]
  rw [toList_missingClosers] at h hclosers
  show pendingIn (pendingIn [] (brackets tokens)) (brackets suffix) = []
  rw [h]
  exact pendingIn_of_read? (read?_self hclosers)

/-- **The closing brackets that are appended** complete the brackets of the tokens, if anything does,
and no other closing brackets do. Together with them nothing is missing, whatever the tokens are, and
tokens that are no brackets do not count. -/
theorem missingClosers_completes :
    ((∃ rest, WellBracketed (brackets tokens ++ rest)) →
      WellBracketed (brackets tokens ++ (missingClosers tokens).toList) ∧
      ∀ closers : String, (∀ c ∈ closers.toList, IsCloser c) →
        WellBracketed (brackets tokens ++ closers.toList) → closers = missingClosers tokens) ∧
    (∀ c ∈ (missingClosers tokens).toList, IsCloser c) ∧
    (∀ suffix, brackets suffix = (missingClosers tokens).toList →
      missingClosers (tokens ++ suffix) = "") ∧
    ∀ before t after, tokens = before ++ t :: after → t.bracket? = none →
      missingClosers tokens = missingClosers (before ++ after) := by
  refine ⟨fun h => ⟨?_, fun closers hclosers hword => ?_⟩, isCloser_missingClosers tokens,
    fun suffix => missingClosers_append tokens, ?_⟩
  · exact (completion_iff h (isCloser_missingClosers tokens)).2 (toList_missingClosers tokens)
  · rw [← String.toList_inj, toList_missingClosers]
    exact (completion_iff h hclosers).1 hword
  · rintro before t after rfl ht
    rw [← String.toList_inj, toList_missingClosers, toList_missingClosers, brackets, brackets,
      List.filterMap_append, List.filterMap_append, List.filterMap_cons_none ht]

end Tokens

/-- The tokens of a text of which each is one character. -/
def punctuators (text : String) : List Token :=
  text.toList.map fun c => { kind := "Punctuator", text := String.singleton c }

/-- The tokens of a text that breaks off in an object, in a list of indices, in a call. -/
def openCall : List Token :=
  { kind := "Identifier", text := "f" } :: punctuators "(" ++
    { kind := "Identifier", text := "a" } :: punctuators "[\x7b" ++ [{ kind := "Identifier", text := "b" }]

/-- There the object, the list of indices and the call are closed. -/
theorem missingClosers_completes_call :
    (∃ rest, WellBracketed (brackets openCall ++ rest)) ∧ missingClosers openCall = "\x7d])" ∧
      WellBracketed (brackets openCall ++ "\x7d])".toList) ∧
      missingClosers (openCall ++ punctuators "\x7d])") = "" := by
  obtain ⟨hcompletes, -, hsuffix, -⟩ := missingClosers_completes openCall
  have hmissing : missingClosers openCall = "\x7d])" := by decide +kernel
  have hrest : ∃ rest, WellBracketed (brackets openCall ++ rest) :=
    ⟨['\x7d', ']', ')'], wellBracketed_iff.2 (by decide +kernel)⟩
  refine ⟨hrest, hmissing, ?_, hsuffix _ (by decide +kernel)⟩
  have hword := (hcompletes hrest).1
  rwa [hmissing] at hword

/-- A closing bracket that does not fit is passed over. -/
example : missingClosers (punctuators ")(]\x7b)") = "\x7d)" := by decide +kernel

end ContentAssist
