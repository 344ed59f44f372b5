import ContentAssist.Proofs.Json.Contents
import ContentAssist.Proofs.Json.Grammar
import ContentAssist.Proofs.Text.Numerals
import Mathlib.Algebra.Order.Group.Nat
import Mathlib.Data.List.TakeDrop
import Mathlib.Tactic.Ring

/-! # Reading JSON texts

Every text of the grammar is read, to its end, as the value that it stands for, unless an integer in it
has more digits than are read. So no text stands for two values.

* `Admits`: the integers in a value have no more digits than are read;
* `readWith_of_spellsText`: what is read from a text;
* `SpellsText.unique`: there is no other value to read from it. -/

namespace ContentAssist.Json

variable {v : Json} {t u w : List Char} {c : Char} {rest : List Char} {n : Nat} {limit : Option Nat}

/-! ### Blanks -/

theorem isSpace_of_blanks (hw : Blanks w) (hc : c ∈ w) : isSpace c = true := by
  have h := hw c hc
  simp only [List.mem_cons, List.not_mem_nil, or_false] at h
  rcases h with rfl | rfl | rfl | rfl <;> rfl

variable (rest) in
theorem exists_skipSpaces (hw : Blanks w) (hc : isSpace c = false) (position : Nat) :
    ∃ p, skipSpaces position (w ++ c :: rest) = ⟨p, c :: rest⟩ := by
  induction w generalizing position with
  | nil => exact ⟨position, by rw [List.nil_append, skipSpaces, if_neg (by simp [hc])]⟩
  | cons d w ih =>
    rw [List.cons_append, skipSpaces, if_pos (isSpace_of_blanks hw List.mem_cons_self)]
    exact ih (fun e he => hw e (List.mem_cons_of_mem _ he)) _

theorem exists_skipSpaces_end (hw : Blanks w) (position : Nat) :
    ∃ p, skipSpaces position w = ⟨p, []⟩ := by
  induction w generalizing position with
  | nil => exact ⟨position, rfl⟩
  | cons d w ih =>
    rw [skipSpaces, if_pos (isSpace_of_blanks hw List.mem_cons_self)]
    exact ih (fun e he => hw e (List.mem_cons_of_mem _ he)) _

/-! ### Strings -/

/-- The reader takes a piece of a string for some code units, which stand for a character. -/
def ReadsChar (c : Char) (t : List Char) : Prop :=
  ∃ us : List Nat,
    (∀ opening position rest, rest ≠ [] → ∃ p,
      stringUnits opening position (t ++ rest) =
        (stringUnits opening p rest).map fun r => (us ++ r.1, r.2)) ∧
    ∀ more, joinUnits (us ++ more) = c :: joinUnits more

theorem joinUnits_toNat (c : Char) (more : List Nat) :
    joinUnits (c.toNat :: more) = c :: joinUnits more := by
  have hvalid : ¬ (0xD800 ≤ c.toNat ∧ c.toNat < 0xE000) := by
    have h := c.valid
    simp only [UInt32.isValidChar, Nat.isValidChar] at h
    have : c.toNat = c.val.toNat := rfl
    omega
  have hhigh : ∀ m, ¬ (0xD800 ≤ c.toNat ∧ c.toNat < 0xDC00 ∧ 0xDC00 ≤ m ∧ m < 0xE000) := by
    intro m
    omega
  cases more with
  | nil => simp [joinUnits, if_neg hvalid]
  | cons m more => simp [joinUnits, if_neg hvalid, if_neg (hhigh m)]

theorem readsChar_plain (hc : 32 ≤ c.toNat) (hquote : c ≠ '"') (hslash : c ≠ '\\') :
    ReadsChar c [c] := by
  refine ⟨[c.toNat], fun opening position rest _ => ⟨position + 1, ?_⟩, joinUnits_toNat c⟩
  have hcontrol : ¬ c.toNat < 32 := by omega
  rw [List.singleton_append, stringUnits, if_neg hcontrol]
  · rfl
  -- the character neither ends the string nor begins an escape
  · exact hquote
  · exact fun _ _ _ _ _ h => absurd h hslash
  · exact fun _ h => absurd h hslash
  · exact fun h => absurd h hslash
  · exact fun _ _ h => absurd h hslash

theorem readsChar_short {e : Char} (h : (e, c) ∈ shortEscapes) : ReadsChar c ['\\', e] := by
  refine ⟨[c.toNat], fun opening position rest _ => ⟨position + 2, ?_⟩, joinUnits_toNat c⟩
  simp only [shortEscapes, List.mem_cons, Prod.mk.injEq, List.not_mem_nil, or_false] at h
  rcases h with ⟨rfl, rfl⟩ | ⟨rfl, rfl⟩ | ⟨rfl, rfl⟩ | ⟨rfl, rfl⟩ | ⟨rfl, rfl⟩ | ⟨rfl, rfl⟩ | ⟨rfl, rfl⟩ |
    ⟨rfl, rfl⟩ <;> rfl

/-- An escape by number gives the number as a code unit. -/
theorem stringUnits_unit {ds : List Char} (h : HexUnit n ds) (opening position : Nat)
    (hrest : rest ≠ []) :
    stringUnits opening position ('\\' :: 'u' :: ds ++ rest) =
      (stringUnits opening (position + 6) rest).map fun r => (n :: r.1, r.2) := by
  obtain ⟨a, b, c, d, rfl, hunit⟩ := h
  obtain ⟨e, rest, rfl⟩ := List.exists_cons_of_ne_nil hrest
  simp [stringUnits, hunit]

theorem readsChar_unit {ds : List Char} (h : HexUnit c.toNat ds) :
    ReadsChar c ('\\' :: 'u' :: ds) :=
  ⟨[c.toNat], fun opening position _ hrest => ⟨position + 6, stringUnits_unit h opening position hrest⟩,
    joinUnits_toNat c⟩

theorem readsChar_pair {high low : Nat} {ds es : List Char} (hds : HexUnit high ds)
    (hes : HexUnit low es) (hhigh : 0xD800 ≤ high ∧ high < 0xDC00)
    (hlow : 0xDC00 ≤ low ∧ low < 0xE000)
    (hc : c.toNat = 0x10000 + (high - 0xD800) * 0x400 + (low - 0xDC00)) :
    ReadsChar c ('\\' :: 'u' :: ds ++ '\\' :: 'u' :: es) := by
  refine ⟨[high, low], fun opening position rest hrest => ⟨position + 6 + 6, ?_⟩, fun more => ?_⟩
  · rw [List.append_assoc, stringUnits_unit hds opening position (by simp),
      stringUnits_unit hes opening _ hrest]
    cases stringUnits opening (position + 6 + 6) rest <;> rfl
  · have hpair : 0xD800 ≤ high ∧ high < 0xDC00 ∧ 0xDC00 ≤ low ∧ low < 0xE000 :=
      ⟨hhigh.1, hhigh.2, hlow⟩
    show joinUnits (high :: low :: more) = c :: joinUnits more
    rw [joinUnits, if_pos hpair, ← hc, Char.ofNat_toNat]

theorem SpellsChar.readsChar (h : SpellsChar c t) : ReadsChar c t := by
  cases h with
  | plain hc hquote hslash => exact readsChar_plain hc hquote hslash
  | short h => exact readsChar_short h
  | unit h => exact readsChar_unit h
  | pair hds hes hhigh hlow hc => exact readsChar_pair hds hes hhigh hlow hc

variable (rest) in
theorem exists_stringUnits {cs : List Char} (h : SpellsChars cs t) (opening position : Nat) :
    ∃ us p, stringUnits opening position (t ++ '"' :: rest) = .ok (us, ⟨p, rest⟩) ∧
      joinUnits us = cs := by
  induction h generalizing position with
  | nil => exact ⟨[], position + 1, rfl, rfl⟩
  | @cons c cs t u hc _ ih =>
    obtain ⟨us, hread, hjoin⟩ := hc.readsChar
    obtain ⟨p, hp⟩ := hread opening position (u ++ '"' :: rest) (by simp)
    obtain ⟨vs, q, hvs, rfl⟩ := ih p
    exact ⟨us ++ vs, q, by rw [List.append_assoc, hp, hvs]; rfl, hjoin vs⟩

variable (rest) in
/-- **A string is read** as the text that it spells. -/
theorem exists_readString {s : String} (h : SpellsChars s.toList t) (position : Nat) :
    ∃ p, readString ⟨position, t ++ '"' :: rest⟩ = .ok (s, ⟨p, rest⟩) := by
  obtain ⟨us, p, hread, hjoin⟩ := exists_stringUnits rest h (position - 1) position
  refine ⟨p, ?_⟩
  unfold readString
  rw [hread]
  show Except.ok (String.ofList (joinUnits us), _) = _
  rw [hjoin, String.ofList_toList]

/-! ### Whole numbers -/

/-- An integer in the value has no more digits than are read. -/
def Admits (limit : Option Nat) (v : Json) : Prop :=
  ∀ most ∈ limit, 0 < most ∧ ∀ n ∈ v.integers, n.natAbs < 10 ^ most

theorem admits_none (v : Json) : Admits none v := by simp [Admits]

theorem pow_le_ofDigitChars (ds : List Char) (n : Nat) :
    n * 10 ^ ds.length ≤ Nat.ofDigitChars 10 ds n := by
  induction ds generalizing n with
  | nil => simp
  | cons d ds ih =>
    calc n * 10 ^ (d :: ds).length
        = 10 * n * 10 ^ ds.length := by rw [List.length_cons, Nat.pow_succ]; ring
      _ ≤ (10 * n + (d.toNat - '0'.toNat)) * 10 ^ ds.length := Nat.mul_le_mul_right _ (by omega)
      _ ≤ Nat.ofDigitChars 10 (d :: ds) n := by
        rw [Nat.ofDigitChars_cons]
        exact ih _

/-- A numeral has no more digits than its number needs. -/
theorem Numeral.length_le (h : Numeral n t) {most : Nat} (hmost : 0 < most) (hn : n < 10 ^ most) :
    t.length ≤ most := by
  cases h with
  | zero => exact hmost
  | @digits d ds hds hd =>
    have hdigit : 0 < d.toNat - '0'.toNat := by
      have hlow := (Text.toNat_of_isDigit (hds d List.mem_cons_self)).1
      have hzero : d.toNat ≠ 48 := fun h => hd (by simpa [Char.ofNat_toNat] using congrArg Char.ofNat h)
      show 0 < d.toNat - 48
      omega
    have hpow : 10 ^ ds.length < 10 ^ most :=
      calc 10 ^ ds.length
          ≤ (d.toNat - '0'.toNat) * 10 ^ ds.length := Nat.le_mul_of_pos_left _ hdigit
        _ ≤ Nat.ofDigitChars 10 ds (d.toNat - '0'.toNat) := pow_le_ofDigitChars ds _
        _ = Nat.ofDigitChars 10 (d :: ds) 0 := by simp [Nat.ofDigitChars_cons]
        _ < 10 ^ most := hn
    exact (Nat.pow_lt_pow_iff_right (by decide)).1 hpow

/-- A numeral of an integer in the value is not beyond the limit. -/
theorem Admits.exceeds_eq_false {m : Int} (h : Admits limit (int m)) (ht : Numeral n t)
    (hm : m.natAbs = n) : exceeds limit t.length = false := by
  cases limit with
  | none => rfl
  | some most =>
    obtain ⟨hmost, hn⟩ := h most rfl
    have hlength := ht.length_le hmost (hm ▸ hn m (by simp [integers]))
    simpa [exceeds] using hlength

/-- What follows does not belong to a number in front of it. -/
def EndsNumber (rest : List Char) : Prop :=
  ∀ c ∈ rest.head?, c.isDigit = false ∧ c ≠ '.' ∧ c ≠ 'e' ∧ c ≠ 'E'

theorem spanDigits_append {ds : List Char} (hds : ∀ c ∈ ds, c.isDigit = true)
    (hrest : EndsNumber rest) : spanDigits (ds ++ rest) = (ds, rest) := by
  have hstop : rest.takeWhile Char.isDigit = [] ∧ rest.dropWhile Char.isDigit = rest := by
    cases rest with
    | nil => exact ⟨rfl, rfl⟩
    | cons c rest =>
      have hc := (hrest c rfl).1
      simp [hc]
  unfold spanDigits
  rw [List.span_eq_takeWhile_dropWhile, List.takeWhile_append_of_pos hds,
    List.dropWhile_append_of_pos hds, hstop.1, hstop.2, List.append_nil]

theorem wholeDigits_append {ds : List Char} (h : Numeral n ds) (hrest : EndsNumber rest) :
    wholeDigits (ds ++ rest) = (ds, rest) := by
  cases h with
  | zero => rfl
  | @digits d ds hds hd =>
    have hspan : wholeDigits (d :: ds ++ rest) = spanDigits (d :: ds ++ rest) := by
      rw [List.cons_append, wholeDigits.eq_def]
      split
      · rename_i heq
        exact absurd (List.cons.inj heq).1 hd
      · rfl
    rw [hspan, spanDigits_append hds hrest]

theorem fractionDigits_of_endsNumber (hrest : EndsNumber rest) : fractionDigits rest = ([], rest) := by
  cases rest with
  | nil => rfl
  | cons c rest =>
    rw [fractionDigits.eq_def]
    split
    · rename_i heq
      exact absurd (List.cons.inj heq).1 (hrest c rfl).2.1
    · rfl

theorem exponentPart_of_endsNumber (hrest : EndsNumber rest) : exponentPart rest = (none, rest) := by
  cases rest with
  | nil => rfl
  | cons c rest =>
    have hc := (hrest c rfl).2.2
    rw [exponentPart, if_neg (by simp [hc])]

theorem ofDigits_eq (h : Numeral n t) : Text.ofDigits (t.map fun d => d.toNat - 48) = n := by
  cases h with
  | zero => rfl
  | digits => exact List.foldl_map

theorem Numeral.ne_nil (h : Numeral n t) : t ≠ [] := by
  obtain ⟨c, u, rfl, -⟩ := h.exists_digit
  exact List.cons_ne_nil _ _

/-- A numeral is read, to its last digit. -/
theorem exists_readNumber (h : Numeral n t) (hlimit : exceeds limit t.length = false)
    (hrest : EndsNumber rest) (position : Nat) :
    ∃ p, readNumber limit ⟨position, t ++ rest⟩ = .ok (int n, ⟨p, rest⟩) := by
  obtain ⟨c, u, rfl, hc⟩ := h.exists_digit
  have hminus : c ≠ '-' := by
    rintro rfl
    cases hc
  refine ⟨position + ((c :: u ++ rest).length - rest.length), ?_⟩
  unfold readNumber
  have hsign : ∀ chars, (c :: u ++ rest) ≠ '-' :: chars := fun chars heq =>
    hminus (List.cons.inj heq).1
  dsimp only
  split
  · rename_i chars heq
    exact absurd heq (hsign chars)
  · simp only [wholeDigits_append h hrest, fractionDigits_of_endsNumber hrest,
      exponentPart_of_endsNumber hrest, ofDigits_eq h, List.isEmpty_cons, List.isEmpty_nil,
      Option.isNone_none, hlimit]
    rfl

theorem exists_readNumber_negative (h : Numeral n t) (hlimit : exceeds limit t.length = false)
    (hrest : EndsNumber rest) (position : Nat) :
    ∃ p, readNumber limit ⟨position, '-' :: t ++ rest⟩ = .ok (int (-n), ⟨p, rest⟩) := by
  refine ⟨position + (('-' :: t ++ rest).length - rest.length), ?_⟩
  unfold readNumber
  simp only [List.cons_append, wholeDigits_append h hrest, fractionDigits_of_endsNumber hrest,
    exponentPart_of_endsNumber hrest, ofDigits_eq h, List.isEmpty_iff, h.ne_nil, List.isEmpty_nil,
    Option.isNone_none, hlimit]
  rfl

/-! ### Values -/

/-- How the text of a value begins. -/
def Opens (c : Char) : Prop := c ∈ openings ∨ c.isDigit = true

theorem Opens.ne (h : Opens c) {d : Char} (hd : d ∉ openings) (hdigit : d.isDigit = false) : c ≠ d := by
  rintro rfl
  rcases h with h | h
  · exact hd h
  · exact Bool.false_ne_true (hdigit.symm.trans h)

theorem Opens.not_isSpace (h : Opens c) : isSpace c = false := by
  have h1 := h.ne (d := ' ') (by decide) rfl
  have h2 := h.ne (d := '\t') (by decide) rfl
  have h3 := h.ne (d := '\n') (by decide) rfl
  have h4 := h.ne (d := '\r') (by decide) rfl
  simp [isSpace, h1, h2, h3, h4]

theorem apart_of_blank_or_separator (hc : c ∈ [' ', '\t', '\n', '\r', ',', ']', '\x7d']) :
    c.isDigit = false ∧ c ≠ '.' ∧ c ≠ 'e' ∧ c ≠ 'E' := by
  simp only [List.mem_cons, List.not_mem_nil, or_false] at hc
  rcases hc with rfl | rfl | rfl | rfl | rfl | rfl | rfl <;> decide

theorem endsNumber_of_blanks (hw : Blanks w) (hc : c ∈ [',', ']', '\x7d']) :
    EndsNumber (w ++ c :: rest) := by
  intro d hd
  refine apart_of_blank_or_separator ?_
  cases w with
  | nil =>
    cases Option.mem_some_iff.1 hd
    exact List.mem_append_right [' ', '\t', '\n', '\r'] hc
  | cons e w =>
    cases Option.mem_some_iff.1 hd
    exact List.mem_append_left [',', ']', '\x7d'] (hw d List.mem_cons_self)

/-- The reader takes the text for the value, whatever follows it. Two steps for each character are
enough. -/
structure Reads (limit : Option Nat) (v : Json) (t : List Char) : Prop where
  opening : ∃ c u, t = c :: u ∧ Opens c
  value : ∀ fuel position rest, 2 * t.length ≤ fuel → EndsNumber rest →
    ∃ p, readValue limit fuel ⟨position, t ++ rest⟩ = .ok (v, ⟨p, rest⟩)

/-- The first of several listed parts, and what follows it. -/
theorem Listed.exists_first {p : List Char} {ps : List (List Char)} (h : Listed (p :: ps) t) :
    ∃ w w' more, Blanks w ∧ Blanks w' ∧ t = w ++ (p ++ (w' ++ more)) ∧
      (ps = [] ∧ more = [] ∨ ∃ u, more = ',' :: u ∧ ps ≠ [] ∧ Listed ps u) := by
  cases h with
  | single hp =>
    obtain ⟨w, w', hw, hw', rfl⟩ := hp
    exact ⟨w, w', [], hw, hw', by simp, Or.inl ⟨rfl, rfl⟩⟩
  | @cons p q t u ps hp h =>
    obtain ⟨w, w', hw, hw', rfl⟩ := hp
    exact ⟨w, w', ',' :: u, hw, hw', by simp, Or.inr ⟨u, rfl, List.cons_ne_nil _ _, h⟩⟩

variable (rest) in
theorem exists_readItems {items : List (Json × List Char)} (hitems : ∀ i ∈ items, Reads limit i.1 i.2)
    (ht : Listed (items.map (·.2)) t) (hne : items ≠ []) {fuel : Nat}
    (hfuel : 2 * t.length + 1 ≤ fuel) (position : Nat) :
    ∃ p, readItems limit fuel (skipSpaces position (t ++ ']' :: rest)) =
      .ok (items.map (·.1), ⟨p, rest⟩) := by
  induction items generalizing t fuel position with
  | nil => exact absurd rfl hne
  | cons i items ih =>
    obtain ⟨w, w', more, hw, hw', rfl, hmore⟩ := ht.exists_first
    obtain ⟨⟨c, u, hi, hc⟩, hvalue⟩ := hitems i List.mem_cons_self
    obtain ⟨fuel, rfl⟩ := Nat.exists_eq_add_of_lt (Nat.lt_of_lt_of_le (Nat.succ_pos _) hfuel)
    simp only [List.length_append, Nat.zero_add] at hfuel ⊢
    -- up to the first item there are blanks only
    obtain ⟨p, hskip⟩ := exists_skipSpaces (u ++ (w' ++ more ++ ']' :: rest)) hw
      hc.not_isSpace position
    have htext : w ++ (i.2 ++ (w' ++ more)) ++ ']' :: rest =
        w ++ c :: (u ++ (w' ++ more ++ ']' :: rest)) := by simp [hi]
    have hfirst : (⟨p, c :: (u ++ (w' ++ more ++ ']' :: rest))⟩ : Rest) =
        ⟨p, i.2 ++ (w' ++ (more ++ ']' :: rest))⟩ := by simp [hi]
    rw [htext, hskip, hfirst]
    rcases hmore with ⟨hnil, rfl⟩ | ⟨v, rfl, hcons, hlisted⟩
    · obtain rfl := List.map_eq_nil_iff.1 hnil
      obtain ⟨q, hq⟩ := hvalue fuel p (w' ++ ']' :: rest) (by omega)
        (endsNumber_of_blanks hw' (by decide))
      obtain ⟨p', hclose⟩ := exists_skipSpaces rest hw' (c := ']') rfl q
      refine ⟨p' + 1, ?_⟩
      rw [readItems, List.nil_append, hq]
      simp only [Rest.unspaced, hclose]
      rfl
    · obtain ⟨q, hq⟩ := hvalue fuel p (w' ++ ',' :: (v ++ ']' :: rest)) (by omega)
        (endsNumber_of_blanks hw' (by decide))
      obtain ⟨p', hcomma⟩ := exists_skipSpaces (v ++ ']' :: rest) hw' (c := ',') rfl q
      have hfuel' : 2 * v.length + 1 ≤ fuel := by
        rw [List.length_cons] at hfuel
        omega
      obtain ⟨p'', hrest⟩ := ih (fun j hj => hitems j (List.mem_cons_of_mem _ hj)) hlisted
        (fun h => hcons (List.map_eq_nil_iff.2 h)) hfuel' (p' + 1)
      refine ⟨p'', ?_⟩
      rw [readItems, List.cons_append, hq]
      simp only [Rest.unspaced, hcomma, Rest.skip, List.drop_one, List.tail_cons, hrest]
      rfl

theorem IsLabel.exists_quote {name : String} {label : List Char} (h : IsLabel name label) :
    ∃ u, label = '"' :: u := by
  obtain ⟨t, colon, -, -, rfl⟩ := h
  exact ⟨_, rfl⟩

variable (rest) in
/-- The label of a field is read, up to the value. -/
theorem exists_readLabel {name : String} (h : IsLabel name ('"' :: u)) (hc : isSpace c = false)
    (position : Nat) :
    ∃ after p p' more, readString ⟨position, u ++ c :: rest⟩ = .ok (name, after) ∧
      after.unspaced = ⟨p, ':' :: more⟩ ∧ Rest.unspaced ⟨p + 1, more⟩ = ⟨p', c :: rest⟩ := by
  obtain ⟨t, colon, ht, ⟨w, w', hw, hw', rfl⟩, heq⟩ := h
  obtain rfl : u = t ++ '"' :: (w ++ [':'] ++ w') := (List.cons.inj heq).2
  obtain ⟨q, hread⟩ := exists_readString (w ++ ':' :: (w' ++ c :: rest)) ht position
  obtain ⟨p, hcolon⟩ := exists_skipSpaces (w' ++ c :: rest) hw (c := ':') rfl q
  obtain ⟨p', hvalue⟩ := exists_skipSpaces rest hw' hc (p + 1)
  refine ⟨⟨q, w ++ ':' :: (w' ++ c :: rest)⟩, p, p', w' ++ c :: rest, ?_, hcolon, hvalue⟩
  simpa using hread

variable (rest) in
theorem exists_readFields {fields : List FieldText}
    (hlabels : ∀ f ∈ fields, IsLabel f.name f.label)
    (hvalues : ∀ f ∈ fields, Reads limit f.value f.valueText)
    (ht : Listed (fields.map fun f => f.label ++ f.valueText) t) (hne : fields ≠ []) {fuel : Nat}
    (hfuel : 2 * t.length + 1 ≤ fuel) (position : Nat) :
    ∃ p, readFields limit fuel (skipSpaces position (t ++ '\x7d' :: rest)) =
      .ok (fields.map fun f => (f.name, f.value), ⟨p, rest⟩) := by
  induction fields generalizing t fuel position with
  | nil => exact absurd rfl hne
  | cons f fields ih =>
    obtain ⟨w, w', more, hw, hw', rfl, hmore⟩ := ht.exists_first
    obtain ⟨⟨c, u, hf, hc⟩, hvalue⟩ := hvalues f List.mem_cons_self
    obtain ⟨fuel, rfl⟩ := Nat.exists_eq_add_of_lt (Nat.lt_of_lt_of_le (Nat.succ_pos _) hfuel)
    simp only [List.length_append, Nat.zero_add] at hfuel ⊢
    -- up to the quote of the first label there are blanks only
    have hlabel := hlabels f List.mem_cons_self
    obtain ⟨t', hquote⟩ := hlabel.exists_quote
    obtain ⟨p, hskip⟩ := exists_skipSpaces
      (t' ++ (f.valueText ++ (w' ++ (more ++ '\x7d' :: rest)))) hw (c := '"') rfl position
    have htext : w ++ (f.label ++ f.valueText ++ (w' ++ more)) ++ '\x7d' :: rest =
        w ++ '"' :: (t' ++ (f.valueText ++ (w' ++ (more ++ '\x7d' :: rest)))) := by simp [hquote]
    obtain ⟨after, k, k', rest', hname, hcolon, hstart⟩ := exists_readLabel
      (u ++ (w' ++ (more ++ '\x7d' :: rest))) (hquote ▸ hlabel) hc.not_isSpace (p + 1)
    rw [← List.cons_append, ← hf] at hname hstart
    rw [htext, hskip]
    rcases hmore with ⟨hnil, rfl⟩ | ⟨v, rfl, hcons, hlisted⟩
    · obtain rfl := List.map_eq_nil_iff.1 hnil
      obtain ⟨q, hq⟩ := hvalue fuel k' (w' ++ '\x7d' :: rest) (by omega)
        (endsNumber_of_blanks hw' (by decide))
      obtain ⟨p', hclose⟩ := exists_skipSpaces rest hw' (c := '\x7d') rfl q
      refine ⟨p' + 1, ?_⟩
      rw [readFields]
      rw [List.nil_append] at hname hstart ⊢
      simp only [Rest.skip, List.drop_one, List.tail_cons, hname, hcolon, hstart, hq]
      simp only [Rest.unspaced, hclose]
      rfl
    · obtain ⟨q, hq⟩ := hvalue fuel k' (w' ++ ',' :: (v ++ '\x7d' :: rest)) (by omega)
        (endsNumber_of_blanks hw' (by decide))
      obtain ⟨p', hcomma⟩ := exists_skipSpaces (v ++ '\x7d' :: rest) hw' (c := ',') rfl q
      have hfuel' : 2 * v.length + 1 ≤ fuel := by
        rw [List.length_cons] at hfuel
        omega
      obtain ⟨p'', hrest⟩ := ih (fun g hg => hlabels g (List.mem_cons_of_mem _ hg))
        (fun g hg => hvalues g (List.mem_cons_of_mem _ hg)) hlisted
        (fun h => hcons (List.map_eq_nil_iff.2 h)) hfuel' (p' + 1)
      refine ⟨p'', ?_⟩
      rw [readFields]
      rw [List.cons_append] at hname hstart ⊢
      simp only [Rest.skip, List.drop_one, List.tail_cons, hname, hcolon, hstart, hq]
      simp only [Rest.unspaced, hcomma, List.tail_cons, hrest]
      rfl

theorem setIn_of_not_mem {key : String} {fs : List (String × Json)} (h : key ∉ fs.map (·.1)) :
    setIn key v fs = fs ++ [(key, v)] := by
  induction fs with
  | nil => rfl
  | cons f fs ih =>
    obtain ⟨k, x⟩ := f
    rw [List.map_cons, List.mem_cons, not_or] at h
    rw [setIn, if_neg (Ne.symm h.1), ih h.2, List.cons_append]

theorem mergeFields_of_nodup {fs : List (String × Json)} (h : (fs.map (·.1)).Nodup) :
    mergeFields fs = fs := by
  have hfold : ∀ gs fs : List (String × Json), ((gs ++ fs).map (·.1)).Nodup →
      fs.foldl (fun acc f => setIn f.1 f.2 acc) gs = gs ++ fs := by
    intro gs fs
    induction fs generalizing gs with
    | nil => simp
    | cons f fs ih =>
      intro hnodup
      have hf : f.1 ∉ gs.map (·.1) := by
        rw [List.map_append, List.nodup_append] at hnodup
        exact fun hmem => hnodup.2.2 _ hmem _ (by simp) rfl
      rw [List.foldl_cons, setIn_of_not_mem hf, ih _ (by simpa using hnodup), List.append_assoc,
        List.singleton_append]
  exact hfold [] fs h

theorem readValue_of_digit (hc : c.isDigit = true) (fuel position : Nat) :
    readValue limit (fuel + 1) ⟨position, c :: t⟩ = readNumber limit ⟨position, c :: t⟩ := by
  have hne : ∀ d : Char, d.isDigit = false → d ≠ c := by
    rintro d hd rfl
    exact Bool.false_ne_true (hd.symm.trans hc)
  have hword : readConstant? ⟨position, c :: t⟩ = none := by simp [readConstant?, constants, hne]
  rw [readValue.eq_def]
  simp [hword, (hne _ _).symm]

theorem readValue_of_sign (hc : c.isDigit = true) (fuel position : Nat) :
    readValue limit (fuel + 1) ⟨position, '-' :: c :: t⟩ =
      readNumber limit ⟨position, '-' :: c :: t⟩ := by
  have hne : 'I' ≠ c := by
    rintro rfl
    cases hc
  have hword : readConstant? ⟨position, '-' :: c :: t⟩ = none := by
    simp [readConstant?, constants, hne]
  rw [readValue.eq_def]
  simp [hword]

/-- The text of a value is not empty, so there is a step for its first character. -/
theorem Spells.reads_of_succ (h : Spells v t)
    (hvalue : ∀ fuel position rest, 2 * t.length ≤ fuel + 1 → EndsNumber rest →
      ∃ p, readValue limit (fuel + 1) ⟨position, t ++ rest⟩ = .ok (v, ⟨p, rest⟩)) :
    Reads limit v t := by
  refine ⟨h.exists_opening, fun fuel position rest hfuel hrest => ?_⟩
  obtain ⟨c, u, rfl, -⟩ := h.exists_opening
  cases fuel with
  | zero => simp at hfuel
  | succ fuel => exact hvalue fuel position rest hfuel hrest

variable (rest) in
theorem exists_readValue_arr {items : List (Json × List Char)} (hitems : ∀ i ∈ items, Reads limit i.1 i.2)
    (ht : Listed (items.map (·.2)) t) {fuel : Nat} (hfuel : 2 * t.length + 1 ≤ fuel) (position : Nat) :
    ∃ p, readValue limit (fuel + 1) ⟨position, '[' :: (t ++ ']' :: rest)⟩ =
      .ok (arr (items.map (·.1)), ⟨p, rest⟩) := by
  cases items with
  | nil =>
    cases ht with
    | nil hw =>
      obtain ⟨p, hclose⟩ := exists_skipSpaces rest hw (c := ']') rfl (position + 1)
      refine ⟨p + 1, ?_⟩
      rw [readValue]
      simp only [Rest.unspaced, Rest.skip, List.drop_one, List.tail_cons, hclose]
      rfl
  | cons i items =>
    obtain ⟨p, hread⟩ := exists_readItems rest hitems ht (List.cons_ne_nil _ _) hfuel
      (position + 1)
    obtain ⟨w, w', more, hw, -, rfl, -⟩ := ht.exists_first
    obtain ⟨⟨c, u, hi, hc⟩, -⟩ := hitems i List.mem_cons_self
    obtain ⟨q, hskip⟩ := exists_skipSpaces (u ++ (w' ++ more) ++ ']' :: rest) hw
      hc.not_isSpace (position + 1)
    have htext : w ++ (i.2 ++ (w' ++ more)) ++ ']' :: rest =
        w ++ c :: (u ++ (w' ++ more) ++ ']' :: rest) := by simp [hi]
    refine ⟨p, ?_⟩
    rw [htext, hskip] at hread
    rw [htext, readValue]
    simp only [Rest.unspaced, Rest.skip, List.drop_one, List.tail_cons, hskip]
    -- the first item does not begin with the closing bracket
    split
    · rename_i heq
      exact absurd (List.cons.inj heq).1 (hc.ne (by decide) rfl)
    · rw [hread]
      rfl

variable (rest) in
theorem exists_readValue_obj {fields : List FieldText} (hnames : (fields.map (·.name)).Nodup)
    (hlabels : ∀ f ∈ fields, IsLabel f.name f.label)
    (hvalues : ∀ f ∈ fields, Reads limit f.value f.valueText)
    (ht : Listed (fields.map fun f => f.label ++ f.valueText) t) {fuel : Nat}
    (hfuel : 2 * t.length + 1 ≤ fuel) (position : Nat) :
    ∃ p, readValue limit (fuel + 1) ⟨position, '\x7b' :: (t ++ '\x7d' :: rest)⟩ =
      .ok (obj (fields.map fun f => (f.name, f.value)), ⟨p, rest⟩) := by
  cases fields with
  | nil =>
    cases ht with
    | nil hw =>
      obtain ⟨p, hclose⟩ := exists_skipSpaces rest hw (c := '\x7d') rfl (position + 1)
      refine ⟨p + 1, ?_⟩
      rw [readValue]
      simp only [Rest.unspaced, Rest.skip, List.drop_one, List.tail_cons, hclose]
      rfl
  | cons f fields =>
    obtain ⟨p, hread⟩ := exists_readFields rest hlabels hvalues ht (List.cons_ne_nil _ _)
      hfuel (position + 1)
    obtain ⟨w, w', more, hw, -, rfl, -⟩ := ht.exists_first
    obtain ⟨u, hquote⟩ := (hlabels f List.mem_cons_self).exists_quote
    obtain ⟨q, hskip⟩ := exists_skipSpaces
      (u ++ f.valueText ++ (w' ++ more) ++ '\x7d' :: rest) hw (c := '"') rfl (position + 1)
    have htext : w ++ (f.label ++ f.valueText ++ (w' ++ more)) ++ '\x7d' :: rest =
        w ++ '"' :: (u ++ f.valueText ++ (w' ++ more) ++ '\x7d' :: rest) := by simp [hquote]
    have hmerge : mergeFields ((f :: fields).map fun f => (f.name, f.value)) =
        (f :: fields).map fun f => (f.name, f.value) := by
      refine mergeFields_of_nodup ?_
      rw [List.map_map]
      exact hnames
    refine ⟨p, ?_⟩
    rw [htext, hskip] at hread
    rw [htext, readValue]
    simp only [Rest.unspaced, Rest.skip, List.drop_one, List.tail_cons, hskip, hread]
    show Except.ok (obj (mergeFields _), _) = _
    rw [hmerge]

theorem Admits.item {vs : List Json} (h : Admits limit (arr vs)) (hv : v ∈ vs) : Admits limit v :=
  fun most hmost => ⟨(h most hmost).1, forall_mem_itemIntegers.1 (h most hmost).2 v hv⟩

theorem Admits.field {fs : List (String × Json)} (h : Admits limit (obj fs)) {f : String × Json}
    (hf : f ∈ fs) : Admits limit f.2 := by
  have hitems : Admits limit (arr (fs.map (·.2))) := fun most hmost => by
    rw [integers, ← fieldIntegers_eq]
    exact h most hmost
  exact hitems.item (List.mem_map_of_mem hf)

/-- **Every text of a value is read** as that value. -/
theorem Spells.reads (h : Spells v t) (hlimit : Admits limit v) : Reads limit v t := by
  induction h with
  | null =>
    refine Spells.null.reads_of_succ fun fuel position rest _ _ => ⟨position + 4, ?_⟩
    rw [readValue.eq_def]
    rfl
  | trueWord =>
    refine Spells.trueWord.reads_of_succ fun fuel position rest _ _ => ⟨position + 4, ?_⟩
    rw [readValue.eq_def]
    rfl
  | falseWord =>
    refine Spells.falseWord.reads_of_succ fun fuel position rest _ _ => ⟨position + 5, ?_⟩
    rw [readValue.eq_def]
    rfl
  | @nat n t h =>
    refine (Spells.nat h).reads_of_succ fun fuel position rest _ hrest => ?_
    have hshort := hlimit.exceeds_eq_false h (Int.natAbs_natCast n)
    obtain ⟨c, u, rfl, hc⟩ := h.exists_digit
    rw [List.cons_append, readValue_of_digit hc]
    exact exists_readNumber h hshort hrest position
  | @negative n t h =>
    refine (Spells.negative h).reads_of_succ fun fuel position rest _ hrest => ?_
    have hshort := hlimit.exceeds_eq_false h (by rw [Int.natAbs_neg, Int.natAbs_natCast])
    obtain ⟨c, u, rfl, hc⟩ := h.exists_digit
    rw [List.cons_append, List.cons_append, readValue_of_sign hc]
    exact exists_readNumber_negative h hshort hrest position
  | @str s t h =>
    refine (Spells.str h).reads_of_succ fun fuel position rest _ _ => ?_
    obtain ⟨p, hread⟩ := exists_readString rest h (position + 1)
    refine ⟨p, ?_⟩
    rw [readValue.eq_def]
    simp [Rest.skip, hread, Except.map]
  | @arr items t _ ht ih =>
    refine (Spells.arr ‹_› ht).reads_of_succ fun fuel position rest hfuel _ => ?_
    have hfuel' : 2 * t.length + 1 ≤ fuel := by
      simp only [List.length_append, List.length_cons, List.length_nil] at hfuel
      omega
    have hitems : ∀ i ∈ items, Reads limit i.1 i.2 := fun i hi =>
      ih i hi (hlimit.item (List.mem_map_of_mem hi))
    simpa using exists_readValue_arr rest hitems ht hfuel' position
  | @obj fields t hnames hlabels _ ht ih =>
    refine (Spells.obj hnames hlabels ‹_› ht).reads_of_succ fun fuel position rest hfuel _ => ?_
    have hfuel' : 2 * t.length + 1 ≤ fuel := by
      simp only [List.length_append, List.length_cons, List.length_nil] at hfuel
      omega
    have hvalues : ∀ f ∈ fields, Reads limit f.value f.valueText := fun f hf =>
      ih f hf (hlimit.field (List.mem_map_of_mem hf))
    simpa using exists_readValue_obj rest hnames hlabels hvalues ht hfuel' position

/-- **Every text of the grammar is read**, to its end and as the value it stands for, unless an integer
in it has too many digits. -/
theorem readWith_of_spellsText {text : String} (h : SpellsText v text.toList)
    (hlimit : Admits limit v) : readWith limit text = .ok v := by
  obtain ⟨t, ht, w, w', hw, hw', htext⟩ := h
  obtain ⟨⟨c, u, rfl, hc⟩, hvalue⟩ := ht.reads hlimit
  obtain ⟨p, hskip⟩ := exists_skipSpaces (u ++ w') hw hc.not_isSpace 0
  have htext' : text.toList = w ++ c :: (u ++ w') := by simpa using htext
  have hrest : EndsNumber w' := by
    intro d hd
    have hblank := hw' d (List.mem_of_mem_head? hd)
    exact apart_of_blank_or_separator (List.mem_append_left [',', ']', '\x7d'] hblank)
  obtain ⟨q, hread⟩ := hvalue (2 * text.toList.length + 2) p w' (by rw [htext']; simp; omega) hrest
  obtain ⟨p', hend⟩ := exists_skipSpaces_end hw' q
  -- the mark of the byte order is neither a blank nor the beginning of a value
  have hmark : ∀ chars, text.toList ≠ '\ufeff' :: chars := by
    intro chars heq
    rw [htext'] at heq
    cases w with
    | nil => exact hc.ne (by decide) rfl (List.cons.inj heq).1
    | cons d w =>
      obtain rfl := (List.cons.inj heq).1
      have h := hw _ List.mem_cons_self
      revert h
      decide
  unfold readWith
  dsimp only
  split
  · rename_i chars heq
    exact absurd heq (hmark chars)
  · rw [htext', hskip, ← htext', ← List.cons_append, hread]
    simp only [Rest.unspaced, hend]
    rfl

theorem SpellsText.unique (h : SpellsText v t) {v' : Json} (h' : SpellsText v' t) : v = v' := by
  have hread : readWith none (String.ofList t) = .ok v :=
    readWith_of_spellsText (by simpa using h) (admits_none v)
  have hread' : readWith none (String.ofList t) = .ok v' :=
    readWith_of_spellsText (by simpa using h') (admits_none v')
  exact Except.ok.inj (hread.symm.trans hread')

end ContentAssist.Json
