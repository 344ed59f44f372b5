import ContentAssist.Json.Writer
import ContentAssist.Proofs.Failure
import ContentAssist.Proofs.Json.Reading

/-! # Writing JSON texts

A value without floating-point numbers, whose objects name each of their fields once, is written unless
an integer in it has too many digits, or its innermost lines are indented by more blanks than fit a machine
word. What is written is a text of the grammar, whatever the indent. So it is read back as the value, and
no other value is written as the same text, be it with another indent.

* `Plain`: the values this is about;
* `Plain.exists_chars_iff`: when they are written;
* `Plain.spells`, `render_is_faithful`: their texts. -/

namespace ContentAssist.Json

variable {v : Json} {indent : Int} {level : Nat}

/-- No number in the value has a fraction or an exponent, and no object names two fields alike. -/
inductive Plain : Json → Prop
  | null : Plain null
  | bool (b : Bool) : Plain (bool b)
  | int (n : Int) : Plain (int n)
  | str (s : String) : Plain (str s)
  | arr {xs : List Json} (h : ∀ x ∈ xs, Plain x) : Plain (arr xs)
  | obj {fs : List (String × Json)} (hnames : (fs.map (·.1)).Nodup) (h : ∀ f ∈ fs, Plain f.2) :
      Plain (obj fs)

/-! ### Strings -/

theorem hexUnit_control : ∀ n < 32, HexUnit n (Text.hexDigits 4 n) := by
  have hdigits : ∀ n < 32, Text.hexDigits 4 n = ['0', '0', (n / 16).digitChar, (n % 16).digitChar] ∧
      unit? '0' '0' (n / 16).digitChar (n % 16).digitChar = some n := by decide
  intro n hn
  exact ⟨_, _, _, _, hdigits n hn⟩

theorem spellsChar_escapeChar (c : Char) : SpellsChar c (escapeChar c) := by
  unfold escapeChar
  split_ifs with hslash hquote hline hreturn htab hcontrol
  · exact .short (by simp [shortEscapes, hslash])
  · exact .short (by simp [shortEscapes, hquote])
  · exact .short (by simp [shortEscapes, hline])
  · exact .short (by simp [shortEscapes, hreturn])
  · exact .short (by simp [shortEscapes, htab])
  · exact .unit (hexUnit_control _ hcontrol)
  · exact .plain (Nat.not_lt.1 hcontrol) hquote hslash

theorem spellsChars_escape (cs : List Char) : SpellsChars cs (cs.flatMap escapeChar) := by
  induction cs with
  | nil => exact .nil
  | cons c cs ih => exact .cons (spellsChar_escapeChar c) ih

/-! ### Whole numbers -/

/-- Only the numeral of zero begins with a zero. -/
theorem exists_toDigits {n : Nat} (hn : 0 < n) : ∃ d ds, Nat.toDigits 10 n = d :: ds ∧ d ≠ '0' := by
  induction n using Nat.strongRecOn with
  | ind n ih =>
    rw [Nat.toDigits_eq_if (by decide)]
    split
    · rename_i hlt
      have hdigit : ∀ n < 10, 0 < n → n.digitChar ≠ '0' := by decide
      exact ⟨_, [], rfl, hdigit n hlt hn⟩
    · rename_i hge
      obtain ⟨d, ds, heq, hd⟩ := ih (n / 10) (by omega) (by omega)
      exact ⟨d, ds ++ [(n % 10).digitChar], by rw [heq, List.cons_append], hd⟩

theorem numeral_toDigits (n : Nat) : Numeral n (Nat.toDigits 10 n) := by
  rcases Nat.eq_zero_or_pos n with rfl | hn
  · exact .zero
  · obtain ⟨d, ds, heq, hd⟩ := exists_toDigits hn
    have hds : ∀ c ∈ d :: ds, c.isDigit = true := fun c hc =>
      Nat.isDigit_of_mem_toDigits (by decide) (by decide) (heq ▸ hc)
    have h := Numeral.digits hds hd
    rwa [← heq, Nat.ofDigitChars_ten_toDigits] at h

theorem spells_int (n : Int) : Spells (int n) (toString n).toList := by
  rw [Text.toList_toString_int]
  split
  · rename_i hn
    have h := Spells.nat (numeral_toDigits n.natAbs)
    rwa [Int.natAbs_of_nonneg hn] at h
  · rename_i hn
    have h := Spells.negative (numeral_toDigits n.natAbs)
    rwa [Int.ofNat_natAbs_of_nonpos (by omega), Int.neg_neg] at h

theorem integerChars_eq (n : Int) : integerChars n =
    if n.natAbs < 10 ^ Text.maxDigits then .ok (toString n).toList else .error .longInteger := by
  unfold integerChars
  rw [Text.decimal?_eq]
  split_ifs <;> rfl

theorem integerChars_eq_ok_iff {n : Int} {t : List Char} :
    integerChars n = .ok t ↔ n.natAbs < 10 ^ Text.maxDigits ∧ (toString n).toList = t := by
  rw [integerChars_eq]
  split_ifs with hn <;> simp [hn]

/-! ### Layouts -/

theorem blanks_replicate (k : Nat) : Blanks (List.replicate k ' ') := by
  intro c hc
  rw [List.eq_of_mem_replicate hc]
  exact List.mem_cons_self

theorem blanks_line (k : Nat) : Blanks ('\n' :: List.replicate k ' ') := by
  intro c hc
  rcases List.mem_cons.1 hc with rfl | hc
  · decide
  · exact blanks_replicate k c hc

/-- What stands in front of each part may be moved to the separators. -/
theorem join_map_append (sep pad : List Char) {parts : List (List Char)} (hne : parts ≠ []) :
    Text.join sep (parts.map (pad ++ ·)) = pad ++ Text.join (sep ++ pad) parts := by
  induction parts with
  | nil => exact absurd rfl hne
  | cons p parts ih =>
    cases parts with
    | nil => rfl
    | cons q parts =>
      rw [List.map_cons] at ih
      rw [List.map_cons, List.map_cons, Text.join, ih (List.cons_ne_nil _ _), Text.join]
      simp

/-- Parts between commas, with the same blanks in front of each. -/
theorem listed_join {lead last : List Char} (hlead : Blanks lead) (hlast : Blanks last)
    {parts : List (List Char)} (hne : parts ≠ []) :
    Listed parts (lead ++ Text.join (',' :: lead) parts ++ last) := by
  induction parts with
  | nil => exact absurd rfl hne
  | cons p parts ih =>
    cases parts with
    | nil => exact .single ⟨lead, last, hlead, hlast, rfl⟩
    | cons q parts =>
      have h : Listed (p :: q :: parts) ((lead ++ p ++ []) ++
          ',' :: (lead ++ Text.join (',' :: lead) (q :: parts) ++ last)) :=
        .cons ⟨lead, [], hlead, by simp [Blanks], rfl⟩ (ih (List.cons_ne_nil _ _))
      simpa [Text.join] using h

theorem padding_eq_ok_iff {n : Int} {t : List Char} :
    padding n = .ok t ↔ FitsWord n ∧ List.replicate n.toNat ' ' = t := by
  unfold padding
  by_cases hn : FitsWord n <;> simp [hn]

theorem fitsWord_zero : FitsWord 0 := by decide

/-- Lines that are indented less fit if those that are indented more do. -/
theorem FitsWord.of_le {m n : Nat} (h : FitsWord (indent * n)) (hmn : m ≤ n) :
    FitsWord (indent * m) := by
  have hcast : (m : Int) ≤ n := Int.ofNat_le.2 hmn
  obtain ⟨hlow, hhigh⟩ := h
  rcases Int.le_total 0 indent with hindent | hindent
  · have hle := Int.mul_le_mul_of_nonneg_left hcast hindent
    have hpos := Int.mul_nonneg hindent (Int.natCast_nonneg m)
    exact ⟨by omega, by omega⟩
  · have hle := Int.mul_le_mul_of_nonpos_left hindent hcast
    have hneg := Int.mul_nonpos_of_nonpos_of_nonneg hindent (Int.natCast_nonneg m)
    exact ⟨by omega, by omega⟩

/-- Parts are enclosed if there are none, or the lines they stand on can be indented. -/
theorem exists_enclose_iff {opener closer : Char} {parts : List (List Char)} :
    (∃ t, enclose opener closer indent level parts = .ok t) ↔
      parts = [] ∨ FitsWord (indent * (level + 1 : Nat)) := by
  unfold enclose
  rcases parts with _ | ⟨p, parts⟩
  · simp
  · by_cases hindent : indent = 0
    · simp [hindent, fitsWord_zero]
    · have hclose : FitsWord (indent * (level + 1 : Nat)) → FitsWord (indent * level) := fun h =>
        h.of_le (Nat.le_succ level)
      simpa [hindent, bind_eq_ok_iff, padding_eq_ok_iff, pure, Except.pure] using hclose

/-- Whatever the indent, parts between brackets are listed. -/
theorem exists_of_enclose {opener closer : Char} {parts : List (List Char)} {u : List Char}
    (h : enclose opener closer indent level parts = .ok u) :
    ∃ t, u = opener :: t ++ [closer] ∧ Listed parts t := by
  unfold enclose at h
  split at h
  · rename_i hempty
    obtain rfl := List.isEmpty_iff.1 hempty
    exact ⟨[], (Except.ok.inj h).symm, .nil (by simp [Blanks])⟩
  · rename_i hparts
    have hne : parts ≠ [] := fun h => hparts (List.isEmpty_iff.2 h)
    split at h
    · have hnone : Blanks [] := by simp [Blanks]
      exact ⟨Text.join [','] parts, (Except.ok.inj h).symm, by simpa using listed_join hnone hnone hne⟩
    · obtain ⟨pad, hpad, h⟩ := bind_eq_ok_iff.1 h
      obtain ⟨padClose, hclose, h⟩ := bind_eq_ok_iff.1 h
      obtain ⟨-, rfl⟩ := padding_eq_ok_iff.1 hpad
      obtain ⟨-, rfl⟩ := padding_eq_ok_iff.1 hclose
      refine ⟨_, ?_, listed_join (blanks_line (indent * (level + 1)).toNat)
        (blanks_line (indent * level).toNat) hne⟩
      rw [← Except.ok.inj h, join_map_append _ _ hne]
      simp

/-! ### Items and fields -/

theorem exists_itemChars_iff {xs : List Json} :
    (∃ parts, itemChars indent level xs = .ok parts) ↔
      ∀ x ∈ xs, ∃ t, chars indent level x = .ok t := by
  induction xs with
  | nil => simp [itemChars]
  | cons x xs ih =>
    rw [List.forall_mem_cons, ← ih]
    simp [itemChars, bind_eq_ok_iff, pure, Except.pure]

theorem exists_fieldChars_iff {fs : List (String × Json)} :
    (∃ parts, fieldChars indent level fs = .ok parts) ↔
      ∀ f ∈ fs, ∃ t, chars indent level f.2 = .ok t := by
  induction fs with
  | nil => simp [fieldChars]
  | cons f fs ih =>
    rw [List.forall_mem_cons, ← ih]
    simp [fieldChars, bind_eq_ok_iff, pure, Except.pure]

/-- Parts that are written one by one are enclosed if there are none, or their lines can be indented. -/
theorem exists_enclosed_iff {opener closer : Char} {x : Except WriteError (List (List Char))}
    {empty : Prop} (hempty : ∀ parts, x = .ok parts → (parts = [] ↔ empty)) :
    (∃ t, x >>= enclose opener closer indent level = .ok t) ↔
      (∃ parts, x = .ok parts) ∧ (empty ∨ FitsWord (indent * (level + 1 : Nat))) := by
  cases x with
  | error e => simp [bind, Except.bind]
  | ok parts =>
    have hwritten : ∃ parts', (.ok parts : Except WriteError (List (List Char))) = .ok parts' :=
      ⟨parts, rfl⟩
    rw [← hempty parts rfl, ← exists_enclose_iff, and_iff_right hwritten]
    rfl

/-- The items that are written, each with its text. -/
theorem exists_items {xs : List Json} {parts : List (List Char)}
    (h : itemChars indent level xs = .ok parts) :
    ∃ items : List (Json × List Char), items.map (·.1) = xs ∧ items.map (·.2) = parts ∧
      ∀ i ∈ items, chars indent level i.1 = .ok i.2 := by
  induction xs generalizing parts with
  | nil => exact ⟨[], rfl, Except.ok.inj h, by simp⟩
  | cons x xs ih =>
    rw [itemChars] at h
    obtain ⟨text, htext, h⟩ := bind_eq_ok_iff.1 h
    obtain ⟨texts, htexts, h⟩ := bind_eq_ok_iff.1 h
    obtain ⟨items, rfl, rfl, hitems⟩ := ih htexts
    exact ⟨(x, text) :: items, rfl, Except.ok.inj h, List.forall_mem_cons.2 ⟨htext, hitems⟩⟩

/-- The fields that are written, each with its label and the text of its value. -/
theorem exists_fields {fs : List (String × Json)} {parts : List (List Char)}
    (h : fieldChars indent level fs = .ok parts) :
    ∃ fields : List FieldText, fields.map (fun f => (f.name, f.value)) = fs ∧
      fields.map (fun f => f.label ++ f.valueText) = parts ∧
      ∀ f ∈ fields, f.label = stringChars f.name ++ fieldSeparator indent ∧
        chars indent level f.value = .ok f.valueText := by
  induction fs generalizing parts with
  | nil => exact ⟨[], rfl, Except.ok.inj h, by simp⟩
  | cons f fs ih =>
    rw [fieldChars] at h
    obtain ⟨text, htext, h⟩ := bind_eq_ok_iff.1 h
    obtain ⟨texts, htexts, h⟩ := bind_eq_ok_iff.1 h
    obtain ⟨fields, rfl, rfl, hfields⟩ := ih htexts
    exact ⟨⟨f.1, f.2, stringChars f.1 ++ fieldSeparator indent, text⟩ :: fields, rfl,
      Except.ok.inj h, List.forall_mem_cons.2 ⟨⟨rfl, htext⟩, hfields⟩⟩

theorem isLabel_stringChars (name : String) (indent : Int) :
    IsLabel name (stringChars name ++ fieldSeparator indent) := by
  have hsep : Padded [':'] (fieldSeparator indent) := by
    unfold fieldSeparator
    split
    · exact ⟨[], [], by simp [Blanks], by simp [Blanks], rfl⟩
    · exact ⟨[], [' '], by simp [Blanks], by simp [Blanks], rfl⟩
  exact ⟨name.toList.flatMap escapeChar, fieldSeparator indent, spellsChars_escape _, hsep,
    by simp [stringChars]⟩

/-! ### Values -/

/-- The lines in an array can be indented if the lines in its items can, one level deeper, and those that
the items stand on. -/
theorem fitsWord_items_iff {xs : List Json} :
    (∀ k < itemDepth xs, FitsWord (indent * (level + (k + 1) : Nat))) ↔
      (∀ x ∈ xs, ∀ k < x.depth, FitsWord (indent * (level + 1 + (k + 1) : Nat))) ∧
        (xs = [] ∨ FitsWord (indent * (level + 1 : Nat))) := by
  constructor
  · intro h
    refine ⟨fun x hx k hk => ?_, ?_⟩
    · have hinner := h (k + 1) (lt_itemDepth_iff.2 ⟨x, hx, Nat.succ_lt_succ hk⟩)
      rwa [Nat.add_right_comm k 1 1, ← Nat.add_assoc, Nat.add_right_comm level (k + 1) 1] at hinner
    · cases xs with
      | nil => exact Or.inl rfl
      | cons x xs =>
        exact Or.inr (h 0 (lt_itemDepth_iff.2 ⟨x, List.mem_cons_self, Nat.succ_pos _⟩))
  · rintro ⟨hinner, houter⟩ k hk
    obtain ⟨x, hx, hkx⟩ := lt_itemDepth_iff.1 hk
    cases k with
    | zero => exact houter.resolve_left (List.ne_nil_of_mem hx)
    | succ k =>
      have h := hinner x hx k (Nat.lt_of_succ_lt_succ hkx)
      rwa [Nat.add_right_comm level 1 (k + 1), Nat.add_assoc level (k + 1) 1] at h

/-- **A value is written** at a nesting depth if none of its integers has too many digits, and each of its
lines can be indented. -/
theorem Plain.exists_chars_iff (h : Plain v) :
    (∃ t, chars indent level v = .ok t) ↔ (∀ n ∈ v.integers, n.natAbs < 10 ^ Text.maxDigits) ∧
      ∀ k < v.depth, FitsWord (indent * (level + (k + 1) : Nat)) := by
  induction h generalizing level with
  | null => simp [chars, integers, depth]
  | bool b => cases b <;> simp [chars, integers, depth]
  | int n => simp [chars, integers, depth, integerChars_eq_ok_iff]
  | str s => simp [chars, integers, depth]
  | @arr xs _ ih =>
    have hempty : ∀ parts, itemChars indent (level + 1) xs = .ok parts → (parts = [] ↔ xs = []) := by
      intro parts hparts
      obtain ⟨items, rfl, rfl, -⟩ := exists_items hparts
      simp
    rw [chars, exists_enclosed_iff hempty, exists_itemChars_iff, integers, depth, fitsWord_items_iff,
      forall_mem_itemIntegers, forall₂_congr fun x hx => ih x hx, forall₂_and, and_assoc]
  | @obj fs _ _ ih =>
    have hempty : ∀ parts, fieldChars indent (level + 1) fs = .ok parts →
        (parts = [] ↔ fs.map (·.2) = []) := by
      intro parts hparts
      obtain ⟨fields, rfl, rfl, -⟩ := exists_fields hparts
      simp
    rw [chars, exists_enclosed_iff hempty, exists_fieldChars_iff, integers, depth, fieldIntegers_eq,
      fieldDepth_eq, fitsWord_items_iff, forall_mem_itemIntegers, List.forall_mem_map,
      List.forall_mem_map, forall₂_congr fun f hf => ih f hf, forall₂_and, and_assoc]

/-- **What is written for a value is one of its texts.** -/
theorem Plain.spells (h : Plain v) {t : List Char} (ht : chars indent level v = .ok t) :
    Spells v t := by
  induction h generalizing level t with
  | null =>
    obtain rfl := Except.ok.inj ht
    exact .null
  | bool b =>
    cases b with
    | false =>
      obtain rfl := Except.ok.inj ht
      exact .falseWord
    | true =>
      obtain rfl := Except.ok.inj ht
      exact .trueWord
  | int n =>
    rw [chars] at ht
    obtain rfl := (integerChars_eq_ok_iff.1 ht).2
    exact spells_int n
  | str s =>
    obtain rfl := Except.ok.inj ht
    exact .str (spellsChars_escape s.toList)
  | arr _ ih =>
    rw [chars] at ht
    obtain ⟨parts, hparts, ht⟩ := bind_eq_ok_iff.1 ht
    obtain ⟨items, rfl, rfl, hitems⟩ := exists_items hparts
    obtain ⟨t, rfl, hlisted⟩ := exists_of_enclose ht
    exact .arr (fun i hi => ih i.1 (List.mem_map_of_mem hi) (hitems i hi)) hlisted
  | obj hnames _ ih =>
    rw [chars] at ht
    obtain ⟨parts, hparts, ht⟩ := bind_eq_ok_iff.1 ht
    obtain ⟨fields, rfl, rfl, hfields⟩ := exists_fields hparts
    obtain ⟨t, rfl, hlisted⟩ := exists_of_enclose ht
    rw [List.map_map] at hnames
    exact .obj hnames (fun f hf => (hfields f hf).1 ▸ isLabel_stringChars f.name indent)
      (fun f hf => ih _ (List.mem_map_of_mem hf) (hfields f hf).2) hlisted

theorem Plain.spellsText (h : Plain v) {text : String} (ht : v.render indent = .ok text) :
    SpellsText v text.toList := by
  obtain ⟨t, hchars, rfl⟩ := map_eq_ok_iff.1 ht
  exact ⟨t, h.spells hchars, [], [], by simp [Blanks], by simp [Blanks], by simp⟩

theorem Plain.exists_render_iff (h : Plain v) : (∃ text, v.render indent = .ok text) ↔
    (∀ n ∈ v.integers, n.natAbs < 10 ^ Text.maxDigits) ∧ FitsWord (indent * v.depth) := by
  have hlines : (∀ k < v.depth, FitsWord (indent * (0 + (k + 1) : Nat))) ↔
      FitsWord (indent * v.depth) := by
    constructor
    · intro hlines
      rcases Nat.eq_zero_or_pos v.depth with hdepth | hdepth
      · simp [hdepth, fitsWord_zero]
      · have hlast := hlines (v.depth - 1) (by omega)
        rwa [Nat.zero_add, Nat.sub_add_cancel hdepth] at hlast
    · intro hdepth k hk
      exact hdepth.of_le (by omega)
  rw [← hlines, ← h.exists_chars_iff]
  simp [render, map_eq_ok_iff]

/-- **Writing is faithful.** Whatever the indent, a plain value is written exactly if none of its integers
has too many digits and the blanks in front of its innermost lines fit a machine word. The text that is
written belongs to the grammar and is read back, to its end, as that very value, the order of fields
included, be the digits that are read limited or not; and no other plain value is written as this text,
with whatever indent. -/
theorem render_is_faithful (h : Plain v) (indent : Int) :
    ((∃ text, v.render indent = .ok text) ↔
        (∀ n ∈ v.integers, n.natAbs < 10 ^ Text.maxDigits) ∧ FitsWord (indent * v.depth)) ∧
      ∀ text, v.render indent = .ok text →
        SpellsText v text.toList ∧ readWith none text = .ok v ∧ read text = .ok v ∧
          ∀ (w : Json) (indent' : Int), Plain w → w.render indent' = .ok text → w = v := by
  refine ⟨h.exists_render_iff, fun text htext => ?_⟩
  have hspells := h.spellsText htext
  have hadmits : Admits (some Text.maxDigits) v := by
    have hdigits := (h.exists_render_iff.1 ⟨text, htext⟩).1
    rintro most hmost
    obtain rfl := Option.mem_some_iff.1 hmost
    exact ⟨by decide, hdigits⟩
  refine ⟨hspells, readWith_of_spellsText hspells (admits_none v),
    readWith_of_spellsText hspells hadmits, fun w indent' hw heq => ?_⟩
  exact (hw.spellsText heq).unique hspells

/-- A value in which strings, names and empty containers need care. -/
def nestedValue : Json :=
  .obj [("a\"b\\\n\x01", .arr [.null, .bool true, .int (-12), .arr [], .obj []]),
    ("é", .obj [("", .str "\t😀")])]

theorem plain_nestedValue : Plain nestedValue := by
  have hitems : ∀ x ∈ [Json.null, .bool true, .int (-12), .arr [], .obj []], Plain x := by
    simp only [List.forall_mem_cons]
    exact ⟨.null, .bool true, .int (-12), .arr (by simp), .obj (by simp) (by simp), by simp⟩
  have hinner : Plain (.obj [("", .str "\t😀")]) :=
    .obj (by simp) (by simpa using Plain.str "\t😀")
  refine .obj (by decide) ?_
  simp only [List.forall_mem_cons]
  exact ⟨.arr hitems, hinner, by simp⟩

theorem render_is_faithful_nested : Plain nestedValue ∧
    ∃ text, nestedValue.render 2 = .ok text ∧ SpellsText nestedValue text.toList ∧
      read text = .ok nestedValue := by
  have hdigits : ∀ n ∈ nestedValue.integers, n.natAbs < 10 ^ Text.maxDigits := by
    intro n hn
    obtain rfl : n = -12 := List.mem_singleton.1 hn
    exact Text.natAbs_lt_of_le (by decide : (-12 : Int).natAbs < 10 ^ 2) (by decide)
  have h := render_is_faithful plain_nestedValue 2
  obtain ⟨text, htext⟩ := h.1.2 ⟨hdigits, by decide⟩
  exact ⟨plain_nestedValue, text, htext, (h.2 text htext).1, (h.2 text htext).2.2.1⟩

/-- Not every value is written: an integer can have too many digits, and an indent too many blanks. -/
theorem render_refuses :
    (Plain (int (10 ^ Text.maxDigits)) ∧
      ∀ indent, (int (10 ^ Text.maxDigits)).render indent = .error .longInteger) ∧
    Plain (arr [int 1]) ∧ (arr [int 1]).render (-2 ^ 63 - 1) = .error .wideIndent := by
  have hlong : integerChars (10 ^ Text.maxDigits) = .error .longInteger := by
    rw [integerChars_eq, if_neg (Text.not_natAbs_pow_lt Text.maxDigits)]
  have hone : integerChars 1 = .ok ['1'] := by
    rw [integerChars_eq, if_pos (Text.natAbs_lt_of_le (k := 1) (by decide) (by decide))]
    rfl
  refine ⟨⟨.int _, fun indent => ?_⟩, .arr (List.forall_mem_singleton.2 (.int 1)), ?_⟩
  · rw [render, chars, hlong]
    rfl
  · rw [render, chars, itemChars, chars, hone]
    rfl

end ContentAssist.Json
