import ContentAssist.Json.Reader

/-! # The grammar of JSON texts

Which texts stand for a value, said without a reader or a writer. Blanks may surround the brackets,
the commas and the colons; a character of a string may stand for itself or be escaped in one of several
ways; a numeral has no superfluous zero. An object in which a name occurs twice is not one of these
texts, because readers differ about its value, and neither is a number with a fraction or an exponent.

* `Spells`, `SpellsText`: the text of a value, and a whole text that holds it;
* `Spells.exists_opening`: how the text of a value begins. -/

namespace ContentAssist.Json

/-! ### Strings -/

/-- The escapes of two characters: what stands behind the backslash, and the character meant. -/
def shortEscapes : List (Char × Char) :=
  [('"', '"'), ('\\', '\\'), ('/', '/'), ('b', '\x08'), ('f', '\x0c'), ('n', '\n'), ('r', '\r'),
    ('t', '\t')]

/-- Four hexadecimal digits with the given value. -/
def HexUnit (n : Nat) (ds : List Char) : Prop := ∃ a b c d, ds = [a, b, c, d] ∧ unit? a b c d = some n

/-- How a character may stand in a string: as it is, behind a backslash, or by the number of its code
point; one beyond four hexadecimal digits by the numbers of two surrogates. -/
inductive SpellsChar : Char → List Char → Prop
  | plain {c : Char} (hc : 32 ≤ c.toNat) (hquote : c ≠ '"') (hslash : c ≠ '\\') : SpellsChar c [c]
  | short {c e : Char} (h : (e, c) ∈ shortEscapes) : SpellsChar c ['\\', e]
  | unit {c : Char} {ds : List Char} (h : HexUnit c.toNat ds) : SpellsChar c ('\\' :: 'u' :: ds)
  | pair {c : Char} {high low : Nat} {ds es : List Char} (hds : HexUnit high ds)
      (hes : HexUnit low es) (hhigh : 0xD800 ≤ high ∧ high < 0xDC00)
      (hlow : 0xDC00 ≤ low ∧ low < 0xE000)
      (hc : c.toNat = 0x10000 + (high - 0xD800) * 0x400 + (low - 0xDC00)) :
      SpellsChar c ('\\' :: 'u' :: ds ++ '\\' :: 'u' :: es)

/-- How characters may stand in a string, one after the other. -/
inductive SpellsChars : List Char → List Char → Prop
  | nil : SpellsChars [] []
  | cons {c : Char} {cs t u : List Char} (hc : SpellsChar c t) (h : SpellsChars cs u) :
      SpellsChars (c :: cs) (t ++ u)

/-! ### Whole numbers -/

/-- The decimal digits of a number, without a superfluous zero in front. -/
inductive Numeral : Nat → List Char → Prop
  | zero : Numeral 0 ['0']
  | digits {d : Char} {ds : List Char} (hds : ∀ c ∈ d :: ds, c.isDigit = true) (hd : d ≠ '0') :
      Numeral (Nat.ofDigitChars 10 (d :: ds) 0) (d :: ds)

/-! ### Lists of parts -/

/-- Only blanks: spaces, tabs and the ends of lines. -/
def Blanks (w : List Char) : Prop := ∀ c ∈ w, c ∈ [' ', '\t', '\n', '\r']

/-- The text is the part, with blanks around it. -/
def Padded (part text : List Char) : Prop := ∃ w w', Blanks w ∧ Blanks w' ∧ text = w ++ part ++ w'

/-- The text holds the parts, with commas between them and blanks around them. -/
inductive Listed : List (List Char) → List Char → Prop
  | nil {w : List Char} (hw : Blanks w) : Listed [] w
  | single {p t : List Char} (hp : Padded p t) : Listed [p] t
  | cons {p q t u : List Char} {ps : List (List Char)} (hp : Padded p t) (h : Listed (q :: ps) u) :
      Listed (p :: q :: ps) (t ++ ',' :: u)

/-! ### Values -/

/-- A field of an object with its text: the label is the name in quotes and the colon. -/
structure FieldText where
  name : String
  value : Json
  label : List Char
  valueText : List Char

/-- The text is a name in quotes, followed by a colon. -/
def IsLabel (name : String) (text : List Char) : Prop :=
  ∃ t colon, SpellsChars name.toList t ∧ Padded [':'] colon ∧ text = '"' :: t ++ '"' :: colon

/-- The text of a value. -/
inductive Spells : Json → List Char → Prop
  | null : Spells null ['n', 'u', 'l', 'l']
  | trueWord : Spells (bool true) ['t', 'r', 'u', 'e']
  | falseWord : Spells (bool false) ['f', 'a', 'l', 's', 'e']
  | nat {n : Nat} {t : List Char} (h : Numeral n t) : Spells (int n) t
  | negative {n : Nat} {t : List Char} (h : Numeral n t) : Spells (int (-n)) ('-' :: t)
  | str {s : String} {t : List Char} (h : SpellsChars s.toList t) : Spells (str s) ('"' :: t ++ ['"'])
  | arr {items : List (Json × List Char)} {t : List Char} (hitems : ∀ i ∈ items, Spells i.1 i.2)
      (ht : Listed (items.map (·.2)) t) : Spells (arr (items.map (·.1))) ('[' :: t ++ [']'])
  | obj {fields : List FieldText} {t : List Char} (hnames : (fields.map (·.name)).Nodup)
      (hlabels : ∀ f ∈ fields, IsLabel f.name f.label)
      (hvalues : ∀ f ∈ fields, Spells f.value f.valueText)
      (ht : Listed (fields.map fun f => f.label ++ f.valueText) t) :
      Spells (obj (fields.map fun f => (f.name, f.value))) ('\x7b' :: t ++ ['\x7d'])

/-- The text holds one value, with blanks around it. -/
def SpellsText (v : Json) (text : List Char) : Prop := ∃ t, Spells v t ∧ Padded t text

/-- The characters with which the text of a value can begin, other than a digit. -/
def openings : List Char := ['n', 't', 'f', '-', '"', '[', '\x7b']

theorem Numeral.exists_digit {n : Nat} {t : List Char} (h : Numeral n t) :
    ∃ c u, t = c :: u ∧ c.isDigit = true := by
  cases h with
  | zero => exact ⟨'0', [], rfl, rfl⟩
  | @digits d ds hds _ => exact ⟨d, ds, rfl, hds d List.mem_cons_self⟩

theorem Spells.exists_opening {v : Json} {t : List Char} (h : Spells v t) :
    ∃ c u, t = c :: u ∧ (c ∈ openings ∨ c.isDigit = true) := by
  cases h with
  | nat h =>
    obtain ⟨c, u, rfl, hc⟩ := h.exists_digit
    exact ⟨c, u, rfl, Or.inr hc⟩
  | null | trueWord | falseWord | negative | str | arr | obj =>
    exact ⟨_, _, rfl, Or.inl (by simp [openings])⟩

end ContentAssist.Json
