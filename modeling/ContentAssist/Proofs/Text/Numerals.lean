import ContentAssist.Text.Integer
import Mathlib.Algebra.Group.Int.Defs
import Mathlib.Algebra.Group.Nat.Defs
import Mathlib.Data.List.Basic

/-! # Numerals that are written and read back

The decimal numeral of an integer is written and read as that integer, if it has not too many digits; the
sign is no digit. A longer one is refused.

* `decimal?_eq`: what is written of an integer;
* `integer_toString`: what is read from the numeral of an integer. -/

namespace ContentAssist.Text

variable {c : Char} {s ds : List Char}

/-! ### Digits -/

theorem toNat_of_isDigit (hc : c.isDigit = true) : 48 ≤ c.toNat ∧ c.toNat ≤ 57 := by
  simpa [Char.isDigit, UInt32.le_iff_toNat_le] using hc

theorem digitValue?_of_isDigit (hc : c.isDigit = true) : digitValue? c = some (c.toNat - 48) := by
  obtain ⟨hlow, hhigh⟩ := toNat_of_isDigit hc
  unfold digitValue?
  rw [if_pos (by omega), if_pos (by simpa using ⟨hlow, hhigh⟩)]

theorem isPadding_of_isDigit (hc : c.isDigit = true) : isPadding c = false := by
  obtain ⟨hlow, hhigh⟩ := toNat_of_isDigit hc
  have hblank : isBlank c = false := by
    simp [isBlank, inRanges, blankRanges]
    omega
  rw [isPadding, hblank, Bool.false_and]

theorem numeral_of_isDigit (hne : ds ≠ []) (hds : ∀ c ∈ ds, c.isDigit = true) :
    numeral ds = some (ds.map fun c => c.toNat - 48) := by
  induction ds with
  | nil => exact absurd rfl hne
  | cons c rest ih =>
    have hc := digitValue?_of_isDigit (hds c List.mem_cons_self)
    cases rest with
    | nil => simp [numeral, hc]
    | cons c' rest =>
      have hrest := ih (List.cons_ne_nil _ _) fun d hd => hds d (List.mem_cons_of_mem _ hd)
      have hc' : c' ≠ '_' := by
        rintro rfl
        exact absurd (hds '_' (by simp)) (by decide)
      rw [numeral, hc, hrest]
      · rfl
      · simp
      · simp [hc']

theorem ofDigits_map (ds : List Char) :
    ofDigits (ds.map fun c => c.toNat - 48) = Nat.ofDigitChars 10 ds 0 := by
  unfold ofDigits Nat.ofDigitChars
  rw [List.foldl_map]
  rfl

/-! ### Integers -/

theorem dropWhile_eq_self {p : Char → Bool} (h : ∀ c ∈ s.head?, p c = false) : s.dropWhile p = s := by
  cases s with
  | nil => rfl
  | cons c rest => rw [List.dropWhile_cons_of_neg (by simp [h c rfl])]

theorem trimmed_eq_self (hs : ∀ c ∈ s, isPadding c = false) : trimmed s = s := by
  unfold trimmed
  rw [dropWhile_eq_self fun c hc => hs c (List.mem_of_mem_head? hc), dropWhile_eq_self fun c hc =>
    hs c (List.mem_reverse.1 (List.mem_of_mem_head? hc)), List.reverse_reverse]

theorem toList_toString_int (n : Int) : (toString n).toList =
    if 0 ≤ n then Nat.toDigits 10 n.natAbs else '-' :: Nat.toDigits 10 n.natAbs := by
  have htext : (toString n).toList = n.repr.toList := rfl
  rw [htext, Int.repr_eq_if]
  split
  · have habs : n.toNat = n.natAbs := by omega
    rw [Nat.toList_repr, habs]
  · have habs : (-n).toNat = n.natAbs := by omega
    rw [String.toList_append, Nat.toList_repr, habs]
    rfl

theorem isDigit_of_mem_toDigits {n : Nat} (hc : c ∈ Nat.toDigits 10 n) : c.isDigit = true :=
  Nat.isDigit_of_mem_toDigits (by decide) (by decide) hc

theorem trimmed_toString (n : Int) : trimmed (toString n).toList = (toString n).toList := by
  refine trimmed_eq_self fun c hc => ?_
  rw [toList_toString_int] at hc
  split at hc
  · exact isPadding_of_isDigit (isDigit_of_mem_toDigits hc)
  · rcases List.mem_cons.1 hc with rfl | hc
    · decide
    · exact isPadding_of_isDigit (isDigit_of_mem_toDigits hc)

theorem splitSign_of_isDigit (hds : ∀ c ∈ ds, c.isDigit = true) : splitSign ds = (false, ds) := by
  unfold splitSign
  split
  · exact absurd (hds '-' List.mem_cons_self) (by decide)
  · exact absurd (hds '+' List.mem_cons_self) (by decide)
  · rfl

theorem splitSign_toString (n : Int) :
    splitSign (toString n).toList = (decide (n < 0), Nat.toDigits 10 n.natAbs) := by
  rw [toList_toString_int]
  split
  · rename_i hn
    rw [splitSign_of_isDigit fun c => isDigit_of_mem_toDigits, decide_eq_false (by omega)]
  · rename_i hn
    rw [splitSign, decide_eq_true (by omega)]

theorem length_toDigits_le_maxDigits (n : Int) :
    (Nat.toDigits 10 n.natAbs).length ≤ maxDigits ↔ n.natAbs < 10 ^ maxDigits :=
  Nat.length_toDigits_le_iff (by decide) (by decide)

theorem natAbs_lt_of_le {n : Int} {k : Nat} (hn : n.natAbs < 10 ^ k) (hk : k ≤ maxDigits) :
    n.natAbs < 10 ^ maxDigits := Nat.lt_of_lt_of_le hn (Nat.pow_le_pow_right (by decide) hk)

theorem not_natAbs_pow_lt (k : Nat) : ¬ ((10 : Int) ^ k).natAbs < 10 ^ k := by
  rw [Int.natAbs_pow]
  exact Nat.lt_irrefl _

/-- What is written of an integer is its numeral, unless that has too many digits. -/
theorem decimal?_eq (n : Int) :
    decimal? n = if n.natAbs < 10 ^ maxDigits then some (toString n) else none := by
  unfold decimal?
  simp only [length_toDigits_le_maxDigits]

/-- **Numerals are read back**: the numeral of an integer is read as the integer, unless it has more
digits than are read. -/
theorem integer_toString (n : Int) : integer (toString n) =
    if n.natAbs < 10 ^ maxDigits then .ok n
    else .error (.tooLong (Nat.toDigits 10 n.natAbs).length) := by
  have hnumeral := numeral_of_isDigit (Nat.toDigits_ne_nil (n := n.natAbs) (b := 10))
    fun c => isDigit_of_mem_toDigits
  have hsign : (if decide (n < 0) = true then -(n.natAbs : Int) else n.natAbs) = n := by
    by_cases hn : n < 0
    · rw [if_pos (decide_eq_true hn)]
      omega
    · rw [if_neg (by simpa using hn)]
      omega
  unfold integer
  rw [trimmed_toString, splitSign_toString]
  dsimp only
  rw [hnumeral]
  dsimp only
  rw [ofDigits_map, Nat.ofDigitChars_ten_toDigits, List.length_map, hsign]
  by_cases hn : n.natAbs < 10 ^ maxDigits
  · rw [if_neg (Nat.not_lt.2 ((length_toDigits_le_maxDigits n).2 hn)), if_pos hn]
  · rw [if_pos (Nat.lt_of_not_le (mt (length_toDigits_le_maxDigits n).1 hn)), if_neg hn]

end ContentAssist.Text
