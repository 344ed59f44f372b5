import ContentAssist.Buffer.Placeholder
import Mathlib.Tactic.SplitIfs

/-! # A text with an insertion

How the offsets and the lines of a text relate to those of the same text with something inserted. The
text is `before ++ after`, the other one `before ++ inserted ++ after`, and nothing in what is inserted
ends a line.

* `charsAt`: the characters of a text at certain offsets;
* `charsAt_movedBack`: between two offsets that are moved back stands what stood between them, without
  the insertion;
* `position`: the line and the column of an offset;
* `position_movedBack`: an offset that is moved back keeps its line, and its column unless the insertion
  is in front of it in the same line. -/

namespace ContentAssist.Text

/-! ### Moving an offset back -/

section MovedBack
variable {place length value k : Int}

theorem movedBack_of_le (hlength : 0 ≤ length) (h : value ≤ place) :
    movedBack place length value = value := by
  unfold movedBack
  split_ifs <;> omega

theorem movedBack_within (hk : 0 ≤ k) (h : k ≤ length) :
    movedBack place length (place + k) = place := by
  unfold movedBack
  split_ifs <;> omega

theorem movedBack_behind (hk : 0 ≤ k) :
    movedBack place length (place + length + k) = place + k := by
  unfold movedBack
  split_ifs <;> omega

theorem movedBack_mono {a b : Int} (h : a ≤ b) :
    movedBack place length a ≤ movedBack place length b := by
  unfold movedBack
  split_ifs <;> omega

end MovedBack

/-! ### The characters at certain offsets -/

/-- The characters of a text at the offsets that satisfy `p`. -/
def charsAt : (Nat → Bool) → List Char → List Char
  | _, [] => []
  | p, c :: rest => (if p 0 then [c] else []) ++ charsAt (fun i => p (i + 1)) rest

/-- The offsets from one up to another. -/
def between (start stop : Int) (i : Nat) : Bool := start ≤ i ∧ i < stop

theorem charsAt_append (p : Nat → Bool) (xs ys : List Char) :
    charsAt p (xs ++ ys) = charsAt p xs ++ charsAt (fun i => p (xs.length + i)) ys := by
  induction xs generalizing p with
  | nil => simp [charsAt]
  | cons c xs ih =>
    rw [List.cons_append, charsAt, ih, charsAt, List.append_assoc]
    simp only [List.length_cons, Nat.add_right_comm]

theorem charsAt_congr {p q : Nat → Bool} {xs : List Char} (h : ∀ i < xs.length, p i = q i) :
    charsAt p xs = charsAt q xs := by
  induction xs generalizing p q with
  | nil => rfl
  | cons c xs ih =>
    rw [charsAt, charsAt, h 0 (Nat.zero_lt_succ _), ih fun i hi => h (i + 1) (Nat.succ_lt_succ hi)]

theorem charsAt_eq_nil {p : Nat → Bool} (xs : List Char) (h : ∀ i < xs.length, p i = false) :
    charsAt p xs = [] := by
  induction xs generalizing p with
  | nil => rfl
  | cons c xs ih =>
    rw [charsAt, h 0 (Nat.zero_lt_succ _), ih fun i hi => h (i + 1) (Nat.succ_lt_succ hi)]
    rfl

variable {before inserted after : List Char}

/-- **Between offsets that are moved back** stands what stood between them, without the insertion. -/
theorem charsAt_movedBack (before inserted after : List Char) (start stop : Int) :
    charsAt (between (movedBack before.length inserted.length start)
        (movedBack before.length inserted.length stop)) (before ++ after) =
      charsAt (fun i => between start stop i &&
          !between before.length (before.length + inserted.length) i)
        (before ++ inserted ++ after) := by
  rw [charsAt_append, charsAt_append, charsAt_append, List.append_assoc, List.length_append,
    charsAt_eq_nil inserted, List.nil_append]
  · congr 1
    all_goals
      refine charsAt_congr fun i hi => ?_
      rw [Bool.eq_iff_iff]
      simp only [between, Bool.and_eq_true, Bool.not_eq_true', decide_eq_true_eq,
        decide_eq_false_iff_not]
      unfold movedBack
      split_ifs <;> omega
  · intro i hi
    simp only [between, Bool.and_eq_false_iff, Bool.not_eq_false', decide_eq_true_eq]
    omega

/-! ### Lines and columns -/

/-- The characters that end a line. -/
def lineEnds : List Char := ['\n', '\r', '\u2028', '\u2029']

/-- Whether a line ends with the character `c`. A carriage return in front of a line feed does not end one:
the two of them end it. -/
def endsLine (c : Char) (next : Option Char) : Bool :=
  c ∈ lineEnds ∧ ¬ (c = '\r' ∧ next = some '\n')

/-- The line and the column behind so many characters of a text that starts at the given ones. -/
def advance : Int × Int → List Char → Nat → Int × Int
  | place, _, 0 => place
  | place, [], _ + 1 => place
  | (line, column), c :: rest, n + 1 =>
    advance (if endsLine c rest.head? then (line + 1, 0) else (line, column + 1)) rest n

/-- The line and the column of an offset. Lines are counted from one and columns from zero. -/
def position (text : List Char) (offset : Nat) : Int × Int := advance (1, 0) text offset

/-- The offset stands inside the two characters that end a line together. -/
def InsideLineEnd (text : List Char) (offset : Nat) : Prop :=
  (text.take offset).getLast? = some '\r' ∧ (text.drop offset).head? = some '\n'

instance (text : List Char) (offset : Nat) : Decidable (InsideLineEnd text offset) := by
  unfold InsideLineEnd; infer_instance

variable {line column : Int} {xs ys zs : List Char} {n : Nat}

/-- The lines of a text do not depend on what follows, apart from a line end that goes on there. -/
theorem advance_append_congr (hn : n ≤ xs.length)
    (h : ∀ c, xs.getLast? = some c → endsLine c ys.head? = endsLine c zs.head?) (place : Int × Int) :
    advance place (xs ++ ys) n = advance place (xs ++ zs) n := by
  induction xs generalizing place n with
  | nil =>
    cases Nat.le_zero.1 hn
    cases ys <;> cases zs <;> rfl
  | cons c xs ih =>
    cases n with
    | zero => rfl
    | succ n =>
      have hhead : endsLine c (xs ++ ys).head? = endsLine c (xs ++ zs).head? := by
        cases xs with
        | nil => exact h c rfl
        | cons => rfl
      have hlast : ∀ d, xs.getLast? = some d → endsLine d ys.head? = endsLine d zs.head? := by
        intro d hd
        refine h d ?_
        rw [List.getLast?_cons, hd]
        rfl
      rw [List.cons_append, List.cons_append, advance, advance, hhead,
        ih (Nat.le_of_succ_le_succ hn) hlast]

theorem advance_add (place : Int × Int) (xs : List Char) (n k : Nat) :
    advance place xs (n + k) = advance (advance place xs n) (xs.drop n) k := by
  induction xs generalizing place n with
  | nil => cases n <;> cases k <;> rfl
  | cons c xs ih =>
    cases n with
    | zero => rw [Nat.zero_add, List.drop_zero, advance]
    | succ n => rw [Nat.add_right_comm, advance, advance, List.drop_succ_cons, ih]

/-- On the way a line is left or the column grows. -/
theorem le_advance (place : Int × Int) (xs : List Char) (n : Nat) :
    place.1 ≤ (advance place xs n).1 ∧
      ((advance place xs n).1 = place.1 → place.2 ≤ (advance place xs n).2) := by
  induction xs generalizing place n with
  | nil => cases n <;> exact ⟨Int.le_refl _, fun _ => Int.le_refl _⟩
  | cons c xs ih =>
    cases n with
    | zero => exact ⟨Int.le_refl _, fun _ => Int.le_refl _⟩
    | succ n =>
      rw [advance]
      split
      · have hnext := (ih (place.1 + 1, 0) n).1
        dsimp only at hnext ⊢
        omega
      · have hsame := ih (place.1, place.2 + 1) n
        dsimp only at hsame ⊢
        omega

/-- A shifted column stays shifted up to the end of the line. -/
theorem advance_shift (line column k : Int) (xs : List Char) (n : Nat) :
    advance (line, column + k) xs n =
      ((advance (line, column) xs n).1,
        (advance (line, column) xs n).2 + if (advance (line, column) xs n).1 = line then k else 0) := by
  induction xs generalizing column n with
  | nil => cases n <;> simp [advance]
  | cons c xs ih =>
    cases n with
    | zero => simp [advance]
    | succ n =>
      rw [advance, advance]
      split
      · have hle := (le_advance (line + 1, 0) xs n).1
        rw [if_neg (by dsimp only at hle; omega), Int.add_zero]
      · rw [Int.add_right_comm, ih]

/-- Within a line only the column grows. -/
theorem advance_within (h : ∀ c ∈ xs, c ∉ lineEnds) (hn : n ≤ xs.length) (line column : Int) :
    advance (line, column) (xs ++ ys) n = (line, column + n) := by
  induction xs generalizing column n with
  | nil =>
    cases Nat.le_zero.1 hn
    cases ys <;> simp [advance]
  | cons c xs ih =>
    cases n with
    | zero => simp [advance]
    | succ n =>
      have hc : endsLine c (xs ++ ys).head? = false := by
        simp [endsLine, h c List.mem_cons_self]
      rw [List.cons_append, advance, hc, if_neg Bool.false_ne_true,
        ih (fun d hd => h d (List.mem_cons_of_mem _ hd)) (Nat.le_of_succ_le_succ hn)]
      push_cast
      rw [Int.add_right_comm, Int.add_assoc]

theorem position_append (xs ys : List Char) (n : Nat) :
    position (xs ++ ys) (xs.length + n) = advance (position (xs ++ ys) xs.length) ys n := by
  rw [position, advance_add, List.drop_left]
  rfl

/-- Of two offsets in one line the first one has the smaller column. -/
theorem column_mono (text : List Char) {m : Nat} (h : n ≤ m)
    (hline : (position text n).1 = (position text m).1) :
    (position text n).2 ≤ (position text m).2 := by
  obtain ⟨k, rfl⟩ := Nat.exists_eq_add_of_le h
  rw [position, position, advance_add] at hline ⊢
  exact (le_advance _ _ _).2 hline.symm

/-- The lines in front of an offset do not depend on what follows, if no line ends around it. -/
theorem position_append_congr (hys : ¬ InsideLineEnd (xs ++ ys) xs.length)
    (hzs : ¬ InsideLineEnd (xs ++ zs) xs.length) (hn : n ≤ xs.length) :
    position (xs ++ ys) n = position (xs ++ zs) n := by
  rw [InsideLineEnd, List.take_left, List.drop_left] at hys hzs
  refine advance_append_congr hn (fun c hc => ?_) _
  rw [hc] at hys hzs
  have hnot {next : Option Char} (h : ¬ (some c = some '\r' ∧ next = some '\n')) :
      ¬ (c = '\r' ∧ next = some '\n') := fun heq => h ⟨congrArg some heq.1, heq.2⟩
  simp [endsLine, hnot hys, hnot hzs]

/-- In front of an insertion a text has the lines that it has without it. -/
theorem position_insert_of_le (hinserted : ∀ c ∈ inserted, c ∉ lineEnds)
    (hwhole : ¬ InsideLineEnd (before ++ after) before.length) (hn : n ≤ before.length) :
    position (before ++ (inserted ++ after)) n = position (before ++ after) n := by
  refine position_append_congr ?_ hwhole hn
  cases inserted with
  | nil => exact hwhole
  | cons d inserted =>
    intro hinside
    rw [InsideLineEnd, List.drop_left] at hinside
    have hd : d = '\n' := Option.some.inj hinside.2
    exact hinserted d List.mem_cons_self (hd ▸ by decide)

/-- What stands behind a text does not change the lines in it. -/
theorem position_append_of_le (hwhole : ¬ InsideLineEnd (before ++ (after ++ ys)) before.length)
    (hn : n ≤ before.length) :
    position (before ++ (after ++ ys)) n = position (before ++ after) n := by
  refine position_append_congr hwhole (fun hinside => hwhole ?_) hn
  rw [InsideLineEnd, List.take_left, List.drop_left] at hinside ⊢
  refine ⟨hinside.1, ?_⟩
  rw [List.head?_append, hinside.2]
  rfl

/-- **An offset that is moved back keeps its line**, and its column is moved back in the line of the
insertion. -/
theorem position_movedBack (hinserted : ∀ c ∈ inserted, c ∉ lineEnds)
    (hwhole : ¬ InsideLineEnd (before ++ after) before.length)
    (hplace : position (before ++ after) before.length = (line, column)) (n : Nat) :
    position (before ++ after) (movedBack before.length inserted.length n).toNat =
      ((position (before ++ inserted ++ after) n).1,
        if (position (before ++ inserted ++ after) n).1 = line then
          movedBack column inserted.length (position (before ++ inserted ++ after) n).2
        else (position (before ++ inserted ++ after) n).2) := by
  rw [List.append_assoc]
  have hstart := (position_insert_of_le hinserted hwhole (Nat.le_refl _)).trans hplace
  have hlength : (0 : Int) ≤ inserted.length := Int.natCast_nonneg _
  rcases Nat.le_total n before.length with hn | hn
  · -- in front of the insertion nothing changes
    rw [movedBack_of_le hlength (Int.ofNat_le.2 hn), Int.toNat_natCast,
      position_insert_of_le hinserted hwhole hn]
    have hmono := column_mono (before ++ after) hn
    rw [hplace] at hmono
    split_ifs with hline
    · rw [movedBack_of_le hlength (hmono hline)]
    · rfl
  · obtain ⟨k, rfl⟩ := Nat.exists_eq_add_of_le hn
    rw [position_append, hstart, Int.natCast_add]
    rcases Nat.le_total k inserted.length with hk | hk
    · -- in the insertion every offset goes back to its start
      rw [movedBack_within (Int.natCast_nonneg k) (Int.ofNat_le.2 hk), Int.toNat_natCast, hplace,
        advance_within hinserted hk, if_pos rfl,
        movedBack_within (Int.natCast_nonneg k) (Int.ofNat_le.2 hk)]
    · -- behind it the text goes on from there
      obtain ⟨m, rfl⟩ := Nat.exists_eq_add_of_le hk
      rw [Int.natCast_add, ← Int.add_assoc, movedBack_behind (Int.natCast_nonneg m),
        ← Int.natCast_add, Int.toNat_natCast, position_append, hplace, advance_add, List.drop_left,
        advance_within hinserted (Nat.le_refl _), advance_shift]
      have hcolumn := (le_advance (line, column) after m).2
      dsimp only at hcolumn ⊢
      split_ifs with hline
      · obtain ⟨d, hd⟩ := Int.le.dest (hcolumn hline)
        rw [← hd, Int.add_right_comm, movedBack_behind (Int.natCast_nonneg d), hd]
      · rw [Int.add_zero]

end ContentAssist.Text
