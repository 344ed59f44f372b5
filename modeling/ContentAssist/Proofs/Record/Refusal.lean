import ContentAssist.Proofs.Record.RoundTrip

/-! # Why a stored summary is refused

Reading stored data checks one part after the other, and what fails first is what is complained of.
The checks are listed here by the shape of the data alone (`summaryChecks`), a shape that is no good beside
the offsets that have to be converted; the reading refuses with the first of them that fails.

* `Definition.failure?_ofJson`, `Record.failure?_ofJson`, `Summary.failure?_ofJson`: one lemma for
  each level of nesting;
* `Summary.exists_unreported_iff`: a refusal that callers do not report comes from an offset that is
  no number and no text, or is infinite, and that is reached before anything else fails. -/

namespace ContentAssist

/-! ### Checks -/

/-- One thing that the reading of stored data checks. -/
inductive Check where
  /-- A part whose shape is refused. -/
  | shape (error : WireError)
  /-- An offset that is to be converted. -/
  | offset (item : Json)

/-- What a check fails with. -/
def Check.failure? : Check → Option WireError
  | shape e => some e
  | offset item => ContentAssist.failure? (offsetOfJson item)

/-- What no conversion to a whole number is made for: what is no number and no text, and what is
infinite. -/
def Json.IsUnconvertible : Json → Prop
  | null | arr _ | obj _ => True
  | float x => x.isInfinite = true
  | bool _ | int _ | str _ => False

theorem offsetOfJson_unreported_iff {item : Json} :
    (∃ e, offsetOfJson item = .error e ∧ e.isReported = false) ↔ item.IsUnconvertible := by
  cases item with
  | null => exact iff_of_true ⟨_, rfl, rfl⟩ trivial
  | arr items => exact iff_of_true ⟨_, rfl, rfl⟩ trivial
  | obj fields => exact iff_of_true ⟨_, rfl, rfl⟩ trivial
  | bool b => simp [offsetOfJson, Json.IsUnconvertible]
  | int n => simp [offsetOfJson, Json.IsUnconvertible]
  | str s =>
    refine iff_of_false ?_ id
    rintro ⟨e, he, hreported⟩
    cases hs : Text.integer s with
    | ok n =>
      rw [offsetOfJson, hs] at he
      cases he
    | error e' =>
      rw [offsetOfJson, hs] at he
      cases he
      exact Bool.noConfusion hreported
  | float x =>
    change _ ↔ x.isInfinite = true
    cases hinf : x.isInfinite with
    | true =>
      have hmagnitude : x.magnitude = Binary64.infinite := by simpa [Binary64.isInfinite] using hinf
      have hnan : x.isNaN = false := by simp [Binary64.isNaN, hmagnitude]
      refine iff_of_true ⟨.offsetInfinite, ?_, rfl⟩ rfl
      simp [offsetOfJson, hnan, hinf]
    | false =>
      refine iff_of_false ?_ Bool.false_ne_true
      rintro ⟨e, he, hreported⟩
      cases hnan : x.isNaN with
      | true =>
        simp only [offsetOfJson, hnan, if_true, Except.error.injEq] at he
        subst he
        exact Bool.noConfusion hreported
      | false => simp [offsetOfJson, hnan, hinf] at he

/-! ### The checks of each level -/

/-- The offsets of a range. -/
def rangeChecks : Json → List Check
  | .arr [a, b] => [.offset a, .offset b]
  | _ => []

/-- The checks on a definition. -/
def definitionChecks (v : Json) : List Check :=
  match v with
  | .str _ => []
  | _ =>
    match v.get "typeName" with
    | .str _ => rangeChecks (v.get "range")
    | _ => [.shape (.definition v)]

/-- The checks on a field of a record: the link to the prototype, or a member. -/
def fieldChecks (field : String × Json) : List Check :=
  if field.1 = protoField then
    match field.2 with
    | .str _ => []
    | v => [.shape (.prototype v)]
  else definitionChecks field.2

/-- The checks on a record. -/
def recordChecks : Json → List Check
  | .obj fields => fields.flatMap fieldChecks
  | v => [.shape (.record v)]

/-- The checks on what a summary provides. -/
def providedChecks : Json → List Check
  | .str _ => []
  | v => recordChecks v

/-- The checks on the records that go with a summary. -/
def typesChecks (v : Json) : List Check :=
  if !v.isSet then []
  else
    match v with
    | .obj fields => fields.flatMap fun f => recordChecks f.2
    | _ => [.shape .summaryTypes]

/-- **The checks on a summary**, in the order in which it is read. -/
def summaryChecks (v : Json) : List Check :=
  match v.field? "provided" with
  | none => [.shape .summary]
  | some raw => providedChecks raw ++ typesChecks (v.get "types")

theorem isReported_of_shape_mem {v : Json} {e : WireError} (h : .shape e ∈ summaryChecks v) :
    e.isReported = true := by
  have hdefinition : ∀ {v : Json}, .shape e ∈ definitionChecks v → e.isReported = true := by
    intro v h
    unfold definitionChecks rangeChecks at h
    split at h
    · cases h
    · split at h
      · split at h <;> simp at h
      · cases List.mem_singleton.1 h
        rfl
  have hrecord : ∀ {v : Json}, .shape e ∈ recordChecks v → e.isReported = true := by
    intro v h
    unfold recordChecks at h
    split at h
    · obtain ⟨field, -, h⟩ := List.mem_flatMap.1 h
      unfold fieldChecks at h
      split at h
      · split at h
        · cases h
        · cases List.mem_singleton.1 h
          rfl
      · exact hdefinition h
    · cases List.mem_singleton.1 h
      rfl
  unfold summaryChecks at h
  split at h
  · cases List.mem_singleton.1 h
    rfl
  · rcases List.mem_append.1 h with h | h
    · unfold providedChecks at h
      split at h
      · cases h
      · exact hrecord h
    · unfold typesChecks at h
      split at h
      · cases h
      · split at h
        · obtain ⟨field, -, h⟩ := List.mem_flatMap.1 h
          exact hrecord h
        · cases List.mem_singleton.1 h
          rfl

/-! ### The reading refuses with the first check that fails -/

theorem failure?_rangeOfJson (v : Json) :
    failure? (rangeOfJson v) = (rangeChecks v).findSome? Check.failure? := by
  cases v with
  | arr items =>
    match items with
    | [a, b] =>
      simp only [rangeOfJson, rangeChecks, List.findSome?_cons, List.findSome?_nil, Check.failure?]
      cases offsetOfJson a <;> cases offsetOfJson b <;> rfl
    | [] => rfl
    | [_] => rfl
    | _ :: _ :: _ :: _ => rfl
  | _ => rfl

theorem Definition.failure?_ofJson (v : Json) :
    failure? (Definition.ofJson v) = (definitionChecks v).findSome? Check.failure? := by
  cases v with
  | obj fields =>
    simp only [ofJson, definitionChecks]
    cases Json.get (.obj fields) "typeName" with
    | str name =>
      exact (failure?_bind_ok fun _ => rfl).trans (failure?_rangeOfJson _)
    | _ => rfl
  | _ => rfl

theorem Record.failure?_readField (r : Record) (field : String × Json) :
    failure? (r.readField field) = (fieldChecks field).findSome? Check.failure? := by
  obtain ⟨key, v⟩ := field
  by_cases hkey : key = protoField
  · rw [readField, fieldChecks, if_pos hkey, if_pos hkey]
    cases v <;> rfl
  · rw [readField, fieldChecks, if_neg hkey, if_neg hkey, failure?_bind_ok fun _ => rfl,
      Definition.failure?_ofJson]

theorem Record.failure?_readFields (r : Record) (fields : List (String × Json)) :
    failure? (r.readFields fields) = (fields.flatMap fieldChecks).findSome? Check.failure? := by
  induction fields generalizing r with
  | nil => rfl
  | cons f fs ih =>
    rw [readFields, failure?_bind fun r => ih r, failure?_readField, List.flatMap_cons,
      List.findSome?_append]

theorem Record.failure?_ofJson (v : Json) :
    failure? (Record.ofJson v) = (recordChecks v).findSome? Check.failure? := by
  cases v with
  | obj fields => exact failure?_readFields {} fields
  | _ => rfl

theorem failure?_readTypes (types : Table) (fields : List (String × Json)) :
    failure? (readTypes types fields) =
      (fields.flatMap fun f => recordChecks f.2).findSome? Check.failure? := by
  induction fields generalizing types with
  | nil => rfl
  | cons f fs ih =>
    obtain ⟨name, v⟩ := f
    rw [readTypes, failure?_bind fun r => ih (types.insert name r), Record.failure?_ofJson,
      List.flatMap_cons, List.findSome?_append]

theorem Provided.failure?_ofJson (v : Json) :
    failure? (Provided.ofJson v) = (providedChecks v).findSome? Check.failure? := by
  have hrecord := (failure?_map Provided.record (Record.ofJson v)).trans (Record.failure?_ofJson v)
  cases v with
  | str s => rfl
  | _ => exact hrecord

theorem failure?_typesOfJson (v : Json) :
    failure? (typesOfJson v) = (typesChecks v).findSome? Check.failure? := by
  unfold typesOfJson typesChecks
  by_cases hset : (!v.isSet) = true
  · rw [if_pos hset, if_pos hset]
    rfl
  · rw [if_neg hset, if_neg hset]
    cases v with
    | obj fields => exact failure?_readTypes _ fields
    | _ => rfl

/-- **A summary is refused** with the first of its checks that fails, and read if none does. -/
theorem Summary.failure?_ofJson (v : Json) :
    failure? (Summary.ofJson v) = (summaryChecks v).findSome? Check.failure? := by
  rw [ofJson_eq, summaryChecks]
  cases v.field? "provided" with
  | none => rfl
  | some raw =>
    simp only
    rw [failure?_bind fun _ => failure?_bind_ok fun _ => rfl, Provided.failure?_ofJson,
      failure?_typesOfJson, List.findSome?_append]

/-! ### Refusals that are not reported -/

/-- In the order of reading, the first thing that fails is the conversion of an offset that is no
number and no text, or is infinite. -/
def Json.StopsAtOffset (v : Json) : Prop :=
  ∃ before item after, summaryChecks v = before ++ .offset item :: after ∧
    item.IsUnconvertible ∧ before.findSome? Check.failure? = none

/-- **The refusals that are not reported** are those at an offset. -/
theorem Summary.exists_unreported_iff {v : Json} :
    (∃ e, Summary.ofJson v = .error e ∧ e.isReported = false) ↔ v.StopsAtOffset := by
  constructor
  · rintro ⟨e, he, hreported⟩
    have hfirst := failure?_eq_some_iff.2 he
    rw [Summary.failure?_ofJson] at hfirst
    obtain ⟨before, c, after, hchecks, hc, hbefore⟩ := findSome?_eq_some_split.1 hfirst
    cases c with
    | shape e' =>
      cases hc
      have hmem : .shape e ∈ summaryChecks v := by
        rw [hchecks]
        exact List.mem_append_right _ List.mem_cons_self
      rw [isReported_of_shape_mem hmem] at hreported
      exact Bool.noConfusion hreported
    | offset item =>
      have hitem := offsetOfJson_unreported_iff.1 ⟨e, failure?_eq_some_iff.1 hc, hreported⟩
      exact ⟨before, item, after, hchecks, hitem, hbefore⟩
  · rintro ⟨before, item, after, hchecks, hitem, hbefore⟩
    obtain ⟨e, he, hreported⟩ := offsetOfJson_unreported_iff.2 hitem
    refine ⟨e, failure?_eq_some_iff.1 ?_, hreported⟩
    rw [Summary.failure?_ofJson]
    exact findSome?_eq_some_split.2
      ⟨before, .offset item, after, hchecks, failure?_eq_some_iff.2 he, hbefore⟩

end ContentAssist
