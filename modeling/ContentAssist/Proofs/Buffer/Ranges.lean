import ContentAssist.Buffer.Parse
import Mathlib.Tactic.SplitIfs

/-! # The ranges of a parsed tree

A parser places its nodes in the text that it is given. After a rejection this is not the buffer: closing
brackets stand behind it, and perhaps a placeholder in it. Taking the placeholder out brings all ranges
back, but nobody cuts off what lies in the closing brackets. So the ranges fit the buffer with these
brackets behind it, and the buffer itself if there are none.

* `Json.ranges`: the ranges of a tree, those of the comments included;
* `ranges_move`, `ranges_unplug?`: what taking out the placeholder does to them;
* `ranges_of_parse`: where they lie. -/

namespace ContentAssist

namespace Json

mutual

/-- The ranges of all objects in a value, however deep. -/
def ranges : Json → List Json
  | arr items => itemRanges items
  | obj fields => fieldRanges fields
  | _ => []

/-- The ranges of all objects in the items. -/
def itemRanges : List Json → List Json
  | [] => []
  | v :: rest => ranges v ++ itemRanges rest

/-- The range of the object with these fields, and those of all objects in it. -/
def fieldRanges : List (String × Json) → List Json
  | [] => []
  | (key, v) :: rest =>
    (if key = "range" then if v.isNull then [] else [v]
      else if key ∈ positionFields then [] else ranges v) ++ fieldRanges rest

end

/-- The range is a pair of offsets into a text of the given length, the start before the end. -/
def FitsIn (length : Int) (range : Json) : Prop :=
  ∃ start stop : Int, range = arr [int start, int stop] ∧ 0 ≤ start ∧ start ≤ stop ∧ stop ≤ length

end Json

open Json

/-- The tokens stand in a text of the given length. -/
def TokensIn (length : Int) (tokens : List Token) : Prop :=
  ∀ t ∈ tokens, ∀ span, t.span = some span →
    0 ≤ span.start ∧ span.start ≤ span.stop ∧ span.stop ≤ length

/-- The trees and the tokens of the parser lie in the text that it is given. -/
structure Parser.InBounds (parser : Parser) : Prop where
  script {text : String} {root : Json} (h : parser.script text = .ok root) :
    ∀ range ∈ root.ranges, FitsIn text.length range
  tokens {text : String} {tokens : List Token} (h : parser.tokens text = .ok tokens) :
    TokensIn text.length tokens

/-- The closing brackets with which a buffer is parsed: none if it is accepted as it is. -/
def appendedClosers (parser : Parser) (source : String) : String :=
  match parser.script source with
  | .ok _ => ""
  | .error _ => missingClosers (tokensOrNone parser source).1

variable {parser : Parser} {source closers : String} {root : Json}

theorem appendedClosers_of_ok (h : parser.script source = .ok root) :
    appendedClosers parser source = "" := by
  rw [appendedClosers, h]

theorem appendedClosers_of_error {failure : Rejection} (h : parser.script source = .error failure) :
    appendedClosers parser source = missingClosers (tokensOrNone parser source).1 := by
  rw [appendedClosers, h]

/-! ### Taking the placeholder out -/

section Removal
variable (r : Removal) (offset : Int)

theorem isNull_moveRange (v : Json) : (r.moveRange v).isNull = v.isNull := by
  unfold Removal.moveRange
  split <;> rfl

mutual

/-- **All ranges are moved**, and nothing else becomes one. -/
theorem ranges_move : ∀ v : Json, (r.move v).ranges = v.ranges.map r.moveRange
  | .arr items => itemRanges_moveItems items
  | .obj fields => fieldRanges_moveFields fields
  | .null | .bool _ | .int _ | .float _ | .str _ => rfl

theorem itemRanges_moveItems : ∀ items : List Json,
    itemRanges (r.moveItems items) = (itemRanges items).map r.moveRange
  | [] => rfl
  | v :: rest => by
    rw [Removal.moveItems, itemRanges, itemRanges, List.map_append, ranges_move v,
      itemRanges_moveItems rest]

theorem fieldRanges_moveFields : ∀ fields : List (String × Json),
    fieldRanges (r.moveFields fields) = (fieldRanges fields).map r.moveRange
  | [] => rfl
  | (key, v) :: rest => by
    rw [Removal.moveFields, fieldRanges, fieldRanges, List.map_append, fieldRanges_moveFields rest]
    congr 1
    by_cases hrange : key = "range"
    · simp only [if_pos hrange, isNull_moveRange]
      split <;> rfl
    · simp only [if_neg hrange]
      by_cases hloc : key = "loc"
      · simp [hloc, positionFields]
      · simp only [positionFields, List.mem_cons, List.not_mem_nil, hrange, hloc, or_self, if_false]
        exact ranges_move v

end

theorem fieldRanges_setIn_null (fields : List (String × Json)) :
    (fieldRanges (setIn "property" .null fields)).Sublist (fieldRanges fields) := by
  induction fields with
  | nil => exact List.Sublist.refl _
  | cons f rest ih =>
    obtain ⟨key, v⟩ := f
    rw [setIn]
    split
    · rename_i hkey
      have hnone : fieldRanges ((key, .null) :: rest) = fieldRanges rest := by
        simp [fieldRanges, hkey, positionFields, ranges]
      rw [hnone, fieldRanges]
      exact List.sublist_append_right _ _
    · rw [fieldRanges, fieldRanges]
      exact ih.append_left _

mutual

theorem ranges_unplug? : ∀ (v : Json) {w : Json}, unplug? offset v = some w → w.ranges.Sublist v.ranges
  | .arr items, w, h => by
    obtain ⟨items', hitems, rfl⟩ := Option.map_eq_some_iff.1 h
    exact itemRanges_unplugItems? items hitems
  | .obj fields, w, h => by
    rw [unplug?] at h
    split at h
    · cases h
      exact fieldRanges_setIn_null fields
    · obtain ⟨fields', hfields, rfl⟩ := Option.map_eq_some_iff.1 h
      exact fieldRanges_unplugFields? fields hfields
  | .null, _, h | .bool _, _, h | .int _, _, h | .float _, _, h | .str _, _, h => by cases h

theorem itemRanges_unplugItems? : ∀ (items : List Json) {items' : List Json},
    unplugItems? offset items = some items' → (itemRanges items').Sublist (itemRanges items)
  | [], _, h => by cases h
  | v :: rest, items', h => by
    rw [unplugItems?] at h
    split at h
    · rename_i w hw
      cases h
      exact (ranges_unplug? v hw).append_right _
    · obtain ⟨rest', hrest, rfl⟩ := Option.map_eq_some_iff.1 h
      exact (itemRanges_unplugItems? rest hrest).append_left _

theorem fieldRanges_unplugFields? : ∀ (fields : List (String × Json)) {fields' : List (String × Json)},
    unplugFields? offset fields = some fields' → (fieldRanges fields').Sublist (fieldRanges fields)
  | [], _, h => by cases h
  | (key, v) :: rest, fields', h => by
    rw [unplugFields?] at h
    split at h
    · rename_i w hw
      cases h
      have hkey : key ∉ positionFields := by
        intro hkey
        simp [hkey] at hw
      rw [if_neg hkey] at hw
      have hrange : key ≠ "range" := fun heq => hkey (by simp [heq, positionFields])
      simp only [fieldRanges, if_neg hrange, if_neg hkey]
      exact (ranges_unplug? v hw).append_right _
    · obtain ⟨rest', hrest, rfl⟩ := Option.map_eq_some_iff.1 h
      exact (fieldRanges_unplugFields? rest hrest).append_left _

end

variable {r} in
/-- A range of the text with the placeholder fits the text without it, once it is moved back. -/
theorem fitsIn_moveRange {range : Json} {n : Int} (h : FitsIn (n + r.length) range)
    (hoffset : 0 ≤ r.offset ∧ r.offset ≤ n) : FitsIn n (r.moveRange range) := by
  obtain ⟨start, stop, rfl, h0, hle, hn⟩ := h
  refine ⟨movedBack r.offset r.length start, movedBack r.offset r.length stop, rfl, ?_⟩
  unfold movedBack
  split_ifs <;> omega

end Removal

/-! ### The attempts -/

theorem danglingDot?_span {tokens : List Token} {limit : Int} {dot : Token} {span : Span}
    (h : danglingDot? tokens limit = some (dot, span)) : dot ∈ tokens ∧ dot.span = some span := by
  have hmem := (List.mem_filter.1 (List.mem_of_getLast? h)).1
  obtain ⟨t, ht, hended⟩ := List.mem_filterMap.1 hmem
  obtain ⟨s, hs, heq⟩ := Option.map_eq_some_iff.1 hended
  cases heq
  exact ⟨(List.takeWhile_prefix _).subset ht, (Option.filter_eq_some_iff.1 hs).1⟩

theorem length_plugged (source : String) (offset : Int) (closers : String) :
    ((plugged source offset closers).length : Int) =
      source.length + closers.length + placeholderLength := by
  have hlength : source.toList.length = source.length := String.length_toList
  have hhole : placeholder.toList.length = placeholder.length := String.length_toList
  simp only [plugged, placeholderLength, String.length_append, String.length_ofList,
    List.length_append, List.length_take, List.length_drop]
  omega

section Attempts
variable (hp : parser.InBounds)
include hp

theorem ranges_of_tryClosers (h : (tryClosers parser source closers).1 = some root) :
    ∀ range ∈ root.ranges, FitsIn (source.length + closers.length) range := by
  unfold tryClosers at h
  split at h
  · cases h
  · split at h
    · rename_i hscript
      cases h
      simpa [String.length_append] using hp.script hscript
    · cases h

theorem ranges_of_tryPlaceholder {tokens : List Token} {failure : Rejection}
    (htokens : TokensIn source.length tokens)
    (h : (tryPlaceholder parser source closers tokens failure).1 = some root) :
    ∀ range ∈ root.ranges, FitsIn (source.length + closers.length) range := by
  unfold tryPlaceholder at h
  split at h
  · cases h
  · rename_i dot span hdot
    split at h
    · cases h
    · rename_i tree hscript
      cases h
      intro range hrange
      rw [unplugged, ranges_move] at hrange
      obtain ⟨old, hold, rfl⟩ := List.mem_map.1 hrange
      have hsub : ((unplug? span.stop tree).getD tree).ranges.Sublist tree.ranges := by
        cases hunplug : unplug? span.stop tree with
        | none => exact List.Sublist.refl _
        | some w => exact ranges_unplug? _ _ hunplug
      have hfits := hp.script hscript old (hsub.subset hold)
      rw [length_plugged] at hfits
      obtain ⟨hmem, hspan⟩ := danglingDot?_span hdot
      have hbounds := htokens dot hmem span hspan
      exact fitsIn_moveRange hfits ⟨by dsimp only; omega, by dsimp only; omega⟩

theorem tokensIn_tokensOrNone (source : String) :
    TokensIn source.length (tokensOrNone parser source).1 := by
  unfold tokensOrNone
  split
  · exact hp.tokens ‹_›
  · simp [TokensIn]

theorem ranges_of_recover {failure : Rejection}
    (h : (recover parser source failure).1 = some root) :
    ∀ range ∈ root.ranges,
      FitsIn (source.length + (missingClosers (tokensOrNone parser source).1).length) range := by
  unfold recover at h
  dsimp only at h
  split at h
  · rename_i htry
    cases h
    exact ranges_of_tryClosers hp (congrArg Prod.fst htry)
  · exact ranges_of_tryPlaceholder hp (tokensIn_tokensOrNone hp source) h

/-- **Where the ranges of a parsed tree lie**: in the buffer, with the closing brackets behind it that had
to be appended. So they lie in the buffer itself if it is parsed as it is, and also if it only gets a
placeholder. -/
theorem ranges_of_parse (h : (parse parser source).1 = .ok root) :
    (∀ range ∈ root.ranges,
      FitsIn (source.length + (appendedClosers parser source).length) range) ∧
    (appendedClosers parser source = "" → ∀ range ∈ root.ranges, FitsIn source.length range) := by
  have hall : ∀ range ∈ root.ranges,
      FitsIn (source.length + (appendedClosers parser source).length) range := by
    unfold parse at h
    split at h
    · rename_i hscript
      cases h
      simpa [appendedClosers_of_ok hscript] using hp.script hscript
    · rename_i failure hscript
      rw [appendedClosers_of_error hscript]
      dsimp only at h
      split at h
      · rename_i hrecover
        cases h
        exact ranges_of_recover hp (congrArg Prod.fst hrecover)
      · cases h
  refine ⟨hall, fun hclosers => ?_⟩
  simpa [hclosers] using hall

end Attempts

/-! ### Two buffers in the middle of an edit -/

/-- A node of the given type at the given place. -/
def nodeAt (type : String) (start stop : Int) (fields : List (String × Json)) : Json :=
  .obj (("type", .str type) :: fields ++ [("range", .arr [.int start, .int stop])])

/-- The tree of an expression statement that takes up the whole text. -/
def statementTree (length : Int) (expression : Json) : Json :=
  nodeAt "Program" 0 length
    [("body", .arr [nodeAt "ExpressionStatement" 0 length [("expression", expression)]]),
      ("sourceType", .str "script"), ("comments", .arr [])]

/-- The tree of the empty list. -/
def listTree : Json := statementTree 2 (nodeAt "ArrayExpression" 0 2 [("elements", .arr [])])

/-- The tree of a member access to the placeholder. -/
def holeTree : Json :=
  statementTree 19 <| nodeAt "MemberExpression" 0 19
    [("computed", .bool false), ("object", nodeAt "Identifier" 0 1 [("name", .str "a")]),
      ("property", nodeAt "Identifier" 2 19 [("name", .str placeholder)])]

/-- A parser that rejects a buffer with an open bracket, and one that ends in a dot. -/
def editParser : Parser :=
  { script := fun text =>
      if text = "[]" then .ok listTree
      else if text = "a.__jsassist_hole__" then .ok holeTree
      else .error { message := "Line 1: Unexpected end of input" }
    tokens := fun text =>
      if text = "[" then .ok [{ kind := "Punctuator", text := "[", span := some ⟨0, 1⟩ }]
      else if text = "a." then
        .ok [{ kind := "Identifier", text := "a", span := some ⟨0, 1⟩ },
          { kind := "Punctuator", text := ".", span := some ⟨1, 2⟩ }]
      else .error { message := "Line 1: Unexpected token ILLEGAL" } }

theorem editParser_inBounds : editParser.InBounds where
  script := by
    intro text root h
    have hlist : listTree.ranges = List.replicate 3 (.arr [.int 0, .int 2]) := rfl
    have hhole : holeTree.ranges = .arr [.int 0, .int 1] :: .arr [.int 2, .int 19] ::
      List.replicate 3 (.arr [.int 0, .int 19]) := rfl
    simp only [editParser] at h
    split_ifs at h with htext htext
    · cases h
      rw [hlist, htext]
      intro range hrange
      exact ⟨0, 2, List.eq_of_mem_replicate hrange, by decide⟩
    · cases h
      rw [hhole, htext]
      intro range hrange
      rcases List.mem_cons.1 hrange with rfl | hrange
      · exact ⟨0, 1, rfl, by decide⟩
      rcases List.mem_cons.1 hrange with rfl | hrange
      · exact ⟨2, 19, rfl, by decide⟩
      · exact ⟨0, 19, List.eq_of_mem_replicate hrange, by decide⟩
  tokens := by
    intro text tokens h
    have hlist : "[".length = 1 := rfl
    have hdot : "a.".length = 2 := rfl
    simp only [editParser] at h
    split_ifs at h with htext htext
    · cases h
      simp [TokensIn, htext, hlist]
    · cases h
      simp [TokensIn, htext, hdot]

/-- The member access, without the placeholder. -/
def dotTree : Json :=
  statementTree 2 <| nodeAt "MemberExpression" 0 2
    [("computed", .bool false), ("object", nodeAt "Identifier" 0 1 [("name", .str "a")]),
      ("property", .null)]

theorem ranges_of_parse_dot :
    editParser.InBounds ∧ (parse editParser "a.").1 = .ok dotTree ∧
      ∀ range ∈ dotTree.ranges, FitsIn "a.".length range :=
  have hparse : (parse editParser "a.").1 = .ok dotTree := rfl
  ⟨editParser_inBounds, hparse, (ranges_of_parse editParser_inBounds hparse).2 rfl⟩

/-- An open bracket is one character, but the tree of it has ranges of two. -/
theorem overlong_range :
    ¬ ∀ (parser : Parser) (source : String) (root : Json), parser.InBounds →
        (parse parser source).1 = .ok root → ∀ range ∈ root.ranges, FitsIn source.length range := by
  intro h
  have hmem : .arr [.int 0, .int 2] ∈ listTree.ranges := List.mem_cons_self
  obtain ⟨start, stop, heq, -, -, hstop⟩ := h editParser "[" listTree editParser_inBounds rfl _ hmem
  cases heq
  exact absurd hstop (by decide)

end ContentAssist
