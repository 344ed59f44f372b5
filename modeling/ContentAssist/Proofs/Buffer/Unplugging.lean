import ContentAssist.Proofs.Buffer.Ranges
import ContentAssist.Proofs.Text.Insertion
import Mathlib.Data.List.Forall2

/-! # Taking out the placeholder

A tree of the text with the placeholder becomes one of the text without it: the property that is the
placeholder is taken out, each range and each position is that of the same characters, and everything
else stays.

* `PluggedBy`: the placeholder is in the tree once, as a property;
* `Restored`: what becomes of a tree, field by field;
* `restored_unplug?`, `unplugged_restores`: the tree becomes this;
* `agreesWith_movedPosition`: positions that agree with an offset still do. -/

namespace ContentAssist

namespace Json

mutual

/-- All objects in a value, however deep. What holds positions is not searched. -/
def objects : Json → List Json
  | arr items => itemObjects items
  | obj fields => obj fields :: fieldObjects fields
  | _ => []

/-- All objects in the items. -/
def itemObjects : List Json → List Json
  | [] => []
  | v :: rest => objects v ++ itemObjects rest

/-- All objects in the fields. -/
def fieldObjects : List (String × Json) → List Json
  | [] => []
  | (key, v) :: rest => (if key ∈ positionFields then [] else objects v) ++ fieldObjects rest

end

/-- Whether an object bears the name of the placeholder. -/
def bearsHole (v : Json) : Bool := (v.get "name").str? = some placeholder

/-- How many of the objects bear the name of the placeholder. -/
def holeCount (objects : List Json) : Nat := objects.countP bearsHole

@[simp] theorem holeCount_nil : holeCount [] = 0 := rfl

@[simp] theorem holeCount_append (xs ys : List Json) :
    holeCount (xs ++ ys) = holeCount xs + holeCount ys := List.countP_append

theorem holeCount_eq_zero_iff {xs : List Json} : holeCount xs = 0 ↔ ∀ v ∈ xs, v.bearsHole = false := by
  simp [holeCount, List.countP_eq_zero]

theorem holeCount_obj (fields : List (String × Json)) :
    holeCount (obj fields).objects =
      holeCount (fieldObjects fields) + if (obj fields).bearsHole then 1 else 0 := by
  rw [objects, holeCount, List.countP_cons]
  rfl

/-- What bears the name is an object, and one of its own. -/
theorem holeCount_pos_of_bearsHole {v : Json} (h : v.bearsHole = true) : 0 < holeCount v.objects := by
  cases v with
  | obj fields =>
    rw [holeCount_obj, if_pos h]
    exact Nat.succ_pos _
  | _ => cases h

theorem int?_eq_some {v : Json} {n : Int} (h : v.int? = some n) : v = int n := by
  cases v <;> cases h
  rfl

end Json

open Json Text

/-! ### What becomes of a tree -/

/-- The placeholder is in the tree once: one object bears its name. It starts at the offset and is the
property of a member access. -/
structure PluggedBy (offset : Int) (root hole : Json) : Prop where
  only : root.objects.filter bearsHole = [hole]
  start : (hole.get "range").items.head? = some (.int offset)
  property : ∃ member ∈ root.objects, (member.get "type").str? = some "MemberExpression" ∧
    member.get "property" = hole

/-- The offsets of the placeholder. -/
def inPlaceholder (offset : Int) : Nat → Bool := between offset (offset + placeholderLength)

/-- A range of the text with the placeholder, and the range of the same characters without it. -/
inductive MovedRange (source closers : String) (offset : Int) : Json → Json → Prop
  | none : MovedRange source closers offset .null .null
  | moved {start stop start' stop' : Int}
    (hstart : start' = movedBack offset placeholderLength start)
    (hstop : stop' = movedBack offset placeholderLength stop) (hle : start' ≤ stop')
    (htext : charsAt (between start' stop') (source ++ closers).toList =
      charsAt (fun i => between start stop i && !inPlaceholder offset i)
        (plugged source offset closers).toList) :
    MovedRange source closers offset (.arr [.int start, .int stop]) (.arr [.int start', .int stop'])

/-- A line and a column: in the line in which the dot ends the column is moved back. -/
inductive MovedPosition (dot : Token) : Json → Json → Prop
  | column {pos : Json} {line column c : Int} (hline : dot.endLine = some line)
    (hcolumn : dot.endColumn = some column) (hl : pos.get "line" = .int line)
    (hc : pos.get "column" = .int c) :
    MovedPosition dot pos (pos.set "column" (.int (movedBack column placeholderLength c)))
  | elsewhere {pos : Json} (h : ∀ line column c : Int, dot.endLine = some line →
      dot.endColumn = some column → pos.get "line" = .int line → pos.get "column" ≠ .int c) :
    MovedPosition dot pos pos

/-- A location: the positions of its ends are moved. -/
inductive MovedLocation (dot : Token) : Json → Json → Prop
  | ends {fields fields' : List (String × Json)}
    (h : List.Forall₂ (fun f f' => f'.1 = f.1 ∧
      if f.1 = "start" ∨ f.1 = "end" then MovedPosition dot f.2 f'.2 else f'.2 = f.2) fields fields') :
    MovedLocation dot (.obj fields) (.obj fields')
  | none {v : Json} (h : v.isObject = false) : MovedLocation dot v v

mutual

/-- **A tree without the placeholder**, next to the tree with it. -/
inductive Restored (source closers : String) (offset : Int) (dot : Token) : Json → Json → Prop
  | null : Restored source closers offset dot .null .null
  | bool (b : Bool) : Restored source closers offset dot (.bool b) (.bool b)
  | int (n : Int) : Restored source closers offset dot (.int n) (.int n)
  | float (x : Binary64) : Restored source closers offset dot (.float x) (.float x)
  | str (s : String) : Restored source closers offset dot (.str s) (.str s)
  | arr {items items' : List Json} (h : RestoredItems source closers offset dot items items') :
    Restored source closers offset dot (.arr items) (.arr items')
  | obj {fields fields' : List (String × Json)}
    (h : RestoredFields source closers offset dot fields fields') :
    Restored source closers offset dot (.obj fields) (.obj fields')

/-- Items without the placeholder. -/
inductive RestoredItems (source closers : String) (offset : Int) (dot : Token) :
    List Json → List Json → Prop
  | nil : RestoredItems source closers offset dot [] []
  | cons {v v' : Json} {rest rest' : List Json} (hv : Restored source closers offset dot v v')
    (hrest : RestoredItems source closers offset dot rest rest') :
    RestoredItems source closers offset dot (v :: rest) (v' :: rest')

/-- Fields without the placeholder. Only a property that bears its name is taken out. -/
inductive RestoredFields (source closers : String) (offset : Int) (dot : Token) :
    List (String × Json) → List (String × Json) → Prop
  | nil : RestoredFields source closers offset dot [] []
  | range {v v' : Json} {rest rest' : List (String × Json)} (hv : MovedRange source closers offset v v')
    (hrest : RestoredFields source closers offset dot rest rest') :
    RestoredFields source closers offset dot (("range", v) :: rest) (("range", v') :: rest')
  | loc {v v' : Json} {rest rest' : List (String × Json)} (hv : MovedLocation dot v v')
    (hrest : RestoredFields source closers offset dot rest rest') :
    RestoredFields source closers offset dot (("loc", v) :: rest) (("loc", v') :: rest')
  | hole {v : Json} {rest rest' : List (String × Json)} (hv : v.bearsHole = true)
    (hrest : RestoredFields source closers offset dot rest rest') :
    RestoredFields source closers offset dot (("property", v) :: rest) (("property", .null) :: rest')
  | field {key : String} {v v' : Json} {rest rest' : List (String × Json)} (hkey : key ∉ positionFields)
    (hfree : v.bearsHole = false) (hv : Restored source closers offset dot v v')
    (hrest : RestoredFields source closers offset dot rest rest') :
    RestoredFields source closers offset dot ((key, v) :: rest) ((key, v') :: rest')

end

/-! ### Positions -/

/-- What taking the placeholder behind a dot out of a text removes. -/
def holeRemoval (dot : Token) (offset : Int) : Removal :=
  ⟨offset, placeholderLength, dot.endLine, dot.endColumn⟩

variable {source closers : String} {offset : Int} {dot : Token} {root hole v w : Json} {key : String}
  {fields : List (String × Json)}

theorem toList_plugged (closers : String) (h : 0 ≤ offset ∧ offset ≤ source.length) :
    ∃ before after, source.toList = before ++ after ∧ before.length = offset.toNat ∧
      (plugged source offset closers).toList =
        before ++ placeholder.toList ++ (after ++ closers.toList) := by
  refine ⟨source.toList.take offset.toNat, source.toList.drop offset.toNat,
    (List.take_append_drop _ _).symm, ?_, ?_⟩
  · have hlength : source.toList.length = source.length := String.length_toList
    rw [List.length_take]
    omega
  · simp [plugged]

theorem movedRange_moveRange (hoffset : 0 ≤ offset ∧ offset ≤ source.length) {n : Int}
    (h : v.isNull = true ∨ FitsIn n v) :
    MovedRange source closers offset v ((holeRemoval dot offset).moveRange v) := by
  rcases h with hnull | ⟨start, stop, rfl, -, hle, -⟩
  · cases v with
    | null => exact .none
    | _ => cases hnull
  · refine .moved rfl rfl (movedBack_mono hle) ?_
    obtain ⟨before, after, hsource, hlength, hplugged⟩ := toList_plugged closers hoffset
    have hoffset' : offset = before.length := by omega
    have hhole : placeholderLength = placeholder.toList.length := rfl
    rw [String.toList_append, hsource, List.append_assoc, hplugged]
    unfold inPlaceholder
    rw [hhole, hoffset']
    exact charsAt_movedBack before placeholder.toList (after ++ closers.toList) start stop

theorem movedPosition_movePosition (dot : Token) (offset : Int) (pos : Json) :
    MovedPosition dot pos ((holeRemoval dot offset).movePosition pos) := by
  unfold Removal.movePosition holeRemoval
  dsimp only
  split
  · rename_i line column l c hline hcolumn hl hc
    split
    · rename_i heq
      exact .column hline hcolumn (heq ▸ int?_eq_some hl) (int?_eq_some hc)
    · rename_i hne
      refine .elsewhere fun line' column' c' hline' _ hl' _ => hne ?_
      rw [hline] at hline'
      rw [hl'] at hl
      cases hline'
      cases hl
      rfl
  · rename_i hnone
    refine .elsewhere fun line column c hline hcolumn hl hc => ?_
    exact hnone line column line c hline hcolumn (by rw [hl]; rfl) (by rw [hc]; rfl)

theorem movedLocation_moveLocation (dot : Token) (offset : Int) (v : Json) :
    MovedLocation dot v ((holeRemoval dot offset).moveLocation v) := by
  cases v with
  | obj fields =>
    refine .ends ?_
    rw [List.forall₂_map_right_iff, List.forall₂_same]
    intro f _
    split
    · exact ⟨rfl, movedPosition_movePosition dot offset f.2⟩
    · exact ⟨rfl, rfl⟩
  | _ => exact .none rfl

/-! ### What bears the name -/

theorem bearsHole_congr {fields fields' : List (String × Json)}
    (h : ((fieldIn "name" fields').getD .null).str? = ((fieldIn "name" fields).getD .null).str?) :
    (Json.obj fields').bearsHole = (Json.obj fields).bearsHole := by
  unfold bearsHole
  exact congrArg (fun o => decide (o = some placeholder)) h

section Removal
variable (r : Removal)

theorem str?_move (v : Json) : (r.move v).str? = v.str? := by
  cases v <;> rfl

theorem str?_nameIn_moveFields (fields : List (String × Json)) :
    ((fieldIn "name" (r.moveFields fields)).getD .null).str? =
      ((fieldIn "name" fields).getD .null).str? := by
  induction fields with
  | nil => rfl
  | cons f rest ih =>
    obtain ⟨key, v⟩ := f
    rw [Removal.moveFields, fieldIn, fieldIn]
    split
    · rename_i hkey
      rw [hkey]
      exact str?_move r v
    · exact ih

mutual

theorem holeCount_move : ∀ v : Json, holeCount (r.move v).objects = holeCount v.objects
  | .arr items => holeCount_moveItems items
  | .obj fields => by
    rw [Removal.move, holeCount_obj, holeCount_obj, holeCount_moveFields fields,
      bearsHole_congr (str?_nameIn_moveFields r fields)]
  | .null | .bool _ | .int _ | .float _ | .str _ => rfl

theorem holeCount_moveItems : ∀ items : List Json,
    holeCount (itemObjects (r.moveItems items)) = holeCount (itemObjects items)
  | [] => rfl
  | v :: rest => by
    rw [Removal.moveItems, itemObjects, itemObjects, holeCount_append, holeCount_append,
      holeCount_move v, holeCount_moveItems rest]

theorem holeCount_moveFields : ∀ fields : List (String × Json),
    holeCount (fieldObjects (r.moveFields fields)) = holeCount (fieldObjects fields)
  | [] => rfl
  | (key, v) :: rest => by
    rw [Removal.moveFields, fieldObjects, fieldObjects, holeCount_append, holeCount_append,
      holeCount_moveFields rest]
    congr 1
    by_cases hkey : key ∈ positionFields
    · rw [if_pos hkey, if_pos hkey]
    · have hrange : key ≠ "range" := fun heq => hkey (by simp [heq, positionFields])
      have hloc : key ≠ "loc" := fun heq => hkey (by simp [heq, positionFields])
      rw [if_neg hkey, if_neg hkey, if_neg hrange, if_neg hloc, holeCount_move v]

end

end Removal

/-! ### Taking the placeholder out -/

theorem str?_unplug? (h : unplug? offset v = some w) : w.str? = v.str? := by
  cases v with
  | arr items =>
    obtain ⟨items', -, rfl⟩ := Option.map_eq_some_iff.1 h
    rfl
  | obj fields =>
    rw [unplug?] at h
    split at h
    · cases h
      rfl
    · obtain ⟨fields', -, rfl⟩ := Option.map_eq_some_iff.1 h
      rfl
  | _ => cases h

theorem unplugFields?_cons {fields' : List (String × Json)}
    (h : unplugFields? offset ((key, v) :: fields) = some fields') :
    (∃ w, key ∉ positionFields ∧ unplug? offset v = some w ∧ fields' = (key, w) :: fields) ∨
      ∃ rest, unplugFields? offset fields = some rest ∧ fields' = (key, v) :: rest := by
  rw [unplugFields?] at h
  split at h
  · rename_i w hw
    cases h
    by_cases hkey : key ∈ positionFields
    · rw [if_pos hkey] at hw
      cases hw
    · rw [if_neg hkey] at hw
      exact .inl ⟨w, hkey, hw, rfl⟩
  · obtain ⟨rest, hrest, rfl⟩ := Option.map_eq_some_iff.1 h
    exact .inr ⟨rest, hrest, rfl⟩

theorem unplugItems?_cons {items items' : List Json} (h : unplugItems? offset (v :: items) = some items') :
    (∃ w, unplug? offset v = some w ∧ items' = w :: items) ∨
      ∃ rest, unplugItems? offset items = some rest ∧ items' = v :: rest := by
  rw [unplugItems?] at h
  split at h
  · rename_i w hw
    cases h
    exact .inl ⟨w, hw, rfl⟩
  · obtain ⟨rest, hrest, rfl⟩ := Option.map_eq_some_iff.1 h
    exact .inr ⟨rest, hrest, rfl⟩

theorem str?_nameIn_unplugFields? {fields' : List (String × Json)}
    (h : unplugFields? offset fields = some fields') :
    ((fieldIn "name" fields').getD .null).str? = ((fieldIn "name" fields).getD .null).str? := by
  induction fields generalizing fields' with
  | nil => cases h
  | cons f rest ih =>
    obtain ⟨key, v⟩ := f
    obtain ⟨w, -, hw, rfl⟩ | ⟨rest', hrest, rfl⟩ := unplugFields?_cons h
    · rw [fieldIn, fieldIn]
      split
      · exact str?_unplug? hw
      · rfl
    · rw [fieldIn, fieldIn]
      split
      · rfl
      · exact ih hrest

theorem fieldIn_setIn_of_ne {key key' : String} (h : key ≠ key') (u : Json)
    (fields : List (String × Json)) :
    fieldIn key (setIn key' u fields) = fieldIn key fields := by
  induction fields with
  | nil => simp [setIn, fieldIn, Ne.symm h]
  | cons f rest ih =>
    obtain ⟨k, v⟩ := f
    rw [setIn]
    split
    · rename_i hk
      have hne : k ≠ key := hk ▸ Ne.symm h
      rw [fieldIn, fieldIn, if_neg hne, if_neg hne]
    · rw [fieldIn, fieldIn, ih]

theorem bearsHole_unplug? (h : unplug? offset v = some w) : w.bearsHole = v.bearsHole := by
  cases v with
  | arr items =>
    obtain ⟨items', -, rfl⟩ := Option.map_eq_some_iff.1 h
    rfl
  | obj fields =>
    rw [unplug?] at h
    split at h
    · cases h
      refine bearsHole_congr ?_
      rw [fieldIn_setIn_of_ne (by decide)]
    · obtain ⟨fields', hfields, rfl⟩ := Option.map_eq_some_iff.1 h
      exact bearsHole_congr (str?_nameIn_unplugFields? hfields)
  | _ => cases h

theorem exists_hole_of_isPlugged (h : isPlugged offset fields = true) :
    ∃ v, fieldIn "property" fields = some v ∧ v.bearsHole = true := by
  unfold isPlugged at h
  dsimp only at h
  rw [Bool.and_eq_true, Bool.and_eq_true] at h
  have hbears : ((Json.obj fields).get "property").bearsHole = true := h.1.2
  unfold Json.get field? at hbears
  dsimp only at hbears
  cases hv : fieldIn "property" fields with
  | none =>
    rw [hv] at hbears
    cases hbears
  | some v =>
    rw [hv] at hbears
    exact ⟨v, rfl, hbears⟩

theorem holeCount_setIn_null (h : fieldIn "property" fields = some v) :
    holeCount (fieldObjects (setIn "property" .null fields)) + holeCount v.objects =
      holeCount (fieldObjects fields) := by
  induction fields with
  | nil => cases h
  | cons f rest ih =>
    obtain ⟨key, u⟩ := f
    rw [fieldIn] at h
    rw [setIn]
    split
    · rename_i hkey
      rw [if_pos hkey] at h
      cases h
      have hproperty : key ∉ positionFields := by
        rw [hkey]
        decide
      rw [fieldObjects, fieldObjects, if_neg hproperty, if_neg hproperty, holeCount_append,
        holeCount_append]
      have hnull : holeCount Json.null.objects = 0 := rfl
      omega
    · rename_i hkey
      rw [if_neg hkey] at h
      rw [fieldObjects, fieldObjects, holeCount_append, holeCount_append, Nat.add_assoc, ih h]

mutual

/-- **One object less** bears the name. -/
theorem holeCount_unplug? : ∀ (v : Json) {w : Json}, unplug? offset v = some w →
    holeCount w.objects < holeCount v.objects
  | .arr items, _, h => by
    obtain ⟨items', hitems, rfl⟩ := Option.map_eq_some_iff.1 h
    exact holeCount_unplugItems? items hitems
  | .obj fields, w, h => by
    have hname := bearsHole_unplug? h
    rw [unplug?] at h
    split at h
    · rename_i hplugged
      cases h
      obtain ⟨v, hv, hbears⟩ := exists_hole_of_isPlugged hplugged
      have hcount := holeCount_setIn_null hv
      have hpos := holeCount_pos_of_bearsHole hbears
      rw [holeCount_obj, holeCount_obj, hname]
      omega
    · obtain ⟨fields', hfields, rfl⟩ := Option.map_eq_some_iff.1 h
      have hcount := holeCount_unplugFields? fields hfields
      rw [holeCount_obj, holeCount_obj, hname]
      omega
  | .null, _, h | .bool _, _, h | .int _, _, h | .float _, _, h | .str _, _, h => by cases h

theorem holeCount_unplugItems? : ∀ (items : List Json) {items' : List Json},
    unplugItems? offset items = some items' →
      holeCount (itemObjects items') < holeCount (itemObjects items)
  | [], _, h => by cases h
  | v :: rest, _, h => by
    obtain ⟨w, hw, rfl⟩ | ⟨rest', hrest, rfl⟩ := unplugItems?_cons h
    · have hcount := holeCount_unplug? v hw
      rw [itemObjects, itemObjects, holeCount_append, holeCount_append]
      omega
    · have hcount := holeCount_unplugItems? rest hrest
      rw [itemObjects, itemObjects, holeCount_append, holeCount_append]
      omega

theorem holeCount_unplugFields? : ∀ (fields : List (String × Json)) {fields' : List (String × Json)},
    unplugFields? offset fields = some fields' →
      holeCount (fieldObjects fields') < holeCount (fieldObjects fields)
  | [], _, h => by cases h
  | (key, v) :: rest, _, h => by
    obtain ⟨w, hkey, hw, rfl⟩ | ⟨rest', hrest, rfl⟩ := unplugFields?_cons h
    · have hcount := holeCount_unplug? v hw
      rw [fieldObjects, fieldObjects, holeCount_append, holeCount_append, if_neg hkey, if_neg hkey]
      omega
    · have hcount := holeCount_unplugFields? rest hrest
      rw [fieldObjects, fieldObjects, holeCount_append, holeCount_append]
      omega

end

theorem exists_isPlugged (h : PluggedBy offset root hole) :
    ∃ fields, .obj fields ∈ root.objects ∧ isPlugged offset fields = true := by
  obtain ⟨member, hmember, htype, hproperty⟩ := h.property
  have hbears : hole.bearsHole = true :=
    (List.mem_filter.1 (h.only ▸ List.mem_singleton_self hole)).2
  cases member with
  | obj fields =>
    refine ⟨fields, hmember, ?_⟩
    unfold isPlugged
    dsimp only
    rw [hproperty, h.start, htype, Bool.and_eq_true, Bool.and_eq_true]
    exact ⟨⟨decide_eq_true rfl, hbears⟩, decide_eq_true rfl⟩
  | _ => cases htype

mutual

/-- **A placeholder that is there is found.** -/
theorem isSome_unplug? : ∀ v : Json,
    (∃ fields, .obj fields ∈ v.objects ∧ isPlugged offset fields = true) → (unplug? offset v).isSome
  | .arr items, h => by
    rw [unplug?, Option.isSome_map]
    exact isSome_unplugItems? items h
  | .obj fields, h => by
    rw [unplug?]
    split
    · rfl
    · rename_i hplugged
      rw [Option.isSome_map]
      refine isSome_unplugFields? fields ?_
      obtain ⟨member, hmember, hhole⟩ := h
      rcases List.mem_cons.1 hmember with heq | hmember
      · cases heq
        exact absurd hhole hplugged
      · exact ⟨member, hmember, hhole⟩
  | .null, h | .bool _, h | .int _, h | .float _, h | .str _, h => by
    obtain ⟨_, hmember, -⟩ := h
    cases hmember

theorem isSome_unplugItems? : ∀ items : List Json,
    (∃ fields, .obj fields ∈ itemObjects items ∧ isPlugged offset fields = true) →
      (unplugItems? offset items).isSome
  | [], ⟨_, hmember, _⟩ => by cases hmember
  | v :: rest, ⟨fields, hmember, hhole⟩ => by
    rw [unplugItems?]
    split
    · rfl
    · rename_i hnone
      rw [Option.isSome_map]
      refine isSome_unplugItems? rest ⟨fields, ?_, hhole⟩
      refine (List.mem_append.1 hmember).resolve_left fun hv => ?_
      have hsome := isSome_unplug? v ⟨fields, hv, hhole⟩
      rw [hnone] at hsome
      cases hsome

theorem isSome_unplugFields? : ∀ fields : List (String × Json),
    (∃ member, .obj member ∈ fieldObjects fields ∧ isPlugged offset member = true) →
      (unplugFields? offset fields).isSome
  | [], ⟨_, hmember, _⟩ => by cases hmember
  | (key, v) :: rest, ⟨member, hmember, hhole⟩ => by
    rw [unplugFields?]
    split
    · rfl
    · rename_i hnone
      rw [Option.isSome_map]
      refine isSome_unplugFields? rest ⟨member, ?_, hhole⟩
      refine (List.mem_append.1 hmember).resolve_left fun hv => ?_
      by_cases hkey : key ∈ positionFields
      · rw [if_pos hkey] at hv
        cases hv
      · rw [if_neg hkey] at hv hnone
        have hsome := isSome_unplug? v ⟨member, hv, hhole⟩
        rw [hnone] at hsome
        cases hsome

end

/-! ### The tree that is left -/

theorem bearsHole_eq_false (h : holeCount v.objects = 0) : v.bearsHole = false := by
  cases hbears : v.bearsHole with
  | false => rfl
  | true => exact absurd h (Nat.ne_of_gt (holeCount_pos_of_bearsHole hbears))

theorem holeCount_fieldObjects_cons (hkey : key ∉ positionFields) :
    holeCount (fieldObjects ((key, v) :: fields)) =
      holeCount v.objects + holeCount (fieldObjects fields) := by
  rw [fieldObjects, holeCount_append, if_neg hkey]

theorem holeCount_fieldObjects_le (key : String) (v : Json) (fields : List (String × Json)) :
    holeCount (fieldObjects fields) ≤ holeCount (fieldObjects ((key, v) :: fields)) := by
  rw [fieldObjects, holeCount_append]
  exact Nat.le_add_left _ _

/-- The ranges in fields are that of the object itself, those of its values, and those in the rest. -/
theorem forall_fieldRanges_cons {P : Json → Prop} (h : ∀ range ∈ fieldRanges ((key, v) :: fields), P range) :
    (key = "range" → v.isNull = true ∨ P v) ∧ (key ∉ positionFields → ∀ range ∈ v.ranges, P range) ∧
      ∀ range ∈ fieldRanges fields, P range := by
  rw [fieldRanges, List.forall_mem_append] at h
  refine ⟨fun hkey => ?_, fun hkey => ?_, h.2⟩
  · cases hnull : v.isNull with
    | true => exact .inl rfl
    | false => exact .inr (h.1 v (by simp [hkey, hnull]))
  · have hrange : key ≠ "range" := fun heq => hkey (by simp [heq, positionFields])
    rw [if_neg hrange, if_neg hkey] at h
    exact h.1

theorem moveFields_cons_of_not_mem (r : Removal) (hkey : key ∉ positionFields) :
    r.moveFields ((key, v) :: fields) = (key, r.move v) :: r.moveFields fields := by
  have hrange : key ≠ "range" := fun heq => hkey (by simp [heq, positionFields])
  have hloc : key ≠ "loc" := fun heq => hkey (by simp [heq, positionFields])
  rw [Removal.moveFields, if_neg hrange, if_neg hloc]

section Restored
variable {n : Int}

/-- A field that does not bear the name is moved. -/
theorem RestoredFields.cons_move (hoffset : 0 ≤ offset ∧ offset ≤ source.length)
    {rest rest' : List (String × Json)}
    (hrange : key = "range" → v.isNull = true ∨ FitsIn n v)
    (hfree : key ∉ positionFields → v.bearsHole = false)
    (hv : key ∉ positionFields → Restored source closers offset dot v ((holeRemoval dot offset).move v))
    (hrest : RestoredFields source closers offset dot rest ((holeRemoval dot offset).moveFields rest')) :
    RestoredFields source closers offset dot ((key, v) :: rest)
      ((holeRemoval dot offset).moveFields ((key, v) :: rest')) := by
  by_cases hkey : key ∈ positionFields
  · rw [Removal.moveFields]
    simp only [positionFields, List.mem_cons, List.not_mem_nil, or_false] at hkey
    rcases hkey with rfl | rfl
    · exact .range (movedRange_moveRange hoffset (hrange rfl)) hrest
    · exact .loc (movedLocation_moveLocation dot offset v) hrest
  · rw [moveFields_cons_of_not_mem _ hkey]
    exact .field hkey (hfree hkey) (hv hkey) hrest

mutual

/-- **A tree without the placeholder** is only moved. -/
theorem restored_move (hoffset : 0 ≤ offset ∧ offset ≤ source.length) : ∀ v : Json,
    holeCount v.objects = 0 → (∀ range ∈ v.ranges, FitsIn n range) →
      Restored source closers offset dot v ((holeRemoval dot offset).move v)
  | .arr items, hfree, hfits => .arr (restoredItems_move hoffset items hfree hfits)
  | .obj fields, hfree, hfits => by
    rw [holeCount_obj] at hfree
    exact .obj (restoredFields_move hoffset fields (by omega) hfits)
  | .null, _, _ => .null
  | .bool b, _, _ => .bool b
  | .int n, _, _ => .int n
  | .float x, _, _ => .float x
  | .str s, _, _ => .str s

theorem restoredItems_move (hoffset : 0 ≤ offset ∧ offset ≤ source.length) : ∀ items : List Json,
    holeCount (itemObjects items) = 0 → (∀ range ∈ itemRanges items, FitsIn n range) →
      RestoredItems source closers offset dot items ((holeRemoval dot offset).moveItems items)
  | [], _, _ => .nil
  | v :: rest, hfree, hfits => by
    rw [itemObjects, holeCount_append] at hfree
    rw [itemRanges, List.forall_mem_append] at hfits
    exact .cons (restored_move hoffset v (by omega) hfits.1)
      (restoredItems_move hoffset rest (by omega) hfits.2)

theorem restoredFields_move (hoffset : 0 ≤ offset ∧ offset ≤ source.length) :
    ∀ fields : List (String × Json), holeCount (fieldObjects fields) = 0 →
    (∀ range ∈ fieldRanges fields, FitsIn n range) →
      RestoredFields source closers offset dot fields ((holeRemoval dot offset).moveFields fields)
  | [], _, _ => .nil
  | (key, v) :: rest, hfree, hfits => by
    obtain ⟨hrange, hvalue, hrest⟩ := forall_fieldRanges_cons hfits
    have hv (hkey : key ∉ positionFields) : holeCount v.objects = 0 := by
      rw [holeCount_fieldObjects_cons hkey] at hfree
      omega
    have hle := holeCount_fieldObjects_le key v rest
    exact .cons_move hoffset hrange (fun hkey => bearsHole_eq_false (hv hkey))
      (fun hkey => restored_move hoffset v (hv hkey) (hvalue hkey))
      (restoredFields_move hoffset rest (by omega) hrest)

end

variable (hoffset : 0 ≤ offset ∧ offset ≤ source.length)
include hoffset

/-- The member access itself, of which the property is taken out. -/
theorem restoredFields_setIn_null (hhole : fieldIn "property" fields = some hole)
    (hbears : hole.bearsHole = true) (hone : holeCount (fieldObjects fields) ≤ 1)
    (hfits : ∀ range ∈ fieldRanges fields, FitsIn n range) :
    RestoredFields source closers offset dot fields
      ((holeRemoval dot offset).moveFields (setIn "property" .null fields)) := by
  have hpos := holeCount_pos_of_bearsHole hbears
  induction fields with
  | nil => cases hhole
  | cons f rest ih =>
    obtain ⟨key, v⟩ := f
    obtain ⟨hrange, hvalue, hrest⟩ := forall_fieldRanges_cons hfits
    rw [fieldIn] at hhole
    rw [setIn]
    split
    · rename_i hkey
      rw [if_pos hkey] at hhole
      cases hhole
      subst hkey
      rw [holeCount_fieldObjects_cons (by decide)] at hone
      exact .hole hbears (restoredFields_move hoffset rest (by omega) hrest)
    · rename_i hne
      rw [if_neg hne] at hhole
      -- the name is in the rest, so it is not in the value in front of it
      have hcount := holeCount_setIn_null hhole
      have hle := holeCount_fieldObjects_le key v rest
      have hv (hkey : key ∉ positionFields) : holeCount v.objects = 0 := by
        rw [holeCount_fieldObjects_cons hkey] at hone
        omega
      exact .cons_move hoffset hrange (fun hkey => bearsHole_eq_false (hv hkey))
        (fun hkey => restored_move hoffset v (hv hkey) (hvalue hkey)) (ih hhole (by omega) hrest)

mutual

/-- **A tree with the placeholder** is moved once the placeholder is taken out. -/
theorem restored_unplug? : ∀ (v : Json) {w : Json}, unplug? offset v = some w → holeCount v.objects ≤ 1 →
    (∀ range ∈ v.ranges, FitsIn n range) →
      Restored source closers offset dot v ((holeRemoval dot offset).move w)
  | .arr items, _, h, hone, hfits => by
    obtain ⟨items', hitems, rfl⟩ := Option.map_eq_some_iff.1 h
    exact .arr (restoredItems_unplugItems? items hitems hone hfits)
  | .obj fields, _, h, hone, hfits => by
    rw [holeCount_obj] at hone
    rw [unplug?] at h
    split at h
    · rename_i hplugged
      cases h
      obtain ⟨hole, hhole, hbears⟩ := exists_hole_of_isPlugged hplugged
      exact .obj (restoredFields_setIn_null hoffset hhole hbears (by omega) hfits)
    · obtain ⟨fields', hfields, rfl⟩ := Option.map_eq_some_iff.1 h
      exact .obj (restoredFields_unplugFields? fields hfields (by omega) hfits)
  | .null, _, h, _, _ | .bool _, _, h, _, _ | .int _, _, h, _, _ | .float _, _, h, _, _
  | .str _, _, h, _, _ => by cases h

theorem restoredItems_unplugItems? : ∀ (items : List Json) {items' : List Json},
    unplugItems? offset items = some items' → holeCount (itemObjects items) ≤ 1 →
      (∀ range ∈ itemRanges items, FitsIn n range) →
        RestoredItems source closers offset dot items ((holeRemoval dot offset).moveItems items')
  | [], _, h, _, _ => by cases h
  | v :: rest, _, h, hone, hfits => by
    rw [itemObjects, holeCount_append] at hone
    rw [itemRanges, List.forall_mem_append] at hfits
    obtain ⟨w, hw, rfl⟩ | ⟨rest', hrest, rfl⟩ := unplugItems?_cons h
    · have hcount := holeCount_unplug? v hw
      exact .cons (restored_unplug? v hw (by omega) hfits.1)
        (restoredItems_move hoffset rest (by omega) hfits.2)
    · have hcount := holeCount_unplugItems? rest hrest
      exact .cons (restored_move hoffset v (by omega) hfits.1)
        (restoredItems_unplugItems? rest hrest (by omega) hfits.2)

theorem restoredFields_unplugFields? : ∀ (fields : List (String × Json))
    {fields' : List (String × Json)}, unplugFields? offset fields = some fields' →
      holeCount (fieldObjects fields) ≤ 1 → (∀ range ∈ fieldRanges fields, FitsIn n range) →
        RestoredFields source closers offset dot fields ((holeRemoval dot offset).moveFields fields')
  | [], _, h, _, _ => by cases h
  | (key, v) :: rest, _, h, hone, hfits => by
    obtain ⟨hrange, hvalue, hfitsRest⟩ := forall_fieldRanges_cons hfits
    obtain ⟨w, hkey, hw, rfl⟩ | ⟨rest', hrest, rfl⟩ := unplugFields?_cons h
    · rw [holeCount_fieldObjects_cons hkey] at hone
      have hcount := holeCount_unplug? v hw
      -- were the value the object itself, what is taken out of it would bear the name as well
      have hfree : v.bearsHole = false := by
        cases hbears : v.bearsHole with
        | false => rfl
        | true =>
          have hpos := holeCount_pos_of_bearsHole ((bearsHole_unplug? hw).trans hbears)
          omega
      rw [moveFields_cons_of_not_mem _ hkey]
      exact .field hkey hfree (restored_unplug? v hw (by omega) (hvalue hkey))
        (restoredFields_move hoffset rest (by omega) hfitsRest)
    · have hcount := holeCount_unplugFields? rest hrest
      have hle := holeCount_fieldObjects_le key v rest
      have hv (hkey : key ∉ positionFields) : holeCount v.objects = 0 := by
        rw [holeCount_fieldObjects_cons hkey] at hone
        omega
      exact .cons_move hoffset hrange (fun hkey => bearsHole_eq_false (hv hkey))
        (fun hkey => restored_move hoffset v (hv hkey) (hvalue hkey))
        (restoredFields_unplugFields? rest hrest (by omega) hfitsRest)

end

end Restored

/-! ### Positions that agree with an offset -/

/-- The line and the column are those of an offset in the text. -/
def AgreesWith (text : List Char) (n : Nat) (pos : Json) : Prop :=
  pos.get "line" = .int (position text n).1 ∧ pos.get "column" = .int (position text n).2

theorem fieldIn_setIn_self (key : String) (u : Json) (fields : List (String × Json)) :
    fieldIn key (setIn key u fields) = some u := by
  induction fields with
  | nil => simp [setIn, fieldIn]
  | cons f rest ih =>
    obtain ⟨k, v⟩ := f
    rw [setIn]
    split
    · rename_i hk
      rw [fieldIn, if_pos hk]
    · rename_i hk
      rw [fieldIn, if_neg hk, ih]

theorem get_set_column {pos : Json} (h : pos.get "column" ≠ .null) (u : Json) :
    (pos.set "column" u).get "column" = u ∧ (pos.set "column" u).get "line" = pos.get "line" := by
  cases pos with
  | obj fields =>
    refine ⟨?_, ?_⟩
    · exact congrArg (Option.getD · .null) (fieldIn_setIn_self "column" u fields)
    · exact congrArg (Option.getD · .null) 
        (fieldIn_setIn_of_ne (show "line" ≠ "column" by decide) u fields)
  | _ => exact absurd rfl h

/-- The line of a position stays, and the column of one in the line of the dot is moved back. -/
theorem MovedPosition.get {pos pos' : Json} (h : MovedPosition dot pos pos') {line column l c : Int}
    (hline : dot.endLine = some line) (hcolumn : dot.endColumn = some column)
    (hl : pos.get "line" = .int l) (hc : pos.get "column" = .int c) :
    pos'.get "line" = .int l ∧
      pos'.get "column" = .int (if l = line then movedBack column placeholderLength c else c) := by
  cases h with
  | column hline' hcolumn' hl' hc' =>
    rw [hline] at hline'
    rw [hcolumn] at hcolumn'
    rw [hl] at hl'
    rw [hc] at hc'
    cases hline'
    cases hcolumn'
    cases hl'
    cases hc'
    have hset : pos.get "column" ≠ .null := by
      rw [hc]
      exact Json.noConfusion
    rw [if_pos rfl]
    exact ⟨(get_set_column hset _).2.trans hl, (get_set_column hset _).1⟩
  | elsewhere h =>
    have hne : l ≠ line := fun heq => h line column c hline hcolumn (heq ▸ hl) hc
    rw [if_neg hne]
    exact ⟨hl, hc⟩

/-- The dot ends at an offset of the text: there are its last line and column. -/
structure Token.EndsAt (dot : Token) (text : List Char) (n : Nat) : Prop where
  line : dot.endLine = some (position text n).1
  column : dot.endColumn = some (position text n).2

/-- Behind a dot no line ends. -/
theorem not_insideLineEnd_of_dot {text : List Char} {n : Nat} (h : (text.take n).getLast? = some '.') :
    ¬ InsideLineEnd text n := by
  rintro ⟨hlast, -⟩
  rw [h] at hlast
  exact absurd hlast (by decide)

theorem placeholder_within : ∀ c ∈ placeholder.toList, c ∉ lineEnds := by
  have hall : (placeholder.toList.all fun c => decide (c ∉ lineEnds)) = true := by decide
  exact fun c hc => of_decide_eq_true (List.all_eq_true.1 hall c hc)

/-- **A position that agrees with an offset** agrees with it once both are moved back. -/
theorem agreesWith_movedPosition (hoffset : 0 ≤ offset ∧ offset ≤ source.length)
    (hends : dot.EndsAt source.toList offset.toNat)
    (hwhole : ¬ InsideLineEnd (source ++ closers).toList offset.toNat) {pos pos' : Json}
    (hpos : MovedPosition dot pos pos') {n : Nat}
    (hagrees : AgreesWith (plugged source offset closers).toList n pos) :
    AgreesWith (source ++ closers).toList (movedBack offset placeholderLength n).toNat pos' := by
  obtain ⟨before, after, hsource, hlength, hplugged⟩ := toList_plugged closers hoffset
  have hoffset' : offset = before.length := by omega
  have hhole : placeholderLength = placeholder.toList.length := rfl
  rw [String.toList_append, hsource, List.append_assoc, ← hlength] at hwhole
  have hplace : position source.toList offset.toNat =
      position (before ++ (after ++ closers.toList)) before.length := by
    rw [hsource, ← hlength, position_append_of_le hwhole (Nat.le_refl _)]
  have hget := hpos.get hends.line hends.column hagrees.1 hagrees.2
  rw [hplace, hplugged] at hget
  unfold AgreesWith
  rw [String.toList_append, hsource, List.append_assoc, hoffset', hhole,
    position_movedBack placeholder_within hwhole rfl n]
  exact hget

/-- **Taking out the placeholder undoes putting it in.** In the tree that is left no object bears its
name, and it is the tree there was but for the property, which is `null`, and for the positions: each
range is that of the same characters, and each position that agreed with an offset still does. For the
positions the dot has to end at the offset, which must not be inside the end of a line; behind a dot it
is not (`not_insideLineEnd_of_dot`). -/
theorem unplugged_restores (dot : Token) (hoffset : 0 ≤ offset ∧ offset ≤ source.length)
    (hplugged : PluggedBy offset root hole)
    (hfits : ∀ range ∈ root.ranges, FitsIn (plugged source offset closers).length range) :
    (∀ v ∈ (unplugged root dot offset).objects, v.bearsHole = false) ∧
    Restored source closers offset dot root (unplugged root dot offset) ∧
    (dot.EndsAt source.toList offset.toNat →
      ¬ InsideLineEnd (source ++ closers).toList offset.toNat →
        ∀ pos pos' n, MovedPosition dot pos pos' →
          AgreesWith (plugged source offset closers).toList n pos →
            AgreesWith (source ++ closers).toList (movedBack offset placeholderLength n).toNat pos') := by
  have hone : holeCount root.objects = 1 := by
    rw [holeCount, List.countP_eq_length_filter, hplugged.only]
    rfl
  obtain ⟨w, hw⟩ := Option.isSome_iff_exists.1
    (isSome_unplug? root (exists_isPlugged hplugged))
  have hunplugged : unplugged root dot offset = (holeRemoval dot offset).move w := by
    unfold unplugged
    rw [hw]
    rfl
  have hcount := holeCount_unplug? root hw
  rw [hunplugged]
  refine ⟨holeCount_eq_zero_iff.1 ?_, restored_unplug? hoffset root hw (by omega) hfits,
    fun hends hwhole pos pos' n hpos hagrees =>
      agreesWith_movedPosition hoffset hends hwhole hpos hagrees⟩
  rw [holeCount_move]
  omega

/-- The last token of `a.`. -/
def lastDot : Token :=
  { kind := "Punctuator", text := ".", span := some ⟨1, 2⟩, endLine := some 1, endColumn := some 2 }

/-- A line and a column. -/
def lineAndColumn (line column : Int) : Json := .obj [("line", .int line), ("column", .int column)]

/-- The placeholder behind `a.` is taken out, and the end of the text is the end of it again. -/
theorem unplugged_restores_dot :
    PluggedBy 2 holeTree (nodeAt "Identifier" 2 19 [("name", .str placeholder)]) ∧
      (∀ v ∈ dotTree.objects, v.bearsHole = false) ∧ Restored "a." "" 2 lastDot holeTree dotTree ∧
      AgreesWith "a.".toList 2 (lineAndColumn 1 2) := by
  have hplugged : PluggedBy 2 holeTree (nodeAt "Identifier" 2 19 [("name", .str placeholder)]) :=
    ⟨rfl, rfl, nodeAt "MemberExpression" 0 19 [("computed", .bool false),
      ("object", nodeAt "Identifier" 0 1 [("name", .str "a")]),
      ("property", nodeAt "Identifier" 2 19 [("name", .str placeholder)])],
      by simp [holeTree, statementTree, nodeAt, objects, fieldObjects, itemObjects, positionFields], rfl, rfl⟩
  have hscript : editParser.script (plugged "a." 2 "") = .ok holeTree := rfl
  obtain ⟨hfree, hrestored, hpositions⟩ :=
    unplugged_restores lastDot (by decide) hplugged (editParser_inBounds.script hscript)
  have hmoved : MovedPosition lastDot (lineAndColumn 1 19) (lineAndColumn 1 2) :=
    movedPosition_movePosition lastDot 2 (lineAndColumn 1 19)
  exact ⟨hplugged, hfree, hrestored,
    hpositions ⟨rfl, rfl⟩ (not_insideLineEnd_of_dot rfl) _ _ 19 hmoved ⟨rfl, rfl⟩⟩

end ContentAssist
