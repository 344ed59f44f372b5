import ContentAssist.Decimal.Binary64

/-! # JSON values

The values of a JSON text. Objects keep the order of their fields, because the order of record
members and of type tables is read off it. Syntax trees are JSON values too. -/

namespace ContentAssist

/-- A JSON value. Whole numbers are kept exactly; a number with a fraction or an exponent is a
binary floating-point number. -/
inductive Json where
  | null
  | bool (value : Bool)
  | int (value : Int)
  | float (value : Binary64)
  | str (text : String)
  | arr (items : List Json)
  | obj (fields : List (String × Json))
  deriving Repr

namespace Json

instance : Inhabited Json := ⟨null⟩

/-- The value of the first field named `key`. -/
def fieldIn (key : String) : List (String × Json) → Option Json
  | [] => none
  | (k, v) :: rest => if k = key then some v else fieldIn key rest

/-- The field `key` of an object. -/
def field? (key : String) : Json → Option Json
  | obj fields => fieldIn key fields
  | _ => none

/-- The field `key` of an object; `null` where there is none. -/
def get (v : Json) (key : String) : Json := (v.field? key).getD null

/-- Whether the value is an object. -/
def isObject : Json → Bool
  | obj _ => true
  | _ => false

/-- Whether the value is `null`. -/
def isNull : Json → Bool
  | null => true
  | _ => false

/-- The text of a string value. -/
def str? : Json → Option String
  | str s => some s
  | _ => none

/-- The value of a whole number. -/
def int? : Json → Option Int
  | int n => some n
  | _ => none

/-- The items of an array; none of any other value. -/
def items : Json → List Json
  | arr xs => xs
  | _ => []

/-- The fields of an object; none of any other value. -/
def fields : Json → List (String × Json)
  | obj fs => fs
  | _ => []

/-- Whether a value counts as set: `null`, `false`, zeros and empty values do not. -/
def isSet : Json → Bool
  | null => false
  | bool b => b
  | int n => n ≠ 0
  | float x => !x.isZero
  | str s => s ≠ ""
  | arr xs => !xs.isEmpty
  | obj fs => !fs.isEmpty

/-- Sets a field: a present field keeps its place, a new one goes to the end. -/
def setIn (key : String) (v : Json) : List (String × Json) → List (String × Json)
  | [] => [(key, v)]
  | (k, w) :: rest => if k = key then (k, v) :: rest else (k, w) :: setIn key v rest

/-- Sets a field of an object; other values stay as they are. -/
def set (target : Json) (key : String) (v : Json) : Json :=
  match target with
  | obj fields => obj (setIn key v fields)
  | other => other

/-- A value that may be missing; `null` stands for a missing one. -/
def ofOption {α : Type} (f : α → Json) : Option α → Json
  | none => null
  | some a => f a

theorem fieldIn_mem {key : String} {fs : List (String × Json)} {v : Json}
    (h : fieldIn key fs = some v) : (key, v) ∈ fs := by
  induction fs with
  | nil => simp [fieldIn] at h
  | cons e rest ih =>
    obtain ⟨k, w⟩ := e
    by_cases hk : k = key
    · simp only [fieldIn, hk, if_true, Option.some.injEq] at h
      simp [hk, h]
    · simp only [fieldIn, hk, if_false] at h
      exact List.mem_cons_of_mem _ (ih h)

/-- A field of an object is smaller than the object. -/
theorem sizeOf_lt_of_field {key : String} {v w : Json} (h : v.field? key = some w) :
    sizeOf w < sizeOf v := by
  cases v with
  | obj fs =>
    have hm := List.sizeOf_lt_of_mem (fieldIn_mem h)
    simp only [obj.sizeOf_spec, Prod.mk.sizeOf_spec] at hm ⊢
    omega
  | _ => simp [field?] at h

/-- What is read from an object is smaller than the object. -/
theorem sizeOf_get_lt {v : Json} (h : v.isObject = true) (key : String) :
    sizeOf (v.get key) < sizeOf v := by
  unfold get
  cases hf : v.field? key with
  | some w => exact sizeOf_lt_of_field hf
  | none =>
    cases v with
    | obj fs =>
      have h1 : sizeOf null < 1 + sizeOf fs := by cases fs <;> simp +arith
      simpa using h1
    | _ => simp [isObject] at h

/-- An item of an array is smaller than the array. -/
theorem sizeOf_lt_of_item {v w : Json} (h : w ∈ v.items) : sizeOf w < sizeOf v := by
  cases v with
  | arr xs =>
    have hm := List.sizeOf_lt_of_mem (show w ∈ xs from h)
    simp only [arr.sizeOf_spec]
    omega
  | _ => simp [items] at h

end Json

end ContentAssist
