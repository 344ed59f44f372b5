/-! # Ordered maps

A finite map that remembers the order in which its keys were first added: a new key goes to the end,
a present key keeps its place when its value is replaced, and a key that was erased and added again
goes to the end. Tables of records, members of a record and the sources of an index are such maps.

Main facts: `find?_insert_self`, `find?_insert_of_ne`, `find?_erase_self`, `find?_erase_of_ne`. -/

namespace ContentAssist

/-- A finite map that remembers the order in which its keys were first added. -/
structure OrderedMap (κ ν : Type) where
  /-- The entries, oldest key first. -/
  entries : List (κ × ν) := []
  deriving DecidableEq, Repr

namespace OrderedMap

variable {κ ν : Type} [DecidableEq κ]

/-- The map without entries. -/
def empty : OrderedMap κ ν := ⟨[]⟩

instance : Inhabited (OrderedMap κ ν) := ⟨empty⟩

/-- The keys, oldest first. -/
def keys (m : OrderedMap κ ν) : List κ := m.entries.map (·.1)

/-- The values, in the order of their keys. -/
def values (m : OrderedMap κ ν) : List ν := m.entries.map (·.2)

/-- The number of entries. -/
def size (m : OrderedMap κ ν) : Nat := m.entries.length

/-- The value of the first entry whose key is `k`. -/
def findIn (k : κ) : List (κ × ν) → Option ν
  | [] => none
  | (k', v) :: rest => if k' = k then some v else findIn k rest

/-- The value at `k`, if there is one. -/
def find? (m : OrderedMap κ ν) (k : κ) : Option ν := findIn k m.entries

/-- Whether `k` is a key. -/
def contains (m : OrderedMap κ ν) (k : κ) : Bool := (m.find? k).isSome

/-- Replaces the value of the first entry at `k`, or adds an entry at the end. -/
def insertInto (k : κ) (v : ν) : List (κ × ν) → List (κ × ν)
  | [] => [(k, v)]
  | (k', v') :: rest => if k' = k then (k', v) :: rest else (k', v') :: insertInto k v rest

/-- Sets the value at `k`: a present key keeps its place, a new key goes to the end. -/
def insert (m : OrderedMap κ ν) (k : κ) (v : ν) : OrderedMap κ ν := ⟨insertInto k v m.entries⟩

/-- Removes the key `k`. -/
def erase (m : OrderedMap κ ν) (k : κ) : OrderedMap κ ν :=
  ⟨m.entries.filter fun e => !decide (e.1 = k)⟩

/-- Applies `f` to the value at `k`, if there is one. -/
def modify (m : OrderedMap κ ν) (k : κ) (f : ν → ν) : OrderedMap κ ν :=
  match m.find? k with
  | none => m
  | some v => m.insert k (f v)

/-- Applies `f` to every value; keys and places stay. -/
def mapValues {ν' : Type} (f : ν → ν') (m : OrderedMap κ ν) : OrderedMap κ ν' :=
  ⟨m.entries.map fun e => (e.1, f e.2)⟩

/-- Keeps the entries that satisfy `p`. -/
def filter (m : OrderedMap κ ν) (p : κ → ν → Bool) : OrderedMap κ ν :=
  ⟨m.entries.filter fun e => p e.1 e.2⟩

/-- The map that results from setting the entries one after the other. -/
def ofList (es : List (κ × ν)) : OrderedMap κ ν := es.foldl (fun m e => m.insert e.1 e.2) empty

/-! ### What is found -/

theorem mem_findIn {k : κ} {v : ν} {es : List (κ × ν)} (h : findIn k es = some v) :
    (k, v) ∈ es := by
  induction es with
  | nil => simp [findIn] at h
  | cons e es ih =>
    obtain ⟨k', v'⟩ := e
    rw [findIn] at h
    split at h
    · rename_i hk
      cases h
      exact hk ▸ List.mem_cons_self
    · exact List.mem_cons_of_mem _ (ih h)

theorem mem_of_find? (m : OrderedMap κ ν) {k : κ} {v : ν} (h : m.find? k = some v) :
    (k, v) ∈ m.entries := mem_findIn h

theorem mem_keys_of_find? (m : OrderedMap κ ν) {k : κ} {v : ν} (h : m.find? k = some v) :
    k ∈ m.keys := List.mem_map.2 ⟨_, m.mem_of_find? h, rfl⟩

/-! ### Looking up after a change -/

theorem findIn_insertInto_self (k : κ) (v : ν) (es : List (κ × ν)) :
    findIn k (insertInto k v es) = some v := by
  induction es with
  | nil => simp [insertInto, findIn]
  | cons e es ih =>
    obtain ⟨k', v'⟩ := e
    by_cases h : k' = k <;> simp [insertInto, findIn, h, ih]

theorem findIn_insertInto_of_ne {k k' : κ} (h : k' ≠ k) (v : ν) (es : List (κ × ν)) :
    findIn k (insertInto k' v es) = findIn k es := by
  induction es with
  | nil => simp [insertInto, findIn, h]
  | cons e es ih =>
    obtain ⟨l, w⟩ := e
    by_cases hl : l = k'
    · subst hl; simp [insertInto, findIn, h]
    · simp [insertInto, findIn, hl, ih]

theorem findIn_filter_self (k : κ) (es : List (κ × ν)) :
    findIn k (es.filter fun e => !decide (e.1 = k)) = none := by
  induction es with
  | nil => rfl
  | cons e es ih =>
    obtain ⟨l, w⟩ := e
    by_cases hl : l = k <;> simp [findIn, hl, ih]

theorem findIn_filter_of_ne {k k' : κ} (h : k' ≠ k) (es : List (κ × ν)) :
    findIn k (es.filter fun e => !decide (e.1 = k')) = findIn k es := by
  induction es with
  | nil => rfl
  | cons e es ih =>
    obtain ⟨l, w⟩ := e
    by_cases hl : l = k'
    · subst hl; simp [findIn, h, ih]
    · simp [findIn, hl, ih]

@[simp] theorem find?_empty (k : κ) : (empty : OrderedMap κ ν).find? k = none := rfl

@[simp] theorem find?_insert_self (m : OrderedMap κ ν) (k : κ) (v : ν) :
    (m.insert k v).find? k = some v := findIn_insertInto_self k v m.entries

theorem find?_insert_of_ne (m : OrderedMap κ ν) {k k' : κ} (h : k' ≠ k) (v : ν) :
    (m.insert k' v).find? k = m.find? k := findIn_insertInto_of_ne h v m.entries

@[simp] theorem find?_erase_self (m : OrderedMap κ ν) (k : κ) : (m.erase k).find? k = none :=
  findIn_filter_self k m.entries

theorem find?_erase_of_ne (m : OrderedMap κ ν) {k k' : κ} (h : k' ≠ k) :
    (m.erase k').find? k = m.find? k := findIn_filter_of_ne h m.entries

end OrderedMap

end ContentAssist
