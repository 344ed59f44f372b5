import ContentAssist.Buffer.Parser

/-! # The placeholder

A member access that ends in a dot is no complete expression. It is parsed with a placeholder behind
the dot; afterwards the property that is the placeholder is taken out of the tree, and all positions
are moved back to where they are without it. -/

namespace ContentAssist

/-- The name that is put behind a dangling dot. -/
def placeholder : String := "__jsassist_hole__"

/-- The number of characters of the placeholder. -/
def placeholderLength : Int := placeholder.length

/-- The last dot among the tokens that end at or before `limit`, with its span. Tokens behind the
first one that ends later, or at an unknown place, do not count. -/
def danglingDot? (tokens : List Token) (limit : Int) : Option (Token × Span) :=
  let ended (t : Token) : Option (Token × Span) :=
    (t.span.filter fun s => s.stop ≤ limit).map fun s => (t, s)
  let known := (tokens.takeWhile fun t => (ended t).isSome).filterMap ended
  (known.filter fun t => t.1.isPunctuator ".").getLast?

/-- The text with the placeholder at an offset and closing brackets at the end. -/
def plugged (source : String) (offset : Int) (closers : String) : String :=
  let chars := source.toList
  String.ofList (chars.take offset.toNat ++ placeholder.toList ++ chars.drop offset.toNat)
    ++ closers

/-! ### Taking the placeholder out -/

/-- Whether the fields are those of a member access whose property is the placeholder at an
offset. -/
def isPlugged (offset : Int) (fields : List (String × Json)) : Bool :=
  let property := (Json.obj fields).get "property"
  ((Json.obj fields).get "type").str? = some "MemberExpression" &&
    (property.get "name").str? = some placeholder &&
    ((property.get "range").items.head?.bind (·.int?)) = some offset

/-- The fields that hold positions and no nodes. -/
def positionFields : List String := ["range", "loc"]

mutual

/-- The tree with the first such property set to `null`; `none` if there is none. -/
def unplug? (offset : Int) : Json → Option Json
  | .arr items => (unplugItems? offset items).map .arr
  | .obj fields =>
    if isPlugged offset fields then some (.obj (Json.setIn "property" .null fields))
    else (unplugFields? offset fields).map .obj
  | _ => none

/-- The items with the first such property set to `null`. -/
def unplugItems? (offset : Int) : List Json → Option (List Json)
  | [] => none
  | v :: rest =>
    match unplug? offset v with
    | some v => some (v :: rest)
    | none => (unplugItems? offset rest).map (v :: ·)

/-- The fields with the first such property set to `null`. -/
def unplugFields? (offset : Int) : List (String × Json) → Option (List (String × Json))
  | [] => none
  | (key, v) :: rest =>
    match if key ∈ positionFields then none else unplug? offset v with
    | some v => some ((key, v) :: rest)
    | none => (unplugFields? offset rest).map ((key, v) :: ·)

end

/-! ### Moving positions back -/

/-- Where an offset is once `length` characters from `at` on are taken out. -/
def movedBack (place length value : Int) : Int :=
  if place + length ≤ value then value - length else if place < value then place else value

/-- What is taken out: so many characters from an offset on, which is a line and column as well if
they are known. -/
structure Removal where
  offset : Int
  length : Int
  line : Option Int
  column : Option Int

/-- Moves an offset back. -/
def Removal.moveOffset (r : Removal) : Json → Json
  | .int n => .int (movedBack r.offset r.length n)
  | v => v

/-- Moves a pair of offsets back. -/
def Removal.moveRange (r : Removal) : Json → Json
  | .arr [a, b] => .arr [r.moveOffset a, r.moveOffset b]
  | v => v

/-- Moves a line and column back, if it is in the line of the removal. -/
def Removal.movePosition (r : Removal) (v : Json) : Json :=
  match r.line, r.column, (v.get "line").int?, (v.get "column").int? with
  | some line, some column, some l, some c =>
    if l = line then v.set "column" (.int (movedBack column r.length c)) else v
  | _, _, _, _ => v

/-- Moves the ends of a location back. -/
def Removal.moveLocation (r : Removal) : Json → Json
  | .obj fields =>
    .obj (fields.map fun f =>
      if f.1 = "start" ∨ f.1 = "end" then (f.1, r.movePosition f.2) else f)
  | v => v

mutual

/-- Moves all positions in a tree back. -/
def Removal.move (r : Removal) : Json → Json
  | .arr items => .arr (r.moveItems items)
  | .obj fields => .obj (r.moveFields fields)
  | v => v

/-- Moves all positions in items back. -/
def Removal.moveItems (r : Removal) : List Json → List Json
  | [] => []
  | v :: rest => r.move v :: r.moveItems rest

/-- Moves all positions in fields back. -/
def Removal.moveFields (r : Removal) : List (String × Json) → List (String × Json)
  | [] => []
  | (key, v) :: rest =>
    (key,
      if key = "range" then r.moveRange v
      else if key = "loc" then r.moveLocation v
      else r.move v) :: r.moveFields rest

end

end ContentAssist
