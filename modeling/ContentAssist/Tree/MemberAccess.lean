import ContentAssist.Tree.Cursor
import ContentAssist.Tree.Node

/-! # Member accesses

Where the dot of a member access stands, whether the cursor is behind it, and which identifier a
dotted expression ends in. -/

namespace ContentAssist

/-- The character at an offset of a text. A negative offset counts from the end, where the last
character itself is out of reach. -/
def charAt? (source : List Char) (offset : Int) : Option Char :=
  if 0 ≤ offset then source[offset.toNat]?
  else if offset = -1 ∨ offset + source.length < 0 then none
  else source[(offset + source.length).toNat]?

/-- The first dot at or behind `offset`, tried at no more than `fuel + 1` offsets. -/
def dotFrom? (source : List Char) : Nat → Int → Option Int
  | 0, offset => if charAt? source offset = some '.' then some offset else none
  | fuel + 1, offset =>
    if charAt? source offset = some '.' then some offset else dotFrom? source fuel (offset + 1)

/-- The first dot from `start` up to `stop`; the offset `start` is tried in any case. -/
def dotBetween? (source : List Char) (start stop : Int) : Option Int :=
  dotFrom? source (min stop source.length - start).toNat start

/-- Whether the cursor is behind the dot of a member access and not behind the start of its
property. -/
def afterDot (cursor : Cursor) (member : Node) (source : String) : Bool :=
  match cursor, (member.get "object").span?, member.span? with
  | some offset, some object, some whole =>
    let limit :=
      match (member.get "property").span? with
      | some property => property.start
      | none => whole.stop + 1
    if !cursor.isIn (some whole) || cursor.isIn (some object) || limit < offset then false
    else
      match dotBetween? source.toList object.stop limit with
      | some dot => dot < offset
      | none => false
  | _, _, _ => false

/-- The identifier that a dotted expression ends in. -/
def Node.rightMost? (n : Node) : Option Node :=
  match _h : n.kind with
  | .identifier => some n
  | .memberExpression => (n.get "property").rightMost?
  | _ => none
termination_by sizeOf n.value
decreasing_by exact Node.sizeOf_get_lt (by simp [_h]) _

end ContentAssist
