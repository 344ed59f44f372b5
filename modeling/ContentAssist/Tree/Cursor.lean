import ContentAssist.Record.Basic

/-! # Cursor and spans

Where an offset lies relative to a span. An analysis may have no cursor, and a node may have no
span. -/

namespace ContentAssist

/-- The offset of the cursor, if there is one. -/
abbrev Cursor := Option Int

namespace Cursor

/-- Whether the cursor is in the span, its ends included. -/
def isIn : Cursor → Option Span → Bool
  | some offset, some s => s.start ≤ offset && offset ≤ s.stop
  | _, _ => false

/-- Whether the cursor is before the span; every cursor is before an unknown span. -/
def isBefore : Cursor → Option Span → Bool
  | none, _ => false
  | some _, none => true
  | some offset, some s => offset < s.start

/-- Whether the cursor is behind the span; a missing cursor is behind all, and every cursor is
behind an unknown span. -/
def isAfter : Cursor → Option Span → Bool
  | some offset, some s => s.stop < offset
  | _, _ => true

end Cursor

end ContentAssist
