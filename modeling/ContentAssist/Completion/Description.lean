import ContentAssist.Record.Basic

/-! # Descriptions of types

How a type is shown to the user. A generated record is shown by its members, one level deep; a
function by its result or, where a signature is wanted, by parameters and result.

The result of a method is shown in full again, so an object whose method returns the object has no
finite description. A description that is nested deeper than there are records never ends, and the
answer is `none`. -/

namespace ContentAssist.Table

/-- The members of a record between braces. -/
def braced (parts : List String) : String := "\x7b " ++ Text.joined ", " parts ++ " \x7d"

/-- The name of a member as it is shown. -/
def shownName (name : Name) : String := name.getD ""

/-- The description of a named type; a generated record shows the types of its members only if
`deep` holds. -/
def describeName (t : Table) (fuel : Nat) (deep : Bool) (name : String) : Option String :=
  if !Ty.isGenerated name then some name
  else
    match t.find? name, deep, fuel with
    | none, _, _ => some (braced [])
    | some r, false, _ =>
      some (braced (r.members.keys.map fun m => shownName m ++ " : \x7b...\x7d"))
    | some _, true, 0 => none
    | some r, true, fuel + 1 =>
      (r.members.entries.mapM fun m =>
        (t.describeName fuel m.2.type.isFunction m.2.type.leaf).map fun d =>
          shownName m.1 ++ " : " ++ d).map braced

/-- The parameters of a function type and of the function types that it results in. -/
def signatureHead : Ty → String
  | .named _ => ""
  | .function r params => "(" ++ Text.joined "," params ++ ") -> " ++ signatureHead r

/-- The description of a type. A function is described by its result or, with `signature`, by its
parameters and result. -/
def describe? (t : Table) (type : Ty) (signature deep : Bool) : Option String :=
  match type with
  | .named name => t.describeName t.size deep name
  | .function _ _ =>
    if signature then (t.describeName t.size false type.leaf).map (signatureHead type ++ ·)
    else t.describeName t.size true type.leaf

end ContentAssist.Table
