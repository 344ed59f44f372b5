import ContentAssist.Catalog
import ContentAssist.Record.Chain

/-! # Reachable records

The search for what an exported value reaches goes depth first. It marks a name before it looks at the
record of that name, and everything marked so far is known to each later part of the search; so it ends
also where records refer to each other in a circle. Of a table only the records that are marked are
handed on; builtin records are known everywhere and are left out. -/

namespace ContentAssist

/-- The names marked by a search that began with those in `old`. -/
structure Marks (old : List String) where
  names : List String
  old_subset : old ⊆ names

namespace Marks

variable {old : List String}

/-- The marks that a search begins with. -/
def start (old : List String) : Marks old := ⟨old, fun _ h => h⟩

/-- The marks of a search that went on from those of another one. -/
def followedBy (s : Marks old) (s' : Marks s.names) : Marks old :=
  ⟨s'.names, fun _ h => s'.old_subset (s.old_subset h)⟩

end Marks

variable {old : List String}

/-- Marks what a type refers to: for each function level the records of the constructor function and of
its prototype object, in the end the leaf. -/
def Ty.mark (mark : Marks old → String → Marks old) (s : Marks old) : Ty → Marks old
  | named name => mark s name
  | function result _ =>
    let key := constructorKey result
    result.mark mark (mark (mark s key) (protoKey key))

/-- Marks what the members of a record and its prototype link refer to. -/
def Record.mark (mark : Marks old → String → Marks old) (s : Marks old) (r : Record) : Marks old :=
  r.definitions.foldl (fun s d => d.type.mark mark s) s

namespace Table

/-- Marks a name and, if it is new, what its record leads to. -/
def markName (t : Table) (old : List String) (name : String) : Marks old :=
  if _h : name ∈ old then .start old
  else
    let entered : Marks old := ⟨name :: old, List.subset_cons_self name old⟩
    match _hr : t.find? name with
    | none => entered
    | some r => entered.followedBy <|
        r.mark (fun s m => s.followedBy (t.markName s.names m)) (.start (name :: old))
termination_by t.unseen old
decreasing_by exact Nat.lt_of_le_of_lt (t.unseen_le_unseen s.old_subset) (t.unseen_cons_lt _h _hr)

/-- Goes on with the search at a name. -/
def mark (t : Table) (s : Marks old) (name : String) : Marks old :=
  s.followedBy (t.markName s.names name)

/-- The names that an exported type leads to. A type that is no function leads to what its record
refers to; its own name counts only if something refers to it. -/
def reachable (t : Table) (type : Ty) : List String :=
  let marks : Marks [] :=
    match type with
    | .function _ _ => type.mark t.mark (.start [])
    | .named name =>
      match t.find? name with
      | some r => r.mark t.mark (.start [])
      | none => .start []
  marks.names

/-- The table as far as it may be handed on: a global script keeps its own globals, and any other
file none. -/
def exportable (t : Table) (kind : SummaryKind) : Table :=
  if kind = .global then Catalog.clearGlobals t else t.erase Catalog.globalName

/-- The records that are not builtin and that an exported type leads to, in the order of the
table. -/
def keepReachable (t : Table) (type : Ty) : Table :=
  let names := t.reachable type
  t.filter fun name r => name ∈ names && !r.builtin

end Table

end ContentAssist
