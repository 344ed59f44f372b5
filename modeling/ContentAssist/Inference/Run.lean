import ContentAssist.Inference.Leave

/-! # Running an inference

An inference starts from an environment with the globals that comments declare and other files
offer, and walks the whole tree. It answers the name of the record whose members are visible at the
cursor; without a cursor that is the global scope. -/

namespace ContentAssist.Inference

/-- The visitor that infers types. -/
def visitor (task : Task) : Visitor State (Except Fault String) := ⟨enter task, leave task⟩

/-- Walks a tree from a given state. -/
def walk (task : Task) (root : Node) (s : State) : Except Fault String × State :=
  match root.visit (visitor task) s with
  | (some a, s) => (a, s)
  | (none, s) => (.error .unresolved, s)

/-- Infers the types of a tree in an environment. Gives the record visible at the cursor and the
state at the end, also where a fault ended the walk. -/
def run (task : Task) (root : Node) (env : Environment) : Except Fault String × State :=
  match addIndexedGlobals task { env := addDeclaredGlobals root env } with
  | (.error fault, s) => (.error fault, s)
  | (.ok (), s) => walk task root s

end ContentAssist.Inference
