import ContentAssist.Record.Basic

/-! # Prototype chains

The chain from a name is the record of that name, the record that its prototype link names, and so
on. It ends at a record without link, at a link that names no record, or where a record would come a
second time. A table of `n` records has no chain longer than `n`, so `n` steps are enough. -/

namespace ContentAssist.Table

/-- The record that a type stands for. -/
def findType? (t : Table) (type : Ty) : Option Record := t.find? type.key

/-- The chain from `name`, without the records in `seen` and at most `fuel` records long. -/
def chainFrom (t : Table) : Nat → List String → String → List (String × Record)
  | 0, _, _ => []
  | fuel + 1, seen, name =>
    if name ∈ seen then []
    else
      match t.find? name with
      | none => []
      | some r =>
        (name, r) ::
          match r.proto with
          | none => []
          | some p => chainFrom t fuel (name :: seen) p.type.key

/-- The records along the prototype chain from `name`, each with its name. -/
def chain (t : Table) (name : String) : List (String × Record) := t.chainFrom t.size [] name

/-- What a record says about a name: `prototype` stands for the prototype link. -/
def answer? (r : Record) (name : Name) : Option Definition :=
  if name = some "prototype" then r.proto else r.member? name

/-- The first definition of a name along the chain from `start`. -/
def resolve? (t : Table) (start : String) (name : Name) : Option Definition :=
  (t.chain start).findSome? fun r => answer? r.2 name

/-- Applies `f` to the record `name` unless it is builtin. -/
def edit (t : Table) (name : String) (f : Record → Record) : Table :=
  t.modify name fun r => if r.builtin then r else f r

/-- The table with the records of `others` whose names are new. -/
def addMissing (t others : Table) : Table :=
  others.entries.foldl (fun t e => if t.contains e.1 then t else t.insert e.1 e.2) t

/-! ### Names that were not met -/

/-- The number of keys of a table that are not in `seen`. -/
def unseen (t : Table) (seen : List String) : Nat := t.keys.countP (· ∉ seen)

theorem unseen_le_size (t : Table) (seen : List String) : t.unseen seen ≤ t.size := by
  have h : t.keys.length = t.size := List.length_map _
  exact h ▸ List.countP_le_length

theorem unseen_le_unseen (t : Table) {seen seen' : List String} (hsub : seen ⊆ seen') :
    t.unseen seen' ≤ t.unseen seen := by
  refine List.countP_mono_left fun k _ hk => ?_
  simp only [decide_eq_true_eq] at hk ⊢
  exact fun hk' => hk (hsub hk')

/-- Whoever meets a new key leaves fewer keys that are not met. -/
theorem unseen_cons_lt (t : Table) {seen : List String} {name : String} {r : Record}
    (hseen : name ∉ seen) (hr : t.find? name = some r) : t.unseen (name :: seen) < t.unseen seen := by
  obtain ⟨before, after, hkeys⟩ := List.append_of_mem (t.mem_keys_of_find? hr)
  have hmono : ∀ k, decide (k ∉ name :: seen) = true → decide (k ∉ seen) = true := by
    intro k hk
    simp only [decide_eq_true_eq, List.mem_cons, not_or] at hk ⊢
    exact hk.2
  have hbefore := List.countP_mono_left (l := before) fun k _ => hmono k
  have hafter := List.countP_mono_left (l := after) fun k _ => hmono k
  unfold unseen
  rw [hkeys, List.countP_append, List.countP_append, List.countP_cons_of_neg (by simp),
    List.countP_cons_of_pos (by simpa using hseen)]
  omega

/-! ### Records on a chain -/

/-- Every record of a chain is the record of its name. -/
theorem find?_of_mem_chainFrom {t : Table} {fuel : Nat} {seen : List String} {name : String}
    {e : String × Record} (h : e ∈ t.chainFrom fuel seen name) : t.find? e.1 = some e.2 := by
  induction fuel generalizing seen name with
  | zero => simp [chainFrom] at h
  | succ fuel ih =>
    unfold chainFrom at h
    split at h
    · simp at h
    · split at h
      · simp at h
      · rename_i r hr
        rcases List.mem_cons.1 h with rfl | h
        · exact hr
        · split at h
          · simp at h
          · exact ih h

/-- A chain is no longer than its fuel. -/
theorem length_chainFrom_le (t : Table) (fuel : Nat) (seen : List String) (name : String) :
    (t.chainFrom fuel seen name).length ≤ fuel := by
  induction fuel generalizing seen name with
  | zero => simp [chainFrom]
  | succ fuel ih =>
    unfold chainFrom
    split
    · simp
    · split
      · simp
      · split
        · simp
        · simpa using ih _ _

/-- A chain has at most as many records as the table. -/
theorem length_chain_le (t : Table) (name : String) : (t.chain name).length ≤ t.size :=
  t.length_chainFrom_le _ _ _

end ContentAssist.Table
