import ContentAssist.Proofs.Record.Resolution

/-! # Access paths

An access path is a sequence of steps from a type to the type of one of its members, or to its
result. In two environments whose tables agree on all that the path can meet, it leads to the same
types.

* `follow?`: where a path leads, `origin?`: the definition behind a member;
* `rel_origin?`, `rel_follow?`: one member, and a whole path, in environments that agree. -/

namespace ContentAssist

/-- One step of an access path: to a member of a type, or to the result of a function type. -/
inductive Access where
  | member (name : Name)
  | result
  deriving DecidableEq, Repr

namespace Environment

/-- The type that one step leads to. -/
def access? (env : Environment) (type : Ty) : Access → Option Ty
  | .member name => env.lookup? name (some type)
  | .result => some type.result

/-- The type that an access path leads to. -/
def follow? (env : Environment) : Ty → List Access → Option Ty
  | type, [] => some type
  | type, step :: path => (env.access? type step).bind (env.follow? · path)

/-- The definition of a member of a type, with the record that it is in. -/
def origin? (env : Environment) (type : Ty) (name : Name) : Option (String × Definition) :=
  env.types.resolution? (env.scope (some type)) name

theorem lookup?_eq_map_origin? (env : Environment) (name : Name) (type : Ty) :
    env.lookup? name (some type) = (env.origin? type name).map fun x => x.2.type :=
  env.lookup?_eq_map_resolution? _ _

theorem lookup?_of_answer? {env : Environment} {n : String} {r : Record} {name : Name}
    {d : Definition} (hr : env.types.find? n = some r) (hd : Table.answer? r name = some d) :
    env.lookup? name (some (.named n)) = some d.type := by
  have horigin : env.origin? (.named n) name = some (n, d) := Table.resolution?_of_answer? hr hd
  rw [lookup?_eq_map_origin?, horigin]
  rfl

open Table (Agree Paired Found)

section Agreement
variable {env env' : Environment} {R : String → Prop}
  {E : String → Definition → Definition → Prop} {P : String → String → Prop}

/-- Types from which paths lead to the same types: one type that leads to records on which the tables
agree, or two names with paired records. -/
inductive Alike (R : String → Prop) (P : String → String → Prop) : Ty → Ty → Prop
  | same {type : Ty} (h : ∀ m ∈ type.references, R m) : Alike R P type type
  | pair {n n' : String} (h : P n n') : Alike R P (.named n) (.named n')

/-- How the definitions behind a member of alike types are related. -/
structure SameOrigin (R : String → Prop) (E : String → Definition → Definition → Prop)
    (P : String → String → Prop) (x x' : String × Definition) : Prop where
  alike : E x.1 x.2 x'.2
  owner : x'.1 = x.1 ∨ P x.1 x'.1
  references : ∀ m ∈ x.2.type.references, R m

theorem sameOrigin_of_found {n n' : String} {x x' : String × Definition}
    (h : Found R E n n' x x') (hn : n = n' ∨ P n n') : SameOrigin R E P x x' := by
  refine ⟨h.alike, ?_, h.references⟩
  rcases h.owner with ho | ⟨rfl, ho⟩
  · exact Or.inl ho
  · rcases hn with hn | hn
    · exact Or.inl (ho.trans hn.symm)
    · exact Or.inr (ho ▸ hn)

theorem rel_map {α β : Type} {F G : α → β → Prop} {x : Option α} {y : Option β}
    (h : Option.Rel F x y) (hFG : ∀ a b, F a b → G a b) : Option.Rel G x y := by
  cases h with
  | some h => exact .some (hFG _ _ h)
  | none => exact .none

variable (ha : Agree env.types env'.types R E) (hfunction : R "Function")
  (hp : ∀ n n', P n n' → ∃ r r', Paired env.types env'.types R (E n) n n' r r')
include ha hfunction

theorem scope_eq_of_agree {type : Ty} (h : ∀ m ∈ type.references, R m) :
    env'.scope (some type) = env.scope (some type) ∧ R (env.scope (some type)) := by
  cases type with
  | named name => exact ⟨rfl, h name (List.mem_singleton_self _)⟩
  | function r params =>
    have hkey : R (Ty.constructorKey r) := h _ List.mem_cons_self
    have hiff := Table.eq_none_iff_of_rel (ha.records _ hkey)
    unfold scope OrderedMap.contains
    dsimp only
    cases hr : env.types.find? (Ty.constructorKey r) with
    | none =>
      rw [hiff.1 hr]
      exact ⟨rfl, hfunction⟩
    | some q =>
      cases hr' : env'.types.find? (Ty.constructorKey r) with
      | none =>
        rw [hiff.2 hr'] at hr
        cases hr
      | some q' => exact ⟨rfl, hkey⟩

include hp

/-- **One member** of alike types has alike definitions. -/
theorem rel_origin? {type type' : Ty} (h : Alike R P type type') (name : Name) :
    Option.Rel (SameOrigin R E P) (env.origin? type name) (env'.origin? type' name) := by
  unfold origin?
  cases h with
  | same h =>
    obtain ⟨heq, hR⟩ := scope_eq_of_agree ha hfunction h
    rw [heq]
    exact rel_map (ha.rel_resolution? hR name) fun _ _ hf => sameOrigin_of_found hf (Or.inl rfl)
  | pair h =>
    obtain ⟨r, r', hpair⟩ := hp _ _ h
    exact rel_map (Table.rel_resolution? ha hpair name) fun _ _ hf =>
      sameOrigin_of_found hf (Or.inr h)

theorem rel_access? {type type' : Ty} (h : Alike R P type type') (step : Access) :
    Option.Rel (Alike R P) (env.access? type step) (env'.access? type' step) := by
  cases step with
  | member name =>
    unfold access?
    dsimp only
    rw [lookup?_eq_map_origin?, lookup?_eq_map_origin?]
    have horigin := rel_origin? ha hfunction hp h name
    cases hx : env.origin? type name with
    | none =>
      rw [(Table.eq_none_iff_of_rel horigin).1 hx]
      exact .none
    | some x =>
      obtain ⟨x', hx', hsame⟩ := Table.exists_of_rel_some horigin hx
      rw [hx', Option.map_some, Option.map_some, ha.type _ _ _ hsame.alike]
      exact .some (.same hsame.references)
  | result =>
    refine .some ?_
    cases h with
    | @same type h =>
      cases type with
      | named name => exact .same h
      | function r params =>
        exact .same fun m hm => h m (List.mem_cons_of_mem _ (List.mem_cons_of_mem _ hm))
    | pair h => exact .pair h

/-- **A path** from alike types leads to alike types. -/
theorem rel_follow? {type type' : Ty} (h : Alike R P type type') (path : List Access) :
    Option.Rel (Alike R P) (env.follow? type path) (env'.follow? type' path) := by
  induction path generalizing type type' with
  | nil => exact .some h
  | cons step path ih =>
    unfold follow?
    have hstep := rel_access? ha hfunction hp h step
    cases hx : env.access? type step with
    | none =>
      rw [(Table.eq_none_iff_of_rel hstep).1 hx]
      exact .none
    | some t =>
      obtain ⟨t', ht', halike⟩ := Table.exists_of_rel_some hstep hx
      rw [ht']
      exact ih halike

end Agreement

end Environment

end ContentAssist
