import ContentAssist.Proofs.Record.Lookup

/-! # Resolving a name along a chain

`Resolves` says without fuel and without a list of records met which definition of a name is the
first on the chain from a record, and whose it is. The chain is long enough to find it and stops soon
enough not to run in a circle: a record that came a second time would resolve the name in fewer steps
than itself.

* `Ty.references`, `Record.references`: the names that a type and a record refer to;
* `resolution?_eq_some_iff`: what is found along the chain is what the name resolves to;
* `Paired`, `resolves_of_paired`, `resolves_of_paired'`: tables that agree on what can be met from
  two records resolve all names from them alike;
* `rel_resolution?`: so what is found is alike. -/

namespace ContentAssist

/-- The names that a type refers to: for each of its function levels the records of the constructor and
of its prototype object, and its leaf. -/
def Ty.references : Ty → List String
  | named name => [name]
  | function result _ =>
    constructorKey result :: protoKey (constructorKey result) :: result.references

/-- The names that the types of a record's definitions refer to. -/
def Record.references (r : Record) : List String := r.definitions.flatMap (·.type.references)

end ContentAssist

namespace ContentAssist.Table

variable {t t' : Table} {name : Name} {n n' o o' : String} {d d' : Definition} {h h' : Nat}

/-! ### What a name resolves to -/

/-- The name resolves from `n`, in `h` steps up, to the definition `d` of the record `o`. -/
inductive Resolves (t : Table) (name : Name) : Nat → String → String → Definition → Prop
  | here {n : String} {r : Record} {d : Definition} (hr : t.find? n = some r)
      (hd : answer? r name = some d) : Resolves t name 0 n n d
  | up {h : Nat} {n o : String} {r : Record} {p d : Definition} (hr : t.find? n = some r)
      (hnone : answer? r name = none) (hp : r.proto = some p)
      (hd : Resolves t name h p.type.key o d) : Resolves t name (h + 1) n o d

/-- The first definition of a name along the chain from `start`, with the record that it is in. -/
def resolution? (t : Table) (start : String) (name : Name) : Option (String × Definition) :=
  (t.chain start).findSome? fun e => (answer? e.2 name).map fun d => (e.1, d)

theorem resolve?_eq_map_resolution? (t : Table) (start : String) (name : Name) :
    t.resolve? start name = (t.resolution? start name).map (·.2) := by
  unfold resolve? resolution?
  induction t.chain start with
  | nil => rfl
  | cons e es ih =>
    rw [List.findSome?_cons, List.findSome?_cons]
    cases answer? e.2 name with
    | none => exact ih
    | some d => rfl

theorem Resolves.unique (hd : Resolves t name h n o d) (hd' : Resolves t name h' n o' d') :
    h = h' ∧ o = o' ∧ d = d' := by
  induction hd generalizing h' with
  | here hr hd =>
    cases hd' with
    | here hr' hd' =>
      cases hr.symm.trans hr'
      exact ⟨rfl, rfl, Option.some.inj (hd.symm.trans hd')⟩
    | up hr' hnone hp hd' =>
      cases hr.symm.trans hr'
      cases hd.symm.trans hnone
  | up hr hnone hp hd ih =>
    cases hd' with
    | here hr' hd' =>
      cases hr.symm.trans hr'
      cases hnone.symm.trans hd'
    | up hr' hnone' hp' hd' =>
      cases hr.symm.trans hr'
      cases hp.symm.trans hp'
      obtain ⟨rfl, rfl, rfl⟩ := ih hd'
      exact ⟨rfl, rfl, rfl⟩

/-! ### Chains -/

/-- What is found along the records from `n` that are not in `seen`, at most `fuel` of them. -/
def resolutionFrom? (t : Table) (fuel : Nat) (seen : List String) (n : String) (name : Name) :
    Option (String × Definition) :=
  (t.chainFrom fuel seen n).findSome? fun e => (answer? e.2 name).map fun d => (e.1, d)

theorem resolutionFrom?_succ {r : Record} {seen : List String} (fuel : Nat) (hseen : n ∉ seen)
    (hr : t.find? n = some r) : t.resolutionFrom? (fuel + 1) seen n name =
      match answer? r name with
      | some d => some (n, d)
      | none => r.proto.bind fun p => t.resolutionFrom? fuel (n :: seen) p.type.key name := by
  unfold resolutionFrom?
  rw [chainFrom, if_neg hseen, hr, List.findSome?_cons]
  cases answer? r name with
  | some d => rfl
  | none =>
    cases r.proto with
    | none => rfl
    | some p => rfl

theorem exists_resolves_of_resolutionFrom? {fuel : Nat} {seen : List String}
    (hd : t.resolutionFrom? fuel seen n name = some (o, d)) : ∃ h, Resolves t name h n o d := by
  induction fuel generalizing seen n with
  | zero => simp [resolutionFrom?, chainFrom] at hd
  | succ fuel ih =>
    by_cases hseen : n ∈ seen
    · simp [resolutionFrom?, chainFrom, hseen] at hd
    · cases hr : t.find? n with
      | none => simp [resolutionFrom?, chainFrom, hseen, hr] at hd
      | some r =>
        rw [resolutionFrom?_succ fuel hseen hr] at hd
        cases ha : answer? r name with
        | some d' =>
          rw [ha] at hd
          cases hd
          exact ⟨0, .here hr ha⟩
        | none =>
          rw [ha] at hd
          obtain ⟨p, hp, hd⟩ := Option.bind_eq_some_iff.1 hd
          obtain ⟨h, hres⟩ := ih hd
          exact ⟨h + 1, .up hr ha hp hres⟩

/-- A chain with enough fuel finds what the name resolves to, unless a record seen before resolves it
in no more steps. -/
theorem Resolves.resolutionFrom? (hd : Resolves t name h n o d) {fuel : Nat} {seen : List String}
    (hfuel : t.unseen seen ≤ fuel)
    (hseen : ∀ m ∈ seen, ∀ k ≤ h, ∀ o d, ¬ Resolves t name k m o d) :
    t.resolutionFrom? fuel seen n name = some (o, d) := by
  induction hd generalizing fuel seen with
  | @here n r d hr hd =>
    have hn : n ∉ seen := fun hn => hseen n hn 0 (Nat.le_refl _) _ _ (.here hr hd)
    have hlt := t.unseen_cons_lt hn hr
    obtain ⟨fuel, rfl⟩ : ∃ f, fuel = f + 1 := ⟨fuel - 1, by omega⟩
    rw [resolutionFrom?_succ fuel hn hr, hd]
  | @up h n o r p d hr hnone hp hd ih =>
    have hup : Resolves t name (h + 1) n o d := .up hr hnone hp hd
    have hn : n ∉ seen := fun hn => hseen n hn (h + 1) (Nat.le_refl _) _ _ hup
    have hlt := t.unseen_cons_lt hn hr
    obtain ⟨fuel, rfl⟩ : ∃ f, fuel = f + 1 := ⟨fuel - 1, by omega⟩
    rw [resolutionFrom?_succ fuel hn hr, hnone, hp]
    refine ih (by omega) fun m hm k hk o' d' hm' => ?_
    rcases List.mem_cons.1 hm with rfl | hm
    · have := (hup.unique hm').1
      omega
    · exact hseen m hm k (by omega) _ _ hm'

/-- **Resolution**: what is found along the whole chain is what the name resolves to. -/
theorem resolution?_eq_some_iff :
    t.resolution? n name = some (o, d) ↔ ∃ h, Resolves t name h n o d := by
  constructor
  · exact exists_resolves_of_resolutionFrom?
  · rintro ⟨h, hd⟩
    exact hd.resolutionFrom? (t.unseen_le_size []) (by simp)

theorem resolution?_of_answer? {r : Record} (hr : t.find? n = some r) (hd : answer? r name = some d) :
    t.resolution? n name = some (n, d) :=
  resolution?_eq_some_iff.2 ⟨0, .here hr hd⟩

/-! ### Tables that agree -/

/-- Two records that answer alike. -/
def Matches (E : Definition → Definition → Prop) (r r' : Record) : Prop :=
  ∀ name, Option.Rel E (answer? r name) (answer? r' name)

/-- Two tables that agree on the records named in `R`, which refer to such records only. How their
definitions are related may depend on the record. -/
structure Agree (t t' : Table) (R : String → Prop) (E : String → Definition → Definition → Prop) :
    Prop where
  records : ∀ n, R n → Option.Rel (Matches (E n)) (t.find? n) (t'.find? n)
  closed : ∀ n r, R n → t.find? n = some r → ∀ m ∈ r.references, R m
  type : ∀ n d d', E n d d' → d'.type = d.type

/-- A record of each of two tables that answer alike and refer to records on which the tables agree.
-/
structure Paired (t t' : Table) (R : String → Prop) (E : Definition → Definition → Prop)
    (n n' : String) (r r' : Record) : Prop where
  left : t.find? n = some r
  right : t'.find? n' = some r'
  alike : Matches E r r'
  closed : ∀ m ∈ r.references, R m

variable {R : String → Prop} {E : String → Definition → Definition → Prop} {r r' : Record}

theorem key_mem_references (type : Ty) : type.key ∈ type.references := by
  cases type with
  | named name => exact List.mem_singleton_self _
  | function r params => exact List.mem_cons_self

theorem mem_references_of_definition {m : String} (hd : d ∈ r.definitions)
    (hm : m ∈ d.type.references) : m ∈ r.references := List.mem_flatMap.2 ⟨d, hd, hm⟩

theorem key_mem_references_of_proto {p : Definition} (hp : r.proto = some p) :
    p.type.key ∈ r.references :=
  mem_references_of_definition (List.mem_append_right _ (by simp [hp])) (key_mem_references _)

theorem Matches.proto {E : Definition → Definition → Prop} (hm : Matches E r r') :
    Option.Rel E r.proto r'.proto := hm (some "prototype")

theorem eq_none_iff_of_rel {α β : Type} {E : α → β → Prop} {x : Option α} {y : Option β}
    (h : Option.Rel E x y) : x = none ↔ y = none := by
  cases h with
  | some h => simp
  | none => simp

theorem exists_of_rel_some {α β : Type} {E : α → β → Prop} {x : Option α} {y : Option β} {a : α}
    (h : Option.Rel E x y) (hx : x = some a) : ∃ b, y = some b ∧ E a b := by
  cases h with
  | some h => exact ⟨_, rfl, Option.some.inj hx ▸ h⟩
  | none => cases hx

theorem exists_of_rel_some' {α β : Type} {E : α → β → Prop} {x : Option α} {y : Option β} {b : β}
    (h : Option.Rel E x y) (hy : y = some b) : ∃ a, x = some a ∧ E a b := by
  cases h with
  | some h => exact ⟨_, rfl, Option.some.inj hy ▸ h⟩
  | none => cases hy

theorem Agree.paired (ha : Agree t t' R E) (hn : R n) (hr : t.find? n = some r) :
    ∃ r', Paired t t' R (E n) n n r r' := by
  obtain ⟨r', hr', hm⟩ := exists_of_rel_some (ha.records n hn) hr
  exact ⟨r', hr, hr', hm, ha.closed n r hn hr⟩

theorem Agree.paired' (ha : Agree t t' R E) (hn : R n) (hr' : t'.find? n = some r') :
    ∃ r, Paired t t' R (E n) n n r r' := by
  obtain ⟨r, hr, hm⟩ := exists_of_rel_some' (ha.records n hn) hr'
  exact ⟨r, hr, hr', hm, ha.closed n r hn hr⟩

theorem Resolves.exists_find? (hd : Resolves t name h n o d) : ∃ r, t.find? n = some r := by
  cases hd with
  | here hr hd => exact ⟨_, hr⟩
  | up hr hnone hp hd => exact ⟨_, hr⟩

/-- How what is found from `n` in one table is related to what is found from `n'` in the other one:
it is in the two records themselves, or in records of one name, and its type leads to records on
which the tables agree. -/
structure Found (R : String → Prop) (E : String → Definition → Definition → Prop) (n n' : String)
    (x x' : String × Definition) : Prop where
  alike : E x.1 x.2 x'.2
  owner : x'.1 = x.1 ∨ x.1 = n ∧ x'.1 = n'
  references : ∀ m ∈ x.2.type.references, R m

theorem Found.of_same {x x' : String × Definition} {m : String} (h : Found R E m m x x') :
    Found R E n n' x x' :=
  ⟨h.alike, h.owner.elim Or.inl fun ho => Or.inl (ho.2.trans ho.1.symm), h.references⟩

theorem Paired.found (hp : Paired t t' R (E n) n n' r r') (hd : answer? r name = some d) :
    ∃ d', answer? r' name = some d' ∧ Found R E n n' (n, d) (n', d') := by
  obtain ⟨d', hd', hE⟩ := exists_of_rel_some (hp.alike name) hd
  exact ⟨d', hd', hE, Or.inr ⟨rfl, rfl⟩, fun m hm =>
    hp.closed m (mem_references_of_definition (Record.mem_definitions_of_answer? hd) hm)⟩

theorem Paired.found' (hp : Paired t t' R (E n) n n' r r') (hd' : answer? r' name = some d') :
    ∃ d, answer? r name = some d ∧ Found R E n n' (n, d) (n', d') := by
  obtain ⟨d, hd, -⟩ := exists_of_rel_some' (hp.alike name) hd'
  obtain ⟨e', he', hfound⟩ := hp.found hd
  cases he'.symm.trans hd'
  exact ⟨d, hd, hfound⟩

/-- What a name resolves to from one of two paired records, it resolves to from the other one. -/
theorem resolves_of_paired (ha : Agree t t' R E) (hp : Paired t t' R (E n) n n' r r')
    (hd : Resolves t name h n o d) :
    ∃ o' d', Resolves t' name h n' o' d' ∧ Found R E n n' (o, d) (o', d') := by
  induction hd generalizing n' r r' with
  | @here n s d hs hd =>
    cases hp.left.symm.trans hs
    obtain ⟨d', hd', hfound⟩ := hp.found hd
    exact ⟨n', d', .here hp.right hd', hfound⟩
  | @up k n o s p d hs hnone hproto hd ih =>
    cases hp.left.symm.trans hs
    obtain ⟨p', hproto', hE⟩ := exists_of_rel_some hp.alike.proto hproto
    obtain ⟨q, hq⟩ := hd.exists_find?
    obtain ⟨q', hq'⟩ := ha.paired (hp.closed _ (key_mem_references_of_proto hproto)) hq
    obtain ⟨o', d', hd', hfound⟩ := ih hq'
    rw [← ha.type _ _ _ hE] at hd'
    exact ⟨o', d', .up hp.right ((eq_none_iff_of_rel (hp.alike name)).1 hnone) hproto' hd',
      hfound.of_same⟩

theorem resolves_of_paired' (ha : Agree t t' R E) (hp : Paired t t' R (E n) n n' r r')
    (hd : Resolves t' name h n' o' d') :
    ∃ o d, Resolves t name h n o d ∧ Found R E n n' (o, d) (o', d') := by
  induction hd generalizing n r r' with
  | @here n' s d' hs hd =>
    cases hp.right.symm.trans hs
    obtain ⟨d, hd', hfound⟩ := hp.found' hd
    exact ⟨n, d, .here hp.left hd', hfound⟩
  | @up k n' o' s p' d' hs hnone hproto hd ih =>
    cases hp.right.symm.trans hs
    obtain ⟨p, hproto', hE⟩ := exists_of_rel_some' hp.alike.proto hproto
    rw [ha.type _ _ _ hE] at hd ih
    obtain ⟨q', hq'⟩ := hd.exists_find?
    obtain ⟨q, hq⟩ := ha.paired' (hp.closed _ (key_mem_references_of_proto hproto')) hq'
    obtain ⟨o, d, hd', hfound⟩ := ih hq
    exact ⟨o, d, .up hp.left ((eq_none_iff_of_rel (hp.alike name)).2 hnone) hproto' hd',
      hfound.of_same⟩

/-- **Tables that agree** find alike from two paired records. -/
theorem rel_resolution? (ha : Agree t t' R E) (hp : Paired t t' R (E n) n n' r r') (name : Name) :
    Option.Rel (Found R E n n') (t.resolution? n name) (t'.resolution? n' name) := by
  cases hx : t.resolution? n name with
  | some x =>
    obtain ⟨h, hd⟩ := resolution?_eq_some_iff.1 hx
    obtain ⟨o', d', hd', hfound⟩ := resolves_of_paired ha hp hd
    rw [resolution?_eq_some_iff.2 ⟨h, hd'⟩]
    exact .some hfound
  | none =>
    cases hx' : t'.resolution? n' name with
    | none => exact .none
    | some x' =>
      obtain ⟨h, hd⟩ := resolution?_eq_some_iff.1 hx'
      obtain ⟨o, d, hd', -⟩ := resolves_of_paired' ha hp hd
      rw [resolution?_eq_some_iff.2 ⟨h, hd'⟩] at hx
      cases hx

theorem resolution?_eq_none (hn : t.find? n = none) : t.resolution? n name = none := by
  cases hx : t.resolution? n name with
  | none => rfl
  | some x =>
    obtain ⟨h, hd⟩ := resolution?_eq_some_iff.1 hx
    obtain ⟨r, hr⟩ := hd.exists_find?
    cases hn.symm.trans hr

theorem Agree.rel_resolution? (ha : Agree t t' R E) (hn : R n) (name : Name) :
    Option.Rel (Found R E n n) (t.resolution? n name) (t'.resolution? n name) := by
  cases hr : t.find? n with
  | some r =>
    obtain ⟨r', hp⟩ := ha.paired hn hr
    exact Table.rel_resolution? ha hp name
  | none =>
    rw [resolution?_eq_none hr,
      resolution?_eq_none ((eq_none_iff_of_rel (ha.records n hn)).1 hr)]
    exact .none

end ContentAssist.Table

namespace ContentAssist.Environment

theorem lookup?_eq_map_resolution? (env : Environment) (name : Name) (target : Option Ty) :
    env.lookup? name target = (env.types.resolution? (env.scope target) name).map (·.2.type) := by
  unfold lookup? lookupDefinition?
  rw [Table.resolve?_eq_map_resolution?, Option.map_map]
  rfl

end ContentAssist.Environment
