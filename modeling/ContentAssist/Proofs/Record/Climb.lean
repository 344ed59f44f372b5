import ContentAssist.Proofs.Record.Resolution
import Mathlib.Data.List.Chain
import Mathlib.Logic.Relation

/-! # Climbing along prototype links

From a record one climbs to the record that its prototype link resolves to, and on from there. A link
may be missing, resolve to nothing, or lead back to a record met before: there the climb ends, and
nowhere else, because it may take as many steps as the table has records.

* `Climbs`, `climbs_chain`: the climb without fuel, and the chain as such a climb;
* `IsClimb`, `isClimb_chain`: what makes a list of records a whole climb, and that the chain is one;
* `mem_chain_iff`: the chain holds the records above its start, all of them and no others;
* `Environment.chain_complete`: so a name is found unless none of these records defines it. -/

namespace ContentAssist

open Relation (ReflTransGen)

namespace Table

variable {t : Table} {start n : String} {r : Record} {seen : List String}
  {es : List (String × Record)}

/-! ### The climb without fuel -/

/-- Climbing from a name, but not to records in `seen`, meets the records of the list. -/
inductive Climbs (t : Table) : List String → String → List (String × Record) → Prop
  | again {seen : List String} {n : String} (hseen : n ∈ seen) : Climbs t seen n []
  | dangling {seen : List String} {n : String} (hr : t.find? n = none) : Climbs t seen n []
  | root {seen : List String} {n : String} {r : Record} (hseen : n ∉ seen)
      (hr : t.find? n = some r) (hp : r.proto = none) : Climbs t seen n [(n, r)]
  | up {seen : List String} {n : String} {r : Record} {p : Definition}
      {es : List (String × Record)} (hseen : n ∉ seen) (hr : t.find? n = some r)
      (hp : r.proto = some p) (h : Climbs t (n :: seen) p.type.key es) : Climbs t seen n ((n, r) :: es)

/-- Fuel for all records that are not in `seen` is enough: each step takes one of them. -/
theorem climbs_chainFrom {fuel : Nat} (hfuel : t.unseen seen ≤ fuel) :
    Climbs t seen n (t.chainFrom fuel seen n) := by
  induction fuel generalizing seen n with
  | zero =>
    rw [chainFrom]
    by_cases hseen : n ∈ seen
    · exact .again hseen
    · cases hr : t.find? n with
      | none => exact .dangling hr
      | some r =>
        have hlt := t.unseen_cons_lt hseen hr
        omega
  | succ fuel ih =>
    rw [chainFrom]
    by_cases hseen : n ∈ seen
    · rw [if_pos hseen]
      exact .again hseen
    · rw [if_neg hseen]
      cases hr : t.find? n with
      | none => exact .dangling hr
      | some r =>
        cases hp : r.proto with
        | none => simpa only [hp] using Climbs.root hseen hr hp
        | some p =>
          have hlt := t.unseen_cons_lt hseen hr
          have hrest : Climbs t (n :: seen) p.type.key _ := ih (by omega)
          simpa only [hp] using Climbs.up hseen hr hp hrest

theorem climbs_chain (t : Table) (start : String) : Climbs t [] start (t.chain start) :=
  climbs_chainFrom (t.unseen_le_size [])

/-! ### Whole climbs -/

/-- The record `e'` is the one that the prototype link of `e` resolves to. -/
def Follows (t : Table) (e e' : String × Record) : Prop :=
  ∃ p, e.2.proto = some p ∧ p.type.key = e'.1 ∧ t.findType? p.type = some e'.2

/-- Why a climb that met the names in `met` goes no further than the record `r`. -/
inductive Stops (t : Table) (met : List String) (r : Record) : Prop
  | root (hp : r.proto = none)
  | dangling {p : Definition} (hp : r.proto = some p) (hr : t.findType? p.type = none)
  | again {p : Definition} (hp : r.proto = some p) (hmet : p.type.key ∈ met)

/-- A whole climb from `start`: it begins with the record of that name, if there is one, goes from
each record to the one that its link resolves to, meets none twice, and ends exactly where there is
a reason to stop. -/
structure IsClimb (t : Table) (start : String) (es : List (String × Record)) : Prop where
  first : es.head? = (t.find? start).map fun r => (start, r)
  linked : es.IsChain t.Follows
  distinct : (es.map (·.1)).Nodup
  ends : ∀ before e after, es = before ++ e :: after →
    (after = [] ↔ t.Stops ((before ++ [e]).map (·.1)) e.2)

theorem Stops.of_subset {met met' : List String} (h : t.Stops met r) (hsub : met ⊆ met') :
    t.Stops met' r := by
  cases h with
  | root hp => exact .root hp
  | dangling hp hr => exact .dangling hp hr
  | again hp hmet => exact .again hp (hsub hmet)

theorem Climbs.head? (h : Climbs t seen n es) (hseen : n ∉ seen) :
    es.head? = (t.find? n).map fun r => (n, r) := by
  cases h with
  | again hmem => exact absurd hmem hseen
  | dangling hr => rw [hr]; rfl
  | root _ hr _ | up _ hr _ _ => rw [hr]; rfl

theorem Climbs.not_mem_seen (h : Climbs t seen n es) : ∀ m ∈ es.map (·.1), m ∉ seen := by
  induction h with
  | again | dangling => simp
  | root hseen => simpa using hseen
  | up hseen _ _ _ ih =>
    intro m hm
    rcases List.mem_cons.1 hm with rfl | hm
    · exact hseen
    · exact fun hmem => ih m hm (List.mem_cons_of_mem _ hmem)

theorem Climbs.nodup (h : Climbs t seen n es) : (es.map (·.1)).Nodup := by
  induction h with
  | again | dangling => exact List.nodup_nil
  | root => simp
  | up _ _ _ h ih =>
    exact List.nodup_cons.2 ⟨fun hmem => h.not_mem_seen _ hmem List.mem_cons_self, ih⟩

theorem Climbs.isChain (h : Climbs t seen n es) : es.IsChain t.Follows := by
  induction h with
  | again | dangling => exact .nil
  | root => exact .singleton _
  | @up seen n r p es hseen hr hp h ih =>
    refine List.isChain_cons.2 ⟨fun e he => ?_, ih⟩
    -- what comes next has not been met, so it is the record of the link
    cases h with
    | again | dangling => cases he
    | root _ hr' _ | up _ hr' _ _ =>
      cases he
      exact ⟨p, hp, rfl, hr'⟩

theorem Climbs.stops_last (h : Climbs t seen n es) :
    ∀ e ∈ es.getLast?, t.Stops (seen ++ es.map (·.1)) e.2 := by
  induction h with
  | again | dangling => simp
  | root _ _ hp =>
    intro e he
    cases he
    exact .root hp
  | @up seen n r p es hseen hr hp h ih =>
    intro e he
    cases es with
    | nil =>
      cases he
      cases h with
      | again hmem => exact .again hp (by simpa [or_comm] using hmem)
      | dangling hr' => exact .dangling hp hr'
    | cons e' es =>
      rw [List.getLast?_cons_cons] at he
      refine (ih e he).of_subset fun m hm => ?_
      simp only [List.mem_append, List.mem_cons, List.map_cons] at hm ⊢
      tauto

/-- A record that another one follows gives no reason to stop, if none is met twice. -/
theorem not_stops_of_follows {before after : List (String × Record)} {e e' : String × Record}
    (hnodup : ((before ++ e :: e' :: after).map (·.1)).Nodup) (hnext : t.Follows e e') :
    ¬ t.Stops ((before ++ [e]).map (·.1)) e.2 := by
  obtain ⟨p, hp, hkey, hr⟩ := hnext
  intro hstops
  cases hstops with
  | root hp' => cases hp.symm.trans hp'
  | dangling hp' hr' =>
    cases hp.symm.trans hp'
    cases hr.symm.trans hr'
  | again hp' hmet =>
    cases hp.symm.trans hp'
    rw [hkey] at hmet
    rw [List.append_cons, List.map_append, List.map_cons] at hnodup
    exact (List.nodup_append.1 hnodup).2.2 _ hmet _ List.mem_cons_self rfl

/-- **The chain is a whole climb.** -/
theorem isClimb_chain (t : Table) (start : String) : IsClimb t start (t.chain start) where
  first := (climbs_chain t start).head? List.not_mem_nil
  linked := (climbs_chain t start).isChain
  distinct := (climbs_chain t start).nodup
  ends before e after heq := by
    have hclimbs := climbs_chain t start
    rw [heq] at hclimbs
    constructor
    · rintro rfl
      simpa using hclimbs.stops_last e (by simp)
    · intro hstops
      cases after with
      | nil => rfl
      | cons e' after =>
        have hnext : t.Follows e e' := (List.isChain_append.1 hclimbs.isChain).2.1.rel
        exact absurd hstops (not_stops_of_follows hclimbs.nodup hnext)

/-- A circle of `a` and the record of a constructor, entered from outside, is climbed once around. -/
example : let link (type : Ty) : Record := { proto := some { type := type } }
    (chain ⟨[("x", link (.named "a")), ("a", link (.function (.named "b") ["y"])),
      ("?b:", link (.named "a"))]⟩ "x").map (·.1) = ["x", "a", "?b:"] := by decide

/-! ### What lies above a record -/

/-- The record `a` has a prototype link, and it names `b`. -/
def LinksTo (t : Table) (a b : String) : Prop :=
  ∃ r p, t.find? a = some r ∧ r.proto = some p ∧ p.type.key = b

/-- The record `r` of the name `n` is the one of `start`, or prototype links lead to it from there. -/
def Above (t : Table) (start n : String) (r : Record) : Prop :=
  ReflTransGen t.LinksTo start n ∧ t.find? n = some r

theorem Climbs.above (h : Climbs t seen n es) : ∀ e ∈ es, t.Above n e.1 e.2 := by
  induction h with
  | again | dangling => simp
  | root _ hr =>
    intro e he
    rw [List.mem_singleton.1 he]
    exact ⟨.refl, hr⟩
  | up _ hr hp _ ih =>
    intro e he
    rcases List.mem_cons.1 he with rfl | he
    · exact ⟨.refl, hr⟩
    · exact ⟨.head ⟨_, _, hr, hp, rfl⟩ (ih e he).1, (ih e he).2⟩

/-- No link leads out of a chain. -/
theorem mem_chain_of_linksTo {m : String} {s : Record} (hmem : (n, r) ∈ t.chain start)
    (hlink : t.LinksTo n m) (hs : t.find? m = some s) : (m, s) ∈ t.chain start := by
  have hclimb := isClimb_chain t start
  obtain ⟨r', p, hr, hp, rfl⟩ := hlink
  cases (find?_of_mem_chainFrom hmem).symm.trans hr
  obtain ⟨before, after, heq⟩ := List.append_of_mem hmem
  cases after with
  | nil =>
    cases (hclimb.ends before (n, r) [] heq).1 rfl with
    | root hp' => cases hp.symm.trans hp'
    | dangling hp' hr' =>
      cases hp.symm.trans hp'
      cases hs.symm.trans hr'
    | again hp' hmet =>
      cases hp.symm.trans hp'
      rw [← heq] at hmet
      obtain ⟨⟨m, s'⟩, hmem', rfl⟩ := List.mem_map.1 hmet
      cases (find?_of_mem_chainFrom hmem').symm.trans hs
      exact hmem'
  | cons e after =>
    have hlinked := hclimb.linked
    rw [heq] at hlinked ⊢
    obtain ⟨p', hp', hkey, hr'⟩ := (List.isChain_append.1 hlinked).2.1.rel
    cases hp.symm.trans hp'
    have he : e = (p.type.key, s) := Prod.ext hkey.symm (Option.some.inj (hr'.symm.trans hs))
    exact List.mem_append_right _ (List.mem_cons_of_mem _ (he ▸ List.mem_cons_self))

/-- **The chain misses nothing** that lies above its start, and holds nothing else. -/
theorem mem_chain_iff : (n, r) ∈ t.chain start ↔ t.Above start n r := by
  constructor
  · exact (climbs_chain t start).above (n, r)
  · rintro ⟨hreach, hr⟩
    induction hreach generalizing r with
    | refl =>
      refine List.mem_of_mem_head? ?_
      rw [(isClimb_chain t start).first, hr]
      rfl
    | tail _ hlink ih =>
      obtain ⟨s, p, hs, hp, hkey⟩ := hlink
      exact mem_chain_of_linksTo (ih hs) ⟨s, p, hs, hp, hkey⟩ hr

end Table

/-! ### Looking up -/

/-- The record defines the name: as a member, or for the name `prototype` by its link. -/
def Record.Defines (r : Record) (name : Name) : Prop :=
  if name = some "prototype" then r.proto.isSome = true else name ∈ r.members.keys

theorem Record.answer?_eq_none_iff {r : Record} {name : Name} :
    Table.answer? r name = none ↔ ¬ r.Defines name := by
  unfold Table.answer? Record.Defines Record.member?
  split
  · simp
  · exact r.members.find?_eq_none_iff

namespace Environment

theorem lookup?_eq_none_iff {env : Environment} {name : Name} {target : Option Ty} :
    env.lookup? name target = none ↔
      ∀ n r, env.types.Above (env.scope target) n r → ¬ r.Defines name := by
  unfold lookup? lookupDefinition? Table.resolve?
  rw [Option.map_eq_none_iff, List.findSome?_eq_none_iff, Prod.forall]
  simp only [Table.mem_chain_iff, Record.answer?_eq_none_iff]

/-- **The climb along prototype links ends and misses nothing**, whatever the links are. From every
start the chain is a whole climb: its records are pairwise different, each is the one that the link
of the record before it resolves to, and it ends exactly at a record without link, at a link that
resolves to nothing, or where a record would come again. So it is no longer than the table and holds
exactly the records above the start, and nothing is found of a name only if none of them defines it.
-/
theorem chain_complete (env : Environment) (start : String) :
    env.types.IsClimb start (env.types.chain start) ∧
      (env.types.chain start).length ≤ env.types.size ∧
      (∀ n r, (n, r) ∈ env.types.chain start ↔ env.types.Above start n r) ∧
      ∀ name target, env.lookup? name target = none ↔
        ∀ n r, env.types.Above (env.scope target) n r → ¬ r.Defines name :=
  ⟨env.types.isClimb_chain start, env.types.length_chain_le start, fun _ _ => Table.mem_chain_iff,
    fun _ _ => lookup?_eq_none_iff⟩

end Environment

end ContentAssist
