import ContentAssist.Proofs.Record.Resolution
import ContentAssist.Record.Reachable

/-! # What a type leads to

`LeadsTo` says without a search which names are met from some first ones: these, and whatever the
record of a name that is met refers to. The search marks just the names that are needed. What carries
the proof is an invariant of each part of the search, however deep: it keeps what was marked, it marks
needed names only, and when it is over it has dealt with all that it marked anew. The names that are
entered but not dealt with are among the old ones all the time.

* `Explores`: the invariant, `explores_markName`: the search at one name has it;
* `mem_reachable_iff`: the search is exact. -/

namespace ContentAssist

namespace Table

variable {t : Table} {type : Ty} {n : String} {first P : String → Prop}
  {old names names' : List String}

/-! ### Closure under references -/

/-- The names that some first ones lead to through the records of the table. -/
inductive LeadsTo (t : Table) (first : String → Prop) : String → Prop
  | first {n : String} (h : first n) : LeadsTo t first n
  | step {n m : String} {r : Record} (h : LeadsTo t first n) (hr : t.find? n = some r)
      (hm : m ∈ r.references) : LeadsTo t first m

/-- The names that a type leads to. -/
def Reached (t : Table) (type : Ty) : String → Prop := t.LeadsTo (· ∈ type.references)

/-- An exported type begins with the name: it refers to it if it is a function type, and otherwise its
record does. -/
def Begins (t : Table) (type : Ty) (n : String) : Prop :=
  match type with
  | .function _ _ => n ∈ type.references
  | .named name => ∃ r, t.find? name = some r ∧ n ∈ r.references

/-- The names that an exported type needs. -/
def Needed (t : Table) (type : Ty) : String → Prop := t.LeadsTo (t.Begins type)

theorem LeadsTo.mono {first' : String → Prop} (hfirst : ∀ n, first n → t.LeadsTo first' n)
    (h : t.LeadsTo first n) : t.LeadsTo first' n := by
  induction h with
  | first h => exact hfirst _ h
  | step _ hr hm ih => exact .step ih hr hm

/-- What is needed is what the type leads to, but perhaps for its own name. -/
theorem Needed.reached (h : t.Needed type n) : t.Reached type n := by
  refine LeadsTo.mono (fun n hn => ?_) h
  cases type with
  | function result params => exact .first hn
  | named name =>
    obtain ⟨r, hr, hn⟩ := hn
    exact .step (.first (List.mem_singleton_self name)) hr hn

/-! ### The invariant of the search -/

/-- A search that has marked the names `names`, those in `old` before it began, kept the old ones, added
names with the property only, and dealt with the records of those that it added. -/
structure Explores (t : Table) (P : String → Prop) (old names : List String) : Prop where
  kept : old ⊆ names
  sound : ∀ n ∈ names, n ∉ old → P n
  done : ∀ n ∈ names, n ∉ old → ∀ r, t.find? n = some r → r.references ⊆ names

theorem Explores.refl (t : Table) (P : String → Prop) (names : List String) :
    Explores t P names names :=
  ⟨fun _ h => h, fun _ h hnot => absurd h hnot, fun _ h hnot => absurd h hnot⟩

theorem Explores.trans (h : Explores t P old names) (h' : Explores t P names names') :
    Explores t P old names' where
  kept := fun _ hn => h'.kept (h.kept hn)
  sound := by
    intro n hn hold
    by_cases hmid : n ∈ names
    · exact h.sound n hmid hold
    · exact h'.sound n hn hmid
  done := by
    intro n hn hold r hr m hm
    by_cases hmid : n ∈ names
    · exact h'.kept (h.done n hmid hold r hr hm)
    · exact h'.done n hn hmid r hr hm

/-- Marking a name with the property, whatever was marked before, is a part of the search. -/
def Marker (t : Table) (P : String → Prop) (mark : Marks old → String → Marks old) : Prop :=
  ∀ s n, P n → Explores t P s.names (mark s n).names ∧ n ∈ (mark s n).names

theorem Marker.foldl {mark : Marks old → String → Marks old} (hmark : Marker t P mark)
    {ns : List String} (hns : ∀ n ∈ ns, P n) (s : Marks old) :
    Explores t P s.names (ns.foldl mark s).names ∧ ns ⊆ (ns.foldl mark s).names := by
  induction ns generalizing s with
  | nil => exact ⟨.refl t P s.names, List.nil_subset _⟩
  | cons n ns ih =>
    obtain ⟨hstep, hn⟩ := hmark s n (hns n List.mem_cons_self)
    obtain ⟨hrest, hsub⟩ := ih (fun m hm => hns m (List.mem_cons_of_mem _ hm)) (mark s n)
    exact ⟨hstep.trans hrest, List.cons_subset.2 ⟨hrest.kept hn, hsub⟩⟩

end Table

variable {old : List String} (mark : Marks old → String → Marks old)

theorem Ty.mark_eq_foldl (s : Marks old) (type : Ty) :
    type.mark mark s = type.references.foldl mark s := by
  induction type generalizing s with
  | named name => rfl
  | function result params ih => exact ih _

theorem Record.mark_eq_foldl (s : Marks old) (r : Record) :
    r.mark mark s = r.references.foldl mark s := by
  unfold Record.mark Record.references
  rw [List.foldl_flatMap]
  simp only [Ty.mark_eq_foldl]

namespace Table

variable {t : Table} {type : Ty} {n : String} {P : String → Prop}

/-- **The search at a name** marks it, and deals with all that it marks anew. -/
theorem explores_markName (hstep : ∀ n r, P n → t.find? n = some r → ∀ m ∈ r.references, P m)
    (old : List String) (name : String) (hname : P name) :
    Explores t P old (t.markName old name).names ∧ name ∈ (t.markName old name).names := by
  fun_induction markName t old name with
  | case1 old name hmem => exact ⟨.refl t P old, hmem⟩
  | case2 old name hnew entered hr =>
    refine ⟨⟨entered.old_subset, fun n hn hold => ?_, fun n hn hold r hr' => ?_⟩, List.mem_cons_self⟩
    all_goals obtain rfl := (List.mem_cons.1 hn).resolve_right hold
    · exact hname
    · cases hr.symm.trans hr'
  | case3 old name hnew entered r hr ih =>
    have hmark : Marker t P fun (s : Marks (name :: old)) n => s.followedBy (t.markName s.names n) :=
      fun s n hn => ih s n hn
    rw [Record.mark_eq_foldl]
    obtain ⟨hrest, hsub⟩ := hmark.foldl (hstep name r hname hr) (.start (name :: old))
    -- what is marked behind the name is dealt with in there, the name itself when that is over
    refine ⟨⟨fun n hn => hrest.kept (List.mem_cons_of_mem _ hn), fun n hn hold => ?_,
      fun n hn hold r' hr' => ?_⟩, hrest.kept List.mem_cons_self⟩
    all_goals by_cases hne : n = name
    · exact hne ▸ hname
    · exact hrest.sound n hn (by simp [Marks.start, hne, hold])
    · subst hne
      cases hr.symm.trans hr'
      exact hsub
    · exact hrest.done n hn (by simp [Marks.start, hne, hold]) r' hr'

/-! ### What is reachable -/

theorem explores_reachable (t : Table) (type : Ty) :
    Explores t (t.Needed type) [] (t.reachable type) ∧ ∀ n, t.Begins type n → n ∈ t.reachable type := by
  have hmark : Marker t (t.Needed type) (t.mark : Marks [] → String → Marks []) := fun s n hn =>
    explores_markName (fun n r hn hr m hm => .step hn hr hm) s.names n hn
  unfold reachable
  cases type with
  | function result params =>
    rw [Ty.mark_eq_foldl]
    exact hmark.foldl (fun n hn => .first hn) (.start [])
  | named name =>
    dsimp only
    cases hr : t.find? name with
    | none =>
      refine ⟨.refl t _ [], ?_⟩
      rintro n ⟨r, hr', -⟩
      cases hr.symm.trans hr'
    | some r =>
      dsimp only
      rw [Record.mark_eq_foldl]
      obtain ⟨hexplores, hsub⟩ := hmark.foldl (fun n hn => .first ⟨r, hr, hn⟩) (.start [])
      refine ⟨hexplores, ?_⟩
      rintro n ⟨r', hr', hn⟩
      cases hr.symm.trans hr'
      exact hsub hn

/-- **The search is exact**: it marks the names that are needed and no others. -/
theorem mem_reachable_iff : n ∈ t.reachable type ↔ t.Needed type n := by
  obtain ⟨hexplores, hbegins⟩ := t.explores_reachable type
  constructor
  · exact fun hn => hexplores.sound n hn List.not_mem_nil
  · intro h
    induction h with
    | first h => exact hbegins _ h
    | step _ hr hm ih => exact hexplores.done _ ih List.not_mem_nil _ hr hm

instance (t : Table) (type : Ty) (n : String) : Decidable (t.Needed type n) :=
  decidable_of_iff (n ∈ t.reachable type) mem_reachable_iff

end Table

end ContentAssist
