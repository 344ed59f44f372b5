import ContentAssist.Completion.Proposal
import ContentAssist.Proofs.Completion.Description

/-! # Proposals are what a lookup sees

Proposals are collected from the root of a prototype chain on, so that nearer definitions go over
farther ones; a lookup goes the other way and stops. Both come to the first definition of a name on
the chain, whatever the chain is: it may end at a missing record or run in a circle. Names whose
descriptions coincide are proposed once.

* `Visible`: a name is proposed with a definition;
* `mem_collected_iff`: what is collected before it is sorted;
* `exists_proposals?`: what is proposed. -/

namespace ContentAssist

open OrderedMap (findIn)

variable {t : Table} {record typed name : String} {site : Site} {start : Int} {type : Ty}
  {p : Proposal}

/-! ### Visible members -/

/-- Members of this name are offered: it begins with what was typed, and it is not `this` behind a
dot. -/
def IsOffered (site : Site) (typed name : String) : Prop :=
  Text.startsWith typed name = true ∧ ¬(name = "this" ∧ site = .member)

instance (site : Site) (typed name : String) : Decidable (IsOffered site typed name) := by
  unfold IsOffered
  infer_instance

/-- The first definition of a member along the chain from `start`. Unlike in a lookup, `prototype` is
a member like any other. -/
def Table.firstMember? (t : Table) (start name : String) : Option Definition :=
  (t.chain start).findSome? fun e => e.2.member? (some name)

theorem Table.firstMember?_eq_resolve? (t : Table) (start : String) (h : name ≠ "prototype") :
    t.firstMember? start name = t.resolve? start (some name) := by
  have hname : (some name : Name) ≠ some "prototype" := fun he => h (Option.some.inj he)
  unfold Table.firstMember? Table.resolve? Table.answer?
  simp only [if_neg hname]

/-- The name is offered, and `d` is its first definition on the chain from `record`. -/
structure Visible (t : Table) (record : String) (site : Site) (typed name : String)
    (d : Definition) : Prop where
  offered : IsOffered site typed name
  first : t.firstMember? record name = some d

/-! ### The proposal for a member -/

/-- The text of a completion: a function is completed to a call. -/
def completion (name : String) : Ty → String
  | .named _ => name
  | .function _ params => callText name params

/-- How a member is described, if its type has a description. -/
def memberDescription? (t : Table) (name : String) (type : Ty) : Option String :=
  (t.describe? type false true).map fun shown => completion name type ++ " : " ++ shown

theorem memberDescription?_of_proposalFor? (h : proposalFor? t typed start name type = some p) :
    memberDescription? t name type = some p.description := by
  obtain ⟨shown, hshown, rfl⟩ := Option.map_eq_some_iff.1 h
  unfold memberDescription?
  rw [hshown]
  cases type <;> rfl

theorem text_of_proposalFor? (h : proposalFor? t typed start name type = some p) :
    p.text = Text.dropFirst typed.length (completion name type) := by
  obtain ⟨shown, -, rfl⟩ := Option.map_eq_some_iff.1 h
  cases type <;> rfl

theorem exists_proposalFor?_of_memberDescription? (typed : String) (start : Int) {text : String}
    (h : memberDescription? t name type = some text) :
    ∃ p, proposalFor? t typed start name type = some p ∧ p.description = text := by
  obtain ⟨shown, hshown, -⟩ := Option.map_eq_some_iff.1 h
  have hp : (proposalFor? t typed start name type).isSome = true := by
    rw [proposalFor?, hshown]
    rfl
  obtain ⟨p, hp⟩ := Option.isSome_iff_exists.1 hp
  exact ⟨p, hp, Option.some.inj ((memberDescription?_of_proposalFor? hp).symm.trans h)⟩

theorem isSome_proposalFor?_iff :
    (proposalFor? t typed start name type).isSome = true ↔ t.Ends true type.leaf := by
  rw [proposalFor?, Option.isSome_map, Table.isSome_describe?_iff]

theorem append_dropFirst {s : String} (h : Text.startsWith typed s = true) :
    typed ++ Text.dropFirst typed.length s = s := by
  obtain ⟨rest, rfl⟩ := Text.startsWith_iff.1 h
  refine String.toList_injective ?_
  simp [Text.dropFirst, ← String.length_toList]

theorem startsWith_completion (h : Text.startsWith typed name = true) (type : Ty) :
    Text.startsWith typed (completion name type) = true := by
  obtain ⟨rest, rfl⟩ := Text.startsWith_iff.1 h
  cases type with
  | named _ => exact h
  | function _ params =>
    exact Text.startsWith_iff.2 ⟨rest ++ "(" ++ Text.joined ", " params ++ ")", by
      simp [completion, callText, String.append_assoc]⟩

/-- What is inserted completes what was typed. -/
theorem append_text (hoffered : IsOffered site typed name)
    (h : proposalFor? t typed start name type = some p) :
    typed ++ p.text = completion name type := by
  rw [text_of_proposalFor? h]
  exact append_dropFirst (startsWith_completion hoffered.1 type)

/-! ### Members along a chain -/

/-- What is offered under a name that is not missing. -/
def offer? (site : Site) (typed : String) (m : Name × Definition) : Option (String × Ty) :=
  match m.1 with
  | none => none
  | some name => if IsOffered site typed name then some (name, m.2.type) else none

theorem offeredMembers_eq (site : Site) (typed : String) (r : Record) :
    offeredMembers site typed r = r.members.entries.filterMap (offer? site typed) := by
  unfold offeredMembers
  congr 1
  funext m
  unfold offer? IsOffered
  cases m.1 with
  | none => rfl
  | some name =>
    dsimp only
    by_cases htyped : Text.startsWith typed name = true
    · by_cases hthis : name = "this" ∧ site = .member <;> simp [htyped, hthis]
    · simp [htyped]

theorem findIn_offeredMembers (site : Site) (typed name : String) (r : Record) :
    findIn name (offeredMembers site typed r) =
      if IsOffered site typed name then (r.member? (some name)).map (·.type) else none := by
  rw [offeredMembers_eq, Record.member?, OrderedMap.find?]
  induction r.members.entries with
  | nil => simp [findIn]
  | cons m ms ih =>
    obtain ⟨_ | key, d⟩ := m
    · simpa [findIn, offer?, List.filterMap_cons] using ih
    · by_cases hkey : key = name
      · subst hkey
        by_cases ho : IsOffered site typed key
        · simp [findIn, offer?, ho]
        · simpa [findIn, offer?, ho] using ih
      · by_cases ho : IsOffered site typed key
        · simpa [findIn, offer?, ho, hkey] using ih
        · simpa [findIn, offer?, ho, hkey] using ih

theorem nodup_offeredMembers {r : Record} (hr : r.members.keys.Nodup) (site : Site)
    (typed : String) : ((offeredMembers site typed r).map (·.1)).Nodup := by
  have hkeys : (offeredMembers site typed r).map (·.1) = r.members.keys.filterMap fun key =>
      key.filter fun name => IsOffered site typed name := by
    rw [offeredMembers_eq, List.map_filterMap, OrderedMap.keys, List.filterMap_map]
    congr 1
    funext m
    obtain ⟨_ | name, d⟩ := m
    · rfl
    · by_cases ho : IsOffered site typed name <;> simp [offer?, ho, Option.filter]
  rw [hkeys]
  refine hr.filterMap fun key key' name h h' => ?_
  have hkey := (Option.filter_eq_some_iff.1 h).1
  have hkey' := (Option.filter_eq_some_iff.1 h').1
  exact hkey.trans hkey'.symm

/-- **The nearest definition wins**: what comes last among the visible members is what the chain has
first. -/
theorem findIn_visibleMembers (hkeys : ∀ e ∈ t.chain record, e.2.members.keys.Nodup) (site : Site)
    (typed name : String) :
    findIn name (visibleMembers t record site typed).reverse =
      if IsOffered site typed name then (t.firstMember? record name).map (·.type) else none := by
  unfold visibleMembers Table.firstMember?
  rw [List.reverse_flatMap, List.reverse_reverse, OrderedMap.findIn_flatMap]
  generalize t.chain record = es at hkeys ⊢
  induction es with
  | nil => simp
  | cons e es ih =>
    rw [List.findSome?_cons, List.findSome?_cons, Function.comp_apply,
      OrderedMap.findIn_reverse (nodup_offeredMembers (hkeys e List.mem_cons_self) site typed),
      findIn_offeredMembers, ih fun e' he' => hkeys e' (List.mem_cons_of_mem _ he')]
    by_cases ho : IsOffered site typed name
    · simp only [if_pos ho]
      cases e.2.member? (some name) <;> rfl
    · simp only [if_neg ho]

/-! ### What is collected -/

/-- Values computed for the entries of a list are found at the same keys. -/
theorem rel_findIn {κ ν ν' : Type} [DecidableEq κ] {f : κ → ν → Option ν'} {es : List (κ × ν)}
    {es' : List (κ × ν')}
    (h : List.Forall₂ (fun e e' => (f e.1 e.2).map (fun v => (e.1, v)) = some e') es es') (k : κ) :
    findIn k es' = (findIn k es).bind (f k) := by
  induction h with
  | nil => rfl
  | @cons e e' es es' he _ ih =>
    obtain ⟨v, hv, rfl⟩ := Option.map_eq_some_iff.1 he
    rw [findIn, findIn]
    split
    · rename_i hk
      rw [Option.bind_some, ← hk, hv]
    · exact ih

/-- The proposals for the members visible on a record, by name. -/
def collected? (t : Table) (record : String) (site : Site) (typed : String) (start : Int) :
    Option (List (String × Proposal)) :=
  (visibleMembers t record site typed).mapM fun m =>
    (proposalFor? t typed start m.1 m.2).map fun p => (m.1, p)

theorem proposals?_eq (t : Table) (record : String) (site : Site) (typed : String) (start : Int) :
    proposals? t record site typed start = (collected? t record site typed start).map fun all =>
      dropRepeats (sortStable describedNoLater (OrderedMap.ofList all).values) := rfl

/-- What is collected are the proposals for the first definitions on the chain. -/
theorem mem_collected_iff {all : List (String × Proposal)}
    (hkeys : ∀ e ∈ t.chain record, e.2.members.keys.Nodup)
    (h : collected? t record site typed start = some all) :
    p ∈ (OrderedMap.ofList all).values ↔ ∃ name d, Visible t record site typed name d ∧
      proposalFor? t typed start name d.type = some p := by
  have hall := List.rel_reverse (mapM_eq_some_iff.1 h)
  rw [OrderedMap.mem_values_iff (OrderedMap.nodup_keys_ofList all)]
  refine exists_congr fun name => ?_
  rw [OrderedMap.find?_ofList, rel_findIn hall name, findIn_visibleMembers hkeys]
  constructor
  · intro hp
    obtain ⟨type, htype, hp⟩ := Option.bind_eq_some_iff.1 hp
    split at htype
    · rename_i ho
      obtain ⟨d, hd, rfl⟩ := Option.map_eq_some_iff.1 htype
      exact ⟨d, ⟨ho, hd⟩, hp⟩
    · cases htype
  · rintro ⟨d, ⟨ho, hd⟩, hp⟩
    rw [if_pos ho, hd]
    exact hp

/-- All visible members have a proposal if and only if the descriptions of their types end. -/
theorem isSome_collected?_iff (start : Int)
    (hkeys : ∀ e ∈ t.chain record, e.2.members.keys.Nodup) :
    (collected? t record site typed start).isSome = true ↔ ∀ e ∈ t.chain record, ∀ name d,
      e.2.member? (some name) = some d → IsOffered site typed name → t.Ends true d.type.leaf := by
  have hends : ∀ m : String × Ty, ((proposalFor? t typed start m.1 m.2).map fun p =>
      (m.1, p)).isSome = true ↔ t.Ends true m.2.leaf := by
    intro m
    rw [Option.isSome_map, isSome_proposalFor?_iff]
  unfold collected?
  simp only [isSome_mapM_iff, hends, visibleMembers, List.mem_flatMap, List.mem_reverse]
  constructor
  · intro h e he name d hd ho
    refine h (name, d.type) ⟨e, he, OrderedMap.mem_findIn ?_⟩
    rw [findIn_offeredMembers, if_pos ho, hd]
    rfl
  · rintro h ⟨name, type⟩ ⟨e, he, hm⟩
    have hfound := OrderedMap.findIn_of_mem (nodup_offeredMembers (hkeys e he) site typed) hm
    rw [findIn_offeredMembers] at hfound
    split at hfound
    · rename_i ho
      obtain ⟨d, hd, rfl⟩ := Option.map_eq_some_iff.1 hfound
      exact h e he name d hd ho
    · cases hfound

/-! ### Sorting and leaving out repeats -/

theorem string_lt_of_le_of_ne {a b : String} (hle : a ≤ b) (hne : b ≠ a) : a < b :=
  String.not_le.1 fun hba => hne (String.le_antisymm hba hle)

theorem pairwise_sorted (ps : List Proposal) :
    (sortStable describedNoLater ps).Pairwise fun p q => p.description ≤ q.description := by
  have hle : ∀ p q : Proposal, describedNoLater p q = true ↔ p.description ≤ q.description := by
    intro p q
    rw [describedNoLater, Bool.not_eq_true', decide_eq_false_iff_not, String.not_lt]
  have hsorted : (sortStable describedNoLater ps).Pairwise
      fun p q => describedNoLater p q = true :=
    pairwise_sortStable
      (fun p q => by simpa only [hle] using String.le_total p.description q.description)
      (fun p q r => by simpa only [hle] using String.le_trans) ps
  exact hsorted.imp fun h => (hle _ _).1 h

theorem sublist_dropRepeatsAfter (last : String) (ps : List Proposal) :
    (dropRepeatsAfter last ps).Sublist ps := by
  induction ps generalizing last with
  | nil => exact List.Sublist.slnil
  | cons p ps ih =>
    unfold dropRepeatsAfter
    split
    · exact (ih last).cons p
    · exact (ih p.description).cons_cons p

/-- Behind a description that is not after any of theirs, sorted proposals without repeats are
described in strictly increasing order. -/
theorem pairwise_dropRepeatsAfter {last : String} {ps : List Proposal}
    (hlast : ∀ p ∈ ps, last ≤ p.description)
    (h : ps.Pairwise fun p q => p.description ≤ q.description) :
    (dropRepeatsAfter last ps).Pairwise (fun p q => p.description < q.description) ∧
      ∀ p ∈ dropRepeatsAfter last ps, last < p.description := by
  induction ps generalizing last with
  | nil => exact ⟨List.Pairwise.nil, by simp [dropRepeatsAfter]⟩
  | cons p ps ih =>
    obtain ⟨hp, hps⟩ := List.pairwise_cons.1 h
    unfold dropRepeatsAfter
    split
    · exact ih (fun q hq => hlast q (List.mem_cons_of_mem _ hq)) hps
    · rename_i hne
      have hlt : last < p.description :=
        string_lt_of_le_of_ne (hlast p List.mem_cons_self) hne
      obtain ⟨hrest, hafter⟩ := ih hp hps
      refine ⟨List.pairwise_cons.2 ⟨hafter, hrest⟩, fun q hq => ?_⟩
      rcases List.mem_cons.1 hq with rfl | hq
      · exact hlt
      · exact String.lt_trans hlt (hafter q hq)

theorem description_mem_dropRepeatsAfter (last : String) {ps : List Proposal} {q : Proposal}
    (hq : q ∈ ps) : q.description = last ∨
      q.description ∈ (dropRepeatsAfter last ps).map (·.description) := by
  induction ps generalizing last with
  | nil => simp at hq
  | cons p ps ih =>
    unfold dropRepeatsAfter
    rcases List.mem_cons.1 hq with rfl | hq
    · by_cases hl : q.description = last
      · exact Or.inl hl
      · exact Or.inr (by simp [hl])
    · split
      · exact ih last hq
      · refine Or.inr ?_
        rcases ih p.description hq with h | h
        · simp [h]
        · exact List.mem_cons_of_mem _ h

/-- Sorted proposals without repeats: they are described in strictly increasing order, they are among
those that there were, and no description is lost. -/
theorem dropRepeats_spec {ps : List Proposal}
    (h : ps.Pairwise fun p q => p.description ≤ q.description) :
    (dropRepeats ps).Pairwise (fun p q => p.description < q.description) ∧
      (∀ p ∈ dropRepeats ps, p ∈ ps) ∧
      ∀ p ∈ ps, p.description ∈ (dropRepeats ps).map (·.description) := by
  cases ps with
  | nil => simp [dropRepeats]
  | cons p ps =>
    obtain ⟨hp, hps⟩ := List.pairwise_cons.1 h
    obtain ⟨hrest, hafter⟩ := pairwise_dropRepeatsAfter hp hps
    refine ⟨List.pairwise_cons.2 ⟨hafter, hrest⟩, fun q hq => ?_, fun q hq => ?_⟩
    · exact ((sublist_dropRepeatsAfter p.description ps).cons_cons p).subset hq
    · rcases List.mem_cons.1 hq with rfl | hq
      · exact List.mem_cons_self
      · rcases description_mem_dropRepeatsAfter p.description hq with hq | hq
        · exact List.mem_cons.2 (Or.inl hq)
        · exact List.mem_cons_of_mem _ hq

/-! ### Proposals -/

/-- **Proposals are exactly what a lookup can see.** Where descriptions end, the proposals are
described in strictly increasing order, and by the descriptions of the first definitions on the chain
of all offered names. Each completes what was typed, and but for `prototype`, which a lookup takes
for the link, it is the proposal for a name that a lookup finds, with the definition that it finds. -/
theorem exists_proposals? (env : Environment) (record : String) (site : Site) (typed : String)
    (start : Int) (hkeys : ∀ e ∈ env.types.chain record, e.2.members.keys.Nodup)
    (hends : ∀ e ∈ env.types.chain record, ∀ name d, e.2.member? (some name) = some d →
      IsOffered site typed name → env.types.Ends true d.type.leaf) :
    ∃ ps, proposals? env.types record site typed start = some ps ∧
      ps.Pairwise (fun p q => p.description < q.description) ∧
      (∀ text, text ∈ ps.map (·.description) ↔ ∃ name d, Visible env.types record site typed name d ∧
        memberDescription? env.types name d.type = some text) ∧
      (∀ p ∈ ps, ∃ name d, Visible env.types record site typed name d ∧
        (name = "prototype" ∨
          env.lookupDefinition? (some name) (some (.named record)) = some d) ∧
        memberDescription? env.types name d.type = some p.description ∧
        typed ++ p.text = completion name d.type) ∧
      ∀ name, name ≠ "prototype" → env.types.firstMember? record name =
        env.lookupDefinition? (some name) (some (.named record)) := by
  have hlookup : ∀ name, name ≠ "prototype" → env.types.firstMember? record name =
      env.lookupDefinition? (some name) (some (.named record)) :=
    fun name hname => env.types.firstMember?_eq_resolve? record hname
  obtain ⟨all, hall⟩ := Option.isSome_iff_exists.1
    ((isSome_collected?_iff start hkeys).2 hends)
  have hmem : ∀ p, p ∈ sortStable describedNoLater (OrderedMap.ofList all).values ↔
      ∃ name d, Visible env.types record site typed name d ∧
        proposalFor? env.types typed start name d.type = some p := by
    intro p
    rw [(perm_sortStable describedNoLater _).mem_iff, mem_collected_iff hkeys hall]
  obtain ⟨hincreasing, hsub, hkept⟩ := dropRepeats_spec (pairwise_sorted (OrderedMap.ofList all).values)
  refine ⟨_, by rw [proposals?_eq, hall]; rfl, hincreasing, fun text => ⟨fun htext => ?_, ?_⟩,
    fun p hp => ?_, hlookup⟩
  · obtain ⟨p, hp, rfl⟩ := List.mem_map.1 htext
    obtain ⟨name, d, hvisible, hfor⟩ := (hmem p).1 (hsub p hp)
    exact ⟨name, d, hvisible, memberDescription?_of_proposalFor? hfor⟩
  · rintro ⟨name, d, hvisible, htext⟩
    obtain ⟨p, hfor, rfl⟩ := exists_proposalFor?_of_memberDescription? typed start htext
    exact hkept p ((hmem p).2 ⟨name, d, hvisible, hfor⟩)
  · obtain ⟨name, d, hvisible, hfor⟩ := (hmem p).1 (hsub p hp)
    refine ⟨name, d, hvisible, ?_, memberDescription?_of_proposalFor? hfor,
      append_text hvisible.offered hfor⟩
    by_cases hname : name = "prototype"
    · exact Or.inl hname
    · exact Or.inr (by rw [← hlookup name hname, hvisible.first])

/-- Two records in a circle; both define `value`, the inner one with a type of its own. -/
def circle : Table :=
  ⟨[("Inner", { members := ⟨[(some "value", { type := .string })]⟩
                proto := some { type := .named "Outer" } }),
    ("Outer", { members := ⟨[(some "value", { type := .number }),
                  (some "valueOf", { type := .function .object [] })]⟩
                proto := some { type := .named "Inner" } })]⟩

/-- In a circle of records the nearer definition of `value` is proposed. -/
theorem exists_proposals?_circle :
    ∃ ps, proposals? circle "Inner" .member "v" 2 = some ps ∧
      ps.Pairwise (fun p q => p.description < q.description) ∧
      "value : String" ∈ ps.map (·.description) := by
  have hkeys : ∀ e ∈ circle.chain "Inner", e.2.members.keys.Nodup := by decide +kernel
  have hplain : ∀ e ∈ circle.chain "Inner", ∀ m ∈ e.2.members.entries,
      Ty.isGenerated m.2.type.leaf = false := by decide +kernel
  obtain ⟨ps, hps, hincreasing, hdescriptions, -⟩ :=
    exists_proposals? { types := circle } "Inner" .member "v" 2 hkeys
      fun e he name d hd _ => .plain (hplain e he _ (e.2.members.mem_of_find? hd))
  refine ⟨ps, hps, hincreasing, (hdescriptions _).2 ⟨"value", { type := .string }, ⟨?_, ?_⟩, ?_⟩⟩
  · decide +kernel
  · decide +kernel
  · decide +kernel

example : (proposals? circle "Inner" .member "v" 2).map (·.map (·.description)) =
    some ["value : String", "valueOf() : Object"] := by
  decide +kernel

end ContentAssist
