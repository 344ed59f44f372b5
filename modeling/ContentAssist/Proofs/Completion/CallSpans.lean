import ContentAssist.Proofs.Completion.Proposals
import ContentAssist.Proofs.Text.Insertion

/-! # The parts of a completed call

A function is completed to a call, and with the text to insert come the spans of the arguments, so that
they can be edited one after the other, and the place behind the call. The spans are computed from the
whole text of the call and from where the typed text begins, but only what is not typed yet is inserted.
In the buffer with the insertion they are right all the same.

* `Text.insertAt`, `Text.slice`: a buffer with an insertion, and what stands between two offsets;
* `map_slice_argumentPositions`, `pairwise_argumentPositions`: the spans of joined arguments;
* `CallSite.Fits`: the parts of a call are where a proposal says;
* `proposed_calls_fit`: they are for all proposals. -/

namespace ContentAssist

/-! ### Buffers -/

namespace Text

/-- A text with another one put in at an offset. -/
def insertAt (text : String) (offset : Int) (inserted : String) : String :=
  String.ofList (text.toList.take offset.toNat ++ inserted.toList ++ text.toList.drop offset.toNat)

/-- What stands in a text from one offset up to another. -/
def slice (text : String) (start stop : Int) : String :=
  String.ofList (charsAt (between start stop) text.toList)

/-- The text `typed` stands just in front of the offset. -/
def StandsBefore (typed text : String) (offset : Int) : Prop :=
  ∃ before after, text = before ++ typed ++ after ∧ offset = before.length + typed.length

theorem charsAt_eq_self {p : Nat → Bool} {xs : List Char} (h : ∀ i < xs.length, p i = true) :
    charsAt p xs = xs := by
  induction xs generalizing p with
  | nil => rfl
  | cons c xs ih =>
    rw [charsAt, h 0 (Nat.zero_lt_succ _), ih fun i hi => h (i + 1) (Nat.succ_lt_succ hi)]
    rfl

/-- A part of a text stands where the part in front of it ends. -/
theorem charsAt_between_append (before part after : List Char) {start stop : Int}
    (hstart : start = before.length) (hstop : stop = start + part.length) :
    charsAt (between start stop) (before ++ part ++ after) = part := by
  rw [charsAt_append, charsAt_append, charsAt_eq_nil before, charsAt_eq_self, charsAt_eq_nil after,
    List.nil_append, List.append_nil]
  · intro i hi
    rw [List.length_append]
    simp only [between, decide_eq_false_iff_not]
    omega
  · intro i hi
    simp only [between, decide_eq_true_eq]
    omega
  · intro i hi
    simp only [between, decide_eq_false_iff_not]
    omega

theorem slice_of_eq {text before part after : String} (htext : text = before ++ part ++ after)
    {start stop : Int} (hstart : start = before.length) (hstop : stop = start + part.length) :
    slice text start stop = part := by
  subst htext
  refine String.toList_injective ?_
  rw [slice, String.toList_ofList, String.toList_append, String.toList_append]
  exact charsAt_between_append _ _ _ (by rw [hstart, String.length_toList])
    (by rw [hstop, String.length_toList])

theorem insertAt_append (before after inserted : String) {offset : Int}
    (hoffset : offset = before.length) :
    insertAt (before ++ after) offset inserted = before ++ inserted ++ after := by
  have htake : offset.toNat = before.toList.length := by
    rw [hoffset, Int.toNat_natCast, String.length_toList]
  refine String.toList_injective ?_
  rw [insertAt, String.toList_ofList, String.toList_append, htake, List.take_left, List.drop_left,
    String.toList_append, String.toList_append]

end Text

open Text

/-! ### The spans of the arguments -/

section Arguments
variable {text before after : String} {offset : Int} {params : List String} {p : Position}

theorem joined_singleton (sep first : String) : joined sep [first] = first := by
  refine String.toList_injective ?_
  simp [joined, join]

theorem joined_cons (sep first second : String) (rest : List String) :
    joined sep (first :: second :: rest) = first ++ sep ++ joined sep (second :: rest) := by
  refine String.toList_injective ?_
  simp [joined, join]

/-- **The spans select the arguments** of a list that begins at the offset. -/
theorem map_slice_argumentPositions (htext : text = before ++ joined ", " params ++ after)
    (hoffset : offset = before.length) :
    (argumentPositions offset params).map (fun p => slice text p.offset (p.offset + p.length)) =
      params := by
  induction params generalizing before offset with
  | nil => rfl
  | cons first params ih =>
    rw [argumentPositions, List.map_cons]
    cases params with
    | nil =>
      rw [joined_singleton] at htext
      exact congrArg (· :: []) (slice_of_eq htext hoffset rfl)
    | cons second rest =>
      rw [joined_cons] at htext
      have hfirst : text = before ++ first ++ (", " ++ joined ", " (second :: rest) ++ after) := by
        simp only [htext, String.append_assoc]
      have hrest : text = (before ++ first ++ ", ") ++ joined ", " (second :: rest) ++ after := by
        simp only [htext, String.append_assoc]
      have hnext : offset + first.length + 2 = (before ++ first ++ ", ").length := by
        have hsep : (", " : String).length = 2 := rfl
        rw [String.length_append, String.length_append, hsep, hoffset]
        push_cast
        rfl
      exact congrArg₂ List.cons (slice_of_eq hfirst hoffset rfl) (ih hrest hnext)

theorem bounds_of_mem_argumentPositions (hp : p ∈ argumentPositions offset params) :
    offset ≤ p.offset ∧ p.offset + p.length ≤ offset + (joined ", " params).length := by
  induction params generalizing offset with
  | nil => cases hp
  | cons first params ih =>
    rw [argumentPositions, List.mem_cons] at hp
    cases params with
    | nil =>
      obtain rfl := hp.resolve_right List.not_mem_nil
      rw [joined_singleton]
      exact ⟨Int.le_refl _, Int.le_refl _⟩
    | cons second rest =>
      have hlength : (joined ", " (first :: second :: rest)).length =
          first.length + 2 + (joined ", " (second :: rest)).length := by
        rw [joined_cons, String.length_append, String.length_append]
        rfl
      rcases hp with rfl | hp
      · dsimp only
        omega
      · have hbounds := ih hp
        omega

/-- **The spans come one after the other**, with the separator between them. -/
theorem pairwise_argumentPositions (offset : Int) (params : List String) :
    (argumentPositions offset params).Pairwise fun p q : Position => p.offset + p.length < q.offset := by
  induction params generalizing offset with
  | nil => exact List.Pairwise.nil
  | cons first params ih =>
    refine List.pairwise_cons.2 ⟨fun q hq => ?_, ih _⟩
    have hbounds := (bounds_of_mem_argumentPositions hq).1
    dsimp only
    omega

end Arguments

/-! ### Calls -/

/-- The parts of a call are where they are said to be: the text of the call begins at `start` and ends at
the escape position, the spans select the parameters one after the other, and they lie between the
parentheses. -/
structure CallSite.Fits (call : CallSite) (buffer : String) (start : Int) (name : String)
    (params : List String) : Prop where
  text : slice buffer start call.escape = callText name params
  opening : slice buffer (start + name.length) (start + name.length + 1) = "("
  closing : slice buffer (call.escape - 1) call.escape = ")"
  arguments : call.arguments.map (fun p => slice buffer p.offset (p.offset + p.length)) = params
  apart : call.arguments.Pairwise fun p q : Position => p.offset + p.length < q.offset
  inside : ∀ p ∈ call.arguments, start + name.length + 1 ≤ p.offset ∧
    p.offset + p.length ≤ call.escape - 1

/-- The parts of the completed call of a function whose text begins at `start`. -/
def callSite? (name : String) (start : Int) : Ty → Option CallSite
  | .named _ => none
  | .function _ params =>
    some ⟨callPositions name params start, start + (callText name params).length⟩

/-- The parts of a call fit wherever its text stands. -/
theorem CallSite.fits_of_eq (before after : String) {buffer name : String} {params : List String}
    {start : Int} (hbuffer : buffer = before ++ callText name params ++ after)
    (hstart : start = before.length) :
    (CallSite.mk (callPositions name params start) (start + (callText name params).length)).Fits
      buffer start name params := by
  have hlength : (callText name params).length = name.length + 1 + (joined ", " params).length + 1 := by
    rw [callText, String.length_append, String.length_append, String.length_append]
    rfl
  have hname : ((before ++ name).length : Int) = start + name.length := by
    rw [String.length_append, hstart]
    push_cast
    rfl
  have hopen : ((before ++ name ++ "(").length : Int) = start + name.length + 1 := by
    rw [String.length_append]
    push_cast
    rw [hname]
    rfl
  have hclose : ((before ++ name ++ "(" ++ joined ", " params).length : Int) =
      start + (callText name params).length - 1 := by
    rw [String.length_append]
    push_cast
    rw [hopen, hlength]
    push_cast
    omega
  have hopening : buffer = (before ++ name) ++ "(" ++ (joined ", " params ++ (")" ++ after)) := by
    simp only [hbuffer, callText, String.append_assoc]
  have hparts : buffer = (before ++ name ++ "(") ++ joined ", " params ++ (")" ++ after) := by
    simp only [hbuffer, callText, String.append_assoc]
  have hclosing : buffer = (before ++ name ++ "(" ++ joined ", " params) ++ ")" ++ after := by
    simp only [hbuffer, callText, String.append_assoc]
  refine ⟨slice_of_eq hbuffer hstart rfl, slice_of_eq hopening hname.symm rfl,
    slice_of_eq hclosing hclose.symm (Int.sub_add_cancel _ _).symm,
    map_slice_argumentPositions hparts hopen.symm, pairwise_argumentPositions _ _, fun p hp => ?_⟩
  obtain ⟨hle, hge⟩ := bounds_of_mem_argumentPositions hp
  dsimp only
  omega

/-! ### Proposals -/

section Proposals
variable {t : Table} {record typed name : String} {site : Site} {start : Int} {type : Ty}
  {p : Proposal}

/-- A proposal is that for a member which the record has, and for the first definition of it. -/
theorem exists_visible_of_mem_proposals? (hkeys : ∀ e ∈ t.chain record, e.2.members.keys.Nodup)
    {ps : List Proposal} (h : proposals? t record site typed start = some ps) (hp : p ∈ ps) :
    ∃ name d, Visible t record site typed name d ∧
      proposalFor? t typed start name d.type = some p := by
  rw [proposals?_eq] at h
  obtain ⟨all, hall, rfl⟩ := Option.map_eq_some_iff.1 h
  have hsorted := (dropRepeats_spec (pairwise_sorted (OrderedMap.ofList all).values)).2.1 p hp
  rw [(perm_sortStable describedNoLater _).mem_iff] at hsorted
  exact (mem_collected_iff hkeys hall).1 hsorted

/-- Functions are proposed with the parts of their calls, and nothing else is. -/
theorem call_of_proposalFor? (h : proposalFor? t typed start name type = some p) :
    p.call = callSite? name start type := by
  obtain ⟨shown, -, rfl⟩ := Option.map_eq_some_iff.1 h
  cases type <;> rfl

/-- **Linked edits hit the arguments.** What was typed stands in front of the offset. Where descriptions
end there are proposals; each is for the first definition of a visible member, and has the parts of a call
exactly if that is a function. In the buffer with the text of the proposal put in at the offset these fit
the call of the function. -/
theorem proposed_calls_fit (env : Environment) (record : String) (site : Site)
    {typed buffer : String} {offset : Int} (htyped : StandsBefore typed buffer offset)
    (hkeys : ∀ e ∈ env.types.chain record, e.2.members.keys.Nodup)
    (hends : ∀ e ∈ env.types.chain record, ∀ name d, e.2.member? (some name) = some d →
      IsOffered site typed name → env.types.Ends true d.type.leaf) :
    ∃ ps, proposals? env.types record site typed (offset - typed.length) = some ps ∧
      ∀ p ∈ ps, ∃ name d, Visible env.types record site typed name d ∧
        memberDescription? env.types name d.type = some p.description ∧
        p.call.isSome = d.type.isFunction ∧
        ∀ call, p.call = some call → ∃ result params, d.type = .function result params ∧
          call.Fits (insertAt buffer offset p.text) (offset - typed.length) name params := by
  obtain ⟨before, after, rfl, hoffset⟩ := htyped
  have hstart : offset - typed.length = before.length := by omega
  obtain ⟨all, hall⟩ := Option.isSome_iff_exists.1
    ((isSome_collected?_iff (offset - typed.length) hkeys).2 hends)
  have hps : proposals? env.types record site typed (offset - typed.length) = some
      (dropRepeats (sortStable describedNoLater (OrderedMap.ofList all).values)) := by
    rw [proposals?_eq, hall]
    rfl
  refine ⟨_, hps, fun p hp => ?_⟩
  obtain ⟨name, d, hvisible, hfor⟩ := exists_visible_of_mem_proposals? hkeys hps hp
  have hcall := call_of_proposalFor? hfor
  have htext := append_text hvisible.offered hfor
  refine ⟨name, d, hvisible, memberDescription?_of_proposalFor? hfor, ?_⟩
  rw [hcall]
  cases htype : d.type with
  | named _ => exact ⟨rfl, fun call h => by cases h⟩
  | function result params =>
    rw [htype] at htext
    refine ⟨rfl, fun call h => ⟨result, params, rfl, ?_⟩⟩
    cases h
    refine CallSite.fits_of_eq before after ?_ hstart
    -- the typed text and the inserted one make up the call
    have hlength : offset = (before ++ typed).length := by
      rw [String.length_append, hoffset, Int.natCast_add]
    have hcompleted : before ++ typed ++ p.text = before ++ callText name params := by
      rw [String.append_assoc, htext]
      rfl
    rw [insertAt_append _ _ _ hlength, hcompleted]

/-- A record with a function of three parameters, the second one without a name. -/
def boxTable : Table :=
  ⟨[("Box", { members := ⟨[(some "merge", { type := .function .object ["left", "", "deep"] }),
                (some "meter", { type := .number })]⟩ })]⟩

/-- In `box.me;` the function is completed behind the two letters. -/
theorem proposed_calls_fit_box :
    StandsBefore "me" "box.me;" 6 ∧ ∃ p call,
      (proposals? boxTable "Box" .member "me" 4).map List.head? = some (some p) ∧
      p.call = some call ∧ insertAt "box.me;" 6 p.text = "box.merge(left, , deep);" ∧
      call.Fits "box.merge(left, , deep);" 4 "merge" ["left", "", "deep"] := by
  have htyped : StandsBefore "me" "box.me;" 6 := ⟨"box.", ";", rfl, rfl⟩
  have hkeys : ∀ e ∈ boxTable.chain "Box", e.2.members.keys.Nodup := by decide +kernel
  have hplain : ∀ e ∈ boxTable.chain "Box", ∀ m ∈ e.2.members.entries,
      Ty.isGenerated m.2.type.leaf = false := by decide +kernel
  obtain ⟨ps, hps, hall⟩ := proposed_calls_fit { types := boxTable } "Box" .member htyped hkeys
    fun e he name d hd _ => .plain (hplain e he _ (e.2.members.mem_of_find? hd))
  have hpositions : proposals? boxTable "Box" .member "me" 4 = some
      [⟨"rge(left, , deep)", "merge(left, , deep) : Object",
          some ⟨[⟨10, 4⟩, ⟨16, 0⟩, ⟨18, 4⟩], 23⟩⟩,
        ⟨"ter", "meter : Number", none⟩] := by decide +kernel
  obtain rfl := Option.some.inj (hps.symm.trans hpositions)
  obtain ⟨name, d, hvisible, hdescription, -, hcalls⟩ := hall _ List.mem_cons_self
  obtain ⟨result, params, htype, hfits⟩ := hcalls _ rfl
  have hfunctions : ∀ e ∈ boxTable.chain "Box", ∀ m ∈ e.2.members.entries,
      m.2.type.isFunction = true → m.1 = some "merge" := by decide +kernel
  obtain ⟨e, he, hd⟩ := List.exists_of_findSome?_eq_some hvisible.first
  obtain rfl : name = "merge" :=
    Option.some.inj (hfunctions e he _ (e.2.members.mem_of_find? hd) (by rw [htype]; rfl))
  obtain rfl : ["left", "", "deep"] = params := hfits.arguments
  exact ⟨htyped, _, _, by rw [hpositions]; rfl, rfl, by decide +kernel, hfits⟩

end Proposals

end ContentAssist
