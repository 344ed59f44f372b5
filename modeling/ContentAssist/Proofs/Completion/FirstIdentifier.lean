import ContentAssist.Proofs.Completion.Hover

/-! # The identifier to hover over

The search for the identifier at an offset ends at the first node behind the offset. It may do so because
the nodes of a tree are met in the order of the source: of two nodes the later one is a part of the earlier
one, or begins where that one has ended. So whatever follows a node behind the offset is behind it too, and
the search finds what a search of all nodes would find.

* `Layout.pairwise_all`: the order of the nodes;
* `NamesOffset`: the identifiers at an offset, both ends of their spans included;
* `join_hoverIn?`: the search of a part of the tree finds the first of them;
* `hover_finds_first`: the search of the whole tree. -/

namespace ContentAssist

variable {root n m k X : Node} {offset : Int}

/-! ### The order of the source -/

/-- **Nodes are met in the order of the source**: a later node is a part of an earlier one, or begins where
that one has ended. -/
theorem Layout.pairwise_all (hlayout : Layout n) :
    n.all.Pairwise fun a b => b ∈ a.all ∨ a.stop ≤ b.start := by
  induction n using Node.induct with
  | step n ih =>
    rw [Node.all_eq, List.pairwise_cons, List.pairwise_flatMap]
    refine ⟨fun b hb => Or.inl (Node.all_eq n ▸ List.mem_cons_of_mem _ hb), fun c hc => ?_, ?_⟩
    · exact ih c hc (hlayout.of_mem (Node.mem_all_of_mem_children hc))
    · -- the nodes of an earlier child end before those of a later one begin
      refine (hlayout.ordered n n.mem_all_self).imp_of_mem fun {c d} hc hd hcd a ha b hb => Or.inr ?_
      have hends := ((hlayout.of_mem (Node.mem_all_of_mem_children hc)).bounds ha).2
      have hbegins := ((hlayout.of_mem (Node.mem_all_of_mem_children hd)).bounds hb).1
      omega

theorem Layout.start_le_start (hlayout : Layout n) (hm : m ∈ n.all)
    (h : k ∈ m.all ∨ m.stop ≤ k.start) : m.start ≤ k.start := by
  rcases h with hk | hk
  · exact ((hlayout.of_mem hm).bounds hk).1
  · exact Int.le_trans (hlayout.ranged m hm).2 hk

/-! ### Identifiers at an offset -/

/-- The node is an identifier, and the offset is in its span or at one of its ends. -/
def NamesOffset (offset : Int) (m : Node) : Prop :=
  m.kind = .identifier ∧ m.start ≤ offset ∧ offset ≤ m.stop

instance (offset : Int) (m : Node) : Decidable (NamesOffset offset m) := by
  unfold NamesOffset
  infer_instance

/-- The first identifier at the offset among nodes. -/
def firstNaming? (offset : Int) (ns : List Node) : Option Node := ns.find? fun m => NamesOffset offset m

theorem firstNaming?_eq_none_iff {ns : List Node} :
    firstNaming? offset ns = none ↔ ∀ m ∈ ns, ¬ NamesOffset offset m := by
  simp [firstNaming?]

theorem firstNaming?_eq_some_iff {ns : List Node} : firstNaming? offset ns = some X ↔
    NamesOffset offset X ∧ ∃ front rest, ns = front ++ X :: rest ∧ ∀ m ∈ front, ¬ NamesOffset offset m := by
  simp [firstNaming?, List.find?_eq_some_iff_append]

theorem firstNaming?_eq_none_of_behind {ns : List Node} (h : ∀ m ∈ ns, offset < m.start) :
    firstNaming? offset ns = none := by
  refine firstNaming?_eq_none_iff.2 fun m hm hnames => ?_
  have hbehind := h m hm
  have hbegins := hnames.2.1
  omega

/-! ### The search -/

/-- A search that passes the offset in a node does so before the node ends. -/
theorem lt_stop_of_hoverIn? (hlayout : Layout n) (h : hoverIn? offset n = some none) :
    offset < n.stop := by
  induction n using Node.induct with
  | step n ih =>
    have hranged := hlayout.ranged n n.mem_all_self
    rw [hoverIn?_eq hranged.1] at h
    split at h
    · cases h
    · split at h
      · have hwidth := hranged.2
        omega
      · obtain ⟨c, hc, h⟩ := List.exists_of_findSome?_eq_some h
        have hchild := ih c hc (hlayout.of_mem (Node.mem_all_of_mem_children hc)) h
        have hnested := (hlayout.nested n n.mem_all_self c hc).2
        omega

/-- Children are searched one after the other; if the search passes the offset in one of them, those that
follow are behind it. -/
theorem join_findSome?_hoverIn? {cs : List Node} (hlayout : ∀ c ∈ cs, Layout c)
    (hordered : cs.Pairwise fun a b => a.stop ≤ b.start)
    (ih : ∀ c ∈ cs, (hoverIn? offset c).join = firstNaming? offset c.all) :
    (cs.findSome? (hoverIn? offset)).join = firstNaming? offset (cs.flatMap Node.all) := by
  induction cs with
  | nil => rfl
  | cons c cs ihcs =>
    obtain ⟨hbehind, hordered⟩ := List.pairwise_cons.1 hordered
    have hfirst := ih c List.mem_cons_self
    have hrest := ihcs (fun d hd => hlayout d (List.mem_cons_of_mem _ hd)) hordered
      fun d hd => ih d (List.mem_cons_of_mem _ hd)
    have hsplit : firstNaming? offset ((c :: cs).flatMap Node.all) =
        (firstNaming? offset c.all).or (firstNaming? offset (cs.flatMap Node.all)) := by
      simp [firstNaming?, List.flatMap_cons, List.find?_append]
    rw [hsplit, ← hfirst, List.findSome?_cons]
    cases hc : hoverIn? offset c with
    | none => exact hrest
    | some found =>
      cases found with
      | some X => rfl
      | none =>
        have hpassed := lt_stop_of_hoverIn? (hlayout c List.mem_cons_self) hc
        refine (firstNaming?_eq_none_of_behind fun m hm => ?_).symm
        obtain ⟨d, hd, hmd⟩ := List.mem_flatMap.1 hm
        have hbegins := ((hlayout d (List.mem_cons_of_mem _ hd)).bounds hmd).1
        have hfollows := hbehind d hd
        omega

/-- **The search of a part of the tree** finds its first identifier at the offset. -/
theorem join_hoverIn? (hlayout : Layout n) :
    (hoverIn? offset n).join = firstNaming? offset n.all := by
  induction n using Node.induct with
  | step n ih =>
    have hspan := (hlayout.ranged n n.mem_all_self).1
    have hlayouts : ∀ c ∈ n.children, Layout c := fun c hc =>
      hlayout.of_mem (Node.mem_all_of_mem_children hc)
    rw [hoverIn?_eq hspan]
    by_cases hnames : n.kind = .identifier ∧ Cursor.isIn (some offset) n.span?
    · have hhere : NamesOffset offset n := ⟨hnames.1, (isIn_span_iff hspan).1 hnames.2⟩
      rw [if_pos hnames, Node.all_eq, firstNaming?, List.find?_cons_of_pos (by simpa using hhere)]
      rfl
    · rw [if_neg hnames]
      by_cases hbehind : offset < n.start
      · rw [if_pos hbehind]
        refine (firstNaming?_eq_none_of_behind fun m hm => ?_).symm
        have hbegins := (hlayout.bounds hm).1
        omega
      · have hnot : ¬ NamesOffset offset n := fun h =>
          hnames ⟨h.1, (isIn_span_iff hspan).2 h.2⟩
        rw [if_neg hbehind, Node.all_eq, firstNaming?, List.find?_cons_of_neg (by simpa using hnot)]
        exact join_findSome?_hoverIn? hlayouts (hlayout.ordered n n.mem_all_self)
          fun c hc => ih c hc (hlayouts c hc)

/-- **Hovering finds the first identifier at the offset**, in the order of the source, and nothing just if
there is none. The search may end at the first node behind the offset: all nodes that follow are behind it
as well. -/
theorem hover_finds_first (hlayout : Layout root) (offset : Int) :
    (hoverTarget? root offset = none ↔ ∀ m ∈ root.all, ¬ NamesOffset offset m) ∧
    (∀ X, hoverTarget? root offset = some X ↔ NamesOffset offset X ∧
      ∃ front rest, root.all = front ++ X :: rest ∧ ∀ m ∈ front, ¬ NamesOffset offset m) ∧
    root.all.Pairwise (fun a b => b ∈ a.all ∨ a.stop ≤ b.start) ∧
    ∀ front m rest, root.all = front ++ m :: rest → offset < m.start → ∀ k ∈ rest, offset < k.start := by
  have hfirst : hoverTarget? root offset = firstNaming? offset root.all := join_hoverIn? hlayout
  have hsource := hlayout.pairwise_all
  rw [hfirst]
  refine ⟨firstNaming?_eq_none_iff, fun X => firstNaming?_eq_some_iff, hsource, ?_⟩
  intro front m rest hsplit hbehind k hk
  rw [hsplit, List.pairwise_append, List.pairwise_cons] at hsource
  have hbegins := hlayout.start_le_start (m := m) (by simp [hsplit]) (hsource.2.1.1 k hk)
  omega

/-- Where a block ends and a name begins the name is found, and no identifier is met in front of it. At the
end of a literal there is none. -/
theorem hover_finds_first_shadowName : Layout shadowProgram ∧
    hoverTarget? shadowProgram 19 = some shadowName ∧
    (∃ front rest, shadowProgram.all = front ++ shadowName :: rest ∧
      ∀ m ∈ front, ¬ NamesOffset 19 m) ∧
    hoverTarget? shadowProgram 7 = none := by
  have hfound : hoverTarget? shadowProgram 19 = some shadowName := rfl
  obtain ⟨-, hsome, -⟩ := hover_finds_first layout_shadowProgram 19
  obtain ⟨hnone, -⟩ := hover_finds_first layout_shadowProgram 7
  exact ⟨layout_shadowProgram, hfound, ((hsome shadowName).1 hfound).2,
    hnone.2 (by decide +kernel)⟩

end ContentAssist
