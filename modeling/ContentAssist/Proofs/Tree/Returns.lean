import ContentAssist.Proofs.Tree.Layout
import ContentAssist.Proofs.Tree.Place
import ContentAssist.Tree.Return

/-! # Terminal returns

A statement can end with its last statement, with the body of a loop, with either branch: with its ending
parts. A return is terminal in a statement if ending parts lead to it. The search goes through the ending
parts from the last one on, and stops at the first return. In a tree in source order that is the one
behind all others.

* `endingParts`: the parts that a statement can end with;
* `Terminal`: the returns at which a statement can end;
* `lastReturn?_eq`: the search, in terms of the ending parts;
* `lastReturn?_eq_none_iff`, `stop_le_of_lastReturn?`: nothing is missed, and nothing lies behind;
* `lastReturn?_is_last`: the search finds the last terminal return. -/

namespace ContentAssist.Node

/-- The parts that a statement can end with, in the order of the source. -/
def endingParts (n : Node) : List Node :=
  match n.kind with
  | .blockStatement => (n.list "body").getLast?.toList
  | .switchCase => (n.list "consequent").getLast?.toList
  | .whileStatement | .doWhileStatement | .forStatement | .forInStatement | .forOfStatement
  | .catchClause => [n.get "body"]
  | .ifStatement => [n.get "consequent", n.get "alternate"]
  | .tryStatement => n.get "block" :: (n.handlers ++ [n.get "finalizer"])
  | .switchStatement => n.list "cases"
  | _ => []

/-- The return `r` is terminal in a statement: it is that statement, or terminal in an ending part. -/
inductive Terminal (r : Node) : Node → Prop
  | self (h : r.kind = .returnStatement) : Terminal r r
  | part {n p : Node} (hp : p ∈ n.endingParts) (h : Terminal r p) : Terminal r n

/-- The ending parts of all statements in the tree have spans that lie in those of their statements, and
follow one another. -/
structure InSourceOrder (root : Node) : Prop where
  ranged : ∀ m ∈ root.all, ∀ p ∈ m.endingParts, isNode p.value = true →
    p.span?.isSome = true ∧ p.start ≤ p.stop
  nested : ∀ m ∈ root.all, m.span?.isSome = true → ∀ p ∈ m.endingParts, isNode p.value = true →
    m.start ≤ p.start ∧ p.stop ≤ m.stop
  ordered : ∀ m ∈ root.all, m.endingParts.Pairwise fun p q =>
    isNode p.value = true → isNode q.value = true → p.stop ≤ q.start

variable {n p q r r' : Node}

/-! ### Ending parts -/

/-- Only some kinds of statements have ending parts, and returns and functions are none of them. -/
theorem kind_of_mem_endingParts (hp : p ∈ n.endingParts) :
    n.kind ≠ .other ∧ n.kind ≠ .returnStatement ∧ n.kind.isFunction = false := by
  unfold endingParts at hp
  cases hkind : n.kind <;> rw [hkind] at hp <;> first
    | exact absurd hp List.not_mem_nil
    | decide

theorem exists_field_of_mem_endingParts (hp : p ∈ n.endingParts) :
    ∃ key ∉ bookkeepingFields, p = n.get key ∨ p ∈ n.list key := by
  unfold endingParts at hp
  split at hp
  case h_3 | h_4 | h_5 | h_6 | h_7 | h_8 =>
    exact ⟨"body", by decide, Or.inl (List.mem_singleton.1 hp)⟩
  · exact ⟨"body", by decide, Or.inr (List.mem_of_getLast? (Option.mem_toList.1 hp))⟩
  · exact ⟨"consequent", by decide, Or.inr (List.mem_of_getLast? (Option.mem_toList.1 hp))⟩
  · rcases List.mem_cons.1 hp with rfl | hp
    · exact ⟨"consequent", by decide, Or.inl rfl⟩
    · exact ⟨"alternate", by decide, Or.inl (List.mem_singleton.1 hp)⟩
  · rcases List.mem_cons.1 hp with rfl | hp
    · exact ⟨"block", by decide, Or.inl rfl⟩
    · rcases List.mem_append.1 hp with hp | hp
      · unfold handlers at hp
        split at hp
        · exact ⟨"handler", by decide, Or.inl (List.mem_singleton.1 hp)⟩
        · exact ⟨"handlers", by decide, Or.inr hp⟩
      · exact ⟨"finalizer", by decide, Or.inl (List.mem_singleton.1 hp)⟩
  · exact ⟨"cases", by decide, Or.inr hp⟩
  · exact absurd hp List.not_mem_nil

theorem sizeOf_lt_of_mem_endingParts (hp : p ∈ n.endingParts) : sizeOf p.value < sizeOf n.value := by
  have hkind := (kind_of_mem_endingParts hp).1
  obtain ⟨key, -, rfl | hp⟩ := exists_field_of_mem_endingParts hp
  · exact sizeOf_get_lt hkind key
  · exact sizeOf_list_lt hkind hp

theorem mem_children_of_mem_endingParts (hp : p ∈ n.endingParts) (hnode : isNode p.value = true) :
    p ∈ n.children := by
  obtain ⟨key, hkey, rfl | hp⟩ := exists_field_of_mem_endingParts hp
  · exact get_mem_children hnode hkey
  · exact mem_children_of_mem_list hp hnode hkey

/-- **Induction from the ending parts to the statement.** -/
theorem endingInduct {P : Node → Prop} (step : ∀ n : Node, (∀ p ∈ n.endingParts, P p) → P n)
    (n : Node) : P n := by
  induction hk : sizeOf n.value using Nat.strongRecOn generalizing n with
  | _ k ih =>
    subst hk
    exact step n fun p hp => ih _ (sizeOf_lt_of_mem_endingParts hp) p rfl

/-! ### Terminal returns -/

theorem Terminal.isNode (h : Terminal r n) : isNode n.value = true := by
  cases h with
  | self h => exact isNode_of_kind (by rw [h]; decide)
  | part hp => exact isNode_of_kind (kind_of_mem_endingParts hp).1

/-- Only the return itself is terminal in a return. -/
theorem Terminal.eq_of_kind (h : Terminal r n) (hkind : n.kind = .returnStatement) : r = n := by
  cases h with
  | self => rfl
  | part hp => exact absurd hkind (kind_of_mem_endingParts hp).2.1

theorem Terminal.mem_all (h : Terminal r n) : r ∈ n.all := by
  induction h with
  | self => exact mem_all_self _
  | part hp h ih => exact mem_all_of_child (mem_children_of_mem_endingParts hp h.isNode) ih

/-- **A terminal return is in no function** of the tree. -/
theorem Terminal.not_mem_function (hkeys : n.KeysDistinct) (h : Terminal r n) {f : Node}
    (hf : f ∈ n.all) (hkind : f.kind.isFunction = true) : r ∉ f.all := by
  induction h with
  | self h =>
    intro hr
    -- the return stands above the function, and below it
    have hplace := (suffix_of_mem_all hf).eq_of_length_le (suffix_of_mem_all hr).length_le
    rw [← eq_of_place hkeys r.mem_all_self hf hplace, h] at hkind
    cases hkind
  | @part n p hp h ih =>
    intro hr
    have hpc := mem_children_of_mem_endingParts hp h.isNode
    rcases mem_all_iff.1 hf with rfl | ⟨c, hc, hfc⟩
    · rw [(kind_of_mem_endingParts hp).2.2] at hkind
      cases hkind
    · obtain rfl : p = c := eq_of_mem_children (hkeys n n.mem_all_self) hpc hc
        (suffix_of_mem_all h.mem_all) ((suffix_of_mem_all hfc).trans (suffix_of_mem_all hr))
      exact ih (hkeys.of_child hpc) hfc hr

/-! ### The search -/

theorem findSome?_attach_reverse {α β : Type} (f : α → Option β) (as : List α) :
    (as.attach.reverse.findSome? fun a => f a.1) = as.reverse.findSome? f := by
  conv_rhs => rw [← List.attach_map_subtype_val as, ← List.map_reverse, List.findSome?_map]
  rfl

theorem findSome?_reverse_eq_some {α β : Type} {f : α → Option β} {as : List α} {b : β}
    (h : as.reverse.findSome? f = some b) :
    ∃ front a back, as = front ++ a :: back ∧ f a = some b ∧ ∀ c ∈ back, f c = none := by
  obtain ⟨back, a, front, has, ha, hback⟩ := List.findSome?_eq_some_iff.1 h
  refine ⟨front.reverse, a, back.reverse, ?_, ha, fun c hc => hback c (List.mem_reverse.1 hc)⟩
  rw [← List.reverse_reverse as, has, List.reverse_append, List.reverse_cons, List.append_assoc]
  rfl

/-- **The search** answers a return itself, and else goes through the ending parts from the last one on. -/
theorem lastReturn?_eq (n : Node) : n.lastReturn? =
    if n.kind = .returnStatement then some n else n.endingParts.reverse.findSome? lastReturn? := by
  rw [lastReturn?.eq_def]
  split
  all_goals rename_i hkind
  all_goals simp only [hkind, endingParts, reduceCtorEq, if_true, if_false]
  case h_2 => cases (n.list "body").getLast? <;> simp
  case h_3 => cases (n.list "consequent").getLast? <;> simp
  case h_4 | h_5 | h_6 | h_7 | h_8 | h_9 => simp
  case h_10 =>
    rw [List.reverse_cons, List.findSome?_append]
    simp
  case h_11 =>
    rw [findSome?_attach_reverse, List.reverse_cons, List.reverse_append, List.findSome?_append,
      List.findSome?_append]
    simp
  case h_12 => exact findSome?_attach_reverse _ _
  case h_13 hreturn _ _ _ _ _ _ _ _ _ _ => rw [if_neg hreturn]; rfl

/-- **No terminal return is missed.** -/
theorem lastReturn?_eq_none_iff (n : Node) : n.lastReturn? = none ↔ ∀ r, ¬ Terminal r n := by
  induction n using endingInduct with
  | step n ih =>
    rw [lastReturn?_eq]
    split
    · rename_i hkind
      exact ⟨nofun, fun h => absurd (.self hkind) (h n)⟩
    · rename_i hkind
      rw [List.findSome?_eq_none_iff]
      constructor
      · rintro h r (hself | ⟨hp, hr⟩)
        · exact hkind hself
        · exact (ih _ hp).1 (h _ (List.mem_reverse.2 hp)) r hr
      · intro h p hp
        have hp := List.mem_reverse.1 hp
        exact (ih p hp).2 fun r hr => h r (.part hp hr)

theorem terminal_of_lastReturn? (h : n.lastReturn? = some r) : Terminal r n := by
  induction n using endingInduct with
  | step n ih =>
    rw [lastReturn?_eq] at h
    split at h
    · rename_i hkind
      cases h
      exact .self hkind
    · obtain ⟨p, hp, h⟩ := List.exists_of_findSome?_eq_some h
      have hp := List.mem_reverse.1 hp
      exact .part hp (ih p hp h)

/-! ### Source order -/

theorem InSourceOrder.of_child {c : Node} (h : InSourceOrder n) (hc : c ∈ n.children) :
    InSourceOrder c :=
  ⟨fun m hm => h.ranged m (mem_all_of_child hc hm), fun m hm => h.nested m (mem_all_of_child hc hm),
    fun m hm => h.ordered m (mem_all_of_child hc hm)⟩

theorem InSourceOrder.bounds (h : InSourceOrder n) (hspan : n.span?.isSome = true)
    (hwidth : n.start ≤ n.stop) (hr : Terminal r n) :
    n.start ≤ r.start ∧ r.start ≤ r.stop ∧ r.stop ≤ n.stop := by
  induction hr with
  | self => exact ⟨Int.le_refl _, hwidth, Int.le_refl _⟩
  | @part n p hp hr ih =>
    have hnode := hr.isNode
    obtain ⟨hpspan, hpwidth⟩ := h.ranged n n.mem_all_self p hp hnode
    obtain ⟨hstart, hstop⟩ := h.nested n n.mem_all_self hspan p hp hnode
    obtain ⟨h1, h2, h3⟩ := ih (h.of_child (mem_children_of_mem_endingParts hp hnode)) hpspan hpwidth
    exact ⟨Int.le_trans hstart h1, h2, Int.le_trans h3 hstop⟩

theorem InSourceOrder.bounds_part (h : InSourceOrder n) (hp : p ∈ n.endingParts)
    (hr : Terminal r p) : p.start ≤ r.start ∧ r.start ≤ r.stop ∧ r.stop ≤ p.stop := by
  obtain ⟨hspan, hwidth⟩ := h.ranged n n.mem_all_self p hp hr.isNode
  exact (h.of_child (mem_children_of_mem_endingParts hp hr.isNode)).bounds hspan hwidth hr

/-- **The other terminal returns end in front of the one that is found.** -/
theorem stop_le_of_lastReturn? (h : InSourceOrder n) (hfound : n.lastReturn? = some r)
    (hr : Terminal r' n) : r' = r ∨ r'.start ≤ r'.stop ∧ r'.stop ≤ r.start := by
  induction n using endingInduct with
  | step n ih =>
    rw [lastReturn?_eq] at hfound
    split at hfound
    · rename_i hkind
      cases hfound
      exact Or.inl (hr.eq_of_kind hkind)
    · rename_i hkind
      obtain ⟨front, p, back, hparts, hfound, hback⟩ := findSome?_reverse_eq_some hfound
      have hp : p ∈ n.endingParts := by simp [hparts]
      have hfoundr := terminal_of_lastReturn? hfound
      have hordered := h.ordered n n.mem_all_self
      rw [hparts, List.pairwise_append] at hordered
      rcases hr with hself | ⟨hq, hr⟩
      · exact absurd hself hkind
      · have hq' := hq
        rw [hparts, List.mem_append, List.mem_cons] at hq'
        rcases hq' with hfront | rfl | hlate
        · -- the part of the other return ends where that of the found one begins, or before
          have hle := hordered.2.2 _ hfront p List.mem_cons_self hr.isNode hfoundr.isNode
          have hbounds := h.bounds_part hq hr
          have hbounds' := h.bounds_part hp hfoundr
          omega
        · exact ih _ hq (h.of_child (mem_children_of_mem_endingParts hq hr.isNode)) hfound hr
        · exact absurd hr ((lastReturn?_eq_none_iff _).1 (hback _ hlate) r')

/-- **The search finds the last terminal return.** It finds none just if there is none. What it finds is
terminal, in a tree in source order it starts behind all other terminal returns, and it is in no function
of the tree. -/
theorem lastReturn?_is_last (n : Node) :
    (n.lastReturn? = none ↔ ∀ r, ¬ Terminal r n) ∧
      ∀ r, n.lastReturn? = some r → Terminal r n ∧
        (InSourceOrder n → ∀ r', Terminal r' n →
          r'.start ≤ r.start ∧ (r' = r ∨ r'.stop ≤ r.start)) ∧
        (n.KeysDistinct → ∀ f ∈ n.all, f.kind.isFunction = true → r ∉ f.all) := by
  refine ⟨lastReturn?_eq_none_iff n, fun r h => ?_⟩
  have hterminal := terminal_of_lastReturn? h
  refine ⟨hterminal, fun horder r' hr' => ?_, fun hkeys f hf hkind =>
    hterminal.not_mem_function hkeys hf hkind⟩
  rcases stop_le_of_lastReturn? horder h hr' with rfl | ⟨hwidth, hle⟩
  · exact ⟨Int.le_refl _, Or.inl rfl⟩
  · exact ⟨Int.le_trans hwidth hle, Or.inr hle⟩

/-- A block with a function that returns, and behind it an `if` whose other branch is a `try`. -/
def branchingBlock : Node :=
  let node (type : String) (start stop : Int) (fields : List (String × Json)) : Json :=
    .obj (("type", .str type) :: ("range", .arr [.int start, .int stop]) :: fields)
  let answer (value start stop : Int) : Json :=
    node "ReturnStatement" start stop [("argument",
      node "Literal" (start + 7) (start + 8) [("value", .int value)])]
  .root (node "BlockStatement" 0 66 [("body", .arr [
    node "FunctionDeclaration" 1 23 [("id", node "Identifier" 10 11 [("name", .str "f")]),
      ("params", .arr []), ("body", node "BlockStatement" 13 23 [("body", .arr [answer 1 14 22])])],
    node "IfStatement" 23 65 [("test", node "Identifier" 26 27 [("name", .str "c")]),
      ("consequent", answer 2 28 37),
      ("alternate", node "TryStatement" 42 65 [
        ("block", node "BlockStatement" 45 55 [("body", .arr [answer 3 46 54])]),
        ("handler", node "CatchClause" 55 65 [("param", node "Identifier" 61 62 [("name", .str "e")]),
          ("body", node "BlockStatement" 63 65 [("body", .arr [])])]),
        ("finalizer", .null)])]])])

/-- In the block the last return is the one in the inner block: the catch clause has none. -/
theorem lastReturn?_is_last_branching : InSourceOrder branchingBlock ∧ branchingBlock.KeysDistinct ∧
    ∃ r, branchingBlock.lastReturn? = some r ∧ r.start = 46 ∧
      (∀ r', Terminal r' branchingBlock → r'.start ≤ r.start ∧ (r' = r ∨ r'.stop ≤ r.start)) ∧
      ∀ f ∈ branchingBlock.all, f.kind.isFunction = true → r ∉ f.all := by
  have horder : InSourceOrder branchingBlock :=
    ⟨by decide +kernel, by decide +kernel, by decide +kernel⟩
  have hkeys : branchingBlock.KeysDistinct := by
    unfold KeysDistinct
    decide +kernel
  have hstart : branchingBlock.lastReturn?.map Node.start = some 46 := by decide +kernel
  obtain ⟨r, hr, hstart⟩ := Option.map_eq_some_iff.1 hstart
  obtain ⟨-, hlast, houtside⟩ := (lastReturn?_is_last branchingBlock).2 r hr
  exact ⟨horder, hkeys, r, hr, hstart, hlast horder, houtside hkeys⟩

end ContentAssist.Node
