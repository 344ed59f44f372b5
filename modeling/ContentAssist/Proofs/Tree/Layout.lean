import ContentAssist.Proofs.Tree.Visit
import ContentAssist.Tree.MemberAccess

/-! # Trees laid out in a source

In the tree of a source every node takes up a span, the spans of the children lie in that of the
node, and they follow one another. `Layout` says so of all nodes of a tree. Then whatever is below a
node lies in its span (`Layout.bounds`), so an offset outside of a node is outside of all below it.
-/

namespace ContentAssist

namespace Node

/-- The offset of the first character of a node. -/
def start (n : Node) : Int := (n.span?.getD ⟨0, 0⟩).start

/-- The offset behind the last character of a node. -/
def stop (n : Node) : Int := (n.span?.getD ⟨0, 0⟩).stop

end Node

/-- Every node of the tree has a span, those of its children lie in it, and they do not overlap. -/
structure Layout (root : Node) : Prop where
  ranged : ∀ m ∈ root.all, m.span?.isSome = true ∧ m.start ≤ m.stop
  nested : ∀ m ∈ root.all, ∀ c ∈ m.children, m.start ≤ c.start ∧ c.stop ≤ m.stop
  ordered : ∀ m ∈ root.all, m.children.Pairwise fun a b => a.stop ≤ b.start

namespace Layout

variable {n c m : Node} {offset : Int}

theorem of_mem (h : Layout n) (hm : m ∈ n.all) : Layout m :=
  ⟨fun k hk => h.ranged k (Node.mem_all_trans hm hk),
    fun k hk => h.nested k (Node.mem_all_trans hm hk),
    fun k hk => h.ordered k (Node.mem_all_trans hm hk)⟩

theorem bounds (h : Layout n) (hm : m ∈ n.all) : n.start ≤ m.start ∧ m.stop ≤ n.stop := by
  induction n using Node.induct with
  | step n ih =>
    rcases Node.mem_all_iff.1 hm with rfl | ⟨c, hc, hmc⟩
    · exact ⟨Int.le_refl _, Int.le_refl _⟩
    · obtain ⟨h1, h2⟩ := h.nested n n.mem_all_self c hc
      obtain ⟨h3, h4⟩ := ih c hc (h.of_mem (Node.mem_all_of_mem_children hc)) hmc
      constructor <;> omega

end Layout

/-! ### The cursor in a span -/

section Spans
variable {n : Node} {offset : Int}

theorem span?_eq_some (h : n.span?.isSome = true) : n.span? = some ⟨n.start, n.stop⟩ := by
  obtain ⟨span, hspan⟩ := Option.isSome_iff_exists.1 h
  simp [Node.start, Node.stop, hspan]

theorem isIn_span_iff (h : n.span?.isSome = true) :
    Cursor.isIn (some offset) n.span? = true ↔ n.start ≤ offset ∧ offset ≤ n.stop := by
  rw [span?_eq_some h]
  simp [Cursor.isIn]

theorem isBefore_span_iff (h : n.span?.isSome = true) :
    Cursor.isBefore (some offset) n.span? = true ↔ offset < n.start := by
  rw [span?_eq_some h]
  simp [Cursor.isBefore]

/-- Behind its dot the cursor is in a member access, not in the object, and not behind the start of
the property. -/
theorem bounds_of_afterDot {source : String} (h : afterDot (some offset) n source = true) :
    Cursor.isIn (some offset) n.span? = true ∧
      Cursor.isIn (some offset) (n.get "object").span? = false ∧
      ((n.get "property").span?.isSome = true → offset ≤ (n.get "property").start) := by
  unfold afterDot at h
  split at h
  · rename_i o object whole hcursor hobject hwhole
    cases hcursor
    have hbounds : ∀ limit : Int, ¬ (!Cursor.isIn (some offset) (some whole) ||
        Cursor.isIn (some offset) (some object) || decide (limit < offset)) = true →
        Cursor.isIn (some offset) (some whole) = true ∧
          Cursor.isIn (some offset) (some object) = false ∧ offset ≤ limit := by
      intro limit hout
      simpa [not_or, and_assoc] using hout
    rw [hwhole, hobject]
    dsimp only at h
    cases hprop : (n.get "property").span? with
    | none =>
      rw [hprop] at h
      dsimp only at h
      split at h
      · cases h
      · rename_i hout
        obtain ⟨hin, hobj, -⟩ := hbounds _ hout
        exact ⟨hin, hobj, fun hp => by cases hp⟩
    | some property =>
      rw [hprop] at h
      dsimp only at h
      split at h
      · cases h
      · rename_i hout
        obtain ⟨hin, hobj, hlimit⟩ := hbounds _ hout
        refine ⟨hin, hobj, fun _ => ?_⟩
        simpa [Node.start, hprop] using hlimit
  · cases h

end Spans

end ContentAssist
