import ContentAssist.Proofs.Completion.Walks
import ContentAssist.Proofs.Inference.ScopeBalance

/-! # What the cursor asks for and where the inference stops

The site at an offset says whether the name of a member is asked for, and an inference at that
offset says which record the names come from. Both should speak of a member access or neither.

* `IsStopOf`: the inference stops on a member access;
* `scope_of_isStopOf`: what it answers there;
* `site_agrees_iff`: when the site and the stop agree on whether members are asked for. -/

namespace ContentAssist

open Inference

/-! ### Stops on a member access -/

/-- The inference stops on the member access `p`: behind its dot, or at its property if that is not
computed. -/
def IsStopOf (p m : Node) : Prop :=
  p.kind = .memberExpression ∧
    (m = p ∨ m.kind = .identifier ∧ p.flag "computed" = false ∧ m = p.get "property")

/-- A stop behind a dot that a property follows. -/
def IsInGap (m : Node) : Prop :=
  m.kind = .memberExpression ∧ (m.get "property").isNull = false

/-- A stop at an identifier that is a computed property. -/
def IsComputedName (root m : Node) : Prop :=
  m.kind = .identifier ∧ ∃ p ∈ root.all, p.kind = .memberExpression ∧
    p.flag "computed" = true ∧ m = p.get "property"

section Agreement
variable {root m : Node} {offset : Int} {source : String}

/-- Where the two notions of a stop on a member access part. -/
theorem namesMember_iff_isStopOf (hkeys : root.KeysDistinct) (hm : m ∈ root.all) :
    (NamesMember root m ↔ ∃ p ∈ root.all, IsStopOf p m) ↔
      ¬ IsInGap m ∧ ¬ IsComputedName root m := by
  constructor
  · intro h
    refine ⟨fun hgap => ?_, fun hcomputed => ?_⟩
    · exact not_namesMember_of_isLate (Or.inr hgap) (h.2 ⟨m, hm, hgap.1, Or.inl rfl⟩)
    · obtain ⟨hkind, p, hp, hpkind, hflag, hmp⟩ := hcomputed
      obtain ⟨q, hq, hqkind, rfl | ⟨-, hqflag, hmq⟩⟩ := h.1 (Or.inr ⟨hkind, p, hp, hpkind, hmp⟩)
      · rw [hkind] at hqkind
        cases hqkind
      · have hplace : p.place = q.place := by
          have := congrArg Node.place (hmp.symm.trans hmq)
          exact List.tail_eq_of_cons_eq this
        rw [Node.eq_of_place hkeys hp hq hplace, hqflag] at hflag
        cases hflag
  · rintro ⟨hgap, hcomputed⟩
    constructor
    · rintro (⟨hkind, hnull⟩ | ⟨hkind, p, hp, hpkind, hmp⟩)
      · exact ⟨m, hm, hkind, Or.inl rfl⟩
      · refine ⟨p, hp, hpkind, Or.inr ⟨hkind, ?_, hmp⟩⟩
        rw [Bool.eq_false_iff]
        exact fun hflag => hcomputed ⟨hkind, p, hp, hpkind, hflag, hmp⟩
    · rintro ⟨p, hp, hpkind, rfl | ⟨hkind, -, hmp⟩⟩
      · refine Or.inl ⟨hpkind, ?_⟩
        cases hnull : (m.get "property").isNull with
        | true => rfl
        | false => exact absurd ⟨hpkind, hnull⟩ hgap
      · exact Or.inr ⟨hkind, p, hp, hpkind, hmp⟩

/-- An inference that stops on a member access answers the record of the object's type. -/
theorem scope_of_isStopOf (hlayout : Layout root) (hscript : Script root) {index? : Option Index}
    {env : Environment} {scope : String} {s : State} {p : Node} (hp : p ∈ root.all)
    (hstop : StopsAt ⟨source, some offset, index?⟩ root env m scope s) (h : IsStopOf p m) :
    scope = s.env.scope (some (s.typeOf (p.get "object"))) := by
  have hmem := (mem_of_halt? hstop.halt?).1
  obtain ⟨s₀, -, hv⟩ := hstop
  have hanswers := answers_of_visit hv
  obtain ⟨hpkind, rfl | ⟨hkind, hflag, rfl⟩⟩ := h
  · cases hanswers with
    | program h => rw [h] at hpkind; cases hpkind
    | block h => rcases h with h | h <;> (rw [h] at hpkind; cases hpkind)
    | member => rfl
    | identifier h => rw [h] at hpkind; cases hpkind
  · have htarget := targetType_of_stop hscript.keys hlayout (hscript.access p hp hpkind) hp hpkind
      hflag rfl hkind (hscript.identifier _ hmem hkind)
      (fun h => by rw [h, hscript.program] at hkind; cases hkind) hv
    cases hanswers with
    | program h => rw [h] at hkind; cases hkind
    | block h => rcases h with h | h <;> (rw [h] at hkind; cases hkind)
    | member h => rw [h] at hkind; cases hkind
    | identifier => rw [htarget]

/-! ### Two programs with a member access -/

/-- The tree of `a[b]` if `computed`, else that of `a. b`. -/
def accessProgram (computed : Bool) : Node :=
  let span (start stop : Int) : String × Json := ("range", .arr [.int start, .int stop])
  let named (name : String) (start stop : Int) : Json :=
    .obj [("type", .str "Identifier"), ("name", .str name), span start stop]
  .root (.obj [("type", .str "Program"), span 0 4, ("body", .arr [
    .obj [("type", .str "ExpressionStatement"), span 0 4,
      ("expression", .obj [("type", .str "MemberExpression"), ("computed", .bool computed),
        span 0 4, ("object", named "a" 0 1),
        ("property", if computed then named "b" 2 3 else named "b" 3 4)])]])])

/-- The member access in the program. -/
def accessIn (root : Node) : Node := ((root.list "body").head?.getD root).get "expression"

theorem layout_accessProgram (computed : Bool) : Layout (accessProgram computed) := by
  cases computed
  · exact ⟨by decide +kernel, by decide +kernel, by decide +kernel⟩
  · exact ⟨by decide +kernel, by decide +kernel, by decide +kernel⟩

theorem eq_accessIn {computed : Bool} (hm : m ∈ (accessProgram computed).all)
    (hkind : m.kind = .memberExpression) : m = accessIn (accessProgram computed) := by
  have hall : (accessProgram computed).all =
      [accessProgram computed, ((accessProgram computed).list "body").head?.getD
        (accessProgram computed), accessIn (accessProgram computed),
        (accessIn (accessProgram computed)).get "object",
        (accessIn (accessProgram computed)).get "property"] := by
    cases computed <;> rfl
  have hother : ∀ k ∈ [accessProgram computed, ((accessProgram computed).list "body").head?.getD
      (accessProgram computed), (accessIn (accessProgram computed)).get "object",
      (accessIn (accessProgram computed)).get "property"], k.kind ≠ .memberExpression := by
    cases computed <;> decide +kernel
  rw [hall] at hm
  simp only [List.mem_cons, List.not_mem_nil, or_false] at hm
  rcases hm with rfl | rfl | rfl | rfl | rfl
  · exact absurd hkind (hother _ (by simp))
  · exact absurd hkind (hother _ (by simp))
  · rfl
  · exact absurd hkind (hother _ (by simp))
  · exact absurd hkind (hother _ (by simp))

theorem script_accessProgram (computed : Bool) : Script (accessProgram computed) where
  program := by cases computed <;> decide +kernel
  nested := by cases computed <;> decide +kernel
  keys := by
    unfold Node.KeysDistinct
    cases computed <;> decide +kernel
  identifier := by cases computed <;> decide +kernel
  access m hm hkind := by
    have hchildren : (accessIn (accessProgram computed)).children =
        [(accessIn (accessProgram computed)).get "object",
          (accessIn (accessProgram computed)).get "property"] := by
      cases computed <;> rfl
    rw [eq_accessIn hm hkind]
    constructor
    · simp [hchildren]
    · simp [hchildren]
    · intro _
      refine ⟨by simp [hchildren], ?_⟩
      cases computed <;> decide +kernel
  clause := by
    have hnone : ∀ m ∈ (accessProgram computed).all, m.kind ≠ .catchClause := by
      cases computed <;> decide +kernel
    exact fun m hm hkind => absurd hkind (hnone m hm)

/-! ### Agreement -/

/-- **When the site and the inference agree.** Where a completion applies, its site is one of
members just if the inference stops on a member access, and then the record is that of the object's
type. This fails in two places only: behind a dot that a property follows, where the site is not one
of members, and at an identifier that is a computed property, where it is. -/
theorem site_agrees_iff (hlayout : Layout root) (hscript : Script root) {index? : Option Index}
    {env : Environment} {scope : String} {s : State} {site : Site}
    (hsite : siteAt? root offset source = some site)
    (hrun : run ⟨source, some offset, index?⟩ root env = (.ok scope, s)) :
    ∃ m, StopsAt ⟨source, some offset, index?⟩ root env m scope s ∧
      ((site = .member ↔ ∃ p ∈ root.all, IsStopOf p m) ↔
        ¬ IsInGap m ∧ ¬ IsComputedName root m) ∧
      ∀ p ∈ root.all, IsStopOf p m → scope = s.env.scope (some (s.typeOf (p.get "object"))) := by
  obtain ⟨m, hstop⟩ := exists_stopsAt_of_run hrun
  obtain ⟨m', hm', hnames⟩ := site_eq_member_iff hlayout hscript hsite
  have hhalt := hstop.halt?
  obtain rfl : m = m' := Option.some.inj (hhalt.symm.trans hm')
  refine ⟨m, hstop, ?_, fun p hp h => scope_of_isStopOf hlayout hscript hp hstop h⟩
  rw [hnames]
  exact namesMember_iff_isStopOf hscript.keys (mem_of_halt? hhalt).1

/-- At the property of `a. b` a site of members and a stop on the member access go together. -/
theorem site_agrees_iff_property : ∃ m scope s,
    StopsAt ⟨"a. b", some 3, none⟩ (accessProgram false) (.start "local") m scope s ∧
      ((Site.member = .member ↔ ∃ p ∈ (accessProgram false).all, IsStopOf p m) ↔
        ¬ IsInGap m ∧ ¬ IsComputedName (accessProgram false) m) := by
  obtain ⟨scope, s, hrun⟩ := exists_run_ok (script_accessProgram false).program
    ⟨"a. b", some 3, none⟩ rfl (.start "local")
  have hsite : siteAt? (accessProgram false) 3 "a. b" = some .member := by decide +kernel
  obtain ⟨m, hstop, hiff, -⟩ := site_agrees_iff (layout_accessProgram false)
    (script_accessProgram false) hsite hrun
  exact ⟨m, scope, s, hstop, hiff⟩

/-- In the gap of `a. b` the site is `top` although the inference stops behind the dot, and at `b`
of `a[b]` it is one of members although the inference stops at a variable. -/
theorem site_disagrees :
    (siteAt? (accessProgram false) 2 "a. b" = some .top ∧ ∃ m scope s,
      StopsAt ⟨"a. b", some 2, none⟩ (accessProgram false) (.start "local") m scope s ∧
        ∃ p ∈ (accessProgram false).all, IsStopOf p m) ∧
    (siteAt? (accessProgram true) 2 "a[b]" = some .member ∧ ∃ m scope s,
      StopsAt ⟨"a[b]", some 2, none⟩ (accessProgram true) (.start "local") m scope s ∧
        ¬ ∃ p ∈ (accessProgram true).all, IsStopOf p m) := by
  constructor
  · refine ⟨by decide +kernel, ?_⟩
    obtain ⟨scope, s, hrun⟩ := exists_run_ok (script_accessProgram false).program
      ⟨"a. b", some 2, none⟩ rfl (.start "local")
    obtain ⟨m, hstop⟩ := exists_stopsAt_of_run hrun
    have hm : some (accessIn (accessProgram false)) = some m := hstop.halt?
    cases hm
    exact ⟨_, scope, s, hstop, _, (mem_of_halt? hstop.halt?).1, by decide +kernel, Or.inl rfl⟩
  · refine ⟨by decide +kernel, ?_⟩
    obtain ⟨scope, s, hrun⟩ := exists_run_ok (script_accessProgram true).program
      ⟨"a[b]", some 2, none⟩ rfl (.start "local")
    obtain ⟨m, hstop⟩ := exists_stopsAt_of_run hrun
    have hm : some ((accessIn (accessProgram true)).get "property") = some m := hstop.halt?
    cases hm
    refine ⟨_, scope, s, hstop, ?_⟩
    rintro ⟨p, hp, hpkind, h⟩
    obtain rfl := eq_accessIn hp hpkind
    rcases h with h | ⟨-, hflag, -⟩
    · have hkind := congrArg Node.kind h
      revert hkind
      decide +kernel
    · revert hflag
      decide +kernel

end Agreement

end ContentAssist
