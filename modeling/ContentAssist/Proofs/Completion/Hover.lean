import ContentAssist.Proofs.Completion.Walks
import ContentAssist.Proofs.Inference.ScopeBalance

/-! # Where hovering looks a name up

The identifier to hover over is the first one on the way down that touches the offset; its binding is
then looked up where the inference stopped, which is the first node on the way up that holds the
offset. Both are the same identifier unless something in front of it ends just at the offset: a
block, a catch clause, or a member access whose dot the offset is behind.

* `hoverIn?_eq`: the search at a node, from those at its children;
* `halt?_eq_hover_iff`: when the inference stops at the identifier;
* `hover_stops_iff`: the same of whole inferences, with the record that the name is looked up in;
* `hover_misses`: behind a block the binding of its inner variable is shown. -/

namespace ContentAssist

open Inference

section Search
variable {n m X : Node} {offset : Int}

/-! ### The search for the identifier -/

/-- What the search comes to below a node: `some none` if it has passed the offset. -/
def hoverIn? (offset : Int) (n : Node) : Option (Option Node) :=
  (n.visit (.entering (enterHover offset)) ()).1

theorem visitEach_hover (offset : Int) (cs : List Node) :
    (Node.visitEach (.entering (enterHover offset)) cs ()).1 = cs.findSome? (hoverIn? offset) := by
  induction cs with
  | nil => rfl
  | cons c cs ih =>
    rw [Node.visitEach, List.findSome?_cons]
    unfold hoverIn?
    rcases c.visit (.entering (enterHover offset)) () with ⟨_ | a, u⟩
    · exact ih
    · rfl

/-- The search ends at an identifier that touches the offset, and at the first node behind it. -/
theorem hoverIn?_eq (hspan : n.span?.isSome = true) : hoverIn? offset n =
    if n.kind = .identifier ∧ Cursor.isIn (some offset) n.span? then some (some n)
    else if offset < n.start then some none
    else n.children.findSome? (hoverIn? offset) := by
  have henter : (Visitor.entering (enterHover offset)).enter n () =
      if n.kind = .identifier ∧ Cursor.isIn (some offset) n.span? then (.found (some n), ())
      else if offset < n.start then (.found none, ()) else (.descend, ()) := by
    show enterHover offset n () = _
    unfold enterHover
    rw [span?_eq_some hspan]
  rw [hoverIn?, Node.visit_eq, henter]
  by_cases hn : n.kind = .identifier ∧ Cursor.isIn (some offset) n.span?
  · simp only [if_pos hn]
  · simp only [if_neg hn]
    by_cases hbehind : offset < n.start
    · simp only [if_pos hbehind]
    · simp only [if_neg hbehind, ← visitEach_hover]
      rcases Node.visitEach (.entering (enterHover offset)) n.children () with ⟨_ | a, u⟩ <;> rfl

theorem mem_of_hoverIn? (hlayout : Layout n) (h : hoverIn? offset n = some (some X)) :
    X ∈ n.all ∧ X.kind = .identifier ∧ X.start ≤ offset ∧ offset ≤ X.stop := by
  induction n using Node.induct with
  | step n ih =>
    have hspan := (hlayout.ranged n n.mem_all_self).1
    rw [hoverIn?_eq hspan] at h
    split at h
    · rename_i hn
      cases h
      exact ⟨Node.mem_all_self _, hn.1, (isIn_span_iff hspan).1 hn.2⟩
    · split at h
      · cases h
      · obtain ⟨c, hc, h⟩ := List.exists_of_findSome?_eq_some h
        obtain ⟨hX, hrest⟩ := ih c hc (hlayout.of_mem (Node.mem_all_of_mem_children hc)) h
        exact ⟨Node.mem_all_of_child hc hX, hrest⟩

/-- Where nothing is found no identifier touches the offset. -/
theorem not_isIn_of_hoverIn? (hlayout : Layout n) (h : hoverIn? offset n = none) (hm : m ∈ n.all)
    (hkind : m.kind = .identifier) : Cursor.isIn (some offset) m.span? = false := by
  induction n using Node.induct with
  | step n ih =>
    rw [hoverIn?_eq (hlayout.ranged n n.mem_all_self).1] at h
    split at h
    · cases h
    · rename_i hn
      split at h
      · cases h
      · rcases Node.mem_all_iff.1 hm with rfl | ⟨c, hc, hmc⟩
        · exact Bool.eq_false_iff.2 fun hin => hn ⟨hkind, hin⟩
        · exact ih c hc (hlayout.of_mem (Node.mem_all_of_mem_children hc))
            (List.findSome?_eq_none_iff.1 h c hc) hmc

/-! ### Where the inference stops -/

/-- A node that stops a walk stops it, here or before, if it does not lie behind the offset: then
none of the variable declarations around it is left out. -/
theorem halt?_ne_none_of_halts {source : String} (hlayout : Layout n) (hm : m ∈ n.all)
    (hhalts : halts (some offset) source m = true) (hstart : m.start ≤ offset) :
    halt? (some offset) source n ≠ none := by
  induction n using Node.induct with
  | step n ih =>
    have hbounds := hlayout.bounds hm
    have hspan := (hlayout.ranged n n.mem_all_self).1
    rw [halt?_eq, if_neg fun h => by
      have := (isBefore_span_iff hspan).1 h.2
      omega]
    rcases Node.mem_all_iff.1 hm with rfl | ⟨c, hc, hmc⟩
    · rw [if_pos hhalts]
      cases m.children.findSome? (halt? (some offset) source) <;> simp
    · have hchild := ih c hc (hlayout.of_mem (Node.mem_all_of_mem_children hc)) hmc
      rw [ne_eq, Option.or_eq_none_iff, List.findSome?_eq_none_iff]
      exact fun h => hchild (h.1 c hc)

theorem ne_of_mem_all_child {c : Node} (hc : c ∈ n.children) (hm : m ∈ c.all) : m ≠ n := by
  rintro rfl
  obtain ⟨step, path, hplace, hpath⟩ := Node.place_of_mem_children hc
  have h1 := (Node.suffix_of_mem_all hm).length_le
  have h2 := hpath.length_le
  rw [hplace, List.length_cons] at h1
  omega

/-- What ends in front of the identifier without being one does not stop the inference, and neither
does any part of the identifier itself. -/
structure Unhindered (offset : Int) (source : String) (root X : Node) : Prop where
  parts : ∀ c ∈ X.children, halt? (some offset) source c = none
  before : ∀ m ∈ root.all, m.kind ≠ .identifier → halts (some offset) source m = true →
    X.start < m.stop

theorem halt?_eq_hover_of_self {source : String} (hlayout : Layout X) (hkind : X.kind = .identifier)
    (hin : Cursor.isIn (some offset) X.span? = true) :
    halt? (some offset) source X = some X ↔ Unhindered offset source X X := by
  have hspan := (hlayout.ranged X X.mem_all_self).1
  have hhalts : halts (some offset) source X = true := by
    simp [halts, hkind, hin]
  rw [halt?_eq, if_neg (by simp [hkind]), if_pos hhalts]
  constructor
  · intro h
    have hparts : ∀ c ∈ X.children, halt? (some offset) source c = none := by
      refine List.findSome?_eq_none_iff.1 (Option.eq_none_iff_forall_not_mem.2 fun m hm => ?_)
      obtain ⟨c, hc, hcm⟩ := List.exists_of_findSome?_eq_some hm
      have hm' : m = X := by
        rw [Option.mem_def.1 hm] at h
        exact Option.some.inj h
      exact ne_of_mem_all_child hc (mem_of_halt? hcm).1 hm'
    refine ⟨hparts, fun m hm hother hm' => ?_⟩
    rcases Node.mem_all_iff.1 hm with rfl | ⟨c, hc, hmc⟩
    · exact absurd hkind hother
    · -- a part that could stop the walk lies behind the offset
      have hstart : offset < m.start := by
        by_contra hle
        exact halt?_ne_none_of_halts (hlayout.of_mem (Node.mem_all_of_mem_children hc)) hmc hm'
          (by omega) (hparts c hc)
      have hX := (isIn_span_iff hspan).1 hin
      have hwidth := (hlayout.ranged m hm).2
      omega
  · intro h
    rw [List.findSome?_eq_none_iff.2 h.parts]
    rfl

/-- At a node above the identifier the walk stops there if it does so in the child that holds the
identifier, and in none before. -/
theorem halt?_eq_iff_of_split {source : String} {c : Node} {front rest : List Node}
    (hlayout : Layout n) (hwidth : X.start < X.stop)
    (hXkind : X.kind = .identifier) (hXin : X.start ≤ offset ∧ offset ≤ X.stop)
    (hchildren : n.children = front ++ c :: rest) (hback : ∀ b ∈ front, b.stop ≤ c.start)
    (hXc : X ∈ c.all) : halt? (some offset) source n = some X ↔
      (∀ b ∈ front, halt? (some offset) source b = none) ∧ halt? (some offset) source c = some X := by
  have hcmem : c ∈ n.children := by simp [hchildren]
  have hclayout := hlayout.of_mem (Node.mem_all_of_mem_children hcmem)
  have hX := Node.mem_all_of_child hcmem hXc
  have hspan := (hlayout.ranged n n.mem_all_self).1
  have hXspan := (isIn_span_iff (hlayout.ranged X hX).1).2 hXin
  have hbounds := hlayout.bounds hX
  have hcbounds := hclayout.bounds hXc
  have hskip : ¬ (n.kind = .variableDeclaration ∧ Cursor.isBefore (some offset) n.span?) := by
    intro h
    have := (isBefore_span_iff hspan).1 h.2
    omega
  rw [halt?_eq, if_neg hskip, hchildren, List.findSome?_append, List.findSome?_cons]
  constructor
  · intro h
    have hhalts : halts (some offset) source X = true := by
      simp [halts, hXkind, hXspan]
    cases hf : front.findSome? (halt? (some offset) source) with
    | some m =>
      rw [hf] at h
      cases h
      obtain ⟨b, hb, hXb⟩ := List.exists_of_findSome?_eq_some hf
      have hbmem : b ∈ n.children := by simp [hchildren, hb]
      have := (hlayout.of_mem (Node.mem_all_of_mem_children hbmem)).bounds (mem_of_halt? hXb).1
      have := hback b hb
      omega
    | none =>
      refine ⟨List.findSome?_eq_none_iff.1 hf, ?_⟩
      rw [hf] at h
      cases hc : halt? (some offset) source c with
      | none => exact absurd hc (halt?_ne_none_of_halts hclayout hXc hhalts hXin.1)
      | some m =>
        rw [hc] at h
        exact h
  · rintro ⟨hfront, hc⟩
    rw [List.findSome?_eq_none_iff.2 hfront, hc]
    rfl

/-- What does not hinder the walk below the child that holds the identifier does not hinder it at the
node, if no child in front stops it. -/
theorem unhindered_iff_of_split {source : String} {c : Node} {front rest : List Node}
    (hlayout : Layout n) (hwidth : X.start < X.stop) (hXin : X.start ≤ offset ∧ offset ≤ X.stop)
    (hchildren : n.children = front ++ c :: rest) (hfront : ∀ b ∈ front, hoverIn? offset b = none)
    (hXc : X ∈ c.all) :
    (∀ b ∈ front, halt? (some offset) source b = none) ∧ Unhindered offset source c X ↔
      Unhindered offset source n X := by
  have hcmem : c ∈ n.children := by simp [hchildren]
  have hfrontmem : ∀ b ∈ front, b ∈ n.children := fun b hb => by simp [hchildren, hb]
  have hlayouts : ∀ b ∈ n.children, Layout b := fun b hb =>
    hlayout.of_mem (Node.mem_all_of_mem_children hb)
  have hbounds := hlayout.bounds (Node.mem_all_of_child hcmem hXc)
  have hcbounds := (hlayouts c hcmem).bounds hXc
  have hordered := hlayout.ordered n n.mem_all_self
  rw [hchildren, List.pairwise_append, List.pairwise_cons] at hordered
  have hback : ∀ b ∈ front, b.stop ≤ c.start := fun b hb => hordered.2.2 b hb c List.mem_cons_self
  constructor
  · rintro ⟨hnone, hunhindered⟩
    refine ⟨hunhindered.parts, fun m hm hother hhalts => ?_⟩
    rcases Node.mem_all_iff.1 hm with rfl | ⟨b, hb, hmb⟩
    · omega
    · have hmbounds := (hlayouts b hb).bounds hmb
      have hmwidth := hlayout.ranged m hm
      rw [hchildren, List.mem_append, List.mem_cons] at hb
      rcases hb with hb | rfl | hb
      · have hstart : m.start ≤ offset := by
          have := hback b hb
          omega
        exact absurd (hnone b hb)
          (halt?_ne_none_of_halts (hlayouts b (hfrontmem b hb)) hmb hhalts hstart)
      · exact hunhindered.before m hmb hother hhalts
      · have := hordered.2.1.1 b hb
        omega
  · intro hunhindered
    refine ⟨fun b hb => Option.eq_none_iff_forall_not_mem.2 fun m hm => ?_, hunhindered.parts,
      fun m hm => hunhindered.before m (Node.mem_all_of_child hcmem hm)⟩
    obtain ⟨hmb, hhalts⟩ := mem_of_halt? hm
    by_cases hkind : m.kind = .identifier
    · have hnot := not_isIn_of_hoverIn? (hlayouts b (hfrontmem b hb)) (hfront b hb) hmb hkind
      have hin : Cursor.isIn (some offset) m.span? = true := by
        simpa [halts, hkind] using hhalts
      rw [hnot] at hin
      cases hin
    · have hlt := hunhindered.before m (Node.mem_all_of_child (hfrontmem b hb) hmb) hkind hhalts
      have hle := ((hlayouts b (hfrontmem b hb)).bounds hmb).2
      have := hback b hb
      omega

/-- **When the inference stops at the identifier that is hovered over.** -/
theorem halt?_eq_hover_iff {source : String} (hlayout : Layout n) (hwidth : X.start < X.stop)
    (h : hoverIn? offset n = some (some X)) :
    halt? (some offset) source n = some X ↔ Unhindered offset source n X := by
  induction n using Node.induct with
  | step n ih =>
    obtain ⟨-, hXkind, hXin⟩ := mem_of_hoverIn? hlayout h
    rw [hoverIn?_eq (hlayout.ranged n n.mem_all_self).1] at h
    split at h
    · rename_i hn
      cases h
      exact halt?_eq_hover_of_self hlayout hn.1 hn.2
    · split at h
      · cases h
      · -- the walks go through the children in front of the one that holds the identifier
        obtain ⟨front, c, rest, hchildren, hc, hfront⟩ := List.findSome?_eq_some_iff.1 h
        have hcmem : c ∈ n.children := by simp [hchildren]
        have hclayout := hlayout.of_mem (Node.mem_all_of_mem_children hcmem)
        have hXc := (mem_of_hoverIn? hclayout hc).1
        have hordered := hlayout.ordered n n.mem_all_self
        rw [hchildren, List.pairwise_append] at hordered
        have hback : ∀ b ∈ front, b.stop ≤ c.start := fun b hb =>
          hordered.2.2 b hb c List.mem_cons_self
        rw [halt?_eq_iff_of_split hlayout hwidth hXkind hXin hchildren hback hXc,
          ih c hcmem hclayout hc, unhindered_iff_of_split hlayout hwidth hXin hchildren hfront hXc]

end Search

/-! ### Whole inferences -/

section Runs
variable {root X : Node} {offset : Int} {source : String}

/-- **Hovering looks the name up where the identifier stands** just if nothing in front of it hinders
the inference: then the inference stops at the identifier that is hovered over, and the name is
looked up in the record that it answers. -/
theorem hover_stops_iff (hlayout : Layout root) (hprogram : root.kind = .program)
    (hhover : hoverTarget? root offset = some X) (hwidth : X.start < X.stop) (index? : Option Index)
    (env : Environment) :
    (∃ fault s, run ⟨source, some offset, index?⟩ root env = (.error fault, s) ∧
      IndexFault ⟨source, some offset, index?⟩ fault s) ∨
    ∃ m scope s, run ⟨source, some offset, index?⟩ root env = (.ok scope, s) ∧
      StopsAt ⟨source, some offset, index?⟩ root env m scope s ∧
      (m = X ↔ Unhindered offset source root X) ∧
      (m = X → s.env.lookupDefinition? X.name (s.targetType X) =
        s.env.types.resolve? scope X.name) := by
  have hfound : hoverIn? offset root = some (some X) := Option.join_eq_some_iff.1 hhover
  have hkind := (mem_of_hoverIn? hlayout hfound).2.1
  rcases hrun : run ⟨source, some offset, index?⟩ root env with ⟨fault | scope, s⟩
  · have hfault := indexFault_run hprogram ⟨source, some offset, index?⟩ env fault (by rw [hrun])
    rw [hrun] at hfault
    exact Or.inl ⟨fault, s, rfl, hfault⟩
  · obtain ⟨m, hstop⟩ := exists_stopsAt_of_run hrun
    refine Or.inr ⟨m, scope, s, rfl, hstop, ?_, ?_⟩
    · have hhalt := hstop.halt?
      rw [← halt?_eq_hover_iff hlayout hwidth hfound, hhalt, Option.some.injEq]
    · rintro rfl
      obtain ⟨s₀, -, hv⟩ := hstop
      cases answers_of_visit hv with
      | program h => rw [h] at hkind; cases hkind
      | block h => rcases h with h | h <;> (rw [h] at hkind; cases hkind)
      | member h => rw [h] at hkind; cases hkind
      | identifier => rfl

/-- A variable, a block that declares another one of that name, and the name right behind it. -/
def shadowSource : String := "var a=1;\x7bvar a=\"s\"\x7da"

/-- The tree of `shadowSource`. -/
def shadowProgram : Node :=
  let span (start stop : Int) : String × Json := ("range", .arr [.int start, .int stop])
  let name (start stop : Int) : Json :=
    .obj [("type", .str "Identifier"), ("name", .str "a"), span start stop]
  let declaration (start stop first last : Int) (value : Json) : Json :=
    .obj [("type", .str "VariableDeclaration"), span start stop, ("declarations", .arr [
      .obj [("type", .str "VariableDeclarator"), span first last, ("id", name first (first + 1)),
        ("init", .obj [("type", .str "Literal"), span (first + 2) last, ("value", value)])]])]
  .root (.obj [("type", .str "Program"), span 0 20, ("body", .arr [
    declaration 0 8 4 7 (.int 1),
    .obj [("type", .str "BlockStatement"), span 8 19,
      ("body", .arr [declaration 9 18 13 18 (.str "s")])],
    .obj [("type", .str "ExpressionStatement"), span 19 20, ("expression", name 19 20)]])])

/-- The name behind the block. -/
def shadowName : Node :=
  (((shadowProgram.list "body").getLast?).getD shadowProgram).get "expression"

theorem layout_shadowProgram : Layout shadowProgram :=
  ⟨by decide +kernel, by decide +kernel, by decide +kernel⟩

/-- At the end of the name nothing hinders the inference. -/
theorem hover_stops_iff_shadowName : ∃ scope s,
    StopsAt ⟨shadowSource, some 20, none⟩ shadowProgram (.start "local") shadowName scope s ∧
      s.env.lookupDefinition? shadowName.name (s.targetType shadowName) =
        s.env.types.resolve? scope shadowName.name := by
  have hunhindered : Unhindered 20 shadowSource shadowProgram shadowName := by
    refine ⟨fun c hc => ?_, by decide +kernel⟩
    have hleaf : shadowName.children = [] := rfl
    rw [hleaf] at hc
    cases hc
  rcases @hover_stops_iff shadowProgram shadowName 20 shadowSource layout_shadowProgram
    (by decide +kernel) rfl (by decide +kernel) none (.start "local") with
    ⟨fault, s, -, hfault⟩ | ⟨m, scope, s, -, hstop, hiff, hscope⟩
  · rcases hfault with ⟨index, name, hsome, -⟩ | ⟨index, hsome, -⟩ <;> cases hsome
  · obtain rfl := hiff.2 hunhindered
    exact ⟨scope, s, hstop, hscope rfl⟩

/-- In front of the name the block ends: the inference stops at the block, and the variable that is
shown is the one inside of it. -/
theorem hover_misses :
    Layout shadowProgram ∧ hoverTarget? shadowProgram 19 = some shadowName ∧
      ∃ m scope s,
        StopsAt ⟨shadowSource, some 19, none⟩ shadowProgram (.start "local") m scope s ∧
        m.kind = .blockStatement ∧ m ≠ shadowName ∧
        (s.env.lookup? shadowName.name (s.targetType shadowName)) = some .string := by
  obtain ⟨scope, s, hrun⟩ := exists_run_ok (show shadowProgram.kind = .program by decide +kernel)
    ⟨shadowSource, some 19, none⟩ rfl (.start "local")
  obtain ⟨m, hstop⟩ := exists_stopsAt_of_run hrun
  have hkind : (halt? (some 19) shadowSource shadowProgram).map Node.kind = some .blockStatement := by
    decide +kernel
  have hm : m.kind = .blockStatement := by
    rw [hstop.halt?] at hkind
    exact Option.some.inj hkind
  have hlookup : ((fun s : State => s.env.lookup? shadowName.name (s.targetType shadowName))
      (run ⟨shadowSource, some 19, none⟩ shadowProgram (.start "local")).2) = some .string := by
    decide +kernel
  rw [hrun] at hlookup
  refine ⟨layout_shadowProgram, rfl, m, scope, s, hstop, hm, ?_, hlookup⟩
  rintro rfl
  revert hm
  decide +kernel

end Runs

end ContentAssist
