import ContentAssist.Completion.Site
import ContentAssist.Dependencies
import ContentAssist.Proofs.Inference.FieldOrder

/-! # Requests and the order of fields

The searches of a request, too, read nodes by the names of their fields only. So nothing that is computed
from a tree depends on the order in which the parser wrote the fields of its nodes, as long as no two
children of a node have the same start.

* `siteAt?_normal`, `hoverTarget?_normal`, `checkTree_normal`: the searches, in a tree in normal form;
* `field_order_irrelevant`: trees that are the same up to the order of fields give the same results. -/

namespace ContentAssist

open Inference

/-! ### The site of a completion -/

section Sites
variable (offset : Int) (source : String) (n : Node)

theorem isInsideComment_normal : isInsideComment offset n.normal = isInsideComment offset n := by
  simp [isInsideComment]

theorem inComment_normal : inComment n.normal offset = inComment n offset := by
  unfold inComment
  rw [Node.list_normal, List.any_map]
  exact congrArg (List.any _) (funext fun c => isInsideComment_normal offset c)

theorem isInsideLiteral_normal : isInsideLiteral offset n.normal = isInsideLiteral offset n := by
  simp [isInsideLiteral]

theorem isBeforeBody_normal : isBeforeBody offset n.normal = isBeforeBody offset n := by
  simp [isBeforeBody]

theorem enterAround_normal (around : List Node) :
    enterAround offset source n.normal (around.map Node.normal) =
      ((enterAround offset source n around).1, (enterAround offset source n around).2.map Node.normal) := by
  unfold enterAround
  simp only [Node.kind_normal, Node.span?_normal, isInsideLiteral_normal, isBeforeBody_normal,
    Node.get_normal, Node.isNull_normal, afterDot_normal]
  split_ifs <;> rfl

theorem leaveAround_normal (around : List Node) : leaveAround offset n.normal (around.map Node.normal) =
    ((leaveAround offset n around).1, (leaveAround offset n around).2.map Node.normal) := by
  unfold leaveAround
  simp only [Node.kind_normal, Node.span?_normal, ← List.map_tail]
  split_ifs <;> rfl

theorem siteIn?_normal : siteIn? offset source n.normal = siteIn? offset source n := by
  simp [siteIn?, isBeforeBody_normal, afterDot_normal]

theorem siteAt?_normal {root : Node} (hstarts : root.DistinctStarts) :
    siteAt? root.normal offset source = siteAt? root offset source := by
  have hvisit := (Node.visit_normal_of_same (v := aroundVisitor offset source)
    (w := aroundVisitor offset source) (f := List.map Node.normal) hstarts
    (fun m _ => enterAround_normal offset source m) (fun m _ => leaveAround_normal offset m) []).1
  unfold siteAt?
  rw [inComment_normal, show root.normal.visit (aroundVisitor offset source) [] = _ from hvisit]
  split
  · rfl
  · rcases root.visit (aroundVisitor offset source) [] with ⟨_ | _ | _, _ | ⟨parent, around⟩⟩ <;> first
      | rfl
      | exact siteIn?_normal offset source parent

end Sites

/-! ### Hover -/

theorem enterHover_normal (offset : Int) (n : Node) (s : Unit) : enterHover offset n.normal s =
    ((enterHover offset n s).1.map (Option.map Node.normal), (enterHover offset n s).2) := by
  unfold enterHover
  rw [Node.kind_normal, Node.span?_normal]
  split
  · rfl
  · split
    · split <;> rfl
    · rfl

theorem hoverTarget?_normal {root : Node} (hstarts : root.DistinctStarts) (offset : Int) :
    hoverTarget? root.normal offset = (hoverTarget? root offset).map Node.normal := by
  have hvisit := Node.visit_normal (v := .entering (enterHover offset)) (w := .entering (enterHover offset))
    (f := id) (g := Option.map Node.normal) hstarts (fun m _ => enterHover_normal offset m)
    (fun _ _ _ => rfl) ()
  unfold hoverTarget?
  rw [show root.normal.visit (.entering (enterHover offset)) () = _ from hvisit]
  rcases root.visit (.entering (enterHover offset)) () with ⟨_ | _ | m, s⟩ <;> rfl

/-! ### Dependencies -/

theorem unknownModule_normal (n : Node) (name : String) :
    unknownModule n.normal name = unknownModule n name := by
  unfold unknownModule
  simp only [Node.value_normal, Json.get_normal, Json.int?_normal]

theorem checkModule_normal (knows : String → Bool) (n : Node) :
    checkModule knows n.normal = checkModule knows n := by
  unfold checkModule
  simp only [literalText?_normal, unknownModule_normal]

theorem namedModules_normal (n : Node) : namedModules n.normal = (namedModules n).map Node.normal := by
  have hlast : ∀ (k : Kind) (ns : List Node), ((ns.map Node.normal).filter fun m => m.kind = k).getLast? =
      (ns.filter fun m => m.kind = k).getLast?.map Node.normal := fun k ns => by
    rw [List.filter_map, List.getLast?_map]
    simp only [Function.comp_def, Node.kind_normal]
  unfold namedModules
  simp only [Node.list_normal, ← List.map_take, hlast]
  cases (((n.list "arguments").take 2).filter fun m => m.kind = .arrayExpression).getLast? with
  | none =>
    cases (((n.list "arguments").take 2).filter fun m => m.kind = .literal).getLast? <;> rfl
  | some names => exact Node.list_normal names _

theorem isLoaderCall_normal (n : Node) : isLoaderCall n.normal = isLoaderCall n := by
  simp [isLoaderCall]

theorem enterCheck_normal (knows : String → Bool) (n : Node) (found : List Diagnostic) :
    enterCheck knows n.normal found = enterCheck knows n found := by
  unfold enterCheck
  rw [isLoaderCall_normal, namedModules_normal, List.filterMap_map]
  simp only [Function.comp_def, checkModule_normal]

theorem checkTree_normal {root : Node} (hstarts : root.DistinctStarts) (knows : String → Bool) :
    checkTree knows root.normal = checkTree knows root := by
  have hvisit := (Node.visit_normal_of_same (v := .entering (enterCheck knows))
    (w := .entering (enterCheck knows)) (f := id) hstarts (fun m _ => enterCheck_normal knows m)
    (fun _ _ _ => rfl) []).1
  exact congrArg Prod.snd hvisit

/-! ### All results -/

/-- **The order of fields is irrelevant.** Let two trees be the same up to the order of the fields of
their objects, with no two children of a node that have the same start. They have the same nodes in the
same order. Visitors that do the same at the same places walk them alike: with the same answer, the same
state, and the same moves. An inference comes to the same answer and the same state, up to the order of
fields in the nodes that the state remembers; a completion has the same site, an offset the same
identifier, and the dependencies have the same problems, in the same order. -/
theorem field_order_irrelevant {v w : Json} (h : v.Reordered w) (hstarts : (Node.root v).DistinctStarts) :
    (Node.root v).all.map Node.normal = (Node.root w).all.map Node.normal ∧
      (∀ (σ α : Type) (p q : Visitor σ α), p.SameAtPlaces q (.root v) (.root w) → ∀ s,
        (Node.root v).visit p s = (Node.root w).visit q s ∧
          ((Node.root v).moves p s).map (Move.normal id) =
            ((Node.root w).moves q s).map (Move.normal id)) ∧
      (∀ task env, (run task (.root v) env).1 = (run task (.root w) env).1 ∧
        (run task (.root v) env).2.normal = (run task (.root w) env).2.normal) ∧
      (∀ offset source, siteAt? (.root v) offset source = siteAt? (.root w) offset source) ∧
      (∀ offset, (hoverTarget? (.root v) offset).map Node.normal =
        (hoverTarget? (.root w) offset).map Node.normal) ∧
      ∀ knows, checkTree knows (.root v) = checkTree knows (.root w) := by
  have hnormal : (Node.root v).normal = (Node.root w).normal := congrArg (Node.mk []) h.normal_eq
  have hstarts' := hstarts.of_normal_eq hnormal
  refine ⟨?_, fun σ α p q hsame s => Node.visit_of_normal_eq hnormal hstarts hsame s, fun task env => ?_,
    fun offset source => ?_, fun offset => ?_, fun knows => ?_⟩
  · rw [← Node.all_normal hstarts, hnormal, Node.all_normal hstarts']
  · have hrun := run_normal task hstarts env
    rw [hnormal, run_normal task hstarts' env] at hrun
    exact ⟨(congrArg Prod.fst hrun).symm, (congrArg Prod.snd hrun).symm⟩
  · rw [← siteAt?_normal offset source hstarts, hnormal, siteAt?_normal offset source hstarts']
  · rw [← hoverTarget?_normal hstarts, hnormal, hoverTarget?_normal hstarts']
  · rw [← checkTree_normal hstarts, hnormal, checkTree_normal hstarts']

/-- The tree of `var a = require('m')`, where `order` arranges the fields of the declarator and of the
call. -/
def requireTree (order : List (String × Json) → List (String × Json)) : Json :=
  let node (type : String) (start stop : Int) (fields : List (String × Json)) : List (String × Json) :=
    ("type", .str type) :: ("range", .arr [.int start, .int stop]) :: fields
  .obj (node "Program" 0 20 [("body", .arr [
    .obj (node "VariableDeclaration" 0 20 [("declarations", .arr [
      .obj (order (node "VariableDeclarator" 4 20 [
        ("id", .obj (node "Identifier" 4 5 [("name", .str "a")])),
        ("init", .obj (order (node "CallExpression" 8 20 [
          ("callee", .obj (node "Identifier" 8 15 [("name", .str "require")])),
          ("arguments", .arr [.obj (node "Literal" 16 19 [("value", .str "m")])])])))]))])])])])

/-- Written from the last field to the first one, the value of the variable comes in front of its name. The
problem with the module and the hover target are the same. -/
theorem field_order_irrelevant_require :
    (requireTree id).Reordered (requireTree List.reverse) ∧
      (Node.root (requireTree id)).DistinctStarts ∧
      (checkTree (fun _ => false) (.root (requireTree List.reverse))).map (·.description) =
        ["Cannot find module 'm'"] ∧
      (hoverTarget? (.root (requireTree List.reverse)) 4).bind Node.name = some "a" ∧
      ∀ task env, (run task (.root (requireTree id)) env).1 =
        (run task (.root (requireTree List.reverse)) env).1 := by
  have hreordered : (requireTree id).Reordered (requireTree List.reverse) := by
    -- from the program to the declarator, and from there to the call
    refine .obj (.cons (.same _) (.cons (.same _) (.cons (.arr (.cons ?_ .nil)) .nil))) (by decide) (.refl _)
    refine .obj (.cons (.same _) (.cons (.same _) (.cons (.arr (.cons ?_ .nil)) .nil))) (by decide) (.refl _)
    refine .obj (.cons (.same _) (.cons (.same _) (.cons (.same _) (.cons ?_ .nil)))) (by decide)
      (List.reverse_perm _).symm
    exact .obj (.cons (.same _) (.cons (.same _) (.cons (.same _) (.cons (.same _) .nil)))) (by decide)
      (List.reverse_perm _).symm
  have hstarts : (Node.root (requireTree id)).DistinctStarts := by
    unfold Node.DistinctStarts
    decide +kernel
  obtain ⟨-, -, hrun, -, hhover, hcheck⟩ := field_order_irrelevant hreordered hstarts
  refine ⟨hreordered, hstarts, ?_, ?_, fun task env => (hrun task env).1⟩
  · rw [← hcheck]
    decide +kernel
  · have hname : ∀ m : Option Node, (m.map Node.normal).bind Node.name = m.bind Node.name := fun m => by
      cases m <;> simp
    rw [← hname, ← hhover, hname]
    decide +kernel

end ContentAssist
