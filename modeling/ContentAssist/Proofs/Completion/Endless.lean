import ContentAssist.Completion.Proposal
import ContentAssist.Inference.Run
import ContentAssist.Proofs.Completion.Description
import Mathlib.Logic.Relation

/-! # Descriptions that never end

Inside the description of a generated record its members are shown without theirs, but a function is
shown by its result, and that in full again. So a description goes on from record to record along the
results of their members, and never ends if that way leads in a circle.

* `LeadsOn`: a record whose description goes on with that of another one;
* `ends_iff`: a description ends unless it comes to a record that leads back to itself;
* `describe?_named`, `describe?_result`, `describe?_signature`: what a description consists of,
  without fuel;
* `description_exact`: what is described, how, and when all visible members can be proposed. -/

namespace ContentAssist

open Relation (ReflTransGen TransGen)

namespace Table

variable {t : Table} {deep : Bool} {name a b : String} {r : Record} {fuel : Nat}

/-! ### The way through the results of members -/

/-- The description of the generated record `a` goes on with that of `b` in full: a member of `a` is a
function that results in `b`. -/
def LeadsOn (t : Table) (a b : String) : Prop :=
  Ty.isGenerated a = true ∧ ∃ r m, t.find? a = some r ∧ m ∈ r.members.entries ∧
    m.2.type.isFunction = true ∧ m.2.type.leaf = b

/-- From the name one comes to a record that leads back to itself. -/
def Circles (t : Table) (name : String) : Prop :=
  ∃ k, ReflTransGen t.LeadsOn name k ∧ TransGen t.LeadsOn k k

theorem Circles.of_leadsOn (h : t.LeadsOn a b) (hb : t.Circles b) : t.Circles a := by
  obtain ⟨k, hbk, hk⟩ := hb
  exact ⟨k, .head h hbk, hk⟩

theorem not_circles_of_ends (h : Ends t deep name) (hdeep : deep = true) : ¬ t.Circles name := by
  have hstuck : ∀ {name}, (∀ b, ¬ t.LeadsOn name b) → ¬ t.Circles name := by
    rintro name hno ⟨k, hreach, hk⟩
    have hname : name = k := by
      rcases ReflTransGen.cases_head hreach with h | ⟨b, hb, -⟩
      · exact h
      · exact absurd hb (hno b)
    subst hname
    obtain ⟨b, hb, -⟩ := TransGen.head'_iff.1 hk
    exact hno b hb
  induction h with
  | plain hg => exact hstuck fun b hb => Bool.noConfusion (hg.symm.trans hb.1)
  | missing hr =>
    refine hstuck fun b hb => ?_
    obtain ⟨-, r, m, hr', -⟩ := hb
    rw [hr] at hr'
    cases hr'
  | brief => exact Bool.noConfusion hdeep
  | @full name r hr _ ih =>
    have hnext : ∀ b, t.LeadsOn name b → ¬ t.Circles b := by
      rintro b ⟨-, r', m, hr', hm, hfunction, rfl⟩
      cases hr.symm.trans hr'
      exact ih m hm hfunction
    rintro ⟨k, hreach, hk⟩
    rcases ReflTransGen.cases_head hreach with rfl | ⟨b, hb, hbk⟩
    · -- the circle goes through the name itself, so what comes next is on it, too
      obtain ⟨b, hb, hback⟩ := TransGen.head'_iff.1 hk
      exact hnext b hb ⟨b, .refl, TransGen.tail' hback hb⟩
    · exact hnext b hb ⟨k, hbk, hk⟩

/-- A description that comes to no circle ends: on its way it meets each record once. -/
theorem ends_of_not_circles (h : ¬ t.Circles name) : Ends t true name := by
  have hall : ∀ (n : Nat) (seen : List String) (name : String), t.unseen seen ≤ n →
      (∀ s ∈ seen, TransGen t.LeadsOn s name) → ¬ t.Circles name → Ends t true name := by
    intro n
    induction n with
    | zero =>
      intro seen name hunseen hseen hno
      cases hr : t.find? name with
      | none => exact .missing hr
      | some r =>
        have hnew : name ∉ seen := fun hmem => hno ⟨name, .refl, hseen name hmem⟩
        have hlt := t.unseen_cons_lt hnew hr
        omega
    | succ n ih =>
      intro seen name hunseen hseen hno
      cases hg : Ty.isGenerated name with
      | false => exact .plain hg
      | true =>
        cases hr : t.find? name with
        | none => exact .missing hr
        | some r =>
          have hnew : name ∉ seen := fun hmem => hno ⟨name, .refl, hseen name hmem⟩
          have hlt := t.unseen_cons_lt hnew hr
          refine .full hr fun m hm => ?_
          cases hfunction : m.2.type.isFunction with
          | false => exact .brief
          | true =>
            have hstep : t.LeadsOn name m.2.type.leaf := ⟨hg, r, m, hr, hm, hfunction, rfl⟩
            refine ih (name :: seen) _ (by omega) (fun s hs => ?_) fun hb => hno (hb.of_leadsOn hstep)
            rcases List.mem_cons.1 hs with rfl | hs
            · exact .single hstep
            · exact (hseen s hs).tail hstep
  exact hall (t.unseen []) [] name (Nat.le_refl _) (fun s hs => absurd hs List.not_mem_nil) h

/-- **A description in full ends** if and only if the way through the results of members comes to no
circle. -/
theorem ends_iff : Ends t true name ↔ ¬ t.Circles name :=
  ⟨fun h => not_circles_of_ends h rfl, ends_of_not_circles⟩

/-! ### What a description consists of -/

theorem describeName_succ_eq {s : String} (h : t.describeName fuel deep name = some s) :
    t.describeName (fuel + 1) deep name = some s := by
  induction fuel generalizing deep name s with
  | zero =>
    rw [describeName.eq_def] at h ⊢
    cases hg : Ty.isGenerated name with
    | false => simpa [hg] using h
    | true =>
      cases hr : t.find? name with
      | none => simpa [hg, hr] using h
      | some r => cases deep <;> simp [hg, hr] at h ⊢; exact h
  | succ fuel ih =>
    rw [describeName.eq_def] at h ⊢
    cases hg : Ty.isGenerated name with
    | false => simpa [hg] using h
    | true =>
      cases hr : t.find? name with
      | none => simpa [hg, hr] using h
      | some r =>
        cases deep with
        | false => simpa [hg, hr] using h
        | true =>
          simp only [hg, hr, Bool.not_true, Bool.false_eq_true, if_false] at h ⊢
          obtain ⟨parts, hparts, rfl⟩ := Option.map_eq_some_iff.1 h
          refine Option.map_eq_some_iff.2 ⟨parts, mapM_eq_some_iff.2 ?_, rfl⟩
          refine (mapM_eq_some_iff.1 hparts).imp fun m part hm => ?_
          obtain ⟨shown, hshown, rfl⟩ := Option.map_eq_some_iff.1 hm
          rw [ih hshown]
          rfl

/-- More fuel than there are records changes nothing. -/
theorem describeName_size_succ (t : Table) (deep : Bool) (name : String) :
    t.describeName (t.size + 1) deep name = t.describeName t.size deep name := by
  cases h : t.describeName t.size deep name with
  | some s => exact describeName_succ_eq h
  | none =>
    refine Option.not_isSome_iff_eq_none.1 fun hsome => ?_
    have hends := isSome_describeName_iff.2 (ends_of_isSome_describeName hsome)
    rw [h] at hends
    exact Bool.noConfusion hends

theorem describe?_member (t : Table) (type : Ty) : t.describe? type false false =
    t.describeName t.size type.isFunction type.leaf := by
  cases type <;> rfl

/-- A name described without fuel: by itself, or if it is that of a generated record, by the members of
that, with their types or without. -/
def describeMembers (t : Table) (name : String) (deep : Bool) : Option String :=
  if !Ty.isGenerated name then some name
  else
    match t.find? name with
    | none => some (braced [])
    | some r =>
      if deep then
        (r.members.entries.mapM fun m => (t.describe? m.2.type false false).map fun shown =>
          shownName m.1 ++ " : " ++ shown).map braced
      else some (braced (r.members.keys.map fun m => shownName m ++ " : \x7b...\x7d"))

/-- **A name** is described by its members, one level deep, or without their types. -/
theorem describe?_named (t : Table) (name : String) (signature deep : Bool) :
    t.describe? (.named name) signature deep = t.describeMembers name deep := by
  have hdescribe : t.describe? (.named name) signature deep =
      t.describeName (t.size + 1) deep name := (t.describeName_size_succ deep name).symm
  rw [hdescribe, describeName.eq_def, describeMembers]
  simp only [describe?_member]
  cases t.find? name with
  | none => rfl
  | some r => cases deep <;> rfl

/-- **A function** is described by its result, in full wherever it stands. -/
theorem describe?_result (t : Table) (r : Ty) (params : List String) (deep : Bool) :
    t.describe? (.function r params) false deep = t.describe? r false true := by
  cases r <;> rfl

/-- **The signature of a function** has its parameters and its result, which is not shown in full. -/
theorem describe?_signature (t : Table) (r : Ty) (params : List String) (deep : Bool) :
    t.describe? (.function r params) true deep = (t.describe? r true false).map fun shown =>
      "(" ++ Text.joined "," params ++ ") -> " ++ shown := by
  cases r with
  | named name =>
    change (t.describeName t.size false name).map _ = (t.describeName t.size false name).map _
    congr 1
    funext shown
    simp [signatureHead, String.append_assoc]
  | function r ps =>
    change (t.describeName t.size false r.leaf).map _ =
      ((t.describeName t.size false r.leaf).map _).map _
    rw [Option.map_map]
    congr 1
    funext shown
    simp [signatureHead, String.append_assoc]

end Table

/-! ### When there is a description -/

/-- Whether the record at the leaf of a type is described in full. -/
def Ty.InFull (type : Ty) (signature deep : Bool) : Prop :=
  match type with
  | .named _ => deep = true
  | .function _ _ => signature = false

theorem Table.isSome_describe?_iff_not_circles (t : Table) (type : Ty) (signature deep : Bool) :
    (t.describe? type signature deep).isSome = true ↔
      ¬ (type.InFull signature deep ∧ t.Circles type.leaf) := by
  have hname : ∀ (deep : Bool) (name : String), (t.describeName t.size deep name).isSome = true ↔
      ¬ (deep = true ∧ t.Circles name) := by
    intro deep name
    cases deep with
    | false => exact iff_of_true isSome_describeName_brief fun h => Bool.noConfusion h.1
    | true => rw [isSome_describeName_iff, ends_iff, and_iff_right rfl]
  cases type with
  | named name => exact hname deep name
  | function r params =>
    cases signature with
    | false =>
      have hresult : t.describe? (.function r params) false deep =
          t.describeName t.size true r.leaf := rfl
      rw [hresult, hname true r.leaf]
      exact not_congr (and_congr_left fun _ => iff_of_true rfl rfl)
    | true =>
      have hsignature : t.describe? (.function r params) true deep =
          (t.describeName t.size false r.leaf).map (Table.signatureHead (.function r params) ++ ·) := rfl
      rw [hsignature, Option.isSome_map]
      exact iff_of_true Table.isSome_describeName_brief fun h => Bool.noConfusion h.1

/-- **Descriptions.** For every table, a type has no finite description exactly if it is one that is
described in full, and the way through the results of members comes from it to a record that leads
back to itself. A name is described by its members, one level deep; a function by its result, in full
again, or by its parameters and its result without. So the members visible on a record cannot be
proposed exactly if the type of one of them comes to a circle. -/
theorem description_exact (t : Table) :
    (∀ type signature deep, t.describe? type signature deep = none ↔
      type.InFull signature deep ∧ t.Circles type.leaf) ∧
    (∀ name signature deep, t.describe? (.named name) signature deep = t.describeMembers name deep) ∧
    (∀ r params deep, t.describe? (.function r params) false deep = t.describe? r false true) ∧
    (∀ r params deep, t.describe? (.function r params) true deep =
      (t.describe? r true false).map fun shown =>
        "(" ++ Text.joined "," params ++ ") -> " ++ shown) ∧
    ∀ record site typed start, proposals? t record site typed start = none ↔
      ∃ m ∈ visibleMembers t record site typed, t.Circles m.2.leaf := by
  refine ⟨fun type signature deep => ?_, t.describe?_named, t.describe?_result,
    t.describe?_signature, fun record site typed start => ?_⟩
  · rw [← Option.not_isSome_iff_eq_none, t.isSome_describe?_iff_not_circles, not_not]
  · rw [← Option.not_isSome_iff_eq_none, proposals?, Option.isSome_map, isSome_mapM_iff]
    simp only [Option.isSome_map, proposalFor?, Table.isSome_describe?_iff, Table.ends_iff,
      not_forall, not_not, exists_prop]

/-! ### A method that returns its object -/

/-- An object with a method that returns the object. -/
def selfReturningSource : String := "var o=\x7bf:function()\x7breturn this\x7d\x7d;"

/-- The tree of `selfReturningSource`. -/
def selfReturningProgram : Node :=
  let node (type : String) (start stop : Int) (fields : List (String × Json)) : Json :=
    .obj (("type", .str type) :: ("range", .arr [.int start, .int stop]) :: fields)
  let method : Json := node "FunctionExpression" 9 32 [("params", .arr []),
    ("body", node "BlockStatement" 19 32 [("body", .arr [
      node "ReturnStatement" 20 31 [("argument", node "ThisExpression" 27 31 [])]])])]
  let object : Json := node "ObjectExpression" 6 33 [("properties", .arr [
    node "Property" 7 32 [("key", node "Identifier" 7 8 [("name", .str "f")]), ("value", method)]])]
  .root (node "Program" 0 34 [("body", .arr [
    node "VariableDeclaration" 0 34 [("declarations", .arr [
      node "VariableDeclarator" 4 33 [("id", node "Identifier" 4 5 [("name", .str "o")]),
        ("init", object)]])]])])

/-- **A method that returns its object**: the analysis of the program ends, but the description of the
object does not, and no completion can be offered for its name. -/
theorem method_returns_object :
    let (answer, s) :=
      Inference.run ⟨selfReturningSource, some 34, none⟩ selfReturningProgram (.start "local")
    answer = .ok "Global" ∧
      (s.env.lookup? (some "o") none).map (s.env.types.describe? · false true) = some none ∧
      proposals? s.env.types "Global" .top "o" 33 = none := by
  decide +kernel

end ContentAssist
