import ContentAssist.Proofs.Inference.Descent
import ContentAssist.Proofs.Inference.ScopeChain

/-! # Under which name a function is bound

A function without a name of its own is bound under the name of what it is assigned to: a declared
variable, the left side of an assignment, or the key of a property. It is told so when the node is
entered in whose fields both stand, and nothing else is learnt about it later. So when a function is left
it gives its type to no other name than its own or the one that it was told.

* `Tells`: an identifier and what is bound under its name stand in two fields of one node;
* `boundName_enter`, `boundName_leave`: the two steps at a node;
* `firstName_of_descended`: the name of a constructor;
* `finalName_of_descended`: the name that a function gives its type to. -/

namespace ContentAssist.Inference

variable {task : Task} {n : Node} {s s' : State} {place : Place} {name : Name} {x : String}

/-- The identifier and the place stand in fields of the node, or of one of its properties. -/
inductive Tells (n : Node) : Place → Name → Prop
  | field (key : String) {idKey : String} (hid : idKey ∉ bookkeepingFields) :
      Tells n (n.get key).place (n.get idKey).identifier?
  | property {p : Node} (hp : p ∈ n.list "properties") (key : String) {idKey : String}
      (hid : idKey ∉ bookkeepingFields) : Tells n (p.get key).place (p.get idKey).identifier?

theorem boundName_bindFunction (value : Node) (name : Name) (span : Option Span) (s : State)
    (place : Place) :
    ((bindFunction value name span s).facts.at place).boundName = (s.facts.at place).boundName ∨
      place = value.place ∧ ((bindFunction value name span s).facts.at place).boundName = name := by
  unfold bindFunction
  split
  · rw [at_learn]
    split
    · rename_i h
      exact Or.inr ⟨h.symm, rfl⟩
    · exact Or.inl rfl
  · exact Or.inl rfl

theorem boundName_enterDeclarator (n : Node) (s : State) (place : Place) :
    ((enterDeclarator n s).facts.at place).boundName = (s.facts.at place).boundName ∨
      Tells n place ((enterDeclarator n s).facts.at place).boundName := by
  unfold enterDeclarator
  dsimp only
  split
  · exact Or.inl rfl
  · rename_i name hid
    have hlearn : Kept Fact.boundName s (s.learn (n.get "id") fun k => { k with isDefined := true }) :=
      Kept.learn _ fun _ => rfl
    rcases boundName_bindFunction (n.get "init") (some name) (n.get "id").span?
      (s.learn (n.get "id") fun k => { k with isDefined := true }) place with h | ⟨rfl, h⟩
    · exact Or.inl (h.trans (hlearn place))
    · rw [h, ← hid]
      exact Or.inr (.field "init" (by decide))

theorem boundName_enterAssignment (n : Node) (s : State) (place : Place) :
    ((enterAssignment n s).facts.at place).boundName = (s.facts.at place).boundName ∨
      Tells n place ((enterAssignment n s).facts.at place).boundName := by
  unfold enterAssignment
  dsimp only
  split
  · rename_i hleft
    rcases boundName_bindFunction (n.get "right") (n.get "left").name (n.get "left").span? s place
      with h | ⟨rfl, h⟩
    · exact Or.inl h
    · rw [h, show (n.get "left").name = (n.get "left").identifier? from (if_pos hleft).symm]
      exact Or.inr (.field "right" (by decide))
  · exact Or.inl rfl

theorem boundName_enterProperty (object : Ty) {p : Node} (hp : p ∈ n.list "properties") (s : State)
    (place : Place) :
    ((enterProperty object s p).facts.at place).boundName = (s.facts.at place).boundName ∨
      Tells n place ((enterProperty object s p).facts.at place).boundName := by
  unfold enterProperty
  split
  · exact Or.inl rfl
  · rename_i name hname
    have hkey : (p.get "key").identifier? = some name := by
      unfold propertyName? at hname
      split at hname
      · cases hname
      · exact hname
    let s' := s.bind (some name) (some object) .object (p.get "key").span?
    have hlearn : Kept Fact.boundName s' (s'.learn (p.get "key") fun k => { k with isDefined := true }) :=
      Kept.learn _ fun _ => rfl
    rcases boundName_bindFunction (p.get "value") (some name) (p.get "key").span?
      (s'.learn (p.get "key") fun k => { k with isDefined := true }) place with h | ⟨rfl, h⟩
    · exact Or.inl (h.trans (hlearn place))
    · dsimp only
      rw [h, ← hkey]
      exact Or.inr (.property hp "value" (by decide))

theorem boundName_enterObject (n : Node) (s : State) (place : Place) :
    ((enterObject n s).facts.at place).boundName = (s.facts.at place).boundName ∨
      Tells n place ((enterObject n s).facts.at place).boundName := by
  have hproperties : ∀ ps : List Node, (∀ p ∈ ps, p ∈ n.list "properties") → ∀ t s,
      ((ps.foldl (enterProperty t) s).facts.at place).boundName = (s.facts.at place).boundName ∨
        Tells n place ((ps.foldl (enterProperty t) s).facts.at place).boundName := by
    intro ps
    induction ps with
    | nil => exact fun _ _ _ => Or.inl rfl
    | cons p ps ih =>
      intro hps t s
      rcases ih (fun q hq => hps q (List.mem_cons_of_mem _ hq)) t (enterProperty t s p) with h | h
      · rw [List.foldl_cons, h]
        exact boundName_enterProperty t (hps p List.mem_cons_self) s place
      · exact Or.inr h
  let s' := (s.withEnv (s.env.newObject none n.span?).2).setType n (.named (s.env.newObject none n.span?).1)
  have hobject : Kept Fact.boundName s s' :=
    Kept.setType (s := s.withEnv (s.env.newObject none n.span?).2) (fun _ _ => rfl) n _
  exact (hproperties (n.list "properties") (fun _ hp => hp) _ s').imp_left (·.trans (hobject place))

/-- **The way down** tells a name only to what stands beside its identifier. -/
theorem boundName_enter (task : Task) (n : Node) (s : State) (place : Place) :
    ((enter task n s).2.facts.at place).boundName = (s.facts.at place).boundName ∨
      Tells n place ((enter task n s).2.facts.at place).boundName :=
  enter_of_kept (π := Fact.boundName)
    (P := fun s' => (s'.facts.at place).boundName = (s.facts.at place).boundName ∨
      Tells n place (s'.facts.at place).boundName)
    (fun _ _ => rfl) (fun _ _ => rfl) (fun _ _ => rfl) (fun _ hkept => Or.inl (hkept place))
    (boundName_enterObject n s place) (boundName_enterDeclarator n s place)
    (boundName_enterAssignment n s place) (Or.inl (kept_enterMember (fun _ _ => rfl) n s place))

/-- **The way up** tells no name. -/
theorem boundName_leave (task : Task) (n : Node) (s : State) (place : Place) :
    ((leave task n s).2.facts.at place).boundName = (s.facts.at place).boundName :=
  kept_leave (π := Fact.boundName) (fun _ _ => rfl) task n s place

theorem firstName_cons {c : String} (hc : c ≠ "") (names : List Name) :
    firstName (some c :: names) = some c := by
  unfold firstName
  rw [List.findSome?_cons, Option.filter_some, if_pos (by simpa using hc)]

/-- A function that is left as a constructor has a name, its own or the one that it was told, and that
is the first one. -/
theorem firstName_of_descended (hkind : n.kind.isFunction = true)
    (hdown : Node.Descended (visitor task) n s s') (hclose : closesObject n s' = true) :
    ∃ c, (n.get "id").identifier?.or (s'.fact n).boundName = some c ∧
      ∀ name, firstName [(n.get "id").identifier?, (s'.fact n).boundName, name] = some c := by
  rw [closesObject_of_descended hkind hdown, Bool.and_eq_true] at hclose
  obtain ⟨c, hc, hne⟩ : ∃ c, (functionName n s).1 = some c ∧ c ≠ "" := by
    have hconstructor := hclose.1
    unfold isConstructor at hconstructor
    cases hf : (functionName n s).1 with
    | none => simp [hf] at hconstructor
    | some c =>
      refine ⟨c, rfl, ?_⟩
      rintro rfl
      simp [hf, isConstructorName] at hconstructor
  unfold functionName at hc
  dsimp only at hc
  rw [← boundName_of_descended hkind hdown] at hc
  refine ⟨c, ?_⟩
  split at hc
  · rename_i hid hbound
    cases hc
    rw [hid, hbound]
    exact ⟨rfl, fun name => firstName_cons hne [name]⟩
  · have hid : (n.get "id").identifier? = some c := hc
    rw [hid]
    exact ⟨rfl, fun name => firstName_cons hne [(s'.fact n).boundName, name]⟩

/-- **A function gives its type to no other name** than its own or the one that it was told. -/
theorem finalName_of_descended (hkind : n.kind.isFunction = true)
    (hdown : Node.Descended (visitor task) n s s') (hname : finalName n s' = some x) :
    (n.get "id").identifier? = some x ∨ (s'.fact n).boundName = some x := by
  have hown : ∀ {x}, (n.get "id").identifier?.or (s'.fact n).boundName = some x →
      (n.get "id").identifier? = some x ∨ (s'.fact n).boundName = some x := fun hx =>
    (Option.or_eq_some_iff.1 hx).imp id And.right
  unfold finalName at hname
  split at hname
  · rename_i result params htype hbody
    split at hname
    · rename_i hconstructs
      have hclose : closesObject n s' = true := by
        unfold closesObject
        rw [htype, hbody, hconstructs]
        rfl
      obtain ⟨c, hc, hfirst⟩ := firstName_of_descended hkind hdown hclose
      rw [hfirst] at hname
      exact hown (hc.trans hname)
    · obtain ⟨r, -, hname⟩ := Option.bind_eq_some_iff.1 hname
      exact hown hname
  · cases hname

end ContentAssist.Inference
