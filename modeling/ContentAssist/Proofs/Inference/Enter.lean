import ContentAssist.Proofs.Inference.Change

/-! # What the rules on the way down do

Each rule of the way down is a sequence of changes at or below its node; `changes_enter` puts them
together. What is learnt along the way about the types of parameters, `Lasting`, holds to the end.

* `openFunction_eq`, `enterFunction_eq`: a function in steps, its name, its scope, its parameters;
* `lasting_loadModule`, `changes_paramTypes`: what a module and a parameter get lasts;
* `changes_enter`: the way down. -/

namespace ContentAssist.Inference

open Relation

variable {task : Task} {at_ : Place} {s s' : State} {n : Node}

/-! ### The rules on the way down -/

theorem offers_generated {k : Nat} (h : k < s.env.count) :
    Offers task s (.named (Ty.generatedName s.env.uid k)) := .lasting (.generated h)

theorem changes_openScope (hn : at_ <:+ n.place) : Changes task at_ s (openScope n s) := by
  refine .tail (.single (.enterScope s)) (.setType hn ?_)
  exact offers_generated (k := s.env.count) (Nat.lt_succ_self _)

theorem change_enterProgram : Change task at_ s (enterProgram n s) := by
  unfold enterProgram
  dsimp only
  split
  · exact .report rfl rfl (Or.inr ⟨_, rfl⟩)
  · split
    · exact .report rfl rfl (Or.inr ⟨_, rfl⟩)
    · exact .report rfl rfl (Or.inl rfl)

theorem changes_bindFunction {value : Node} (hn : at_ <:+ value.place) (name : Name)
    (span : Option Span) : Changes task at_ s (bindFunction value name span s) := by
  unfold bindFunction
  split
  · exact .single (.remark s value _ hn (fun _ => rfl) fun _ => rfl)
  · exact .refl

theorem changes_enterProperty {property : Node} (hn : at_ <:+ property.place) (object : Ty) :
    Changes task at_ s (enterProperty object s property) := by
  unfold enterProperty
  split
  · exact .refl
  · rename_i name _
    have hkey : at_ <:+ (property.get "key").place := hn.trans (suffix_get _ _)
    have hvalue : at_ <:+ (property.get "value").place := hn.trans (suffix_get _ _)
    refine .head (.bind s (some name) (some object) (property.get "key").span? offers_object) ?_
    refine .head (.remark _ (property.get "key") (fun k => { k with isDefined := true }) hkey
      (fun _ => rfl) fun _ => rfl) ?_
    exact changes_bindFunction hvalue _ _

/-- What one rule does for each node of a list is changes if it is for one. -/
theorem changes_foldl {f : State → Node → State} {ns : List Node}
    (h : ∀ n ∈ ns, ∀ s, Changes task at_ s (f s n)) (s : State) :
    Changes task at_ s (ns.foldl f s) := by
  induction ns generalizing s with
  | nil => exact .refl
  | cons n ns ih =>
    exact .trans (h n List.mem_cons_self s) (ih (fun m hm => h m (List.mem_cons_of_mem _ hm)) _)

theorem suffix_of_mem_list {m : Node} {key : String} (h : m ∈ n.list key) : n.place <:+ m.place := by
  obtain ⟨i, hi⟩ := Node.place_of_mem_itemsFrom h
  rw [hi]
  exact (suffix_get n key).trans (List.suffix_cons _ _)

theorem changes_enterObject (hn : at_ <:+ n.place) : Changes task at_ s (enterObject n s) := by
  unfold enterObject
  dsimp only
  refine .trans (.tail (.single (.enterObject s n.span?)) (.setType hn (offers_generated
    (k := s.env.count + 1) (Nat.lt_succ_self _)))) ?_
  exact changes_foldl (fun m hm _ =>
    changes_enterProperty (hn.trans (suffix_of_mem_list hm)) _) _

/-- The state with the body of a function marked as that of a constructor, or not. -/
def markBody (n : Node) (b : Bool) (s : State) : State :=
  if (n.get "body").isObject then
    s.learn (n.get "body") fun k => { k with isConstructorBody := b }
  else s

/-- A constructor gets its records; the body is marked in either case. -/
theorem openFunction_eq (n : Node) (name : Name) (s : State) :
    openFunction n name s =
      if isConstructor n name then
        (.function (.named (constructed s.env name n.span?).1) ((n.list "params").map paramName),
          (markBody n true s).withEnv (constructed s.env name n.span?).2)
      else (.function .object ((n.list "params").map paramName), markBody n false s) := by
  unfold openFunction markBody
  dsimp only
  cases isConstructor n name with
  | false => rfl
  | true =>
    rw [if_pos rfl, if_pos rfl]
    cases (n.get "body").isObject <;> rfl

theorem changes_markBody (hn : at_ <:+ n.place) (b : Bool) :
    Changes task at_ s (markBody n b s) := by
  unfold markBody
  split
  · exact .single (.markBody s n b hn)
  · exact .refl

theorem markBody_env (n : Node) (b : Bool) (s : State) : (markBody n b s).env = s.env := by
  unfold markBody
  split <;> rfl

theorem changes_openFunction (hn : at_ <:+ n.place) (name : Name) :
    Changes task at_ s ((openFunction n name s).2.setType n (openFunction n name s).1) := by
  rw [openFunction_eq]
  cases name with
  | none =>
    have hc : isConstructor n none = false := by simp [isConstructor]
    rw [hc]
    exact .tail (changes_markBody hn false) (.setType hn (.function offers_object))
  | some name =>
    cases hc : isConstructor n (some name) with
    | false => exact .tail (changes_markBody hn false) (.setType hn (.function offers_object))
    | true =>
      have hname : isConstructorName name = true := by
        simp only [isConstructor, Bool.and_eq_true] at hc
        exact hc.2
      refine .tail (changes_markBody hn true) ?_
      have h := @Change.construct task at_ (markBody n true s) n name n.span?
        ((n.list "params").map paramName) hn hname
      rwa [markBody_env] at h

/-! ### Parameters -/

theorem Lasting.mono (hs : Onward s s') {t : Ty} (h : Lasting task s t) : Lasting task s' t := by
  cases h with
  | builtin h => exact .builtin h
  | generated h => exact hs.uid ▸ .generated (Nat.lt_of_lt_of_le h hs.count)
  | provided hindex hasked hsummary ht =>
    exact .provided hindex (hs.events.subset hasked) hsummary ht

theorem lasting_newObjectType (s : State) : Lasting task s.newObjectType.2 s.newObjectType.1 :=
  .generated (k := s.env.count) (Nat.lt_succ_self _)

theorem changes_newObjectTypes (params : List Node) (s : State) :
    Changes task at_ s (newObjectTypes params s).2 ∧
      ∀ t ∈ (newObjectTypes params s).1, Lasting task (newObjectTypes params s).2 t := by
  induction params generalizing s with
  | nil => exact ⟨.refl, by simp [newObjectTypes]⟩
  | cons param params ih =>
    obtain ⟨hs, hts⟩ := ih s.newObjectType.2
    refine ⟨.head (.create s none) hs, fun t ht => ?_⟩
    rcases List.mem_cons.1 ht with rfl | ht
    · exact (lasting_newObjectType s).mono hs.onward
    · exact hts t ht

theorem lasting_loadModule {index : Index} (hindex : task.index? = some index) {name : String}
    {t : Ty} (h : (loadModule index name s).1 = .ok (some t)) :
    Lasting task (loadModule index name s).2 t := by
  unfold loadModule at h ⊢
  dsimp only at h ⊢
  cases hsum : index.summary? name with
  | error fault => simp [hsum] at h
  | ok o =>
    cases o with
    | none => simp [hsum] at h
    | some summary =>
      simp only [hsum, Except.ok.injEq, Option.some.injEq] at h ⊢
      subst h
      unfold applySummary
      cases hp : summary.provided with
      | record r =>
        refine Lasting.mono (s := (s.happened (.askedModule name)).newObjectType.2) ?_
          (lasting_newObjectType _)
        exact onward_withEnv (by simp; rfl) (by simp; exact Nat.le_refl _)
      | type t =>
        exact .provided hindex (List.mem_append_right _ List.mem_cons_self) hsum hp

theorem changes_dependencyType {index : Index} (hindex : task.index? = some index)
    (dependency : Option Node) (s : State) :
    Changes task at_ s (dependencyType index dependency s).2 ∧
      ∀ t, (dependencyType index dependency s).1 = .ok t →
        Lasting task (dependencyType index dependency s).2 t := by
  unfold dependencyType
  split
  · refine ⟨.refl, fun t ht => ?_⟩
    cases ht
    exact .builtin (by decide)
  · rename_i name _
    have hload : Changes task at_ s (loadModule index name s).2 := .single (.load s hindex name)
    split
    · rename_i hl
      rw [hl] at hload
      exact ⟨hload, by simp⟩
    · rename_i t' s' hl
      have ht' : Lasting task (loadModule index name s).2 t' :=
        lasting_loadModule hindex (by rw [hl])
      rw [hl] at hload ht'
      refine ⟨hload, fun t ht => ?_⟩
      cases ht
      exact ht'
    · rename_i s' hl
      rw [hl] at hload
      refine ⟨hload.tail (.create s' none), fun t ht => ?_⟩
      cases ht
      exact lasting_newObjectType s'

theorem changes_dependencyTypes {index : Index} (hindex : task.index? = some index)
    (params names : List Node) (s : State) :
    Changes task at_ s (dependencyTypes index params names s).2 ∧
      ∀ ts, (dependencyTypes index params names s).1 = .ok ts →
        ∀ t ∈ ts, Lasting task (dependencyTypes index params names s).2 t := by
  induction params generalizing names s with
  | nil => exact ⟨.refl, fun ts hts => by cases hts; simp⟩
  | cons param params ih =>
    obtain ⟨h1, h2⟩ := @changes_dependencyType task at_ index hindex names.head? s
    rw [dependencyTypes]
    rcases hd : dependencyType index names.head? s with ⟨fault | t, s₁⟩
    · rw [hd] at h1
      exact ⟨h1, fun ts hts => by cases hts⟩
    · obtain ⟨h3, h4⟩ := ih names.tail s₁
      rw [hd] at h1 h2
      dsimp only
      rcases hr : dependencyTypes index params names.tail s₁ with ⟨fault | ts, s₂⟩
      · rw [hr] at h3
        exact ⟨h1.trans h3, fun ts hts => by cases hts⟩
      · rw [hr] at h3 h4
        refine ⟨h1.trans h3, fun ts' hts' t' ht' => ?_⟩
        cases hts'
        rcases List.mem_cons.1 ht' with rfl | ht'
        · exact (h2 _ rfl).mono h3.onward
        · exact h4 ts rfl t' ht'

theorem index?_of_dependencies? {names : List Node} {index : Index}
    (h : dependencies? task n s = some (index, names)) : task.index? = some index := by
  unfold dependencies? at h
  split at h
  · rename_i i l hi hl
    dsimp only at h
    split at h
    · obtain ⟨_, _, he⟩ := Option.map_eq_some_iff.1 h
      cases he
      exact hi
    · cases h
  · cases h

theorem changes_paramTypes (n : Node) (s : State) :
    Changes task at_ s (paramTypes task n s).2 ∧
      ∀ ts, (paramTypes task n s).1 = .ok ts → ∀ t ∈ ts, Lasting task (paramTypes task n s).2 t := by
  unfold paramTypes
  dsimp only
  split
  · rename_i hd
    exact changes_dependencyTypes (index?_of_dependencies? hd) _ _ s
  · obtain ⟨h1, h2⟩ := @changes_newObjectTypes task at_ (n.list "params") s
    exact ⟨h1, fun ts hts => by cases hts; exact h2⟩

@[simp] theorem events_bindParams (params : List Node) (ts : List Ty) (s : State) :
    (bindParams params ts s).events = s.events := by
  induction params generalizing ts s with
  | nil => rfl
  | cons param params ih =>
    cases ts with
    | nil => rfl
    | cons t ts =>
      rw [bindParams, ih]
      split <;> rfl

theorem changes_bindParams (params : List Node) (ts : List Ty) (s : State)
    (hts : ∀ t ∈ ts, Lasting task s t) : Changes task at_ s (bindParams params ts s) := by
  induction params generalizing ts s with
  | nil => exact .refl
  | cons param params ih =>
    cases ts with
    | nil => exact .refl
    | cons t ts =>
      rw [bindParams]
      have ht := hts t List.mem_cons_self
      have hrest : ∀ t' ∈ ts, Lasting task s t' := fun t' ht' => hts t' (List.mem_cons_of_mem _ ht')
      split
      · exact ih ts s hrest
      · have hb : Change task at_ s (s.bind (some (paramName param)) none t param.span?) :=
          .bind s _ _ _ (.lasting ht)
        exact .head hb (ih ts _ fun t' ht' => (hrest t' ht').mono hb.onward)

/-! ### Functions and other openings -/

/-- A function gets its type, and its name is bound unless it begins behind the cursor. -/
def nameFunction (task : Task) (n : Node) (s : State) : State :=
  let opened := openFunction n (functionName n s).1 s
  let s' := opened.2.setType n opened.1
  if (functionName n s).1.isSome ∧ !task.cursor.isBefore n.span? then
    s'.bind (functionName n s).1 none opened.1 (functionName n s).2
  else s'

/-- The scope of a function's parameters. -/
def openParams (n : Node) (s : State) : State :=
  let s := s.withEnv (s.env.newScope none).2
  if n.kind = .arrowFunctionExpression then s
  else s.bind (some "arguments") none .arguments n.span?

/-- Entering a function names it, opens the scope of its parameters, and binds them. -/
theorem enterFunction_eq (task : Task) (n : Node) (s : State) :
    enterFunction task n s =
      match paramTypes task n (openParams n (nameFunction task n s)) with
      | (.error fault, s) => (.error fault, s)
      | (.ok types, s) => (.ok (), bindParams (n.list "params") types s) := rfl

theorem changes_nameFunction (hn : at_ <:+ n.place) :
    Changes task at_ s (nameFunction task n s) := by
  unfold nameFunction
  dsimp only
  have hopen : Changes task at_ s ((openFunction n (functionName n s).1 s).2.setType n
      (openFunction n (functionName n s).1 s).1) := changes_openFunction hn _
  split
  · exact hopen.tail (.bind _ _ _ _ (offers_setType _ _ _ _))
  · exact hopen

theorem changes_openParams : Changes task at_ s (openParams n s) := by
  unfold openParams
  dsimp only
  split
  · exact .single (.enterScope s)
  · exact .tail (.single (.enterScope s)) (.bind _ _ _ _ (offers_builtin (by decide)))

theorem changes_enterFunction (hn : at_ <:+ n.place) :
    Changes task at_ s (enterFunction task n s).2 := by
  rw [enterFunction_eq]
  have hbody : Changes task at_ s (openParams n (nameFunction task n s)) :=
    (changes_nameFunction hn).trans changes_openParams
  obtain ⟨hp, hts⟩ := @changes_paramTypes task at_ n (openParams n (nameFunction task n s))
  rcases h : paramTypes task n (openParams n (nameFunction task n s)) with ⟨fault | ts, s'⟩
  · rw [h] at hp
    exact hbody.trans hp
  · rw [h] at hp hts
    exact (hbody.trans hp).trans (changes_bindParams _ _ _ (hts ts rfl))

theorem changes_enterDeclarator (hn : at_ <:+ n.place) :
    Changes task at_ s (enterDeclarator n s) := by
  unfold enterDeclarator
  dsimp only
  split
  · exact .refl
  · exact .head (.remark s (n.get "id") (fun k => { k with isDefined := true })
      (hn.trans (suffix_get _ _)) (fun _ => rfl) fun _ => rfl)
      (changes_bindFunction (hn.trans (suffix_get _ _)) _ _)

theorem changes_enterAssignment (hn : at_ <:+ n.place) :
    Changes task at_ s (enterAssignment n s) := by
  unfold enterAssignment
  dsimp only
  split
  · exact changes_bindFunction (hn.trans (suffix_get _ _)) _ _
  · exact .refl

theorem changes_enterCatch (hn : at_ <:+ n.place) : Changes task at_ s (enterCatch n s) := by
  unfold enterCatch
  dsimp only
  have herror : ∀ s, Offers task s .error := fun s => offers_builtin (by decide)
  split
  · exact changes_openScope hn
  · exact .tail (.tail (changes_openScope hn)
      (.setType (hn.trans (suffix_get _ _)) (herror _))) (.bind _ _ _ _ (herror _))

theorem changes_enterMember (hn : at_ <:+ n.place) : Changes task at_ s (enterMember n s) := by
  unfold enterMember
  dsimp only
  split
  · exact .single (.remark s (n.get "property") _ (hn.trans (suffix_get _ _)) (fun _ => rfl)
      fun _ => rfl)
  · exact .refl

theorem suffix_of_loaderCallback? {callback : Node} (h : loaderCallback? n = some callback) :
    n.place <:+ callback.place := by
  unfold loaderCallback? at h
  split at h
  · rename_i c names rest hargs
    split at h
    · cases h
      have hc : callback ∈ (n.list "arguments").reverse := hargs ▸ List.mem_cons_self
      exact suffix_of_mem_list (List.mem_reverse.1 hc)
    · cases h
  · cases h

theorem changes_enterCall (hn : at_ <:+ n.place) : Changes task at_ s (enterCall n s) := by
  unfold enterCall
  dsimp only
  split
  · split
    · rename_i callback hc
      exact .single (.remark s callback _ (hn.trans (suffix_of_loaderCallback? hc)) (fun _ => rfl)
        fun _ => rfl)
    · exact .refl
  · exact .refl

theorem enterNode_of_isFunction (h : n.kind.isFunction = true) (task : Task) (s : State) :
    enterNode task n s = enterFunction task n s := by
  unfold enterNode
  cases hk : n.kind <;> simp_all [Kind.isFunction]

theorem changes_enterNode (hn : at_ <:+ n.place) :
    Changes task at_ s (enterNode task n s).2 := by
  unfold enterNode
  split
  · exact .single change_enterProgram
  · exact changes_openScope hn
  · exact .single (.setType hn (offers_literalType n))
  · exact .single (.setType hn (offers_builtin (by decide)))
  · exact changes_enterObject hn
  · exact changes_enterFunction hn
  · exact changes_enterFunction hn
  · exact changes_enterFunction hn
  · exact changes_enterDeclarator hn
  · exact changes_enterAssignment hn
  · exact changes_enterCatch hn
  · exact changes_enterMember hn
  · exact changes_enterCall hn
  · exact .refl

/-- The way down either skips a declaration or follows the rule for the node. -/
theorem enter_eq (task : Task) (n : Node) (s : State) : enter task n s =
    if n.kind = .variableDeclaration ∧ task.cursor.isBefore n.span? then (.skip, s)
    else
      match enterNode task n s with
      | (.error fault, s) => (.found (.error fault), s)
      | (.ok (), s) => (.descend, s) := rfl

theorem enterNode_of_descend (h : enter task n s = (.descend, s')) : enterNode task n s = (.ok (), s') := by
  rw [enter_eq] at h
  split at h
  · cases h
  · rcases he : enterNode task n s with ⟨fault | _, s₁⟩ <;> rw [he] at h <;> cases h
    rfl

/-- **The way down** is made of changes at the node. -/
theorem changes_enter (task : Task) (n : Node) (s : State) :
    Changes task n.place s (enter task n s).2 := by
  rw [enter_eq]
  split
  · exact .refl
  · have h : Changes task n.place s (enterNode task n s).2 := changes_enterNode List.suffix_rfl
    rcases hs : enterNode task n s with ⟨fault | _, s'⟩
    · rw [hs] at h
      exact h
    · rw [hs] at h
      exact h

end ContentAssist.Inference
