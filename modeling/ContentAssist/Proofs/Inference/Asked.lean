import ContentAssist.Dependencies
import ContentAssist.Proofs.Inference.Closed
import ContentAssist.Proofs.Inference.Targets
import ContentAssist.SourceIndex

/-! # What an inference asks for

An inference asks the index for the globals, once, and for modules: for the one that a call of
`require` names, and for those that the callback of a loader call receives. Checking dependencies has
a rule of its own for the modules that a call names. Every module that an inference asks for is named
by a call in the sense of that check, so an inference cannot tell apart two indices that answer alike
for the names that the check inspects, and where the check finds nothing no module asked for is
unknown.

* `inspectedNames`: what the check inspects, `checkTree_eq_nil_iff`: when it finds nothing;
* `Traced`: a state knows of loader calls of the tree only, and asked for inspected names only;
* `enter_eq_of_agree`, `leave_eq_of_agree`: the two steps at a node;
* `run_reads_inspected`: a run;
* `answered_of_asked`, `unparsable_of_miss`: which lookups miss where the check finds nothing. -/

namespace ContentAssist

open Inference

/-! ### What is inspected -/

/-- The names of the modules that a call names. -/
def moduleNames (call : Node) : List String := (namedModules call).filterMap literalText?

/-- The names that the check of a tree inspects, in the order of the source. -/
def inspectedNames (root : Node) : List String := (root.all.filter isLoaderCall).flatMap moduleNames

theorem mem_inspectedNames {root call : Node} {name : String} (hcall : call ∈ root.all)
    (hloader : isLoaderCall call = true) (hname : name ∈ moduleNames call) :
    name ∈ inspectedNames root :=
  List.mem_flatMap.2 ⟨call, List.mem_filter.2 ⟨hcall, hloader⟩, hname⟩

/-- The check goes through the loader calls of the tree. -/
theorem checkTree_eq (knows : String → Bool) (root : Node) : checkTree knows root =
    (root.all.filter isLoaderCall).flatMap fun call =>
      (namedModules call).filterMap (checkModule knows) := by
  have hfold : ∀ (ns : List Node) (found : List Diagnostic),
      ns.foldl (fun found n => (enterCheck knows n found).2) found =
        found ++ (ns.filter isLoaderCall).flatMap fun call =>
          (namedModules call).filterMap (checkModule knows) := by
    intro ns
    induction ns with
    | nil => simp
    | cons n ns ih =>
      intro found
      rw [List.foldl_cons, ih]
      by_cases hn : isLoaderCall n = true <;> simp [enterCheck, hn]
  have hstep : enterCheck knows = fun n found => (.descend, (enterCheck knows n found).2) := by
    funext n found
    unfold enterCheck
    split <;> rfl
  rw [checkTree, hstep, Node.visit_entering fun found n => (enterCheck knows n found).2, hfold,
    List.nil_append]

theorem checkModule_eq_none_iff {knows : String → Bool} {dependency : Node} :
    checkModule knows dependency = none ↔
      ∀ name, literalText? dependency = some name → knows name = true := by
  unfold checkModule
  cases literalText? dependency with
  | none => simp
  | some name => simp

/-- **The check finds nothing** exactly if all inspected names are known. -/
theorem checkTree_eq_nil_iff {knows : String → Bool} {root : Node} :
    checkTree knows root = [] ↔ ∀ name ∈ inspectedNames root, knows name = true := by
  rw [checkTree_eq]
  simp only [List.flatMap_eq_nil_iff, List.filterMap_eq_nil_iff, checkModule_eq_none_iff,
    inspectedNames, moduleNames, List.mem_flatMap, List.mem_filterMap]
  constructor
  · rintro h name ⟨call, hcall, dependency, hdependency, hname⟩
    exact h call hcall dependency hdependency name hname
  · intro h call hcall dependency hdependency name hname
    exact h name ⟨call, hcall, dependency, hdependency, hname⟩

namespace Inference

variable {root n : Node} {index index' : Index} {s s' : State} {name : String} {task : Task}

/-! ### Which names a call names -/

/-- The list of dependencies that a callback receives is the one that the check reads. -/
theorem dependencyList?_eq {call : Node} {names : List Node}
    (hcallback : (loaderCallback? call).isSome = true)
    (h : dependencyList? (call.list "arguments") = some names) : names = namedModules call := by
  unfold dependencyList? at h
  unfold namedModules
  split at h
  · rename_i own list callback hargs
    split at h
    · rename_i hkinds
      cases h
      rw [hargs]
      simp [hkinds.1, hkinds.2]
    · cases h
  · rename_i list callback hargs
    split at h
    · rename_i hlist
      cases h
      -- what stands behind the list is a function, hence no list
      have hfunction : callback.kind ≠ .arrayExpression := by
        unfold loaderCallback? at hcallback
        rw [hargs] at hcallback
        intro hk
        simp [hk, Kind.isFunctionExpression] at hcallback
      rw [hargs]
      simp [hlist, hfunction]
    · cases h
  · cases h

theorem isLoaderCall_of_requiredModule? (hkind : n.kind = .callExpression)
    (h : requiredModule? n = some name) : isLoaderCall n = true ∧ name ∈ moduleNames n := by
  unfold requiredModule? at h
  split at h
  · rename_i hcallee
    refine ⟨by simp [isLoaderCall, hkind, hcallee], ?_⟩
    split at h
    · rename_i argument hargs
      have hliteral : argument.kind = .literal := by
        unfold literalText? at h
        split at h
        · assumption
        · cases h
      rw [moduleNames, namedModules, hargs]
      simp [hliteral, h]
    · cases h
  · cases h

/-! ### Loading -/

theorem loadModule_eq_of_agree (h : index.summary? name = index'.summary? name) (s : State) :
    loadModule index name s = loadModule index' name s := by
  unfold loadModule
  rw [h]

theorem events_loadModule (index : Index) (name : String) (s : State) :
    (loadModule index name s).2.events = s.events ++ [.askedModule name] := by
  unfold loadModule
  dsimp only
  split
  · rfl
  · rfl
  · exact applySummary_events _ _

theorem dependencyType_eq_of_agree {dependency : Option Node}
    (h : ∀ name, dependency.bind literalText? = some name → index.summary? name = index'.summary? name)
    (s : State) : dependencyType index dependency s = dependencyType index' dependency s := by
  unfold dependencyType
  cases hname : dependency.bind literalText? with
  | none => rfl
  | some name =>
    dsimp only
    rw [loadModule_eq_of_agree (h name hname)]

theorem literalText?_head {names : List Node} (h : names.head?.bind literalText? = some name) :
    name ∈ names.filterMap literalText? := by
  cases names with
  | nil => cases h
  | cons d ds => exact List.mem_filterMap.2 ⟨d, List.mem_cons_self, h⟩

theorem mem_filterMap_of_tail {names : List Node} (h : name ∈ names.tail.filterMap literalText?) :
    name ∈ names.filterMap literalText? := by
  obtain ⟨d, hd, hname⟩ := List.mem_filterMap.1 h
  exact List.mem_filterMap.2 ⟨d, List.mem_of_mem_tail hd, hname⟩

theorem dependencyTypes_eq_of_agree {params names : List Node}
    (h : ∀ name ∈ names.filterMap literalText?, index.summary? name = index'.summary? name)
    (s : State) : dependencyTypes index params names s = dependencyTypes index' params names s := by
  induction params generalizing names s with
  | nil => rfl
  | cons param params ih =>
    have hhead : dependencyType index names.head? s = dependencyType index' names.head? s :=
      dependencyType_eq_of_agree (fun name hname => h name (literalText?_head hname)) s
    rw [dependencyTypes, dependencyTypes, ← hhead]
    rcases dependencyType index names.head? s with ⟨fault | t, s₁⟩
    · rfl
    · dsimp only
      rw [ih fun name hname => h name (mem_filterMap_of_tail hname)]

theorem asked_dependencyType {dependency : Option Node}
    (h : .askedModule name ∈ (dependencyType index dependency s).2.events) :
    .askedModule name ∈ s.events ∨ dependency.bind literalText? = some name := by
  unfold dependencyType at h
  cases hname : dependency.bind literalText? with
  | none =>
    rw [hname] at h
    exact Or.inl h
  | some name' =>
    rw [hname] at h
    have hload := events_loadModule index name' s
    have hevents : Event.askedModule name ∈ (loadModule index name' s).2.events := by
      dsimp only at h
      rcases hl : loadModule index name' s with ⟨fault | (_ | t), s₁⟩ <;> rw [hl] at h <;> exact h
    rw [hload, List.mem_append, List.mem_singleton] at hevents
    rcases hevents with hevents | hevents
    · exact Or.inl hevents
    · cases hevents
      exact Or.inr rfl

theorem asked_dependencyTypes {params names : List Node}
    (h : .askedModule name ∈ (dependencyTypes index params names s).2.events) :
    .askedModule name ∈ s.events ∨ name ∈ names.filterMap literalText? := by
  induction params generalizing names s with
  | nil => exact Or.inl h
  | cons param params ih =>
    have hfirst : .askedModule name ∈ (dependencyType index names.head? s).2.events →
        .askedModule name ∈ s.events ∨ name ∈ names.filterMap literalText? := fun h =>
      (asked_dependencyType h).imp_right literalText?_head
    rw [dependencyTypes] at h
    rcases hd : dependencyType index names.head? s with ⟨fault | t, s₁⟩ <;> rw [hd] at h hfirst
    · exact hfirst h
    · dsimp only at h
      have hrest := @ih s₁ names.tail
      rcases hr : dependencyTypes index params names.tail s₁ with ⟨fault | ts, s₂⟩ <;>
        rw [hr] at h hrest
      all_goals
        rcases hrest h with h | h
        · exact hfirst h
        · exact Or.inr (mem_filterMap_of_tail h)

/-- Without an index no module is asked for. -/
theorem asked_of_changes {source : String} {cursor : Cursor} {at_ : Place}
    (h : Changes ⟨source, cursor, none⟩ at_ s s') (hasked : .askedModule name ∈ s'.events) :
    .askedModule name ∈ s.events := by
  induction h with
  | refl => exact hasked
  | tail _ hc ih =>
    refine ih ?_
    cases hc with
    | report henv hfacts hevents =>
      rcases hevents with h | ⟨e, h⟩
      · exact h ▸ hasked
      · simpa [h] using hasked
    | load hsome => cases hsome
    | _ => exact hasked

/-! ### Loader calls that a state knows of -/

/-- What a state knows of loader calls it knows of calls of the tree, and it asked for names that are
inspected in the tree only. -/
structure Traced (root : Node) (s : State) : Prop where
  loader : ∀ place call, (s.facts.at place).loader = some call →
    call ∈ root.all ∧ isLoaderCall call = true ∧ (loaderCallback? call).isSome = true
  asked : ∀ name, .askedModule name ∈ s.events → name ∈ inspectedNames root

theorem Traced.of_kept (h : Traced root s) (hkept : Kept Fact.loader s s')
    (hasked : ∀ name, .askedModule name ∈ s'.events →
      .askedModule name ∈ s.events ∨ name ∈ inspectedNames root) : Traced root s' :=
  ⟨fun place call hcall => h.loader place call (hkept place ▸ hcall),
    fun name hname => (hasked name hname).elim (h.asked name) id⟩

theorem typeless_loader : Typeless Fact.loader := fun _ _ => rfl

theorem traced_enterCall (h : Traced root s) (hn : n ∈ root.all) (hkind : n.kind = .callExpression) :
    Traced root (enterCall n s) := by
  unfold enterCall
  dsimp only
  split
  · rename_i hcallee
    cases hcallback : loaderCallback? n with
    | none => exact h
    | some callback =>
      refine ⟨fun place call hcall => ?_, h.asked⟩
      rw [at_learn] at hcall
      split at hcall
      · cases hcall
        exact ⟨hn, by simpa [isLoaderCall, hkind] using hcallee, by rw [hcallback]; rfl⟩
      · exact h.loader place call hcall
  · exact h

/-! ### Functions -/

/-- The dependencies of a function are named by a loader call of the tree. -/
theorem names_of_dependencies? {names : List Node} (h : Traced root s)
    (hd : dependencies? task n s = some (index, names)) :
    ∀ name ∈ names.filterMap literalText?, name ∈ inspectedNames root := by
  unfold dependencies? at hd
  split at hd
  · rename_i i call _ hcall
    dsimp only at hd
    split at hd
    · obtain ⟨list, hlist, heq⟩ := Option.map_eq_some_iff.1 hd
      cases heq
      obtain ⟨hall, hloader, hcallback⟩ := h.loader n.place call hcall
      obtain rfl := dependencyList?_eq hcallback hlist
      exact fun name hname => mem_inspectedNames hall hloader hname
    · cases hd
  · cases hd

theorem asked_paramTypes (h : Traced root s)
    (hasked : .askedModule name ∈ (paramTypes task n s).2.events) :
    .askedModule name ∈ s.events ∨ name ∈ inspectedNames root := by
  unfold paramTypes at hasked
  dsimp only at hasked
  split at hasked
  · rename_i names hd
    exact (asked_dependencyTypes hasked).imp_right (names_of_dependencies? h hd name)
  · have hchanges : Changes ⟨"", none, none⟩ n.place s (newObjectTypes (n.list "params") s).2 :=
      (changes_newObjectTypes _ s).1
    exact Or.inl (asked_of_changes hchanges hasked)

theorem traced_openParams (task : Task) (h : Traced root s) :
    Traced root (openParams n (nameFunction task n s)) := by
  have hchanges : Changes ⟨task.source, task.cursor, none⟩ n.place s
      (openParams n (nameFunction task n s)) :=
    .trans (changes_nameFunction List.suffix_rfl) changes_openParams
  have hkept : Kept Fact.loader s (openParams n (nameFunction task n s)) :=
    (kept_nameFunction typeless_loader (fun _ _ => rfl) task n s).trans
      (.of_changes fun at_ => @changes_openParams task at_ _ n)
  exact h.of_kept hkept fun name hname => Or.inl (asked_of_changes hchanges hname)

theorem traced_enterFunction (task : Task) (h : Traced root s) :
    Traced root (enterFunction task n s).2 := by
  refine h.of_kept (kept_enterFunction typeless_loader (fun _ _ => rfl) task n s) fun name hname => ?_
  have hopen : Traced root (openParams n (nameFunction task n s)) := traced_openParams task h
  rw [enterFunction_eq] at hname
  refine Or.inr ?_
  have hparams : .askedModule name ∈
      (paramTypes task n (openParams n (nameFunction task n s))).2.events := by
    rcases hp : paramTypes task n (openParams n (nameFunction task n s)) with ⟨fault | ts, s₁⟩ <;>
      rw [hp] at hname
    · exact hname
    · rwa [events_bindParams] at hname
  exact (asked_paramTypes hopen hparams).elim (hopen.asked name) id

/-! ### The steps at a node -/

/-- The way down other than at a function does not use the index. -/
theorem enterNode_eq_of_not_function (h : n.kind.isFunction = false) (task task' : Task) (s : State) :
    enterNode task n s = enterNode task' n s := by
  unfold enterNode
  split
  case h_6 hk | h_7 hk | h_8 hk => simp [hk, Kind.isFunction] at h
  all_goals rfl

/-- The way up other than at a call does not use the index. -/
theorem leaveNode_eq_of_not_call (h : n.kind ≠ .callExpression) (source : String) (cursor : Cursor)
    (i i' : Option Index) (s : State) :
    leaveNode ⟨source, cursor, i⟩ n s = leaveNode ⟨source, cursor, i'⟩ n s := by
  unfold leaveNode
  split
  case h_5 hk => exact absurd hk h
  all_goals rfl

theorem kept_enterNode (hcall : n.kind ≠ .callExpression) (task : Task) (s : State) :
    Kept Fact.loader s (enterNode task n s).2 := by
  unfold enterNode
  split
  case h_1 => exact kept_enterProgram n s
  case h_2 => exact kept_openScope typeless_loader n s
  case h_3 | h_4 => exact Kept.setType typeless_loader n _
  case h_5 => exact kept_enterObject typeless_loader (fun _ _ => rfl) (fun _ _ _ => rfl) n s
  case h_6 | h_7 | h_8 => exact kept_enterFunction typeless_loader (fun _ _ => rfl) task n s
  case h_9 => exact kept_enterDeclarator (fun _ _ => rfl) (fun _ _ _ => rfl) n s
  case h_10 => exact kept_enterAssignment (fun _ _ _ => rfl) n s
  case h_11 => exact kept_enterCatch typeless_loader n s
  case h_12 => exact kept_enterMember (fun _ _ => rfl) n s
  case h_13 hk => exact absurd hk hcall
  all_goals exact .refl s

theorem traced_enterNode (task : Task) (h : Traced root s) (hn : n ∈ root.all) :
    Traced root (enterNode task n s).2 := by
  by_cases hfunction : n.kind.isFunction = true
  · rw [enterNode_of_isFunction hfunction]
    exact traced_enterFunction task h
  · by_cases hcall : n.kind = .callExpression
    · have heq : enterNode task n s = (.ok (), enterCall n s) := by
        unfold enterNode
        rw [hcall]
      rw [heq]
      exact traced_enterCall h hn hcall
    · have hchanges : Changes ⟨"", none, none⟩ n.place s (enterNode task n s).2 := by
        rw [enterNode_eq_of_not_function (Bool.eq_false_iff.2 hfunction) task ⟨"", none, none⟩]
        exact changes_enterNode List.suffix_rfl
      exact h.of_kept (kept_enterNode hcall task s) fun name hname =>
        Or.inl (asked_of_changes hchanges hname)

/-- **The way down** asks for inspected names only. -/
theorem traced_enter (task : Task) (h : Traced root s) (hn : n ∈ root.all) :
    Traced root (enter task n s).2 := by
  have hnode : Traced root (enterNode task n s).2 := traced_enterNode task h hn
  rw [enter_eq]
  split
  · exact h
  · rcases he : enterNode task n s with ⟨fault | _, s'⟩ <;> rw [he] at hnode <;> exact hnode

theorem asked_leaveCall (hkind : n.kind = .callExpression) (hn : n ∈ root.all)
    (hasked : .askedModule name ∈ (leaveCall task n s).2.events) :
    .askedModule name ∈ s.events ∨ name ∈ inspectedNames root := by
  have hevents : .askedModule name ∈ (requiredType task n s).2.events := by
    unfold leaveCall at hasked
    rcases hr : requiredType task n s with ⟨fault | (_ | t), s'⟩ <;> rw [hr] at hasked <;>
      exact hasked
  unfold requiredType at hevents
  split at hevents
  · rename_i required hrequired
    rw [events_loadModule, List.mem_append, List.mem_singleton] at hevents
    rcases hevents with hevents | hevents
    · exact Or.inl hevents
    · cases hevents
      obtain ⟨hloader, hmem⟩ := isLoaderCall_of_requiredModule? hkind hrequired
      exact Or.inr (mem_inspectedNames hn hloader hmem)
  · exact Or.inl hevents

theorem asked_leaveNode (hn : n ∈ root.all)
    (hasked : .askedModule name ∈ (leaveNode task n s).2.events) :
    .askedModule name ∈ s.events ∨ name ∈ inspectedNames root := by
  by_cases hcall : n.kind = .callExpression
  · have heq : leaveNode task n s = leaveCall task n s := by
      unfold leaveNode
      rw [hcall]
    rw [heq] at hasked
    exact asked_leaveCall hcall hn hasked
  · have hchanges : Changes ⟨task.source, task.cursor, none⟩ n.place s (leaveNode task n s).2 := by
      rw [show leaveNode task n s = leaveNode ⟨task.source, task.cursor, none⟩ n s from
        leaveNode_eq_of_not_call hcall _ _ task.index? none s]
      exact changes_leaveNode List.suffix_rfl
    exact Or.inl (asked_of_changes hchanges hasked)

/-- **The way up** asks for inspected names only. -/
theorem traced_leave (task : Task) (h : Traced root s) (hn : n ∈ root.all) :
    Traced root (leave task n s).2 := by
  refine h.of_kept (kept_leave typeless_loader task n s) fun name hname => ?_
  have hasked : .askedModule name ∈ (leaveNode task n s).2.events := by
    rw [leave_eq] at hname
    rcases hl : leaveNode task n s with ⟨_ | a, s'⟩ <;> rw [hl] at hname
    · have hsettle : Changes ⟨"", none, none⟩ n.place s' (settle n s') :=
        changes_settle List.suffix_rfl
      exact asked_of_changes hsettle hname
    · exact hname
  exact asked_leaveNode hn hasked

/-! ### Indices that answer alike -/

section
variable {source : String} {cursor : Cursor}
  (hagree : ∀ name ∈ inspectedNames root, index.summary? name = index'.summary? name)
include hagree

theorem paramTypes_eq_of_agree (h : Traced root s) :
    paramTypes ⟨source, cursor, some index⟩ n s = paramTypes ⟨source, cursor, some index'⟩ n s := by
  have hmap : dependencies? ⟨source, cursor, some index'⟩ n s =
      (dependencies? ⟨source, cursor, some index⟩ n s).map fun found => (index', found.2) := by
    unfold dependencies?
    cases (s.fact n).loader with
    | none => rfl
    | some call =>
      dsimp only
      split
      · rw [Option.map_map]
        rfl
      · rfl
  unfold paramTypes
  rw [hmap]
  cases hd : dependencies? ⟨source, cursor, some index⟩ n s with
  | none => rfl
  | some found =>
    obtain ⟨i, names⟩ := found
    cases index?_of_dependencies? hd
    exact dependencyTypes_eq_of_agree (fun name hname =>
      hagree name (names_of_dependencies? h hd name hname)) s

theorem enter_eq_of_agree (h : Traced root s) :
    enter ⟨source, cursor, some index⟩ n s = enter ⟨source, cursor, some index'⟩ n s := by
  have hnode : enterNode ⟨source, cursor, some index⟩ n s =
      enterNode ⟨source, cursor, some index'⟩ n s := by
    by_cases hfunction : n.kind.isFunction = true
    · rw [enterNode_of_isFunction hfunction, enterNode_of_isFunction hfunction, enterFunction_eq,
        enterFunction_eq, paramTypes_eq_of_agree hagree (traced_openParams _ h)]
      rfl
    · exact enterNode_eq_of_not_function (Bool.eq_false_iff.2 hfunction) _ _ s
  rw [enter_eq, enter_eq, hnode]

theorem leave_eq_of_agree (hn : n ∈ root.all) (s : State) :
    leave ⟨source, cursor, some index⟩ n s = leave ⟨source, cursor, some index'⟩ n s := by
  have hnode : leaveNode ⟨source, cursor, some index⟩ n s =
      leaveNode ⟨source, cursor, some index'⟩ n s := by
    by_cases hcall : n.kind = .callExpression
    · have hrequired : requiredType ⟨source, cursor, some index⟩ n s =
          requiredType ⟨source, cursor, some index'⟩ n s := by
        unfold requiredType
        cases hname : requiredModule? n with
        | none => rfl
        | some name =>
          obtain ⟨hloader, hmem⟩ := isLoaderCall_of_requiredModule? hcall hname
          dsimp only
          rw [loadModule_eq_of_agree (hagree name (mem_inspectedNames hn hloader hmem))]
      unfold leaveNode leaveCall
      rw [hrequired]
      split
      case h_5 => rfl
      all_goals exact absurd hcall (by simp_all)
    · exact leaveNode_eq_of_not_call hcall _ _ _ _ s
  rw [leave_eq, leave_eq, hnode]

/-- **A walk** is the same with both indices, and asks for inspected names only. -/
theorem visit_eq_of_agree (h : Traced root s) :
    root.visit (visitor ⟨source, cursor, some index⟩) s =
        root.visit (visitor ⟨source, cursor, some index'⟩) s ∧
      Traced root (root.visit (visitor ⟨source, cursor, some index⟩) s).2 := by
  refine Node.visit_congr_on (fun m hm s hs => ?_) (fun m hm s hs => ?_) h
  · exact ⟨enter_eq_of_agree hagree hs, traced_enter _ hs hm⟩
  · exact ⟨leave_eq_of_agree hagree hm s, traced_leave _ hs hm⟩

end

/-! ### Runs -/

theorem traced_addIndexedGlobals (task : Task) (root : Node) (env : Environment) :
    Traced root (addIndexedGlobals task { env := env }).2 := by
  have hstart : Traced root { env := env } := by
    refine ⟨fun place call hcall => ?_, fun name hname => ?_⟩
    · cases hcall
    · cases hname
  refine hstart.of_kept (.of_facts ?_) fun name hname => ?_
  · unfold addIndexedGlobals
    split
    · rfl
    · dsimp only
      split <;> rfl
  · unfold addIndexedGlobals at hname
    split at hname
    · exact Or.inl hname
    · dsimp only at hname
      split at hname <;> simp [State.happened, State.withEnv] at hname

theorem run_eq_of_agree (root : Node) (source : String) (cursor : Cursor) (env : Environment)
    (hglobals : index.globals = index'.globals)
    (hagree : ∀ name ∈ inspectedNames root, index.summary? name = index'.summary? name) :
    run ⟨source, cursor, some index⟩ root env = run ⟨source, cursor, some index'⟩ root env ∧
      Traced root (run ⟨source, cursor, some index⟩ root env).2 := by
  have hstart : addIndexedGlobals ⟨source, cursor, some index⟩ { env := addDeclaredGlobals root env } =
      addIndexedGlobals ⟨source, cursor, some index'⟩ { env := addDeclaredGlobals root env } := by
    unfold addIndexedGlobals
    dsimp only
    rw [hglobals]
  have htraced := traced_addIndexedGlobals ⟨source, cursor, some index⟩ root
    (addDeclaredGlobals root env)
  unfold run
  rw [← hstart]
  rcases hg : addIndexedGlobals ⟨source, cursor, some index⟩
    { env := addDeclaredGlobals root env } with ⟨fault | _, s⟩ <;> rw [hg] at htraced
  · exact ⟨rfl, htraced⟩
  · have hwalk : root.visit (visitor ⟨source, cursor, some index⟩) s =
          root.visit (visitor ⟨source, cursor, some index'⟩) s ∧
        Traced root (root.visit (visitor ⟨source, cursor, some index⟩) s).2 :=
      visit_eq_of_agree hagree htraced
    obtain ⟨heq, hend⟩ := hwalk
    dsimp only [walk]
    rw [← heq]
    rcases hv : root.visit (visitor ⟨source, cursor, some index⟩) s with ⟨_ | a, s'⟩ <;>
      rw [hv] at hend <;> exact ⟨rfl, hend⟩

/-- If the check finds nothing, every module that an inference asks for is known. -/
theorem known_of_asked {source : String} {cursor : Cursor} {env : Environment} {knows : String → Bool}
    (hcheck : checkTree knows root = [])
    (hname : .askedModule name ∈ (run ⟨source, cursor, some index⟩ root env).2.events) :
    knows name = true :=
  have htraced := (run_eq_of_agree root source cursor env rfl fun _ _ => rfl).2
  checkTree_eq_nil_iff.1 hcheck name (htraced.asked name hname)

/-- **An inference reads of an index what the check of dependencies inspects.** With two indices that
offer the same globals and the same summaries for the inspected names, an inference gives the same
answer and ends in the same state. All modules that it asks for are inspected, so if the check finds
nothing, each of them is known. -/
theorem run_reads_inspected (root : Node) (source : String) (cursor : Cursor) (env : Environment)
    (index index' : Index) (hglobals : index.globals = index'.globals)
    (hagree : ∀ name ∈ inspectedNames root, index.summary? name = index'.summary? name) :
    run ⟨source, cursor, some index⟩ root env = run ⟨source, cursor, some index'⟩ root env ∧
      ∀ knows : String → Bool, checkTree knows root = [] → ∀ name,
        .askedModule name ∈ (run ⟨source, cursor, some index⟩ root env).2.events →
          knows name = true :=
  ⟨(run_eq_of_agree root source cursor env hglobals hagree).1,
    fun _ hcheck _ hname => known_of_asked hcheck hname⟩

/-- The tree of `define("own", ["m"], function (p) { q = p; r = require("n"); });`. -/
def callbackProgram : Node :=
  let node (type : String) (fields : List (String × Json)) : Json := .obj (("type", .str type) :: fields)
  let identifier (name : String) : Json := node "Identifier" [("name", .str name)]
  let literal (value : String) : Json := node "Literal" [("value", .str value)]
  let call (callee : String) (arguments : List Json) : Json :=
    node "CallExpression" [("callee", identifier callee), ("arguments", .arr arguments)]
  let assignment (left : String) (right : Json) : Json :=
    node "ExpressionStatement" [("expression", node "AssignmentExpression" [
      ("operator", .str "="), ("left", identifier left), ("right", right)])]
  .root (node "Program" [("body", .arr [node "ExpressionStatement" [("expression",
    call "define" [literal "own", node "ArrayExpression" [("elements", .arr [literal "m"])],
      node "FunctionExpression" [("params", .arr [identifier "p"]),
        ("body", node "BlockStatement" [("body", .arr [assignment "q" (identifier "p"),
          assignment "r" (call "require" [literal "n"])])])]])]])])

/-- An index in which every name is that of a module, and one with the two modules that the callback
uses, give the same run, in which both modules are loaded and nothing else is asked for. -/
theorem run_reads_inspected_callback :
    let all : Index := ⟨.ok [], fun _ => .ok (some functionModule)⟩
    let two : Index := ⟨.ok [], fun name =>
      .ok (if name = "m" ∨ name = "n" then some functionModule else none)⟩
    let s := (run ⟨"", none, some all⟩ callbackProgram (.start "file")).2
    run ⟨"", none, some all⟩ callbackProgram (.start "file") =
        run ⟨"", none, some two⟩ callbackProgram (.start "file") ∧
      (∀ name, .askedModule name ∈ s.events → decide (name = "m" ∨ name = "n") = true) ∧
      s.env.lookup? (some "q") none = some (.function (.named "gen~m~0") []) ∧
      s.env.lookup? (some "r") none = some (.function (.named "gen~m~0") []) := by
  have hinspected : inspectedNames callbackProgram = ["m", "n"] := by decide +kernel
  have hcheck : checkTree (fun name => decide (name = "m" ∨ name = "n")) callbackProgram = [] := by
    decide +kernel
  obtain ⟨heq, hknown⟩ := run_reads_inspected callbackProgram "" none (.start "file")
    ⟨.ok [], fun _ => .ok (some functionModule)⟩
    ⟨.ok [], fun name => .ok (if name = "m" ∨ name = "n" then some functionModule else none)⟩ rfl
    (fun name hname => by
      rw [hinspected] at hname
      simp only [List.mem_cons, List.not_mem_nil, or_false] at hname
      simp [hname])
  exact ⟨heq, hknown _ hcheck, by decide +kernel, by decide +kernel⟩

end Inference

/-! ### Lookups that do not miss -/

section Lookups

variable {root : Node} {source name : String} {cursor : Cursor} {env : Environment}

/-- Whether the index has a summary for a module. -/
def Index.answers (index : Index) (name : String) : Bool :=
  match index.summary? name with
  | .ok (some _) => true
  | _ => false

/-- If the check finds nothing unanswered, the index answers each time that an inference asks for a
module. -/
theorem answered_of_asked {index : Index} (hcheck : checkTree index.answers root = [])
    (hname : .askedModule name ∈ (run ⟨source, cursor, some index⟩ root env).2.events) :
    ∃ s, index.summary? name = .ok (some s) := by
  have hanswers := known_of_asked hcheck hname
  unfold Index.answers at hanswers
  split at hanswers
  · exact ⟨_, ‹_›⟩
  · cases hanswers

/-- An index of sources has no summary for a module that it knows only if its source cannot be parsed. -/
theorem SourceIndex.exists_unparsable_of_retrieve {parser : Parser} {ix : SourceIndex}
    (hknown : ix.knows name = true) (hnone : (ix.retrieve parser name).value = .ok none) :
    ∃ source e, ix.moduleSources.find? name = some source ∧
      ((Assistant.mk parser none).summary source name).1 = .error (.unparsable e) := by
  unfold knows OrderedMap.contains at hknown
  unfold retrieve summarize at hnone
  cases hcached : ix.cache.find? (.module, name) with
  | some s => simp [hcached] at hnone
  | none =>
    cases hsource : ix.moduleSources.find? name with
    | none => simp [hcached, hsource] at hknown
    | some source =>
      simp only [hcached, hsource] at hnone
      split at hnone
      · cases hnone
      · exact ⟨source, _, rfl, ‹_›⟩
      · cases hnone

/-- **If the check finds nothing, no lookup misses** in an index of sources, but for modules whose source
cannot be parsed. -/
theorem unparsable_of_miss {parser : Parser} {ix : SourceIndex}
    (hcheck : checkTree ix.knows root = [])
    (hname : .askedModule name ∈ (run ⟨source, cursor, some (ix.view parser)⟩ root env).2.events)
    (hmiss : (ix.view parser).summary? name = .ok none) :
    ∃ text e, ix.moduleSources.find? name = some text ∧
      ((Assistant.mk parser none).summary text name).1 = .error (.unparsable e) :=
  SourceIndex.exists_unparsable_of_retrieve (known_of_asked hcheck hname) hmiss

end Lookups

end ContentAssist
