import ContentAssist.Proofs.Json.FieldOrder
import ContentAssist.Proofs.Tree.StackWalk

/-! # Trees and the order of fields

Children are collected field by field and then sorted by their start offsets. If no two children of a node
have the same start, nothing is left of the order of the fields: a tree in normal form has the children of
the tree, in normal form. So it is walked in the same order, and trees that are the same up to the order
of fields are walked alike.

* `Node.normal`, and what is read from it;
* `Node.DistinctStarts`: no two children of a node have the same start;
* `Node.children_normal`, `Node.all_normal`: the children of the normal form;
* `Node.visit_normal`, `Node.moves_normal`: a walk of the normal form follows that of the tree;
* `Node.visit_of_normal_eq`: trees with the same normal form are walked alike. -/

namespace ContentAssist

namespace Node

/-- The node with its value in normal form. -/
def normal (n : Node) : Node := ⟨n.place, n.value.normal⟩

/-! ### Reading the normal form -/

section
variable (n : Node) (key : String)

@[simp] theorem place_normal : n.normal.place = n.place := rfl

@[simp] theorem value_normal : n.normal.value = n.value.normal := rfl

@[simp] theorem get_normal : n.normal.get key = (n.get key).normal := by
  rw [get, value_normal, Json.get_normal]
  rfl

theorem itemsFrom_map_normal (place : Place) (index : Nat) (vs : List Json) :
    itemsFrom place index (vs.map Json.normal) = (itemsFrom place index vs).map normal := by
  induction vs generalizing index with
  | nil => rfl
  | cons v vs ih => rw [List.map_cons, itemsFrom, ih, itemsFrom, List.map_cons, normal]

@[simp] theorem items_normal : n.normal.items = n.items.map normal := by
  rw [items, value_normal, Json.items_normal, itemsFrom_map_normal]
  rfl

@[simp] theorem list_normal : n.normal.list key = (n.list key).map normal := by
  rw [list, get_normal, items_normal]
  rfl

@[simp] theorem isObject_normal : n.normal.isObject = n.isObject := Json.isObject_normal _

@[simp] theorem isNull_normal : n.normal.isNull = n.isNull := Json.isNull_normal _

@[simp] theorem flag_normal : n.normal.flag key = n.flag key := by
  simp [flag]

@[simp] theorem kind_normal : n.normal.kind = n.kind := by
  simp [kind]

@[simp] theorem name_normal : n.normal.name = n.name := by
  simp [name]

@[simp] theorem identifier?_normal : n.normal.identifier? = n.identifier? := by
  simp [identifier?]

@[simp] theorem span?_normal : n.normal.span? = n.span? := by
  rw [span?, value_normal, Json.get_normal, Json.items_normal, span?]
  rcases (n.value.get "range").items with _ | ⟨v, _ | ⟨w, vs⟩⟩
  · rfl
  · cases v <;> rfl
  · cases v <;> cases w <;> rfl

@[simp] theorem start?_normal : n.normal.start? = n.start? := by
  rw [start?, value_normal, Json.get_normal, Json.items_normal, start?]
  rcases (n.value.get "range").items with _ | ⟨v, vs⟩
  · rfl
  · cases v <;> rfl

end

theorem map_map_normal {β : Type} {f : Node → β} (hf : ∀ n : Node, f n.normal = f n) (ns : List Node) :
    (ns.map normal).map f = ns.map f := by
  rw [List.map_map]
  exact congrArg (List.map · ns) (funext hf)

theorem isNode_normal (v : Json) : isNode v.normal = isNode v := by
  rw [isNode, Json.field?_normal, Option.isSome_map, isNode]

/-! ### Children -/

/-- The nodes in one field of a value at the given place. -/
def nodesIn (place : Place) (f : String × Json) : List Node :=
  if f.1 ∈ bookkeepingFields then []
  else nodesOf (⟨.field f.1 :: place, f.2⟩ :: items ⟨.field f.1 :: place, f.2⟩)

theorem fieldNodes_eq_flatMap (n : Node) (fs : List (String × Json)) :
    n.fieldNodes fs = fs.flatMap (nodesIn n.place) := by
  induction fs with
  | nil => rfl
  | cons f fs ih =>
    rw [fieldNodes.eq_def, List.flatMap_cons, ← ih, nodesIn]
    dsimp only
    split <;> rfl

theorem nodesOf_map_normal (ns : List Node) : nodesOf (ns.map normal) = (nodesOf ns).map normal := by
  rw [nodesOf, List.filter_map, nodesOf]
  exact congrArg (List.map normal) (List.filter_congr fun m _ => isNode_normal m.value)

theorem nodesIn_normal (place : Place) (f : String × Json) :
    nodesIn place (f.1, f.2.normal) = (nodesIn place f).map normal := by
  unfold nodesIn
  dsimp only
  split
  · rfl
  · rw [← nodesOf_map_normal, List.map_cons, ← items_normal]
    rfl

theorem perm_fieldNodes_normal (n : Node) :
    (n.normal.fieldNodes n.normal.value.fields).Perm ((n.fieldNodes n.value.fields).map normal) := by
  have hmap : (n.fieldNodes n.value.fields).map normal =
      (n.value.fields.map fun f => (f.1, f.2.normal)).flatMap (nodesIn n.place) := by
    rw [fieldNodes_eq_flatMap, List.map_flatMap, List.flatMap_map]
    exact congrArg (List.flatMap · n.value.fields) (funext fun f => (nodesIn_normal _ f).symm)
  rw [hmap, fieldNodes_eq_flatMap, value_normal, Json.fields_normal, Json.sortFields]
  exact (perm_sortStable _ _).flatMap_right _

theorem perm_children_normal (n : Node) : n.normal.children.Perm (n.children.map normal) :=
  (perm_sortStable _ _).trans ((perm_fieldNodes_normal n).trans ((perm_sortStable _ _).symm.map normal))

/-- **The children of the normal form** are those of the node, if their starts tell them apart. -/
theorem children_normal {n : Node} (hstarts : (n.children.map start?).Nodup) :
    n.normal.children = n.children.map normal := by
  have hsort : n.children.map normal = sortByStart start? ((n.fieldNodes n.value.fields).map normal) := by
    rw [sortByStart, sortStable_map]
    simp only [start?_normal]
    rfl
  have hnodup : ((n.normal.fieldNodes n.normal.value.fields).map start?).Nodup := by
    have hperm : (n.normal.fieldNodes n.normal.value.fields).Perm (n.children.map normal) :=
      (perm_sortStable _ _).symm.trans (perm_children_normal n)
    rwa [(hperm.map start?).nodup_iff, map_map_normal start?_normal]
  rw [hsort]
  refine sortStable_eq_of_perm (fun a b => ?_) (fun a b c => ?_) (perm_fieldNodes_normal n)
    fun a ha b hb hab hba => ?_
  · exact startsNoLater_total a.start? b.start?
  · exact startsNoLater_trans a.start? b.start? c.start?
  · exact List.inj_on_of_nodup_map hnodup ha hb (startsNoLater_antisymm hab hba)

/-! ### Trees -/

/-- No two children of a node have the same start. -/
def DistinctStarts (root : Node) : Prop := ∀ m ∈ root.all, (m.children.map start?).Nodup

variable {n : Node}

theorem DistinctStarts.of_child {c : Node} (h : n.DistinctStarts) (hc : c ∈ n.children) :
    c.DistinctStarts := fun m hm => h m (mem_all_of_child hc hm)

theorem mem_all_normal {k : Node} : k ∈ n.normal.all ↔ ∃ m ∈ n.all, m.normal = k := by
  induction n using induct with
  | step n ih =>
    have hchildren : ∀ {q}, q ∈ n.normal.children ↔ ∃ c ∈ n.children, c.normal = q := fun {q} => by
      rw [(perm_children_normal n).mem_iff, List.mem_map]
    rw [mem_all_iff]
    constructor
    · rintro (rfl | ⟨q, hq, hk⟩)
      · exact ⟨n, n.mem_all_self, rfl⟩
      · obtain ⟨c, hc, rfl⟩ := hchildren.1 hq
        obtain ⟨m, hm, hk⟩ := (ih c hc).1 hk
        exact ⟨m, mem_all_of_child hc hm, hk⟩
    · rintro ⟨m, hm, rfl⟩
      rcases mem_all_iff.1 hm with rfl | ⟨c, hc, hm⟩
      · exact Or.inl rfl
      · exact Or.inr ⟨c.normal, hchildren.2 ⟨c, hc, rfl⟩, (ih c hc).2 ⟨m, hm, rfl⟩⟩

theorem distinctStarts_normal : n.normal.DistinctStarts ↔ n.DistinctStarts := by
  have hstarts : ∀ m : Node, (m.normal.children.map start?).Nodup ↔ (m.children.map start?).Nodup :=
    fun m => by rw [((perm_children_normal m).map start?).nodup_iff, map_map_normal start?_normal]
  constructor
  · exact fun h m hm => (hstarts m).1 (h m.normal (mem_all_normal.2 ⟨m, hm, rfl⟩))
  · intro h k hk
    obtain ⟨m, hm, rfl⟩ := mem_all_normal.1 hk
    exact (hstarts m).2 (h m hm)

/-- **The nodes of the normal form** are those of the tree, in the same order. -/
theorem all_normal (hstarts : n.DistinctStarts) : n.normal.all = n.all.map normal := by
  induction n using induct with
  | step n ih =>
    rw [all_eq, all_eq n, children_normal (hstarts n n.mem_all_self), List.map_cons, List.flatMap_map,
      List.map_flatMap]
    exact congrArg (n.normal :: ·) (List.flatMap_congr fun c hc => ih c hc (hstarts.of_child hc))

end Node

/-! ### Walks -/

/-- The entry with another answer. -/
def Entry.map {α β : Type} (g : α → β) : Entry α → Entry β
  | .descend => .descend
  | .skip => .skip
  | .found a => .found (g a)

theorem Entry.map_id {α : Type} (e : Entry α) : e.map id = e := by
  cases e <;> rfl

/-- The move with its node in normal form, and with other states. -/
def Move.normal {σ τ : Type} (f : σ → τ) (m : Move σ) : Move τ :=
  ⟨m.node.normal, m.way, f m.before, f m.after⟩

namespace Node

section
variable {σ τ α β : Type} {v : Visitor σ α} {w : Visitor τ β} {f : σ → τ} {g : α → β} {n : Node}

theorem visitEach_normal {ns : List Node}
    (ih : ∀ n ∈ ns, ∀ s, n.normal.visit w (f s) = ((n.visit v s).1.map g, f (n.visit v s).2)) (s : σ) :
    visitEach w (ns.map normal) (f s) = ((visitEach v ns s).1.map g, f (visitEach v ns s).2) := by
  induction ns generalizing s with
  | nil => rfl
  | cons n ns ihn =>
    rw [List.map_cons, visitEach, ih n List.mem_cons_self, visitEach]
    rcases n.visit v s with ⟨_ | a, s'⟩
    · exact ihn (fun k hk => ih k (List.mem_cons_of_mem _ hk)) s'
    · rfl

/-- **A walk of the normal form follows the walk of the tree**, if its visitor does so at each node. -/
theorem visit_normal (hstarts : n.DistinctStarts)
    (henter : ∀ m ∈ n.all, ∀ s, w.enter m.normal (f s) = ((v.enter m s).1.map g, f (v.enter m s).2))
    (hleave : ∀ m ∈ n.all, ∀ s, w.leave m.normal (f s) = ((v.leave m s).1.map g, f (v.leave m s).2))
    (s : σ) : n.normal.visit w (f s) = ((n.visit v s).1.map g, f (n.visit v s).2) := by
  induction n using induct generalizing s with
  | step n ih =>
    have heach : ∀ s, visitEach w (n.children.map normal) (f s) =
        ((visitEach v n.children s).1.map g, f (visitEach v n.children s).2) :=
      visitEach_normal fun c hc => ih c hc (hstarts.of_child hc)
        (fun m hm => henter m (mem_all_of_child hc hm)) fun m hm => hleave m (mem_all_of_child hc hm)
    rw [visit_eq, visit_eq n, children_normal (hstarts n n.mem_all_self), henter n n.mem_all_self]
    rcases v.enter n s with ⟨_ | _ | a, s₁⟩
    · simp only [Entry.map, heach]
      rcases visitEach v n.children s₁ with ⟨_ | a, s₂⟩
      · exact hleave n n.mem_all_self s₂
      · rfl
    · rfl
    · rfl

/-- **The moves of that walk** follow those of the walk of the tree. -/
theorem moves_normal (hstarts : n.DistinctStarts)
    (henter : ∀ m ∈ n.all, ∀ s, w.enter m.normal (f s) = ((v.enter m s).1.map g, f (v.enter m s).2))
    (hleave : ∀ m ∈ n.all, ∀ s, w.leave m.normal (f s) = ((v.leave m s).1.map g, f (v.leave m s).2))
    (s : σ) : n.normal.moves w (f s) = (n.moves v s).map (Move.normal f) := by
  -- the visitors that write down their moves follow one another, too
  have hrecording := visit_normal (v := v.recording) (w := w.recording) (g := g)
    (f := fun r => (f r.1, r.2.map (Move.normal f))) hstarts
    (fun m hm r => by
      simp only [Visitor.recording, Visitor.move, Visitor.next, henter m hm, List.map_append,
        List.map_cons, List.map_nil, Move.normal])
    (fun m hm r => by
      simp only [Visitor.recording, Visitor.move, Visitor.next, hleave m hm, List.map_append,
        List.map_cons, List.map_nil, Move.normal])
    (s, [])
  simp only [List.map_nil, visit_recording, List.nil_append] at hrecording
  exact congrArg (fun r => r.2.2) hrecording

/-- The same if the answers are the same, too. -/
theorem visit_normal_of_same {w : Visitor τ α} (hstarts : n.DistinctStarts)
    (henter : ∀ m ∈ n.all, ∀ s, w.enter m.normal (f s) = ((v.enter m s).1, f (v.enter m s).2))
    (hleave : ∀ m ∈ n.all, ∀ s, w.leave m.normal (f s) = ((v.leave m s).1, f (v.leave m s).2))
    (s : σ) : n.normal.visit w (f s) = ((n.visit v s).1, f (n.visit v s).2) ∧
      n.normal.moves w (f s) = (n.moves v s).map (Move.normal f) := by
  have henter' : ∀ m ∈ n.all, ∀ s,
      w.enter m.normal (f s) = ((v.enter m s).1.map id, f (v.enter m s).2) := fun m hm s => by
    rw [Entry.map_id, henter m hm]
  have hleave' : ∀ m ∈ n.all, ∀ s,
      w.leave m.normal (f s) = ((v.leave m s).1.map id, f (v.leave m s).2) := fun m hm s => by
    rw [Option.map_id_fun, hleave m hm]
    rfl
  have hvisit := visit_normal hstarts henter' hleave' s
  rw [Option.map_id_fun] at hvisit
  exact ⟨hvisit, moves_normal hstarts henter' hleave' s⟩

end

/-! ### Trees that are the same up to the order of fields -/

variable {a b : Node}

theorem DistinctStarts.of_normal_eq (h : a.normal = b.normal) (ha : a.DistinctStarts) :
    b.DistinctStarts := distinctStarts_normal.1 (h ▸ distinctStarts_normal.2 ha)

/-- Each node of the one tree has the normal form of one of the other tree. -/
theorem exists_same_normal (h : a.normal = b.normal) {m : Node} (hm : m ∈ b.all) :
    ∃ n ∈ a.all, n.normal = m.normal := by
  have hmem : m.normal ∈ a.normal.all := h ▸ mem_all_normal.2 ⟨m, hm, rfl⟩
  exact mem_all_normal.1 hmem

end Node

section
variable {σ α : Type} {v w : Visitor σ α} {a b : Node}

/-- The visitor that does at a place what another one does at the listed node there. -/
def Visitor.atPlaces (v : Visitor σ α) (ns : List Node) : Visitor σ α where
  enter m s :=
    match ns.find? fun n => n.place = m.place with
    | some n => v.enter n s
    | none => (.skip, s)
  leave m s :=
    match ns.find? fun n => n.place = m.place with
    | some n => v.leave n s
    | none => (none, s)

/-- Two visitors do the same at nodes of two trees that stand at the same place. -/
def Visitor.SameAtPlaces (v w : Visitor σ α) (a b : Node) : Prop :=
  ∀ n ∈ a.all, ∀ m ∈ b.all, n.place = m.place → ∀ s,
    v.enter n s = w.enter m s ∧ v.leave n s = w.leave m s

theorem Visitor.SameAtPlaces.atPlaces (h : v.SameAtPlaces w a b) {m n : Node} (hm : m ∈ b.all)
    (hn : n ∈ a.all) (hnm : n.place = m.place) (s : σ) :
    (v.atPlaces a.all).enter m.normal s = w.enter m s ∧
      (v.atPlaces a.all).leave m.normal s = w.leave m s := by
  obtain ⟨k, hk⟩ := Option.isSome_iff_exists.1
    (List.find?_isSome.2 ⟨n, hn, decide_eq_true hnm⟩ :
      (a.all.find? fun n => n.place = m.place).isSome = true)
  have hplace : k.place = m.place := by simpa using List.find?_some hk
  have hsame := h k (List.mem_of_find?_eq_some hk) m hm hplace s
  have hk' : (a.all.find? fun n => n.place = m.normal.place) = some k := hk
  simp only [Visitor.atPlaces, hk']
  exact hsame

namespace Node

/-- **Trees with the same normal form are walked alike** by visitors that do the same at the same places. -/
theorem visit_of_normal_eq (h : a.normal = b.normal) (ha : a.DistinctStarts)
    (hsame : v.SameAtPlaces w a b) (s : σ) :
    a.visit v s = b.visit w s ∧
      (a.moves v s).map (Move.normal id) = (b.moves w s).map (Move.normal id) := by
  -- both walks are that of the normal form with the visitor that finds the nodes by their places
  have hleft : ∀ n ∈ a.all, ∀ s, (v.atPlaces a.all).enter n.normal s = v.enter n s ∧
      (v.atPlaces a.all).leave n.normal s = v.leave n s := fun n hn s => by
    obtain ⟨m, hm, hmn⟩ := exists_same_normal h.symm hn
    have hplace : n.place = m.place := (congrArg place hmn).symm
    obtain ⟨henter, hleave⟩ := hsame.atPlaces hm hn hplace s
    obtain ⟨henter', hleave'⟩ := hsame n hn m hm hplace s
    rw [← hmn]
    exact ⟨henter.trans henter'.symm, hleave.trans hleave'.symm⟩
  have hright : ∀ m ∈ b.all, ∀ s, (v.atPlaces a.all).enter m.normal s = w.enter m s ∧
      (v.atPlaces a.all).leave m.normal s = w.leave m s := fun m hm s => by
    obtain ⟨n, hn, hnm⟩ := exists_same_normal h hm
    exact hsame.atPlaces hm hn (congrArg place hnm :) s
  obtain ⟨hvisit, hmoves⟩ := visit_normal_of_same (f := id) ha (fun n hn s => (hleft n hn s).1)
    (fun n hn s => (hleft n hn s).2) s
  obtain ⟨hvisit', hmoves'⟩ := visit_normal_of_same (f := id) (ha.of_normal_eq h)
    (fun m hm s => (hright m hm s).1) (fun m hm s => (hright m hm s).2) s
  rw [h] at hvisit hmoves
  exact ⟨hvisit.symm.trans hvisit', hmoves.symm.trans hmoves'⟩

end Node

end

end ContentAssist
