import ContentAssist.Proofs.Inference.ScopeClosing

/-! # The scopes that a walk leaves behind

What a node opens on the way down it closes on the way up. Whether the second scope of a constructor
is closed again depends on a remark about its body, which the walk of the children leaves alone
(`depth_eq_of_visitEach`).

* `balanced_visit`: a walk ends inside the scopes in which it started, and in those themselves if it
  gives no answer;
* `exists_run_ok`, `run_without_cursor`: an inference without an index succeeds, and without a cursor
  it ends in the outermost scope;
* `inference_scope_balance`: both, of walks and of whole inferences. -/

namespace ContentAssist.Inference

variable {task : Task} {n : Node} {s s' : State}

/-! ### Walks -/

theorem fact_visit {c : Node} (hc : c ∈ n.children) (s : State) :
    (c.visit (visitor task) s).2.fact n = s.fact n := by
  refine (changes_visit task c s).framed.elsewhere n.place fun h => ?_
  obtain ⟨step, path, hplace, hpath⟩ := Node.place_of_mem_children hc
  have h1 := h.length_le
  have h2 := hpath.length_le
  rw [hplace, List.length_cons] at h1
  omega

theorem fact_visitEach {cs : List Node} (hcs : ∀ c ∈ cs, c ∈ n.children) (s : State) :
    (Node.visitEach (visitor task) cs s).2.fact n = s.fact n := by
  induction cs generalizing s with
  | nil => rfl
  | cons c cs ih =>
    have hd := @fact_visit task n c (hcs c List.mem_cons_self) s
    rw [Node.visitEach]
    rcases hv : c.visit (visitor task) s with ⟨_ | a, s'⟩ <;> rw [hv] at hd
    · exact (ih (fun m hm => hcs m (List.mem_cons_of_mem _ hm)) s').trans hd
    · exact hd

theorem closesObject_visit {c : Node} (hc : c ∈ n.children) (s : State) :
    closesObject n (c.visit (visitor task) s).2 = closesObject n s := by
  have hframed := (changes_visit task c s).framed
  obtain ⟨step, path, hplace, hpath⟩ := Node.place_of_mem_children hc
  have hlength : n.place.length + 1 ≤ c.place.length := by
    rw [hplace]
    exact Nat.succ_le_succ hpath.length_le
  have hbody : ((c.visit (visitor task) s).2.fact (n.get "body")).isConstructorBody =
      (s.fact (n.get "body")).isConstructorBody := by
    by_cases h : c.place <:+ (n.get "body").place
    · have heq : c.place = (n.get "body").place := h.eq_of_length_le hlength
      unfold State.fact
      rw [← heq]
      exact hframed.body
    · exact congrArg Fact.isConstructorBody (hframed.elsewhere _ h)
  unfold closesObject
  rw [fact_visit hc, hbody]

theorem closesObject_visitEach {cs : List Node} (hcs : ∀ c ∈ cs, c ∈ n.children) (s : State) :
    closesObject n (Node.visitEach (visitor task) cs s).2 = closesObject n s := by
  induction cs generalizing s with
  | nil => rfl
  | cons c cs ih =>
    have hd := @closesObject_visit task n c (hcs c List.mem_cons_self) s
    rw [Node.visitEach]
    rcases hv : c.visit (visitor task) s with ⟨_ | a, s'⟩ <;> rw [hv] at hd
    · exact (ih (fun m hm => hcs m (List.mem_cons_of_mem _ hm)) s').trans hd
    · exact hd

/-- The walks of the children do not change how many scopes their node closes. -/
theorem depth_eq_of_visitEach {cs : List Node} (hcs : ∀ c ∈ cs, c ∈ n.children) (s : State) :
    depth n (Node.visitEach (visitor task) cs s).2 = depth n s := by
  unfold depth
  rw [closesObject_visitEach hcs]

/-- A part of a walk ends inside the scopes in which it started. If it gives no answer and the
bodies are proper, it ends in those scopes themselves. A fault is one of the index. -/
structure Balanced (task : Task) (proper : Prop) (s : State) (o : Outcome) : Prop where
  opens : ∃ extra, Opens extra s o.2 ∧ (o.1 = none → proper → extra = [])
  fault : ∀ fault, o.1 = some (.error fault) → AskedFault task fault o.2

theorem balanced_visitEach {cs : List Node}
    (ih : ∀ c ∈ cs, ∀ s, Balanced task (∀ m ∈ c.all, HasProperBody m) s (c.visit (visitor task) s))
    (s : State) :
    Balanced task (∀ c ∈ cs, ∀ m ∈ c.all, HasProperBody m) s
      (Node.visitEach (visitor task) cs s) := by
  induction cs generalizing s with
  | nil => exact ⟨⟨[], .of_eq rfl, fun _ _ => rfl⟩, fun _ hf => by cases hf⟩
  | cons c cs ihc =>
    obtain ⟨⟨e, hopens, hnone⟩, hfault⟩ := ih c List.mem_cons_self s
    rw [Node.visitEach]
    rcases hv : c.visit (visitor task) s with ⟨_ | a, s'⟩ <;> rw [hv] at hopens hnone hfault
    · obtain ⟨⟨e', hopens', hnone'⟩, hfault'⟩ :=
        ihc (fun m hm => ih m (List.mem_cons_of_mem _ hm)) s'
      refine ⟨⟨e' ++ e, hopens.trans hopens', fun hn hp => ?_⟩, hfault'⟩
      rw [hnone' hn fun m hm => hp m (List.mem_cons_of_mem _ hm),
        hnone rfl (hp c List.mem_cons_self)]
      rfl
    · exact ⟨⟨e, hopens, fun hn => by cases hn⟩, hfault⟩

/-- The way up after the way down and the walks of the children, which opened the scopes `e`. -/
theorem balanced_leave {e : List String} {proper : Prop} {s₁ s₂ : State} (hopens : Opens e s₁ s₂)
    (hle : depth n s₂ ≤ e.length) (heq : proper → e.length = depth n s₂) :
    Balanced task proper s₁ (leave task n s₂) := by
  obtain ⟨houtermost, ⟨j, hj, hdrop, hnone⟩, hfault⟩ := closes_leaveNode task (n := n) (s := s₂) (by
    rw [hopens.inner, List.length_append]
    omega)
  have hrest : Opens (e.drop j) s₁ (leaveNode task n s₂).2 := by
    refine ⟨houtermost.trans hopens.outermost, ?_⟩
    rw [hdrop, hopens.inner, List.drop_append_of_le_length (by omega)]
  rw [leave_eq]
  rcases hl : leaveNode task n s₂ with ⟨_ | a, s₃⟩ <;> rw [hl] at hrest hnone hfault
  · have hsettled : Opens (e.drop j) s₁ (settle n s₃) :=
      hrest.trans (.of_eq (congrArg Environment.scopes (env_settle n s₃)))
    refine ⟨⟨_, hsettled, fun _ hproper => ?_⟩, fun fault hf => by cases hf⟩
    rw [hnone rfl, ← heq hproper, List.drop_length]
  · exact ⟨⟨_, hrest, fun hn => by cases hn⟩, hfault⟩

/-- **Scope balance**: a walk ends inside the scopes in which it started, in those themselves if it
gives no answer, and a scope that it leaves is never the outermost one. -/
theorem balanced_visit (task : Task) (n : Node) (s : State) :
    Balanced task (∀ m ∈ n.all, HasProperBody m) s (n.visit (visitor task) s) := by
  induction n using Node.induct generalizing s with
  | step n ih =>
    rw [Node.visit_eq, show (visitor task).enter n s = enter task n s from rfl, enter_eq]
    by_cases hskip : n.kind = .variableDeclaration ∧ task.cursor.isBefore n.span?
    · rw [if_pos hskip]
      exact ⟨⟨[], .of_eq rfl, fun _ _ => rfl⟩, fun _ hf => by cases hf⟩
    · rw [if_neg hskip]
      obtain ⟨e, hopens, hdepth⟩ := opens_enterNode task n s
      have hasked := askedFault_enterNode task n s
      rcases hen : enterNode task n s with ⟨fault | _, s₁⟩ <;> rw [hen] at hopens hdepth hasked
      · refine ⟨⟨e, hopens, fun hn => by cases hn⟩, fun fault' hf => ?_⟩
        cases hf
        exact hasked fault rfl
      · obtain ⟨hle, heq⟩ := hdepth rfl
        obtain ⟨⟨e', hopens', hnone'⟩, hfault'⟩ := balanced_visitEach ih s₁
        have hsame := @depth_eq_of_visitEach task n n.children (fun _ hc => hc) s₁
        dsimp only at hopens hle heq ⊢
        rcases hv : Node.visitEach (visitor task) n.children s₁ with ⟨_ | a, s₂⟩ <;>
          rw [hv] at hopens' hnone' hfault' hsame
        · refine balanced_leave (hopens.trans hopens') ?_ fun hproper => ?_
          · rw [hsame, List.length_append]
            omega
          · rw [hsame, hnone' rfl fun c hc m hm => hproper m (Node.mem_all_of_child hc hm)]
            exact heq (hproper n n.mem_all_self)
        · exact ⟨⟨e' ++ e, hopens.trans hopens', fun hn => by cases hn⟩, hfault'⟩

/-! ### Whole inferences -/

/-- Where a fault of an inference comes from: the index was asked last, for the globals or for a
module, and answered with it. -/
def IndexFault (task : Task) (fault : Fault) (s : State) : Prop :=
  AskedFault task fault s ∨ ∃ index, task.index? = some index ∧ index.globals = .error fault ∧
    s.events.getLast? = some .askedGlobals

theorem indexFault_addIndexedGlobals {fault : Fault}
    (h : (addIndexedGlobals task s).1 = .error fault) :
    IndexFault task fault (addIndexedGlobals task s).2 := by
  unfold addIndexedGlobals at h ⊢
  split at h
  · cases h
  · rename_i index hindex
    dsimp only at h ⊢
    cases hg : index.globals with
    | error fault' =>
      rw [hg] at h
      cases h
      exact Or.inr ⟨index, hindex, hg, by simp [State.happened]⟩
    | ok summaries => simp [hg] at h

/-- What a walk of a program comes to. -/
theorem walk_program {root : Node} (h : root.kind = .program) (task : Task) (s : State) :
    walk task root s =
      match Node.visitEach (visitor task) root.children (enterProgram root s) with
      | (some a, s) => (a, s)
      | (none, s) => (.ok (s.env.scope none), s) := by
  unfold walk
  rw [visit_program h]
  rcases Node.visitEach (visitor task) root.children (enterProgram root s) with ⟨_ | a, s'⟩ <;> rfl

theorem balanced_children (task : Task) (n : Node) (s : State) :
    Balanced task (∀ c ∈ n.children, ∀ m ∈ c.all, HasProperBody m) s
      (Node.visitEach (visitor task) n.children s) :=
  balanced_visitEach (fun c _ => balanced_visit task c) s

/-- An inference of a program fails only with a fault of the index. -/
theorem indexFault_run {root : Node} (h : root.kind = .program) (task : Task) (env : Environment)
    (fault : Fault) (hf : (run task root env).1 = .error fault) :
    IndexFault task fault (run task root env).2 := by
  unfold run at hf ⊢
  have hglobals := @indexFault_addIndexedGlobals task { env := addDeclaredGlobals root env } fault
  rcases hg : addIndexedGlobals task { env := addDeclaredGlobals root env } with ⟨fault' | _, s⟩ <;>
    rw [hg] at hf hglobals
  · cases hf
    exact hglobals rfl
  · dsimp only at hf ⊢
    rw [walk_program h] at hf ⊢
    obtain ⟨-, hfault⟩ := balanced_children task root (enterProgram root s)
    rcases hv : Node.visitEach (visitor task) root.children (enterProgram root s) with ⟨_ | a, s'⟩ <;>
      rw [hv] at hf hfault
    · cases hf
    · exact Or.inl (hfault fault (congrArg some hf))

/-- Without an index the inference of a program answers. -/
theorem exists_run_ok {root : Node} (h : root.kind = .program) (task : Task)
    (hindex : task.index? = none) (env : Environment) :
    ∃ scope s, run task root env = (.ok scope, s) := by
  rcases hr : run task root env with ⟨fault | scope, s⟩
  · have hfault := indexFault_run h task env fault (by rw [hr])
    rcases hfault with ⟨index, name, hsome, -⟩ | ⟨index, hsome, -⟩
    · rw [hindex] at hsome
      cases hsome
    · rw [hindex] at hsome
      cases hsome
  · exact ⟨scope, s, rfl⟩

/-- Without a cursor the inference of a program that holds no other ends where it started. -/
theorem run_without_cursor {root : Node} (h : root.kind = .program)
    (hbody : ∀ m ∈ root.all, HasProperBody m)
    (hnested : ∀ c ∈ root.children, ∀ m ∈ c.all, m.kind ≠ .program) {task : Task}
    (hcursor : task.cursor = none) (env : Environment) {scope : String}
    (hok : (run task root env).1 = .ok scope) :
    scope = env.scopes.current ∧ (run task root env).2.env.scopes = env.scopes := by
  unfold run at hok ⊢
  have hglobals := scopes_addIndexedGlobals task { env := addDeclaredGlobals root env }
  rcases hg : addIndexedGlobals task { env := addDeclaredGlobals root env } with ⟨fault' | _, s⟩ <;>
    rw [hg] at hok hglobals
  · cases hok
  · dsimp only at hok hglobals ⊢
    rw [walk_program h] at hok ⊢
    obtain ⟨⟨extra, hopens, hnone⟩, -⟩ := balanced_children task root (enterProgram root s)
    rcases hv : Node.visitEach (visitor task) root.children (enterProgram root s) with ⟨_ | a, s'⟩ <;>
      rw [hv] at hok hopens hnone
    · have hextra : extra = [] :=
        hnone rfl fun c hc m hm => hbody m (Node.mem_all_of_child hc hm)
      have hscopes : s'.env.scopes = env.scopes := by
        rw [← scopes_addDeclaredGlobals root env, ← hglobals, ← env_enterProgram root s]
        refine Scopes.ext hopens.outermost ?_
        rw [hopens.inner, hextra]
        rfl
      cases hok
      exact ⟨congrArg Scopes.current hscopes, hscopes⟩
    · dsimp only at hok
      rw [hok] at hv
      obtain ⟨c, hc, m, hm, hk⟩ := kind_of_visitEach_ok hcursor hv
      exact absurd hk (hnested c hc m hm)

theorem toList_prefix_of_opens {extra : List String} (h : Opens extra s s') :
    s.env.scopes.toList <+: s'.env.scopes.toList := by
  refine ⟨extra.reverse, ?_⟩
  unfold Scopes.toList
  rw [h.outermost, h.inner, List.reverse_append, List.cons_append]

/-- **Scope balance of an inference.** A walk that answers ends inside the scopes in which it
started, one that does not ends in those themselves, and no fault is its own: the outermost scope is
never left. So an inference of a program fails only where the index does, and without a cursor, if
the program holds no other, it ends in the global scope. -/
theorem inference_scope_balance (root : Node) (hbody : ∀ m ∈ root.all, HasProperBody m) :
    (∀ task s,
      match root.visit (visitor task) s with
      | (some a, s') => s.env.scopes.toList <+: s'.env.scopes.toList ∧
          ∀ fault, a = .error fault → AskedFault task fault s'
      | (none, s') => s'.env.scopes = s.env.scopes) ∧
    (root.kind = .program → ∀ task uid,
      (∀ fault, (run task root (.start uid)).1 = .error fault →
        IndexFault task fault (run task root (.start uid)).2) ∧
      (task.cursor = none → (∀ c ∈ root.children, ∀ m ∈ c.all, m.kind ≠ .program) →
        (∃ fault, (run task root (.start uid)).1 = .error fault ∧
          IndexFault task fault (run task root (.start uid)).2) ∨
        ((run task root (.start uid)).1 = .ok Catalog.globalName ∧
          (run task root (.start uid)).2.env.scopes.toList = [Catalog.globalName]))) := by
  refine ⟨fun task s => ?_, fun hkind task uid => ⟨fun fault => indexFault_run hkind task _ fault, ?_⟩⟩
  · obtain ⟨⟨extra, hopens, hnone⟩, hfault⟩ := balanced_visit task root s
    rcases hv : root.visit (visitor task) s with ⟨_ | a, s'⟩ <;> rw [hv] at hopens hnone hfault
    · have hextra : extra = [] := hnone rfl hbody
      rw [hextra] at hopens
      exact Scopes.ext hopens.outermost hopens.inner
    · exact ⟨toList_prefix_of_opens hopens, fun fault hf => hfault fault (congrArg some hf)⟩
  · intro hcursor hnested
    cases hr : (run task root (.start uid)).1 with
    | error fault => exact Or.inl ⟨fault, rfl, indexFault_run hkind task _ fault hr⟩
    | ok scope =>
      obtain ⟨hscope, hscopes⟩ := run_without_cursor hkind hbody hnested hcursor _ hr
      refine Or.inr ⟨congrArg Except.ok hscope, ?_⟩
      rw [hscopes]
      rfl

/-- The tree of `function Foo() { {} }`, a constructor with a block in its body. -/
def constructorProgram : Node :=
  .root (.obj [("type", .str "Program"), ("body", .arr [
    .obj [("type", .str "FunctionDeclaration"),
      ("id", .obj [("type", .str "Identifier"), ("name", .str "Foo")]),
      ("params", .arr []),
      ("body", .obj [("type", .str "BlockStatement"), ("body", .arr [
        .obj [("type", .str "BlockStatement"), ("body", .arr [])]])])]])])

/-- The three scopes of the constructor and that of the block are left again. -/
theorem inference_scope_balance_constructorProgram :
    (run ⟨"", none, none⟩ constructorProgram (.start "file")).1 = .ok "Global" ∧
      (run ⟨"", none, none⟩ constructorProgram (.start "file")).2.env.scopes.toList =
        ["Global"] := by
  have hbody : ∀ m ∈ constructorProgram.all, HasProperBody m := by decide +kernel
  have hnested : ∀ c ∈ constructorProgram.children, ∀ m ∈ c.all, m.kind ≠ .program := by
    decide +kernel
  obtain ⟨-, hrun⟩ := inference_scope_balance constructorProgram hbody
  obtain ⟨-, hend⟩ := hrun (by decide +kernel) ⟨"", none, none⟩ "file"
  rcases hend rfl hnested with ⟨fault, -, (⟨index, name, hindex, -⟩ | ⟨index, hindex, -⟩)⟩ | h
  · cases hindex
  · cases hindex
  · exact h

end ContentAssist.Inference
