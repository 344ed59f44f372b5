import ContentAssist.Proofs.Environment.Operation
import ContentAssist.Proofs.Record.Renaming

/-! # Renaming environments

Every operation on environments goes with a renaming of records: what it makes of the renamed environment
is what it makes of the environment, renamed. Generated names must be renamed to those of the other file,
and a name that is wanted for a record must not be that of a nested function type.

* `Renamed`: an environment is another one, renamed;
* `Renamed.scope_eq`, `Renamed.lookup?_eq`: what is read from it;
* `Renamed.addVariable`, `Renamed.newObject`, `Renamed.addOrSet`, ...: the operations. -/

namespace ContentAssist

open Inference
open Ty (constructorKey protoKey generatedName)

/-- The scopes with other names. -/
def Scopes.rename (f : String → String) (s : Scopes) : Scopes where
  outermost := f s.outermost
  inner := s.inner.map f

namespace Environment

variable {f : String → String} {env env' : Environment} {name : Name} {type : Ty}

/-- The environment `env'` is `env` with all records renamed, and no record has a name with two marks. -/
structure Renamed (f : String → String) (env env' : Environment) : Prop where
  generated : ∀ k, f (generatedName env.uid k) = generatedName env'.uid k
  types : env'.types = env.types.rename f
  scopes : env'.scopes = env.scopes.rename f
  count : env'.count = env.count
  plain : env.types.Plain

namespace Renamed

variable (hf : Renames f) (h : Renamed f env env')

/-! ### What is read -/

include h in
theorem current_eq : env'.scopes.current = f env.scopes.current := by
  rw [h.scopes]
  unfold Scopes.rename Scopes.current
  cases env.scopes.inner <;> rfl

include hf h

theorem scope_eq (target : Option Ty) :
    env'.scope (target.map (·.rename f)) = f (env.scope target) := by
  match target with
  | none => exact h.current_eq
  | some (.named name) => rfl
  | some (.function r params) =>
    have hfind := Table.find?_key_rename hf h.plain (.function r params)
    have hcontains : env'.types.contains (constructorKey (r.rename f)) =
        env.types.contains (constructorKey r) := by
      unfold OrderedMap.contains
      rw [h.types, show (env.types.rename f).find? (constructorKey (r.rename f)) = _ from hfind,
        Option.isSome_map]
      rfl
    dsimp only [Option.map_some, Ty.rename_function, scope]
    rw [hcontains]
    by_cases hkey : env.types.contains (constructorKey r) = true
    · rw [if_pos hkey, if_pos hkey]
      rcases hf.key_rename (.function r params) with heq | ⟨hnested, -⟩
      · exact heq
      · exact absurd hnested (h.plain _ (env.types.contains_iff.1 hkey))
    · rw [if_neg hkey, if_neg hkey]
      have hfunction : (Ty.named "Function").rename f = .named "Function" :=
        hf.rename_standard (by simp [standardTypes])
      exact (Ty.named.inj hfunction).symm

theorem lookup?_eq (name : Name) (target : Option Ty) :
    env'.lookup? name (target.map (·.rename f)) = (env.lookup? name target).map (·.rename f) := by
  unfold lookup? lookupDefinition?
  rw [h.scope_eq hf, h.types, Table.resolve?_rename hf h.plain]
  cases env.types.resolve? (env.scope target) name <;> rfl

theorem firstOnChain?_eq (start : String) {p : Record → Bool} (hp : ∀ r, p (r.rename f) = p r) :
    env'.firstOnChain? (f start) p =
      (env.firstOnChain? start p).map fun e => (f e.1, e.2.rename f) := by
  unfold firstOnChain?
  rw [h.types, Table.chain_rename hf h.plain, List.find?_map]
  congr 2
  funext e
  exact hp e.2

theorem isReserved_eq (n : String) : env'.isReserved (f n) = env.isReserved n := by
  have hcontains : env'.scopes.contains (f n) = env.scopes.contains n := by
    rw [h.scopes, Bool.eq_iff_iff]
    simp [Scopes.contains, Scopes.rename, hf.injective.eq_iff, List.mem_map_of_injective hf.injective]
  unfold isReserved
  rw [hcontains, h.types, Table.find?_rename hf, Option.map_map]
  rfl

/-! ### Changed tables -/

theorem modify (n : String) {a a' : Record → Record} (ha : ∀ r, (a r).rename f = a' (r.rename f)) :
    Renamed f { env with types := env.types.modify n a }
      { env' with types := env'.types.modify (f n) a' } where
  generated := h.generated
  types := by
    dsimp only
    rw [h.types, Table.rename_modify hf _ n ha]
  scopes := h.scopes
  count := h.count
  plain := h.plain.modify n a

theorem edit (n : String) {a a' : Record → Record} (ha : ∀ r, (a r).rename f = a' (r.rename f)) :
    Renamed f { env with types := env.types.edit n a }
      { env' with types := env'.types.edit (f n) a' } where
  generated := h.generated
  types := by
    dsimp only
    rw [h.types, Table.rename_edit hf _ n ha]
  scopes := h.scopes
  count := h.count
  plain := h.plain.modify n _

theorem put {n : String} (hn : ¬ IsNested n) (r : Record) :
    Renamed f (env.put n r) (env'.put (f n) (r.rename f)) where
  generated := h.generated
  types := by
    unfold Environment.put
    rw [h.types, Table.rename_insert hf]
  scopes := h.scopes
  count := h.count
  plain := h.plain.insert hn r

omit hf in
theorem newName : env'.newName.1 = f env.newName.1 ∧ Renamed f env.newName.2 env'.newName.2 :=
  ⟨by rw [newName_fst, newName_fst, h.count, h.generated],
    ⟨h.generated, h.types, h.scopes, congrArg (· + 1) h.count, h.plain⟩⟩

theorem put_newName (r : Record) :
    Renamed f (env.newName.2.put env.newName.1 r) (env'.newName.2.put env'.newName.1 (r.rename f)) := by
  obtain ⟨hname, hnext⟩ := h.newName
  rw [hname]
  exact hnext.put hf
    (not_isNested_of_mem_derivedNames (isBase_generatedName _ _) List.mem_cons_self) r

/-! ### Variables -/

theorem addVariable (name : Name) (target : Option Ty) (type : Ty) (span : Option Span) :
    Renamed f (env.addVariable name target (some type) span)
      (env'.addVariable name (target.map (·.rename f)) (some (type.rename f)) span) := by
  unfold Environment.addVariable
  rw [h.scope_eq hf]
  exact h.edit hf _ fun r => r.rename_define f name _

theorem removeVariable (name : Name) (target : Option Ty) :
    Renamed f (env.removeVariable name target)
      (env'.removeVariable name (target.map (·.rename f))) := by
  unfold Environment.removeVariable
  rw [h.scope_eq hf]
  exact h.edit hf _ fun r => r.rename_undefine f name

/-! ### Scopes and objects -/

theorem newScope (span : Option Span) : (env'.newScope span).1 = f (env.newScope span).1 ∧
    Renamed f (env.newScope span).2 (env'.newScope span).2 := by
  have hput := h.put_newName hf { proto := some { type := .named env.scopes.current, span := span } }
  have hlink : ({ proto := some { type := .named env'.scopes.current, span := span } } : Record) =
      ({ proto := some { type := .named env.scopes.current, span := span } } : Record).rename f := by
    rw [h.current_eq]
    rfl
  rw [← hlink] at hput
  refine ⟨h.newName.1, ⟨h.generated, hput.types, ?_, hput.count, hput.plain⟩⟩
  rw [newScope_scopes, newScope_scopes, h.scopes, ← h.generated, h.count]
  rfl

omit h in
theorem rename_newRecord (span : Option Span) :
    ({ proto := some { type := .object, span := span } } : Record).rename f =
      { proto := some { type := .object, span := span } } := by
  have hobject : Ty.object.rename f = .object := hf.rename_standard (by simp [standardTypes])
  unfold Record.rename
  dsimp only [Option.map_some, Definition.rename]
  rw [hobject]
  rfl

theorem newFleetingObject (name : Option String) (hname : ∀ n, name = some n → ¬ IsNested n)
    (span : Option Span) :
    (env'.newFleetingObject (name.map f) span).1 = f (env.newFleetingObject name span).1 ∧
      Renamed f (env.newFleetingObject name span).2 (env'.newFleetingObject (name.map f) span).2 := by
  have hnew : (env'.newFleetingObject none span).1 = f (env.newFleetingObject none span).1 ∧
      Renamed f (env.newFleetingObject none span).2 (env'.newFleetingObject none span).2 := by
    have hput := h.put_newName hf { proto := some { type := .object, span := span } }
    rw [rename_newRecord hf] at hput
    exact ⟨h.newName.1, hput⟩
  cases name with
  | none => exact hnew
  | some n =>
    rw [Option.map_some, newFleetingObject_some, newFleetingObject_some, h.isReserved_eq hf]
    by_cases hreserved : env.isReserved n = true
    · rw [if_pos hreserved, if_pos hreserved]
      exact hnew
    · rw [if_neg hreserved, if_neg hreserved]
      have hput := h.put hf (hname n rfl) { proto := some { type := .object, span := span } }
      rw [rename_newRecord hf] at hput
      exact ⟨rfl, hput⟩

theorem newObject (name : Option String) (hname : ∀ n, name = some n → ¬ IsNested n)
    (span : Option Span) :
    (env'.newObject (name.map f) span).1 = f (env.newObject name span).1 ∧
      Renamed f (env.newObject name span).2 (env'.newObject (name.map f) span).2 := by
  obtain ⟨-, hscope⟩ := h.newScope hf span
  obtain ⟨hfst, hobject⟩ := hscope.newFleetingObject hf name hname span
  refine ⟨hfst, ?_⟩
  have hthis := hobject.addVariable hf (some "this") none
    (.named ((env.newScope span).2.newFleetingObject name span).1) span
  rwa [Ty.rename_named, ← hfst] at hthis

omit hf in
theorem popScope?_eq_none : env'.popScope? = none ↔ env.popScope? = none := by
  rw [popScope?_eq_none_iff, popScope?_eq_none_iff, h.scopes]
  exact List.map_eq_nil_iff

theorem popScope? {n n' : String} {env₁ env₁' : Environment} (hpop : env.popScope? = some (n, env₁))
    (hpop' : env'.popScope? = some (n', env₁')) : Renamed f env₁ env₁' := by
  have hremoved : Renamed f (env.removeVariable (some "this") none)
      (env'.removeVariable (some "this") none) := h.removeVariable hf (some "this") none
  unfold Environment.popScope? at hpop hpop'
  split at hpop
  · cases hpop
  · split at hpop'
    · cases hpop'
    · cases hpop
      cases hpop'
      refine ⟨h.generated, hremoved.types, ?_, h.count, hremoved.plain⟩
      dsimp only
      rw [hremoved.scopes]
      exact congrArg (Scopes.mk _) (List.map_tail).symm

/-! ### Assignment -/

theorem setPrototype (target : String) (type : Ty) (span : Option Span) :
    Renamed f (env.setPrototype target type span)
      (env'.setPrototype (f target) (type.rename f) span) := by
  have howner : ((env'.firstOnChain? (f target) (·.proto.isSome)).map (·.1)).getD (f target) =
      f (((env.firstOnChain? target (·.proto.isSome)).map (·.1)).getD target) := by
    rw [h.firstOnChain?_eq hf target fun r => by simp]
    cases env.firstOnChain? target (·.proto.isSome) <;> rfl
  unfold Environment.setPrototype
  dsimp only
  rw [howner]
  exact h.edit hf _ fun r => r.rename_relink f _

theorem setBinding (target : String) (name : Name) (type : Ty) (span : Option Span) :
    Renamed f (env.setBinding target name type span)
      (env'.setBinding (f target) name (type.rename f) span) := by
  have hfresh : Renamed f
      { env with types := env.types.edit target (·.define name { type := type, span := span }) }
      { env' with
        types := env'.types.edit (f target) (·.define name { type := type.rename f, span := span }) } :=
    h.edit hf target fun r => r.rename_define f name _
  unfold Environment.setBinding
  dsimp only
  rw [h.firstOnChain?_eq hf target fun r => by simp]
  cases env.firstOnChain? target fun r => (r.member? name).isSome with
  | none => exact hfresh
  | some e =>
    obtain ⟨owner, r⟩ := e
    dsimp only [Option.map_some]
    rw [Record.builtin_rename]
    by_cases hbuiltin : r.builtin = true
    · rw [if_pos hbuiltin, if_pos hbuiltin]
      exact hfresh
    · rw [if_neg hbuiltin, if_neg hbuiltin]
      have hset : Renamed f
          { env with
            types := env.types.modify owner fun r =>
              { r with members := r.members.modify name fun d => { d with type := type } } }
          { env' with
            types := env'.types.modify (f owner) fun r =>
              { r with members := r.members.modify name fun d => { d with type := type.rename f } } } :=
        h.modify hf owner fun r => r.rename_retype f name type
      exact hset

theorem addOrSet_some (name : Name) (target : Option Ty) (type : Ty) (span : Option Span) :
    Renamed f (env.addOrSet name target (some type) span).2
      (env'.addOrSet name (target.map (·.rename f)) (some (type.rename f)) span).2 := by
  rw [Environment.addOrSet_some, Environment.addOrSet_some, h.scope_eq hf]
  split
  · exact h.setPrototype hf _ type span
  · exact h.setBinding hf _ name type span

/-- Assigning a new object to a name of the current scope or of a record. -/
theorem addOrSet_none (name : Name) (target : Option Ty)
    (htarget : ∀ r params, target ≠ some (.function r params)) (span : Option Span) :
    (env'.addOrSet name (target.map (·.rename f)) none span).1 =
        ((env.addOrSet name target none span).1).rename f ∧
      Renamed f (env.addOrSet name target none span).2
        (env'.addOrSet name (target.map (·.rename f)) none span).2 := by
  have htarget' : ∀ r params, target.map (·.rename f) ≠ some (.function r params) := by
    intro r params heq
    obtain ⟨t, rfl, ht⟩ := Option.map_eq_some_iff.1 heq
    cases t with
    | named n => cases ht
    | function r params => exact htarget r params rfl
  rw [Environment.addOrSet_none _ _ _ _ htarget, Environment.addOrSet_none _ _ _ _ htarget']
  obtain ⟨hfst, hnew⟩ := h.newFleetingObject hf none (by simp) span
  refine ⟨congrArg Ty.named hfst, ?_⟩
  have hset := hnew.addOrSet_some hf name target (.named (generatedName env.uid env.count)) span
  rwa [Ty.rename_named, show f (generatedName env.uid env.count) = generatedName env'.uid env'.count
    from hfst.symm] at hset

/-! ### Constructors -/

theorem createConstructor {object : String} (hbase : IsBase object) :
    Renamed f (env.createConstructor (.named object) object)
      (env'.createConstructor (.named (f object)) (f object)) := by
  have hplain : ∀ n ∈ derivedNames object, ¬ IsNested n := fun _ hn =>
    not_isNested_of_mem_derivedNames hbase hn
  have hwanted : ∀ wanted ∈ derivedNames object, ∀ n, some wanted = some n → ¬ IsNested n := by
    rintro wanted hmem n ⟨⟩
    exact hplain wanted hmem
  have hkey := hf.constructorKey hbase
  obtain ⟨-, h₁⟩ := h.newFleetingObject hf (some (constructorKey (.named object)))
    (hwanted _ (by simp [derivedNames])) none
  obtain ⟨hproto, h₂⟩ := h₁.newFleetingObject hf (some (protoKey (constructorKey (.named object))))
    (hwanted _ (by simp [derivedNames])) none
  rw [Option.map_some, Option.map_some, hf.protoKey hbase, hkey] at hproto h₂
  unfold Environment.createConstructor
  dsimp only
  rw [hproto, ← hkey]
  rw [← hkey] at h₂
  exact (h₂.modify hf _ fun r => r.rename_relink f _).modify hf object fun r => r.rename_relink f _

end Renamed

end Environment

end ContentAssist
