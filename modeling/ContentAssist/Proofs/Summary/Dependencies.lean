import ContentAssist.Proofs.Summary.Import

/-! # Dependencies side by side

What one dependency exposes does not depend on another one that was taken over before it, unless the
two share a constructor: generated names bear the file, but the records of a constructor bear its
name only, and a record that is there already is kept. Where the records of the constructors that
both have define the same types, all access paths lead to the same types.

* `RefersTo`: the names that a summary refers to;
* `known_of_refersTo`, `own_of_find?_types`: the names in a summary of a file;
* `agree_of_dependencies`: the tables with and without the other dependency agree;
* `access_beside_dependency`: dependencies side by side. -/

namespace ContentAssist

open Catalog (globalName)
open Environment (Alike)
open Inference (State Task run applySummary)
open Table (Agree Matches Paired)

variable {a b file uid n m : String} {A B summary : Summary} {parser : Parser}

/-! ### The names in a summary -/

/-- The names that a provided value refers to. -/
def Provided.references : Provided → List String
  | .type t => t.references
  | .record r => r.references

/-- A summary refers to what its provided value and its records refer to. -/
inductive Summary.RefersTo (summary : Summary) (n : String) : Prop
  | provided (hn : n ∈ summary.provided.references)
  | record {k : String} {r : Record} (h : summary.types.find? k = some r) (hn : n ∈ r.references)

/-- A summary is made from a sound table. -/
theorem exists_table_of_summary {source : String}
    (h : ((⟨parser, none⟩ : Assistant).summary source file).1 = .ok summary) :
    ∃ t type kind, Table.Sound file t ∧ t.Covers type ∧
      summary = exportSummary t type kind file := by
  unfold Assistant.summary withTree at h
  dsimp only at h
  rcases hp : parse parser source with ⟨_ | tree, log⟩
  · rw [hp] at h
    cases h
  · rw [hp] at h
    dsimp only at h
    rcases hrun : run ⟨source, none, none⟩ (.root tree) (.start file) with ⟨_ | scope, s⟩
    · rw [hrun] at h
      cases h
    · rw [hrun] at h
      cases h
      obtain ⟨hsound, hs⟩ := Inference.sound_of_run hrun
      exact ⟨_, _, _, hs, covers_exportedType hsound, rfl⟩

section Names
variable {t : Table} {type : Ty} {kind : SummaryKind} (hs : Table.Sound file t)
include hs

theorem known_of_from {r r₀ : Record} (hr₀ : t.find? n = some r₀) (hfrom : r.From r₀)
    (hm : m ∈ r.references) : ∃ x : Ty, Known file x.leaf ∧ m ∈ x.references := by
  obtain ⟨d, hd, hm⟩ := List.mem_flatMap.1 hm
  obtain ⟨d₀, hd₀, htype⟩ := hfrom.types d hd
  exact ⟨d.type, htype ▸ hs.known_leaf (hs.definitions hr₀ hd₀).type, hm⟩

/-- The types that a summary refers to have known leaves. -/
theorem known_of_refersTo (htype : t.Covers type)
    (h : (exportSummary t type kind file).RefersTo m) :
    ∃ x : Ty, Known file x.leaf ∧ m ∈ x.references := by
  cases h with
  | provided hm =>
    rcases provided_cases t type kind file with hp | ⟨n, r, r₀, -, hp, hr₀, hfrom⟩
    · rw [hp] at hm
      exact ⟨type, hs.known_leaf htype, hm⟩
    · rw [hp] at hm
      exact known_of_from hs hr₀ hfrom hm
  | record h hm =>
    obtain ⟨r₀, hr₀, hfrom, -⟩ := from_of_find?_types hs.keys h
    exact known_of_from hs hr₀ hfrom hm

theorem own_of_find?_types {r : Record}
    (h : (exportSummary t type kind file).types.find? n = some r) : n = globalName ∨ Own file n := by
  obtain ⟨r₀, hr₀, -, hb⟩ := from_of_find?_types hs.keys h
  rcases hs.made n r₀ hr₀ with hcat | ⟨hn, -⟩
  · rw [hs.builtin_eq_true hcat hr₀] at hb
    cases hb
  · exact hn

end Names

/-! ### Agreement -/

/-- The definitions have the same type. -/
def SameTypeOf (d d' : Definition) : Prop := d'.type = d.type

theorem matches_refl (r : Record) : Matches SameTypeOf r r := by
  intro name
  cases Table.answer? r name with
  | none => exact .none
  | some d => exact .some rfl

/-- Where both dependencies have a record of a constructor that `B` refers to, the two records define
the same names with the same types. -/
def ConstructorsAgree (A B : Summary) : Prop :=
  ∀ n, B.RefersTo n → IsConstructorRecord n → ∀ r, A.types.find? n = some r →
    ∃ r', B.types.find? n = some r' ∧ Matches SameTypeOf r' r

/-- The names that paths from a dependency meet. -/
def IsMetFrom (summary : Summary) (n : String) : Prop :=
  summary.RefersTo n ∨ IsDerivedFrom catalogNames n

section Agreement
variable {tA tB : Table} {typeA typeB : Ty} {kindA kindB : SummaryKind}
  (hA : Table.Sound a tA) (hB : Table.Sound b tB) (htypeB : tB.Covers typeB)

include hB htypeB in
theorem not_generated_of_isMetFrom (huid : uid ≠ b)
    (hn : IsMetFrom (exportSummary tB typeB kindB b) n) : ¬ IsGeneratedFor uid n := by
  rcases hn with hn | hn
  · obtain ⟨x, hx, href⟩ := known_of_refersTo hB htypeB hn
    exact not_generated_of_reference hx href huid
  · exact not_generated_of_standard (List.Subset.refl _) hn

include hA hB htypeB in
/-- A record of `A` at a name that paths from `B` meet is that of a constructor, or there is one in
the catalog. -/
theorem isConstructorRecord_of_both (hab : a ≠ b) {r : Record}
    (hn : IsMetFrom (exportSummary tB typeB kindB b) n) (hcat : Catalog.table.find? n = none)
    (hr : (exportSummary tA typeA kindA a).types.find? n = some r) :
    (exportSummary tB typeB kindB b).RefersTo n ∧ IsConstructorRecord n := by
  have hown : Own a n := by
    refine (own_of_find?_types hA hr).resolve_left ?_
    rintro rfl
    cases hcat
  rcases hn with hn | hn
  · refine ⟨hn, hown.resolve_left ?_⟩
    exact not_generated_of_isMetFrom hB htypeB hab (Or.inl hn)
  · exact absurd hn (own_not_standard hown)

include hA hB htypeB in
/-- **The tables agree** on all that paths from `B` meet, whether or not the records of `A` come
first. -/
theorem agree_of_dependencies {t t' : Table} (hab : a ≠ b) (huid : uid ≠ b)
    (hcon : ConstructorsAgree (exportSummary tA typeA kindA a) (exportSummary tB typeB kindB b))
    (ht : ∀ n, ¬ IsGeneratedFor uid n → t.find? n =
      (Catalog.table.find? n).or ((exportSummary tB typeB kindB b).types.find? n))
    (ht' : ∀ n, ¬ IsGeneratedFor uid n → t'.find? n =
      ((Catalog.table.find? n).or ((exportSummary tA typeA kindA a).types.find? n)).or
        ((exportSummary tB typeB kindB b).types.find? n)) :
    Agree t t' (IsMetFrom (exportSummary tB typeB kindB b)) (fun _ => SameTypeOf) where
  records := by
    intro n hn
    have hgen := not_generated_of_isMetFrom hB htypeB huid hn
    rw [ht n hgen, ht' n hgen]
    cases hcat : Catalog.table.find? n with
    | some r => exact .some (matches_refl r)
    | none =>
      cases hr : (exportSummary tA typeA kindA a).types.find? n with
      | none =>
        cases (exportSummary tB typeB kindB b).types.find? n with
        | none => exact .none
        | some r => exact .some (matches_refl r)
      | some r =>
        obtain ⟨href, hc⟩ := isConstructorRecord_of_both hA hB htypeB hab hn hcat hr
        obtain ⟨r', hr', hm⟩ := hcon n href hc r hr
        rw [hr']
        exact .some hm
  closed := by
    intro n r hn hr m hm
    rw [ht n (not_generated_of_isMetFrom hB htypeB huid hn)] at hr
    rcases Option.or_eq_some_iff.1 hr with hr | ⟨-, hr⟩
    · obtain ⟨d, hd, hm⟩ := List.mem_flatMap.1 hm
      obtain ⟨base, hbase, hatom⟩ := atom?_of_catalog hr hd
      exact Or.inr ⟨base, hbase, mem_derivedNames_of_atom? hatom hm⟩
    · exact Or.inl (.record hr hm)
  type := fun _ _ _ h => h

end Agreement

/-! ### Access paths -/

/-- Where a summary is taken over, its provided value is a type that leads to names of the summary, or
a record that refers to such names. Taken over in two states, the records answer alike. -/
theorem alike_applySummary (s s' : State) (summary : Summary) :
    ∃ P, (∀ n n', P n n' → (applySummary s summary).1 = .named n ∧
        (applySummary s' summary).1 = .named n' ∧
        ∃ r r', Paired (applySummary s summary).2.env.types (applySummary s' summary).2.env.types
          (IsMetFrom summary) SameTypeOf n n' r r') ∧
      Alike (IsMetFrom summary) P (applySummary s summary).1 (applySummary s' summary).1 := by
  cases h : summary.provided with
  | type x =>
    obtain ⟨hfst, -⟩ := applySummary_type s summary h
    obtain ⟨hfst', -⟩ := applySummary_type s' summary h
    rw [hfst, hfst']
    exact ⟨fun _ _ => False, fun _ _ h => h.elim,
      .same fun m hm => Or.inl (.provided (by rw [h]; exact hm))⟩
  | record r =>
    obtain ⟨hfst, hfind⟩ := applySummary_record s summary h
    obtain ⟨hfst', hfind'⟩ := applySummary_record s' summary h
    rw [hfst, hfst']
    refine ⟨fun n n' => n = Ty.generatedName s.env.uid s.env.count ∧
      n' = Ty.generatedName s'.env.uid s'.env.count, ?_, .pair ⟨rfl, rfl⟩⟩
    rintro n n' ⟨rfl, rfl⟩
    refine ⟨rfl, rfl, _, _, (hfind _).trans (if_pos rfl), (hfind' _).trans (if_pos rfl),
      matches_refl _, fun m hm => ?_⟩
    rcases Environment.mem_references_overlay hm with hm | hm
    · exact Or.inl (.provided (by rw [h]; exact hm))
    · have hobject : m = "Object" := List.mem_singleton.1 hm
      rw [hobject]
      exact Or.inr (isDerivedFrom_self (by decide +kernel))

/-- **Dependencies side by side.** Let two files with different names be summarised without an index,
and taken over into a file with a third name. Where the records of constructors that both have agree,
an access path from what the second one provides leads to the same types whether or not the first one
was taken over before; the name of the record that is made for the provided value may differ. -/
theorem access_beside_dependency {sourceA sourceB : String}
    (hA : ((⟨parser, none⟩ : Assistant).summary sourceA a).1 = .ok A)
    (hB : ((⟨parser, none⟩ : Assistant).summary sourceB b).1 = .ok B)
    (hab : a ≠ b) (huid : uid ≠ b) (hcon : ConstructorsAgree A B) (path : List Access) :
    let alone := applySummary { env := .start uid } B
    let beside := applySummary (applySummary { env := .start uid } A).2 B
    Option.Rel (SameType alone.1 beside.1) (alone.2.env.follow? alone.1 path)
      (beside.2.env.follow? beside.1 path) := by
  obtain ⟨tA, typeA, kindA, hsA, -, rfl⟩ := exists_table_of_summary hA
  obtain ⟨tB, typeB, kindB, hsB, htypeB, rfl⟩ := exists_table_of_summary hB
  have hfile : (applySummary { env := .start uid } (exportSummary tA typeA kindA a)).2.env.uid =
    uid := (Inference.onward_applySummary { env := .start uid } _).uid
  have hbeside : ∀ n, ¬ IsGeneratedFor uid n →
      (applySummary (applySummary { env := .start uid } (exportSummary tA typeA kindA a)).2
        (exportSummary tB typeB kindB b)).2.env.types.find? n =
      ((Catalog.table.find? n).or ((exportSummary tA typeA kindA a).types.find? n)).or
        ((exportSummary tB typeB kindB b).types.find? n) := by
    intro n hn
    rw [find?_applySummary _ _ (hfile.symm ▸ hn), find?_applySummary { env := .start uid } _ hn]
    rfl
  have hagree := agree_of_dependencies hsA hsB htypeB hab huid hcon
    (fun n hn => find?_applySummary { env := .start uid } (exportSummary tB typeB kindB b) hn)
    hbeside
  obtain ⟨P, hP, halike⟩ := alike_applySummary { env := .start uid }
    (applySummary { env := .start uid } (exportSummary tA typeA kindA a)).2
    (exportSummary tB typeB kindB b)
  refine Environment.rel_map (Environment.rel_follow? hagree
    (Or.inr (isDerivedFrom_self (by decide +kernel))) (fun n n' h => (hP n n' h).2.2) halike path)
    fun x x' hx => ?_
  cases hx with
  | same h => exact Or.inl rfl
  | pair h =>
    obtain ⟨halone, hbeside, -⟩ := hP _ _ h
    exact Or.inr ⟨halone.symm, hbeside.symm⟩

/-- A file without constructors agrees with every other one. -/
theorem constructorsAgree_of_generated {t : Table} {type : Ty} {kind : SummaryKind} {count : Nat}
    (hs : Table.Sound a t)
    (hkeys : ∀ k ∈ t.keys, k ∈ Catalog.table.keys ∨ k ∈ (List.range count).map (Ty.generatedName a)) :
    ConstructorsAgree (exportSummary t type kind a) B := by
  intro n _ hc r hr
  obtain ⟨r₀, hr₀, -⟩ := from_of_find?_types hs.keys hr
  have hown : ∀ uid, Own uid n := fun _ => Or.inr hc
  exfalso
  rcases hkeys n (t.mem_keys_of_find? hr₀) with hcat | hgen
  · exact own_not_key (hown a) hcat
  · obtain ⟨k, -, rfl⟩ := List.mem_map.1 hgen
    have hself := uid_eq_of_generated ⟨k, List.mem_cons_self⟩ (hown (a ++ "~"))
    have hlength := congrArg String.length hself
    simp at hlength

/-- A file that exports a constructor `Foo`, which gives its objects a member `a`. -/
def constructorTree (value : Json) : Json :=
  .obj [("type", .str "Program"), ("body", .arr [
    .obj [("type", .str "FunctionDeclaration"), ("id", identifierTree "Foo"), ("params", .arr []),
      ("body", .obj [("type", .str "BlockStatement"), ("body", .arr [
        assignmentTree (.obj [("type", .str "MemberExpression"), ("computed", .bool false),
            ("object", .obj [("type", .str "ThisExpression")]), ("property", identifierTree "a")])
          (.obj [("type", .str "Literal"), ("value", value)])])])],
    assignmentTree (identifierTree "exports") (identifierTree "Foo")])]

/-- A parser that knows three files. -/
def threeFiles : Assistant where
  index? := none
  parser :=
    { script := fun source => .ok (
        if source = "A" then constructorTree (.int 1)
        else if source = "B" then constructorTree (.str "")
        else exportingTree)
      tokens := fun _ => .ok [] }

/-- An object that one file exports beside a constructor of another one. -/
theorem access_beside_dependency_object : ∃ A B, (threeFiles.summary "" "a").1 = .ok A ∧
    (threeFiles.summary "B" "b").1 = .ok B ∧ ConstructorsAgree A B ∧ ∀ path,
      Option.Rel (SameType (applySummary { env := .start "local" } B).1
          (applySummary (applySummary { env := .start "local" } A).2 B).1)
        ((applySummary { env := .start "local" } B).2.env.follow?
          (applySummary { env := .start "local" } B).1 path)
        ((applySummary (applySummary { env := .start "local" } A).2 B).2.env.follow?
          (applySummary (applySummary { env := .start "local" } A).2 B).1 path) := by
  have hokA : (run ⟨"", none, none⟩ (.root exportingTree) (.start "a")).1.toOption =
    some "Global" := by decide +kernel
  have hokB : (run ⟨"B", none, none⟩ (.root (constructorTree (.str ""))) (.start "b")).1.toOption =
    some "Global" := by decide +kernel
  have hkeys : ∀ k ∈ (run ⟨"", none, none⟩ (.root exportingTree) (.start "a")).2.env.types.keys,
      k ∈ Catalog.table.keys ∨ k ∈ (List.range 3).map (Ty.generatedName "a") := by decide +kernel
  rcases hrunA : run ⟨"", none, none⟩ (.root exportingTree) (.start "a") with ⟨_ | scope, s⟩
  · rw [hrunA] at hokA
    cases hokA
  · rcases hrunB : run ⟨"B", none, none⟩ (.root (constructorTree (.str ""))) (.start "b") with
      ⟨_ | scope', s'⟩
    · rw [hrunB] at hokB
      cases hokB
    · rw [hrunA] at hkeys
      have hA := @summary_of_run "a" threeFiles.parser "" scope exportingTree s rfl hrunA
      have hB := @summary_of_run "b" threeFiles.parser "B" scope' (constructorTree (.str "")) s' rfl
        hrunB
      have hcon : ConstructorsAgree (exportSummary s.env.types (exportedType s).1 (exportedType s).2
          "a") (exportSummary s'.env.types (exportedType s').1 (exportedType s').2 "b") :=
        constructorsAgree_of_generated (Inference.sound_of_run hrunA).2 hkeys
      exact ⟨_, _, hA, hB, hcon, fun path =>
        access_beside_dependency hA hB (by decide) (by decide) hcon path⟩

/-- What a file with a constructor `Foo` hands on of its objects. -/
theorem exists_member_of_constructor {s : State} {source scope : String} {root : Node} {type : Ty}
    (hrun : run ⟨source, none, none⟩ root (.start file) = (.ok scope, s))
    (htype : exportedType s = (.function (.named "Foo") [], .commonjs))
    (hmember : ((s.env.types.find? "Foo").bind (Table.answer? · (some "a"))).map (·.type) =
      some type) :
    ∃ r d, (exportSummary s.env.types (exportedType s).1 (exportedType s).2 file).types.find? "Foo" =
      some r ∧ Table.answer? r (some "a") = some d ∧ d.type = type := by
  obtain ⟨d, hd, rfl⟩ := Option.map_eq_some_iff.1 hmember
  obtain ⟨r, hr, hd⟩ := Option.bind_eq_some_iff.1 hd
  have hs := (Inference.sound_of_run hrun).2
  have hbuiltin : r.builtin = false := (hs.made_of_not_builtin (by decide +kernel) hr).builtin
  refine ⟨r.attachPath file, d.attachPath file, ?_, ?_, rfl⟩
  · rw [htype, find?_exportSummary_types (by decide) hs.keys (by decide), hr]
    · simp [Option.filter, hbuiltin]
    · exact .first (List.mem_cons_of_mem _ (List.mem_cons_of_mem _ List.mem_cons_self))
  · rw [Record.answer?_attachPath, hd]
    rfl

/-- Where a summary provides a constructor, a path to a member of its objects finds what the record of
the constructor says. -/
theorem follow?_of_constructor {s : State} {r : Record} {d : Definition}
    (h : summary.provided = .type (.function (.named "Foo") []))
    (hr : (applySummary s summary).2.env.types.find? "Foo" = some r)
    (hd : Table.answer? r (some "a") = some d) :
    (applySummary s summary).2.env.follow? (applySummary s summary).1
      [.result, .member (some "a")] = some d.type := by
  rw [(applySummary_type s summary h).1]
  exact congrArg (Option.bind · fun t => some t) (Environment.lookup?_of_answer? hr hd)

theorem not_generated_constructor : ¬ IsGeneratedFor "local" "Foo" := by
  intro h
  have hown : Own "" "Foo" := Or.inr ⟨"Foo", by decide, by decide +kernel, List.mem_cons_self⟩
  exact absurd (uid_eq_of_generated h hown) (by decide)

/-- Taken over alone, the objects of a constructor have the members that its own file gives them. -/
theorem follow?_alone {r : Record} {d : Definition}
    (h : B.provided = .type (.function (.named "Foo") []))
    (hr : B.types.find? "Foo" = some r) (hd : Table.answer? r (some "a") = some d) :
    (applySummary { env := .start "local" } B).2.env.follow?
      (applySummary { env := .start "local" } B).1 [.result, .member (some "a")] = some d.type := by
  refine follow?_of_constructor h ?_ hd
  have hnone : ({ env := .start "local" } : State).env.types.find? "Foo" = none := by decide +kernel
  rw [find?_applySummary { env := .start "local" } B not_generated_constructor, hnone, hr]
  rfl

/-- Behind a file with a constructor of the same name, they have the members that this one gives. -/
theorem follow?_beside {r : Record} {d : Definition}
    (h : B.provided = .type (.function (.named "Foo") []))
    (hr : A.types.find? "Foo" = some r) (hd : Table.answer? r (some "a") = some d) :
    (applySummary (applySummary { env := .start "local" } A).2 B).2.env.follow?
      (applySummary (applySummary { env := .start "local" } A).2 B).1
      [.result, .member (some "a")] = some d.type := by
  refine follow?_of_constructor h ?_ hd
  have hnone : ({ env := .start "local" } : State).env.types.find? "Foo" = none := by decide +kernel
  have huid : (applySummary { env := .start "local" } A).2.env.uid = "local" :=
    (Inference.onward_applySummary { env := .start "local" } A).uid
  have hfirst : (applySummary { env := .start "local" } A).2.env.types.find? "Foo" = some r := by
    rw [find?_applySummary { env := .start "local" } A not_generated_constructor, hnone, hr]
    rfl
  rw [find?_applySummary _ B (huid.symm ▸ not_generated_constructor), hfirst]
  rfl

/-- Two files that each have a constructor `Foo`: the members of its objects are those of the file that
was taken over first. -/
theorem dependency_disturbs_dependency : ∃ A B, (threeFiles.summary "A" "a").1 = .ok A ∧
    (threeFiles.summary "B" "b").1 = .ok B ∧
    (applySummary { env := .start "local" } B).2.env.follow?
      (applySummary { env := .start "local" } B).1 [.result, .member (some "a")] = some .string ∧
    (applySummary (applySummary { env := .start "local" } A).2 B).2.env.follow?
      (applySummary (applySummary { env := .start "local" } A).2 B).1
      [.result, .member (some "a")] = some .number := by
  have hA : (fun x : Except Fault String × State => (x.1.toOption, exportedType x.2,
      ((x.2.env.types.find? "Foo").bind (Table.answer? · (some "a"))).map (·.type)))
      (run ⟨"A", none, none⟩ (.root (constructorTree (.int 1))) (.start "a")) =
    (some "Global", (.function (.named "Foo") [], .commonjs), some .number) := by decide +kernel
  have hB : (fun x : Except Fault String × State => (x.1.toOption, exportedType x.2,
      ((x.2.env.types.find? "Foo").bind (Table.answer? · (some "a"))).map (·.type)))
      (run ⟨"B", none, none⟩ (.root (constructorTree (.str ""))) (.start "b")) =
    (some "Global", (.function (.named "Foo") [], .commonjs), some .string) := by decide +kernel
  rcases hrunA : run ⟨"A", none, none⟩ (.root (constructorTree (.int 1))) (.start "a") with
    ⟨_ | scope, s⟩
  · rw [hrunA] at hA
    cases hA
  · rcases hrunB : run ⟨"B", none, none⟩ (.root (constructorTree (.str ""))) (.start "b") with
      ⟨_ | scope', s'⟩
    · rw [hrunB] at hB
      cases hB
    · rw [hrunA] at hA
      rw [hrunB] at hB
      have htypeB : exportedType s' = (.function (.named "Foo") [], .commonjs) :=
        congrArg (fun x => x.2.1) hB
      obtain ⟨r, d, hr, hd, hnumber⟩ := exists_member_of_constructor hrunA
        (congrArg (fun x => x.2.1) hA) (congrArg (fun x => x.2.2) hA)
      obtain ⟨r', d', hr', hd', hstring⟩ := exists_member_of_constructor hrunB htypeB
        (congrArg (fun x => x.2.2) hB)
      have hprovided : (exportSummary s'.env.types (exportedType s').1 (exportedType s').2
          "b").provided = .type (.function (.named "Foo") []) := by
        rw [htypeB, exportSummary_provided]
        rfl
      have hsummaryA := @summary_of_run "a" threeFiles.parser "A" scope (constructorTree (.int 1)) s
        rfl hrunA
      have hsummaryB := @summary_of_run "b" threeFiles.parser "B" scope' (constructorTree (.str ""))
        s' rfl hrunB
      exact ⟨_, _, hsummaryA, hsummaryB, hstring ▸ follow?_alone hprovided hr' hd',
        hnumber ▸ follow?_beside hprovided hr hd⟩

end ContentAssist
