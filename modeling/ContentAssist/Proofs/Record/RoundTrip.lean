import ContentAssist.Proofs.Failure
import ContentAssist.Proofs.Record.Lookup
import ContentAssist.Proofs.Record.TypeText
import ContentAssist.Record.Wire

/-! # Storing and reading back

What is left of a definition, a record or a summary once it is written and read (`reread`): types as
their text says, members with a name, and of a prototype link its type. What was read once has
nothing left to lose, and what is written twice is the same.

* `escapeMember_injective`, `escapeMember_ne_protoField`: no two members share a key, and none has
  that of the prototype;
* `Definition.ofJson_toJson`, `Record.ofJson_toJson`, `Summary.ofJson_toJson`: what was written is
  read, and gives what is left of it;
* `wire_format_exact`: reading what was written changes nothing. -/

namespace ContentAssist

/-! ### Keys of members -/

theorem unescapeMember_mark_append (name : String) : unescapeMember (escapeMark ++ name) = name := by
  unfold unescapeMember
  rw [if_pos (Text.startsWith_iff.2 ⟨name, rfl⟩), Text.dropFirst, String.toList_append,
    ← String.length_toList, List.drop_left, String.ofList_toList]

theorem unescapeMember_escapeMember (name : String) : unescapeMember (escapeMember name) = name := by
  unfold escapeMember
  split
  · exact unescapeMember_mark_append name
  · rename_i h
    exact if_neg fun hmark => h (Or.inr hmark)

theorem escapeMember_injective : Function.Injective escapeMember :=
  Function.LeftInverse.injective unescapeMember_escapeMember

theorem escapeMember_ne_protoField (name : String) : escapeMember name ≠ protoField := by
  unfold escapeMember
  split
  · intro h
    have hmark : Text.startsWith escapeMark protoField = true := Text.startsWith_iff.2 ⟨name, h.symm⟩
    exact absurd hmark (by decide)
  · rename_i h
    exact fun hname => h (Or.inl hname)

/-- The keys that the members of a record are written under. -/
def Record.writtenNames (r : Record) : List String := r.members.keys.filterMap (·.map escapeMember)

theorem Record.nodup_writtenNames {r : Record} (hr : r.members.keys.Nodup) : r.writtenNames.Nodup := by
  refine hr.filterMap fun n n' key hn hn' => ?_
  obtain ⟨name, rfl, hname⟩ := Option.map_eq_some_iff.1 hn
  obtain ⟨name', rfl, hname'⟩ := Option.map_eq_some_iff.1 hn'
  rw [escapeMember_injective (hname.trans hname'.symm)]

theorem Record.protoField_not_mem_writtenNames (r : Record) : protoField ∉ r.writtenNames := by
  intro h
  obtain ⟨n, -, hn⟩ := List.mem_filterMap.1 h
  obtain ⟨name, -, hname⟩ := Option.map_eq_some_iff.1 hn
  exact escapeMember_ne_protoField name hname

/-- The fields of members as they are written. -/
def memberFields (ms : List (Name × Definition)) : List (String × Json) :=
  ms.filterMap fun m => m.1.map fun name => (escapeMember name, m.2.toJson)

theorem Record.keys_toJson (r : Record) : r.toJson.fields.map (·.1) =
    (r.proto.map fun _ => protoField).toList ++ r.writtenNames := by
  have hmembers : (memberFields r.members.entries).map (·.1) = r.writtenNames := by
    unfold memberFields writtenNames OrderedMap.keys
    rw [List.map_filterMap, List.filterMap_map]
    refine List.filterMap_congr fun m _ => ?_
    obtain ⟨name, d⟩ := m
    cases name <;> rfl
  change (List.map (·.1) (_ ++ memberFields r.members.entries)) = _
  rw [List.map_append, hmembers]
  cases r.proto <;> rfl

/-! ### What is left -/

/-- What is left of a type. -/
def Ty.reread (t : Ty) : Ty := Ty.ofText t.text

/-- What is left of a definition. -/
def Definition.reread (d : Definition) : Definition := { d with type := d.type.reread }

/-- What is left of members. -/
def rereadMembers (ms : List (Name × Definition)) : List (Name × Definition) :=
  ms.filterMap fun m => m.1.map fun name => (some name, m.2.reread)

/-- What is left of a record. -/
def Record.reread (r : Record) : Record :=
  { members := ⟨rereadMembers r.members.entries⟩
    proto := r.proto.map fun p => { type := p.type.reread } }

/-- What is left of a provided value. -/
def Provided.reread : Provided → Provided
  | type t => .type t.reread
  | record r => .record r.reread

/-- What is left of a summary. -/
def Summary.reread (s : Summary) : Summary :=
  { provided := s.provided.reread
    types := s.types.mapValues Record.reread
    kind := .ofName s.kind.name }

/-- The records of a summary: the one it provides, and those that go with it. -/
def Summary.records (s : Summary) : List Record :=
  (match s.provided with | .type _ => [] | .record r => [r]) ++ s.types.values

/-- The types that stand in a summary. -/
def Summary.writtenTypes (s : Summary) : List Ty :=
  (match s.provided with | .type t => [t] | .record _ => []) ++
    s.records.flatMap fun r => r.definitions.map (·.type)

/-- The names of the records, and those of the members of each record, are distinct. -/
structure Summary.Distinct (s : Summary) : Prop where
  types : s.types.keys.Nodup
  members : ∀ r ∈ s.records, r.members.keys.Nodup

/-! ### Reading what was written -/

theorem Definition.ofJson_toJson (d : Definition) : Definition.ofJson d.toJson = .ok d.reread := by
  obtain ⟨type, span, path⟩ := d
  cases span <;> cases path <;> rfl

theorem Record.readField_member (r : Record) (name : String) (d : Definition) :
    r.readField (escapeMember name, d.toJson) = .ok (r.define (some name) d.reread) := by
  unfold readField
  rw [if_neg (escapeMember_ne_protoField name), Definition.ofJson_toJson, unescapeMember_escapeMember]
  rfl

theorem Record.readFields_memberFields {ms : List (Name × Definition)} (r : Record)
    (h : (r.members.keys ++ ms.map (·.1)).Nodup) : r.readFields (memberFields ms) =
      .ok { r with members := ⟨r.members.entries ++ rereadMembers ms⟩ } := by
  induction ms generalizing r with
  | nil => simp [memberFields, rereadMembers, readFields]
  | cons m ms ih =>
    obtain ⟨name, d⟩ := m
    cases name with
    | none => exact ih r (h.sublist ((List.Sublist.refl _).append (List.sublist_cons_self _ _)))
    | some name =>
      have hnew : some name ∉ r.members.keys := by
        intro hmem
        exact List.disjoint_of_nodup_append h hmem List.mem_cons_self
      have hdefine : r.define (some name) d.reread =
          { r with members := ⟨r.members.entries ++ [(some name, d.reread)]⟩ } := by
        rw [define, OrderedMap.insert_of_not_mem hnew]
      have hfields : memberFields ((some name, d) :: ms) =
          (escapeMember name, d.toJson) :: memberFields ms := rfl
      have hreread : rereadMembers ((some name, d) :: ms) =
          (some name, d.reread) :: rereadMembers ms := rfl
      rw [hfields, readFields, readField_member, hdefine]
      change readFields _ (memberFields ms) = _
      rw [ih _ (by simpa [OrderedMap.keys] using h), hreread]
      simp

theorem Record.ofJson_toJson {r : Record} (hr : r.members.keys.Nodup) :
    Record.ofJson r.toJson = .ok r.reread := by
  obtain ⟨members, proto, builtin⟩ := r
  cases proto with
  | none => exact readFields_memberFields {} hr
  | some p => exact readFields_memberFields { proto := some { type := p.type.reread } } hr

theorem readTypes_toJson {es : List (String × Record)} (types : Table)
    (hkeys : (types.keys ++ es.map (·.1)).Nodup) (hmembers : ∀ e ∈ es, e.2.members.keys.Nodup) :
    readTypes types (es.map fun e => (e.1, e.2.toJson)) =
      .ok ⟨types.entries ++ es.map fun e => (e.1, e.2.reread)⟩ := by
  induction es generalizing types with
  | nil => simp [readTypes]
  | cons e es ih =>
    obtain ⟨name, r⟩ := e
    have hnew : name ∉ types.keys := by
      intro hmem
      exact List.disjoint_of_nodup_append hkeys hmem List.mem_cons_self
    rw [List.map_cons, readTypes, Record.ofJson_toJson (hmembers _ List.mem_cons_self)]
    change readTypes (types.insert name r.reread) _ = _
    rw [OrderedMap.insert_of_not_mem hnew, ih _ (by simpa [OrderedMap.keys] using hkeys)
      fun e he => hmembers e (List.mem_cons_of_mem _ he)]
    simp

/-- Reads a provided value. -/
def Provided.ofJson : Json → Except WireError Provided
  | .str s => .ok (.type (.ofText s))
  | other => (Record.ofJson other).map .record

/-- Reads the records that go with a summary. -/
def typesOfJson (v : Json) : Except WireError Table :=
  if !v.isSet then .ok .empty
  else
    match v with
    | .obj fields => readTypes .empty fields
    | _ => .error .summaryTypes

/-- Reads the kind of a summary. -/
def kindOfJson (v : Json) : SummaryKind := (v.str?.map SummaryKind.ofName).getD .global

/-- A summary is read part by part. -/
theorem Summary.ofJson_eq (v : Json) : Summary.ofJson v =
    match v.field? "provided" with
    | none => .error .summary
    | some raw => Provided.ofJson raw >>= fun provided =>
        typesOfJson (v.get "types") >>= fun types =>
          .ok ⟨provided, types, kindOfJson (v.get "kind")⟩ := by
  unfold ofJson Provided.ofJson typesOfJson kindOfJson
  cases v.field? "provided" with
  | none => rfl
  | some raw =>
    generalize v.get "types" = types
    by_cases hset : (!types.isSet) = true
    · simp only [if_pos hset]
      cases raw <;> rfl
    · simp only [if_neg hset]
      cases raw <;> cases types <;> rfl

theorem Provided.ofJson_toJson {p : Provided}
    (hp : ∀ r, p = .record r → r.members.keys.Nodup) : Provided.ofJson p.toJson = .ok p.reread := by
  cases p with
  | type t => rfl
  | record r =>
    change (Record.ofJson r.toJson).map Provided.record = _
    rw [Record.ofJson_toJson (hp r rfl)]
    rfl

/-- **What was written is read**, and gives what is left of the summary. -/
theorem Summary.ofJson_toJson {s : Summary} (hs : s.Distinct) :
    Summary.ofJson s.toJson = .ok s.reread := by
  obtain ⟨provided, ⟨es⟩, kind⟩ := s
  have hprovided : Provided.ofJson provided.toJson = .ok provided.reread :=
    Provided.ofJson_toJson fun r hr => by
      subst hr
      exact hs.members r List.mem_cons_self
  have hmembers : ∀ e ∈ es, e.2.members.keys.Nodup := fun e he =>
    hs.members e.2 (List.mem_append_right _ (List.mem_map_of_mem he))
  have htypes : typesOfJson (.obj (es.map fun e => (e.1, e.2.toJson))) =
      .ok ⟨es.map fun e => (e.1, e.2.reread)⟩ := by
    cases es with
    | nil => rfl
    | cons e es => exact readTypes_toJson .empty hs.types hmembers
  rw [ofJson_eq]
  change (Provided.ofJson provided.toJson >>= fun p =>
    typesOfJson (.obj (es.map fun e => (e.1, e.2.toJson))) >>= fun types =>
      .ok (Summary.mk p types (kindOfJson (.str kind.name)))) = _
  rw [hprovided, htypes]
  rfl

/-! ### Nothing is left to lose -/

theorem Ty.reread_ofText (s : String) : (Ty.ofText s).reread = Ty.ofText s := Ty.ofText_text_ofText s

theorem Definition.reread_of_ofJson {v : Json} {d : Definition} (h : Definition.ofJson v = .ok d) :
    d.reread = d := by
  unfold ofJson at h
  split at h
  · cases h
    simp only [reread, Ty.reread_ofText]
  · split at h
    · obtain ⟨span, -, h⟩ := bind_eq_ok_iff.1 h
      cases h
      simp only [reread, Ty.reread_ofText]
    · cases h

/-- What holds of every record that was read. -/
structure Record.IsRead (r : Record) : Prop where
  nodup : r.members.keys.Nodup
  named : none ∉ r.members.keys
  members : ∀ d ∈ r.members.values, d.reread = d
  proto : r.proto.map (fun p => { type := p.type.reread }) = r.proto
  builtin : r.builtin = false

namespace Record.IsRead

variable {r r' : Record}

theorem readField {field : String × Json} (hr : r.IsRead) (h : r.readField field = .ok r') :
    r'.IsRead := by
  unfold Record.readField at h
  split at h
  · split at h
    · cases h
      exact { hr with proto := congrArg (fun t => some (Definition.mk t none none)) (Ty.reread_ofText _) }
    · cases h
  · obtain ⟨d, hd, h⟩ := bind_eq_ok_iff.1 h
    cases h
    refine { hr with nodup := OrderedMap.nodup_keys_insert hr.nodup _ _, named := ?_, members := ?_ }
    · intro hnone
      rcases (OrderedMap.mem_keys_insert _).1 hnone with h | h
      · cases h
      · exact hr.named h
    · intro d' hd'
      rcases OrderedMap.mem_values_insert hd' with rfl | hd'
      · exact Definition.reread_of_ofJson hd
      · exact hr.members d' hd'

theorem readFields {fields : List (String × Json)} (hr : r.IsRead)
    (h : r.readFields fields = .ok r') : r'.IsRead := by
  induction fields generalizing r with
  | nil =>
    cases h
    exact hr
  | cons f fs ih =>
    obtain ⟨r₁, hf, h⟩ := bind_eq_ok_iff.1 h
    exact ih (hr.readField hf) h

theorem ofJson {v : Json} (h : Record.ofJson v = .ok r) : r.IsRead := by
  unfold Record.ofJson at h
  split at h
  · refine readFields ?_ h
    exact ⟨List.nodup_nil, List.not_mem_nil, fun _ hd => absurd hd List.not_mem_nil, rfl, rfl⟩
  · cases h

/-- **Nothing is left to lose** in a record that was read. -/
theorem reread_eq (hr : r.IsRead) : r.reread = r := by
  have hmembers : rereadMembers r.members.entries = r.members.entries := by
    unfold rereadMembers
    refine (List.filterMap_congr fun m hm => ?_).trans List.filterMap_some
    obtain ⟨name, d⟩ := m
    cases name with
    | none => exact absurd (List.mem_map.2 ⟨_, hm, rfl⟩) hr.named
    | some name =>
      change some (some name, d.reread) = some (some name, d)
      rw [hr.members d (List.mem_map.2 ⟨_, hm, rfl⟩)]
  unfold reread
  rw [hmembers, hr.proto, ← hr.builtin]

end Record.IsRead

theorem isRead_of_readTypes {types types' : Table} {fields : List (String × Json)}
    (hkeys : types.keys.Nodup) (hread : ∀ r ∈ types.values, r.IsRead)
    (h : readTypes types fields = .ok types') :
    types'.keys.Nodup ∧ ∀ r ∈ types'.values, r.IsRead := by
  induction fields generalizing types with
  | nil =>
    cases h
    exact ⟨hkeys, hread⟩
  | cons f fs ih =>
    obtain ⟨name, v⟩ := f
    obtain ⟨r, hv, h⟩ := bind_eq_ok_iff.1 h
    refine ih (OrderedMap.nodup_keys_insert hkeys _ _) (fun r' hr' => ?_) h
    rcases OrderedMap.mem_values_insert hr' with rfl | hr'
    · exact .ofJson hv
    · exact hread r' hr'

theorem SummaryKind.name_ofName (name : String) : (SummaryKind.ofName name).name = name := by
  unfold SummaryKind.ofName
  split
  · rename_i h
    exact h.symm
  · split
    · rename_i h
      exact h.symm
    · split
      · rename_i h
        exact h.symm
      · rfl

theorem Summary.reread_of_ofJson {v : Json} {s : Summary} (h : Summary.ofJson v = .ok s) :
    s.Distinct ∧ s.reread = s := by
  rw [ofJson_eq] at h
  split at h
  · cases h
  · rename_i raw _
    obtain ⟨provided, hp, h⟩ := bind_eq_ok_iff.1 h
    obtain ⟨types, ht, h⟩ := bind_eq_ok_iff.1 h
    cases h
    have hprovided : provided.reread = provided ∧ ∀ r, provided = .record r → r.IsRead := by
      unfold Provided.ofJson at hp
      split at hp
      · cases hp
        exact ⟨congrArg Provided.type (Ty.reread_ofText _), fun r hr => by cases hr⟩
      · obtain ⟨r, hr, rfl⟩ := map_eq_ok_iff.1 hp
        have hread := Record.IsRead.ofJson hr
        refine ⟨congrArg Provided.record hread.reread_eq, fun r' hr' => ?_⟩
        cases hr'
        exact hread
    have htypes : types.keys.Nodup ∧ ∀ r ∈ types.values, r.IsRead := by
      have hempty : ∀ r ∈ (OrderedMap.empty : Table).values, r.IsRead := fun r hr => by cases hr
      unfold typesOfJson at ht
      split at ht
      · cases ht
        exact ⟨List.nodup_nil, hempty⟩
      · split at ht
        · exact isRead_of_readTypes (show (OrderedMap.empty : Table).keys.Nodup from List.nodup_nil) hempty ht
        · cases ht
    refine ⟨⟨htypes.1, fun r hr => ?_⟩, ?_⟩
    · rcases List.mem_append.1 hr with hr | hr
      · cases provided with
        | type t => cases hr
        | record r' =>
          cases List.mem_singleton.1 hr
          exact (hprovided.2 r rfl).nodup
      · exact (htypes.2 r hr).nodup
    · have hmap : types.mapValues Record.reread = types := by
        refine congrArg OrderedMap.mk ((List.map_congr_left fun e he => ?_).trans (List.map_id _))
        rw [(htypes.2 e.2 (List.mem_map_of_mem he)).reread_eq, id]
      have hkind : SummaryKind.ofName (kindOfJson (v.get "kind")).name = kindOfJson (v.get "kind") := by
        unfold kindOfJson
        cases (v.get "kind").str? with
        | none => rfl
        | some name => exact congrArg SummaryKind.ofName (SummaryKind.name_ofName name)
      unfold reread
      rw [hprovided.1, hmap, hkind]

/-! ### The same text -/

theorem Definition.toJson_reread {d : Definition} (hd : d.type.HasReadableLeaf) :
    d.reread.toJson = d.toJson := by
  unfold toJson reread Ty.reread
  rw [Ty.text_ofText_text hd]

theorem Record.toJson_reread {r : Record} (hr : ∀ d ∈ r.definitions, d.type.HasReadableLeaf) :
    r.reread.toJson = r.toJson := by
  have hproto : (r.reread.proto.map fun p => (protoField, Json.str p.type.text)) =
      r.proto.map fun p => (protoField, .str p.type.text) := by
    unfold reread
    cases hp : r.proto with
    | none => rfl
    | some p =>
      have hleaf := hr p (List.mem_append_right _ (Option.mem_toList.2 hp))
      exact congrArg (fun text => some (protoField, Json.str text)) (Ty.text_ofText_text hleaf)
  have hmembers : memberFields r.reread.members.entries = memberFields r.members.entries := by
    change memberFields (rereadMembers _) = _
    unfold memberFields rereadMembers
    rw [List.filterMap_filterMap]
    refine List.filterMap_congr fun m hm => ?_
    obtain ⟨name, d⟩ := m
    cases name with
    | none => rfl
    | some name =>
      have hleaf := hr d (List.mem_append_left _ (List.mem_map.2 ⟨_, hm, rfl⟩))
      exact congrArg (fun v => some (escapeMember name, v)) (Definition.toJson_reread hleaf)
  change Json.obj (_ ++ memberFields r.reread.members.entries) = Json.obj (_ ++ memberFields _)
  rw [hproto, hmembers]

theorem Summary.toJson_reread {s : Summary} (hs : ∀ t ∈ s.writtenTypes, t.HasReadableLeaf) :
    s.reread.toJson = s.toJson := by
  have hrecords : ∀ r ∈ s.records, r.reread.toJson = r.toJson := fun r hr =>
    Record.toJson_reread fun d hd => hs d.type
      (List.mem_append_right _ (List.mem_flatMap.2 ⟨r, hr, List.mem_map_of_mem hd⟩))
  have hprovided : s.provided.reread.toJson = s.provided.toJson := by
    cases hp : s.provided with
    | type t =>
      have hleaf := hs t (List.mem_append_left _ (by rw [hp]; exact List.mem_cons_self))
      exact congrArg Json.str (Ty.text_ofText_text hleaf)
    | record r => exact hrecords r (List.mem_append_left _ (by rw [hp]; exact List.mem_cons_self))
  have htypes : s.reread.types.entries.map (fun t => (t.1, t.2.toJson)) =
      s.types.entries.map fun t => (t.1, t.2.toJson) := by
    change (s.types.entries.map _).map _ = _
    rw [List.map_map]
    refine List.map_congr_left fun e he => ?_
    exact congrArg (Prod.mk e.1)
      (hrecords e.2 (List.mem_append_right _ (List.mem_map_of_mem he)))
  have hkind : s.reread.kind.name = s.kind.name := SummaryKind.name_ofName _
  unfold toJson
  rw [htypes, hkind]
  change Json.obj [("provided", s.provided.reread.toJson), _, _] = _
  rw [hprovided]

/-- **The stored form is exact**: a summary that was read is read again from what is written of it;
and the text of any other one stays the same when it is read and written, if its types can be read,
where no two members of a record have the same key and none that of the prototype. -/
theorem wire_format_exact :
    (∀ v s, Summary.ofJson v = .ok s → Summary.ofJson s.toJson = .ok s) ∧
      ∀ s : Summary, s.Distinct → (∀ t ∈ s.writtenTypes, t.HasReadableLeaf) →
        (∃ s', Summary.ofJson s.toJson = .ok s' ∧ s'.toJson = s.toJson) ∧
        ∀ r ∈ s.records,
          r.toJson.fields.map (·.1) = (r.proto.map fun _ => protoField).toList ++ r.writtenNames ∧
          r.writtenNames.Nodup ∧ protoField ∉ r.writtenNames := by
  refine ⟨fun v s h => ?_, fun s hs hleaf => ⟨⟨s.reread, ?_, ?_⟩, fun r hr => ⟨?_, ?_, ?_⟩⟩⟩
  · obtain ⟨hs, hreread⟩ := Summary.reread_of_ofJson h
    rw [Summary.ofJson_toJson hs, hreread]
  · exact Summary.ofJson_toJson hs
  · exact Summary.toJson_reread hleaf
  · exact r.keys_toJson
  · exact Record.nodup_writtenNames (hs.members r hr)
  · exact r.protoField_not_mem_writtenNames

/-- A stored summary with a bare type text, a range of mixed offsets and too few colons. -/
def looseJson : Json := .obj [
  ("types", .null),
  ("provided", .obj [
    ("a", .str "??Number"),
    ("$_$$$proto", .obj [("typeName", .str "?a:x,y"), ("range", .arr [.bool true, .str "7"])]),
    ("$$proto", .str "Object")])]

/-- The summary stored in `looseJson`. -/
def looseSummary : Summary :=
  { provided := .record
      { members := ⟨[(some "a", { type := .function (.function .number []) [] }),
          (some "$$proto", { type := .function (.named "a") ["x", "y"], span := some ⟨1, 7⟩ })]⟩
        proto := some { type := .object } } }

/-- A summary whose types lose an empty parameter name and a prototype link with a range. -/
def lossySummary : Summary :=
  { provided := .type (.function (.named "?Foo:") [""])
    types := ⟨[("?Foo:", { members := ⟨[(some "$_$", { type := .named "?Foo:~proto" })]⟩
                           proto := some { type := .object, span := some ⟨0, 3⟩ } })]⟩
    kind := .commonjs }

theorem wire_format_exact_loose :
    (Summary.ofJson looseJson = .ok looseSummary ∧
      Summary.ofJson looseSummary.toJson = .ok looseSummary) ∧
      ∃ s', Summary.ofJson lossySummary.toJson = .ok s' ∧ s'.toJson = lossySummary.toJson := by
  have hread : Summary.ofJson looseJson = .ok looseSummary := by rfl
  have hdistinct : lossySummary.Distinct := ⟨by decide, by decide⟩
  have hleaf : ∀ t ∈ lossySummary.writtenTypes, t.HasReadableLeaf := by
    unfold Ty.HasReadableLeaf
    decide +kernel
  exact ⟨⟨hread, wire_format_exact.1 looseJson looseSummary hread⟩,
    (wire_format_exact.2 lossySummary hdistinct hleaf).1⟩

end ContentAssist
