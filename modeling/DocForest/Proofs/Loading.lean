import DocForest.Build.Load
import DocForest.Proofs.Views
import Mathlib.Data.List.Nodup
import Mathlib.Data.List.Induction

/-!
# What loading makes of records

Records refer to each other by identifiers, nodes by indices.  This file says in terms of the records
alone which of them can be loaded, and what the forest looks like then.

## What is here

* `Record.ids` — the identifiers of records, given or made of their places.
* `Record.containerOf?` — the place of a record's container.
* `Record.leavesLevelAt` — whether the level of a record is left to its members.
* `Loading.Holds` — what the state between two records says of the records so far; every record
  keeps it (`Loading.Holds.extend`).
* `Loads`, `loadRecords_eq_ok` — the forest of records that are loaded.
* `loadRecords_of_readable` — **records that can all be read are loaded exactly if their identifiers
  are different and every container is one of them**; otherwise the failure says which of the two
  is missing.
-/

set_option autoImplicit false

namespace DocForest

/-! ## Identifiers -/

namespace Record

/-- The identifier that a record gives. -/
def givenId? (record : Record) : Option String :=
  textUnlessNull (record.field "id")

/-- The identifiers of records.  A record that gives none goes by its place. -/
def ids (records : List Record) : List String :=
  records.mapIdx fun i record => (givenId? record).getD ("#" ++ toString i)

/-- Whether a record is one of an extension that states no level, which is left to its members. -/
def leavesLevel (record : Record) : Bool :=
  (Declaration.ofRecord record).toOption.any fun decl =>
    decl.kind.isExtension && !record.statesLevel

/-- Whether the record at a place leaves its level to its members. -/
def leavesLevelAt (records : List Record) (i : Nat) : Bool :=
  records[i]?.any leavesLevel

/-- The place of a record's container among the records. -/
def containerOf? (records : List Record) (i : Nat) : Option Nat :=
  records[i]?.bind fun record => record.container?.bind fun id => (ids records).idxOf? id

/-- Every container that a record names is one of the records. -/
def ContainersKnown (records : List Record) : Prop :=
  ∀ record ∈ records, ∀ id, record.container? = some id → id ∈ ids records

instance (records : List Record) : Decidable (ContainersKnown records) :=
  inferInstanceAs (Decidable (∀ record ∈ records, ∀ id ∈ record.container?, id ∈ ids records))

@[simp] theorem length_ids (records : List Record) : (ids records).length = records.length := by
  simp [ids]

theorem ids_concat (records : List Record) (record : Record) :
    ids (records ++ [record]) =
      ids records ++ [(givenId? record).getD ("#" ++ toString records.length)] := by
  simp [ids, List.mapIdx_append]

theorem containerOf?_lt {records : List Record} {i p : Nat} (h : containerOf? records i = some p) :
    p < records.length := by
  obtain ⟨record, -, h⟩ := Option.bind_eq_some_iff.1 h
  obtain ⟨id, -, h⟩ := Option.bind_eq_some_iff.1 h
  obtain ⟨hp, -⟩ := List.idxOf?_eq_some_iff.1 h
  simpa using hp

theorem lt_of_containerOf? {records : List Record} {i p : Nat} (h : containerOf? records i = some p) :
    i < records.length := by
  obtain ⟨record, hrecord, -⟩ := Option.bind_eq_some_iff.1 h
  exact (List.getElem?_eq_some_iff.1 hrecord).1

theorem leavesLevel_eq {record : Record} {decl : Declaration}
    (h : Declaration.ofRecord record = .ok decl) :
    leavesLevel record = (decl.kind.isExtension && !record.statesLevel) := by
  rw [leavesLevel, h]
  rfl

theorem filter_leavesLevelAt_concat (records : List Record) (record : Record) :
    (List.range (records ++ [record]).length).filter (leavesLevelAt (records ++ [record])) =
      (List.range records.length).filter (leavesLevelAt records) ++
        if leavesLevel record then [records.length] else [] := by
  have hlast : leavesLevelAt (records ++ [record]) records.length = leavesLevel record := by
    simp [leavesLevelAt]
  rw [List.length_append, List.length_singleton, List.range_succ, List.filter_append]
  refine congrArg₂ _ (List.filter_congr fun i hi => ?_) ?_
  · rw [leavesLevelAt, List.getElem?_append_left (List.mem_range.1 hi), leavesLevelAt]
  · rw [List.filter_singleton, hlast]
    cases leavesLevel record <;> rfl

end Record

theorem Declaration.id_of_ofRecord {record : Record} {decl : Declaration}
    (h : Declaration.ofRecord record = .ok decl) : decl.id = Record.givenId? record := by
  cases record with
  | obj fields =>
    simp only [ofRecord, ofFields, Outcome.bind_eq_ok, Outcome.pure_eq_ok] at h
    obtain ⟨level, -, inherited, -, parameters, -, hint, -, rfl⟩ := h
    rfl
  | _ => cases h

theorem find?_zipIdx (items : List String) (id : String) (first : Nat) :
    ((items.zipIdx first).find? fun entry => entry.1 = id).map (·.2) =
      (items.idxOf? id).map (first + ·) := by
  induction items generalizing first with
  | nil => rfl
  | cons item rest ih =>
    rw [List.zipIdx_cons, List.find?_cons, List.idxOf?_cons]
    by_cases h : item = id
    · simp [h]
    · simp [h, ih, Function.comp_def, Nat.add_comm, Nat.add_left_comm]

/-! ## The state between two records -/

namespace Loading

/-- The nodes that name a container, each with its identifier. -/
def pendingOf (records : List Record) : List (Nat × String) :=
  records.zipIdx.filterMap fun entry => (Record.container? entry.1).map fun id => (entry.2, id)

/-- What the state between two records says of the records so far. -/
structure Holds (state : Loading) (records : List Record) : Prop where
  size : state.forest.size = records.length
  roots : state.forest.roots = none
  node : ∀ i record, records[i]? = some record →
    ∃ decl, Declaration.ofRecord record = .ok decl ∧ state.forest.node? i = some { decl }
  ids : state.ids = (Record.ids records).zipIdx
  nodup : (Record.ids records).Nodup
  pending : state.pending = pendingOf records
  implicit : state.implicit = (List.range records.length).filter (Record.leavesLevelAt records)

/-- The state with one more record, which has a given declaration. -/
def extend (state : Loading) (record : Record) (decl : Declaration) : Loading where
  forest := state.forest.add decl
  ids := state.ids ++ [(effectiveId decl state.forest.size, state.forest.size)]
  pending := state.pending
    ++ (record.container?.map fun parent => (state.forest.size, parent)).toList
  implicit :=
    if decl.kind.isExtension && !record.statesLevel then state.implicit ++ [state.forest.size]
    else state.implicit

theorem outcome_addRecord (state : Loading) (record : Record) :
    (state.addRecord record).outcome = Declaration.ofRecord record >>= fun decl =>
      let id := effectiveId decl state.forest.size
      if (state.indexOf? id).isSome then .error (.duplicateId id)
      else .ok (state.extend record decl) := by
  rw [addRecord, Logged.outcome_bind]
  cases Declaration.ofRecord record with
  | error failure => rfl
  | ok decl =>
    change (Logged.outcome (if _ then _ else _)) = if _ then _ else _
    split <;> rfl

theorem pendingOf_concat (records : List Record) (record : Record) :
    pendingOf (records ++ [record]) = pendingOf records
      ++ (record.container?.map fun id => (records.length, id)).toList := by
  rw [pendingOf, List.zipIdx_append, List.filterMap_append]
  cases h : record.container? <;> simp [pendingOf, h]

variable {state next : Loading} {records : List Record} {record : Record} {decl : Declaration}

theorem holds_nil : Holds {} [] where
  size := rfl
  roots := rfl
  node i record h := by simp at h
  ids := rfl
  nodup := List.nodup_nil
  pending := rfl
  implicit := rfl

theorem Holds.indexOf?_eq (h : state.Holds records) (id : String) :
    state.indexOf? id = (Record.ids records).idxOf? id := by
  rw [indexOf?, h.ids, find?_zipIdx]
  simp

theorem Holds.effectiveId_eq (h : state.Holds records)
    (hdecl : Declaration.ofRecord record = .ok decl) :
    effectiveId decl state.forest.size =
      (Record.givenId? record).getD ("#" ++ toString records.length) := by
  rw [effectiveId, Declaration.id_of_ofRecord hdecl, h.size]

theorem Holds.extend (h : state.Holds records) (hdecl : Declaration.ofRecord record = .ok decl)
    (hnew : (Record.ids (records ++ [record])).Nodup) :
    (state.extend record decl).Holds (records ++ [record]) where
  size := by simp [Loading.extend, h.size]
  roots := h.roots
  node i entry hi := by
    change ∃ decl', _ ∧ (state.forest.add decl).node? i = _
    rw [Forest.node?_add, h.size]
    by_cases hlast : i = records.length
    · subst hlast
      obtain rfl : record = entry := by simpa using hi
      exact ⟨decl, hdecl, if_pos rfl⟩
    · rw [if_neg hlast]
      refine h.node i entry ?_
      have hlt : i < (records ++ [record]).length := (List.getElem?_eq_some_iff.1 hi).1
      rw [List.length_append, List.length_singleton] at hlt
      rwa [List.getElem?_append_left (by omega)] at hi
  ids := by
    rw [Record.ids_concat, List.zipIdx_append, Record.length_ids, ← h.ids, ← h.effectiveId_eq hdecl,
      ← h.size]
    simp [Loading.extend]
  nodup := hnew
  pending := by rw [pendingOf_concat, ← h.pending, ← h.size]; rfl
  implicit := by
    rw [Record.filter_leavesLevelAt_concat, Record.leavesLevel_eq hdecl, ← h.implicit, ← h.size]
    change (if decl.kind.isExtension && !record.statesLevel then _ else _) = _
    split <;> simp

/-- The identifier of a record is new if and only if no record so far has it. -/
theorem Holds.isSome_indexOf? (h : state.Holds records)
    (hdecl : Declaration.ofRecord record = .ok decl) :
    (state.indexOf? (effectiveId decl state.forest.size)).isSome = true ↔
      ¬(Record.ids (records ++ [record])).Nodup := by
  rw [h.indexOf?_eq, h.effectiveId_eq hdecl, List.isSome_idxOf?, Record.ids_concat,
    List.nodup_append]
  simp [h.nodup]

/-- A record that is added can be read and has an identifier of its own. -/
theorem Holds.addRecord (h : state.Holds records)
    (hnext : (state.addRecord record).outcome = .ok next) :
    next.Holds (records ++ [record]) := by
  rw [outcome_addRecord, Outcome.bind_eq_ok] at hnext
  obtain ⟨decl, hdecl, hnext⟩ := hnext
  dsimp only at hnext
  split at hnext
  · cases hnext
  · next hnew =>
    rw [h.isSome_indexOf? hdecl, not_not] at hnew
    rw [← Except.ok.inj hnext]
    exact h.extend hdecl hnew

/-- A record that can be read is added, or its identifier is taken. -/
theorem Holds.addRecord_of_readable (h : state.Holds records)
    (hdecl : Declaration.ofRecord record = .ok decl) :
    (∃ next, (state.addRecord record).outcome = .ok next) ∨
      (∃ id, (state.addRecord record).outcome = .error (.duplicateId id))
        ∧ ¬(Record.ids (records ++ [record])).Nodup := by
  rw [outcome_addRecord, hdecl, ← h.isSome_indexOf? hdecl]
  by_cases htaken : (state.indexOf? (effectiveId decl state.forest.size)).isSome = true
  · exact .inr ⟨⟨_, if_pos htaken⟩, htaken⟩
  · exact .inl ⟨_, if_neg htaken⟩

theorem outcome_addRecords_concat (records : List Record) (record : Record) :
    ((records ++ [record]).foldlM Loading.addRecord {}).outcome =
      (records.foldlM Loading.addRecord {}).outcome >>= fun state =>
        (state.addRecord record).outcome := by
  simp only [Logged.outcome_foldlM, List.foldlM_append, List.foldlM_cons, List.foldlM_nil, bind_pure]

/-- **The state behind all records tells of all of them.** -/
theorem holds_of_addRecords (h : (records.foldlM Loading.addRecord {}).outcome = .ok state) :
    state.Holds records := by
  induction records using List.reverseRecOn generalizing state with
  | nil =>
    obtain rfl : state = {} := (Except.ok.inj h).symm
    exact holds_nil
  | append_singleton records record ih =>
    rw [outcome_addRecords_concat, Outcome.bind_eq_ok] at h
    obtain ⟨before, hbefore, h⟩ := h
    exact (ih hbefore).addRecord h

/-- Records that can all be read are all added, or two of them have one identifier. -/
theorem addRecords_of_readable
    (h : ∀ record ∈ records, ∃ decl, Declaration.ofRecord record = .ok decl) :
    (∃ state, (records.foldlM Loading.addRecord {}).outcome = .ok state) ∨
      (∃ id, (records.foldlM Loading.addRecord {}).outcome = .error (.duplicateId id))
        ∧ ¬(Record.ids records).Nodup := by
  induction records using List.reverseRecOn with
  | nil => exact .inl ⟨_, rfl⟩
  | append_singleton records record ih =>
    obtain ⟨decl, hdecl⟩ := h record (by simp)
    rw [outcome_addRecords_concat]
    rcases ih fun record hrecord => h record (List.mem_append_left _ hrecord) with
      ⟨state, hstate⟩ | ⟨⟨id, hid⟩, hnodup⟩
    · rw [hstate]
      exact (holds_of_addRecords hstate).addRecord_of_readable hdecl
    · rw [hid, Record.ids_concat]
      exact .inr ⟨⟨id, rfl⟩, fun hall => hnodup hall.of_append_left⟩

/-! ## Linking -/

/-- The forest with the containers of several nodes, which are looked up by identifiers. -/
def linked (state : Loading) (links : List (Nat × String)) (forest : Forest) : Forest :=
  forest.modifyAll (·.1) (fun link node => { node with codeParent := state.indexOf? link.2 }) links

/-- The nodes of some links exist and have no containers yet. -/
def Free (forest : Forest) (links : List (Nat × String)) : Prop :=
  ∀ link ∈ links, link.1 < forest.size ∧ forest.codeParent? link.1 = none

variable {links : List (Nat × String)} {forest : Forest}

theorem Free.modify {link : Nat × String} {change : Node → Node}
    (hfree : Free forest (link :: links)) (hlink : link.1 ∉ links.map (·.1)) :
    Free (forest.modify link.1 change) links := by
  intro other hother
  have hne : link.1 ≠ other.1 := fun heq => hlink (List.mem_map.2 ⟨other, hother, heq.symm⟩)
  rw [Forest.size_modify, Forest.codeParent?, Forest.node?_modify, if_neg hne]
  exact hfree other (List.mem_cons_of_mem _ hother)

/-- Nodes without containers are linked exactly if all containers are known. -/
theorem linkAll_eq_ok (hnodup : (links.map (·.1)).Nodup) (hfree : Free forest links)
    {next : Forest} :
    links.foldlM state.linkPending forest = .ok next ↔
      (∀ link ∈ links, (state.indexOf? link.2).isSome = true) ∧
        next = state.linked links forest := by
  induction links generalizing forest with
  | nil =>
    rw [List.foldlM_nil, Outcome.pure_eq_ok]
    simp [linked, Forest.modifyAll]
  | cons link rest ih =>
    obtain ⟨hlt, hnone⟩ := hfree link List.mem_cons_self
    obtain ⟨hlink, hnodup⟩ := List.nodup_cons.1 hnodup
    rw [List.foldlM_cons, Outcome.bind_eq_ok, List.forall_mem_cons, linkPending]
    cases hparent : state.indexOf? link.2 with
    | none => simp
    | some parent =>
      have hstep : ∀ mid, forest.link link.1 parent = .ok mid ↔
          mid = forest.modify link.1 fun node => { node with codeParent := some parent } :=
        fun mid => by rw [Forest.link_eq_ok]; exact ⟨fun h => h.2.2, fun h => ⟨hlt, hnone, h⟩⟩
      simp only [hstep, exists_eq_left, ih hnodup (hfree.modify hlink)]
      simp [linked, Forest.modifyAll, hparent]

/-- Linking nodes without containers fails only for want of a container. -/
theorem linkAll_eq_error (hnodup : (links.map (·.1)).Nodup) (hfree : Free forest links)
    {failure : Failure} (h : links.foldlM state.linkPending forest = .error failure) :
    ∃ name id, failure = .unknownParent name id := by
  induction links generalizing forest with
  | nil => cases h
  | cons link rest ih =>
    obtain ⟨hlt, hnone⟩ := hfree link List.mem_cons_self
    obtain ⟨hlink, hnodup⟩ := List.nodup_cons.1 hnodup
    rw [List.foldlM_cons, linkPending] at h
    cases hparent : state.indexOf? link.2 with
    | none =>
      rw [hparent] at h
      exact ⟨_, _, (Except.error.inj h).symm⟩
    | some parent =>
      rw [hparent] at h
      have hstep : forest.link link.1 parent = .ok _ := Forest.link_eq_ok.2 ⟨hlt, hnone, rfl⟩
      dsimp only at h
      rw [hstep] at h
      exact ih hnodup (hfree.modify hlink) h

end Loading

/-! ## Loaded records -/

/-- The forest of records that are loaded. -/
structure Loads (records : List Record) (loaded : Loaded) : Prop where
  ids_nodup : (Record.ids records).Nodup
  containers_known : Record.ContainersKnown records
  size : loaded.forest.size = records.length
  roots : loaded.forest.roots = none
  node : ∀ i record, records[i]? = some record →
    ∃ decl, Declaration.ofRecord record = .ok decl ∧
      loaded.forest.node? i = some { decl, codeParent := Record.containerOf? records i }
  implicit : loaded.implicit = (List.range records.length).filter (Record.leavesLevelAt records)

namespace Loading

variable {records : List Record} {state : Loading}

theorem mem_pendingOf {link : Nat × String} :
    link ∈ pendingOf records ↔
      ∃ record, records[link.1]? = some record ∧ record.container? = some link.2 := by
  obtain ⟨i, id⟩ := link
  simp only [pendingOf, List.mem_filterMap, List.mem_zipIdx_iff_getElem?, Option.map_eq_some_iff,
    Prod.mk.injEq, Prod.exists]
  constructor
  · rintro ⟨record, j, hrecord, id', hid, rfl, rfl⟩
    exact ⟨record, hrecord, hid⟩
  · rintro ⟨record, hrecord, hid⟩
    exact ⟨record, i, hrecord, id, hid, rfl, rfl⟩

theorem nodup_pendingOf (records : List Record) : ((pendingOf records).map (·.1)).Nodup := by
  induction records using List.reverseRecOn with
  | nil => exact List.nodup_nil
  | append_singleton records record ih =>
    rw [pendingOf_concat, List.map_append, List.nodup_append]
    refine ⟨ih, by cases record.container? <;> simp, fun i hi j hj => ?_⟩
    obtain ⟨link, hlink, rfl⟩ := List.mem_map.1 hi
    obtain ⟨entry, hentry, -⟩ := mem_pendingOf.1 hlink
    have hlt := (List.getElem?_eq_some_iff.1 hentry).1
    obtain ⟨link', hlink', rfl⟩ := List.mem_map.1 hj
    obtain ⟨id, -, rfl⟩ := Option.map_eq_some_iff.1 (Option.mem_toList.1 hlink')
    exact Nat.ne_of_lt hlt

theorem Holds.free (h : state.Holds records) : Free state.forest state.pending := by
  intro link hlink
  rw [h.pending] at hlink
  obtain ⟨record, hrecord, -⟩ := mem_pendingOf.1 hlink
  obtain ⟨decl, -, hnode⟩ := h.node _ record hrecord
  refine ⟨?_, by rw [Forest.codeParent?, hnode]; rfl⟩
  rw [h.size]
  exact (List.getElem?_eq_some_iff.1 hrecord).1

/-- The records whose containers are all found name none but known ones. -/
theorem Holds.containers_known_iff (h : state.Holds records) :
    (∀ link ∈ state.pending, (state.indexOf? link.2).isSome = true) ↔
      Record.ContainersKnown records := by
  simp only [h.pending, mem_pendingOf, h.indexOf?_eq, List.isSome_idxOf?, Record.ContainersKnown]
  constructor
  · intro hall record hrecord id hid
    obtain ⟨i, hi, hget⟩ := List.getElem_of_mem hrecord
    exact hall (i, id) ⟨record, by rw [List.getElem?_eq_getElem hi, hget], hid⟩
  · rintro hall link ⟨record, hrecord, hid⟩
    exact hall record (List.mem_of_getElem? hrecord) _ hid

/-- Linking gives every node the container that its record names. -/
theorem Holds.loads (h : state.Holds records) (hknown : Record.ContainersKnown records) :
    Loads records
      { forest := state.linked state.pending state.forest, implicit := state.implicit } where
  ids_nodup := h.nodup
  containers_known := hknown
  size := (congrArg Prod.fst (Forest.bounds_modifyAll _ _ _ _)).trans h.size
  roots := (congrArg Prod.snd (Forest.bounds_modifyAll _ _ _ _)).trans h.roots
  implicit := h.implicit
  node i record hrecord := by
    obtain ⟨decl, hdecl, hnode⟩ := h.node i record hrecord
    refine ⟨decl, hdecl, ?_⟩
    have hcontainer : Record.containerOf? records i =
        record.container?.bind fun id => (Record.ids records).idxOf? id := by
      rw [Record.containerOf?, hrecord, Option.bind_some]
    change (state.linked state.pending state.forest).node? i = _
    rw [hcontainer, linked, h.pending]
    cases hid : record.container? with
    | none =>
      rw [Forest.node?_modifyAll_of_not_mem, hnode]
      · rfl
      · rintro link hlink rfl
        obtain ⟨record', hrecord', hid'⟩ := mem_pendingOf.1 hlink
        obtain rfl : record = record' := Option.some.inj (hrecord.symm.trans hrecord')
        exact Option.some_ne_none _ (hid'.symm.trans hid)
    | some id =>
      have hlink : (i, id) ∈ pendingOf records := mem_pendingOf.2 ⟨record, hrecord, hid⟩
      have hmodified := Forest.node?_modifyAll_of_mem state.forest Prod.fst
        (fun link node => { node with codeParent := state.indexOf? link.2 })
        (nodup_pendingOf records) hlink
      rw [hmodified, hnode, h.indexOf?_eq]
      rfl

end Loading

/-! ## The whole of loading -/

variable {records : List Record} {loaded : Loaded}

theorem outcome_loadRecords (records : List Record) :
    (loadRecords records).outcome =
      (records.foldlM Loading.addRecord {}).outcome >>= fun state =>
        (state.pending.foldlM state.linkPending state.forest).map fun forest =>
          { forest, implicit := state.implicit } := by
  rw [loadRecords, Logged.outcome_bind]
  congr 1
  funext state
  rw [Logged.outcome_bind, Logged.outcome_ofExcept]
  cases state.pending.foldlM state.linkPending state.forest <;> rfl

/-- **What is loaded is the forest of its records.** -/
theorem loadRecords_eq_ok (h : (loadRecords records).outcome = .ok loaded) : Loads records loaded := by
  rw [outcome_loadRecords, Outcome.bind_eq_ok] at h
  obtain ⟨state, hstate, h⟩ := h
  have hholds := Loading.holds_of_addRecords hstate
  cases hlinks : state.pending.foldlM state.linkPending state.forest with
  | error failure =>
    rw [hlinks] at h
    cases h
  | ok forest =>
    rw [hlinks] at h
    obtain rfl := Except.ok.inj h
    have hnodup := hholds.pending ▸ Loading.nodup_pendingOf records
    obtain ⟨hknown, rfl⟩ := (Loading.linkAll_eq_ok hnodup hholds.free).1 hlinks
    exact hholds.loads (hholds.containers_known_iff.1 hknown)

/-- **Records that can all be read are loaded exactly if their identifiers are different and their
containers known.**  If they are not, the failure says so. -/
theorem loadRecords_of_readable
    (h : ∀ record ∈ records, ∃ decl, Declaration.ofRecord record = .ok decl) :
    (∃ loaded, (loadRecords records).outcome = .ok loaded) ∨
      ∃ failure, (loadRecords records).outcome = .error failure ∧
        ((∃ id, failure = .duplicateId id) ∧ ¬(Record.ids records).Nodup ∨
          (∃ name id, failure = .unknownParent name id) ∧ ¬Record.ContainersKnown records) := by
  rw [outcome_loadRecords]
  rcases Loading.addRecords_of_readable h with ⟨state, hstate⟩ | ⟨⟨id, hid⟩, hnodup⟩
  · have hholds := Loading.holds_of_addRecords hstate
    have hnodup := hholds.pending ▸ Loading.nodup_pendingOf records
    rw [hstate]
    change (∃ loaded, Except.map _ _ = _) ∨ ∃ failure, Except.map _ _ = _ ∧ _
    cases hlinks : state.pending.foldlM state.linkPending state.forest with
    | ok forest => exact .inl ⟨_, rfl⟩
    | error failure =>
      refine .inr ⟨failure, rfl, .inr ⟨Loading.linkAll_eq_error hnodup hholds.free hlinks, ?_⟩⟩
      intro hknown
      have hok := (Loading.linkAll_eq_ok hnodup hholds.free).2
        ⟨hholds.containers_known_iff.2 hknown, rfl⟩
      rw [hlinks] at hok
      cases hok
  · rw [hid]
    exact .inr ⟨_, rfl, .inl ⟨⟨id, rfl⟩, hnodup⟩⟩

end DocForest
