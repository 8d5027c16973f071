import DocForest.Proofs.Typing

/-!
# Identifiers that are given

Records refer to each other by identifiers.  One that gives none is entered by its place, a `#` with a number,
and the place is kept with the identifiers that are given.  A record may give such a text itself, or name it as
its container, and then it meets a record that has no identifier.  Apart from that only what is given counts:
**the first identifier that comes again has been given twice, and every container has been given, exactly if
no place gets in between.**

## What is here

* `FirstRepeated` — the element of a list that is the first to come again.
* `loadRecords_eq_duplicateId`, `build_eq_duplicateId` — **loading fails for this identifier and no other.**
* `Record.givenAt?`, `Record.GivenTwice`, `Record.StandsIn` — identifiers that are given, and places that stand
  in for them.
* `Record.mem_ids` — an identifier is one or the other.
* `CountsGiven` — a build that heeds only what is given.
* `build_counts_given_iff` — **when this is so**, and `countsGiven_of_unmarked`, that it is if neither
  identifiers nor containers begin with `#`.
-/

set_option autoImplicit false

namespace DocForest

variable {config : Config} {inflect : String → String} {records : List Record} {record : Record}
  {id : String} {failure : Failure} {i : Nat}

/-! ## What comes again first -/

/-- An element comes again, behind different ones. -/
def FirstRepeated {α : Type} (items : List α) (a : α) : Prop :=
  ∃ front rest, items = front ++ a :: rest ∧ front.Nodup ∧ a ∈ front

namespace FirstRepeated

variable {α : Type} {items : List α} {a b : α}

theorem not_nodup (h : FirstRepeated items a) : ¬items.Nodup := by
  obtain ⟨front, rest, rfl, -, ha⟩ := h
  rw [List.nodup_append]
  exact fun hnodup => hnodup.2.2 a ha a List.mem_cons_self rfl

theorem concat_iff :
    FirstRepeated (items ++ [b]) a ↔ FirstRepeated items a ∨ items.Nodup ∧ b ∈ items ∧ a = b := by
  constructor
  · rintro ⟨front, rest, heq, hnodup, ha⟩
    rcases List.eq_nil_or_concat rest with rfl | ⟨init, last, rfl⟩
    · obtain ⟨rfl, hlast⟩ := List.append_inj' heq rfl
      obtain rfl := List.singleton_inj.1 hlast
      exact .inr ⟨hnodup, ha, rfl⟩
    · rw [List.concat_eq_append, ← List.cons_append, ← List.append_assoc] at heq
      exact .inl ⟨front, init, (List.append_inj' heq rfl).1, hnodup, ha⟩
  · rintro (⟨front, rest, rfl, hnodup, ha⟩ | ⟨hnodup, hb, rfl⟩)
    · exact ⟨front, rest ++ [b], by rw [List.append_assoc, List.cons_append], hnodup, ha⟩
    · exact ⟨items, [], rfl, hnodup, hb⟩

theorem exists_places (h : FirstRepeated items a) :
    ∃ m n : Nat, m < n ∧ items[m]? = some a ∧ items[n]? = some a := by
  obtain ⟨front, rest, rfl, -, ha⟩ := h
  obtain ⟨m, hm, hget⟩ := List.getElem_of_mem ha
  refine ⟨m, front.length, hm, ?_, ?_⟩
  · rw [List.getElem?_append_left hm, List.getElem?_eq_getElem hm, hget]
  · rw [List.getElem?_append_right (Nat.le_refl _), Nat.sub_self, List.getElem?_cons_zero]

end FirstRepeated

/-! ## Given identifiers and places -/

namespace Record

/-- The identifier that the record at a place gives. -/
def givenAt? (records : List Record) (i : Nat) : Option String :=
  records[i]?.bind givenId?

/-- Two records give one identifier. -/
def GivenTwice (records : List Record) (id : String) : Prop :=
  ∃ m n, m < n ∧ givenAt? records m = some id ∧ givenAt? records n = some id

/-- The record at a place gives no identifier, so that it goes by its place. -/
def StandsInAt (records : List Record) (id : String) (i : Nat) : Prop :=
  ∃ record, records[i]? = some record ∧ givenId? record = none ∧ id = "#" ++ toString i

/-- Some record gives no identifier and goes by its place, which is `id`. -/
def StandsIn (records : List Record) (id : String) : Prop :=
  ∃ i, StandsInAt records id i

theorem place_injective {m n : Nat} (h : "#" ++ toString m = "#" ++ toString n) : m = n := by
  have hdigits := congrArg String.toList ((String.append_right_inj "#").1 h)
  have hnumbers := congrArg (fun digits => Nat.ofDigitChars 10 digits 0) hdigits
  simpa [Nat.ofDigitChars_ten_toDigits] using hnumbers

theorem getElem?_ids_eq_some :
    (ids records)[i]? = some id ↔ givenAt? records i = some id ∨ StandsInAt records id i := by
  rw [ids, List.getElem?_mapIdx, givenAt?]
  constructor
  · intro h
    obtain ⟨record, hrecord, hid⟩ := Option.map_eq_some_iff.1 h
    rw [hrecord, Option.bind_some]
    cases hgiven : givenId? record with
    | none => exact .inr ⟨record, hrecord, hgiven, by rw [← hid, hgiven, Option.getD_none]⟩
    | some given => exact .inl (by rw [← hid, hgiven, Option.getD_some])
  · rintro (h | ⟨record, hrecord, hgiven, rfl⟩)
    · obtain ⟨record, hrecord, hgiven⟩ := Option.bind_eq_some_iff.1 h
      rw [hrecord, Option.map_some, hgiven, Option.getD_some]
    · rw [hrecord, Option.map_some, hgiven, Option.getD_none]

/-- **An identifier is given, or the place of a record that gives none.** -/
theorem mem_ids : id ∈ ids records ↔ (∃ i, givenAt? records i = some id) ∨ StandsIn records id := by
  simp only [List.mem_iff_getElem?, getElem?_ids_eq_some, exists_or, StandsIn]

theorem StandsInAt.givenAt?_eq_none (h : StandsInAt records id i) : givenAt? records i = none := by
  obtain ⟨record, hrecord, hgiven, -⟩ := h
  rw [givenAt?, hrecord, Option.bind_some, hgiven]

theorem StandsIn.head? (h : StandsIn records id) : id.toList.head? = some '#' := by
  obtain ⟨i, record, -, -, rfl⟩ := h
  rw [String.toList_append]
  rfl

/-- Among different identifiers no given one is a place as well. -/
theorem not_standsIn_of_givenAt? (hnodup : (ids records).Nodup) (h : givenAt? records i = some id) :
    ¬StandsIn records id := by
  rintro ⟨j, hstands⟩
  have hi := getElem?_ids_eq_some.2 (.inl h)
  have hj := getElem?_ids_eq_some.2 (.inr hstands)
  have hlt : i < (ids records).length := (List.getElem?_eq_some_iff.1 hi).1
  obtain rfl := (List.getElem?_inj hlt hnodup).1 (hi.trans hj.symm)
  exact Option.some_ne_none _ (h.symm.trans hstands.givenAt?_eq_none)

/-- What comes again first and is no place has been given twice. -/
theorem givenTwice_of_firstRepeated (h : FirstRepeated (ids records) id) (hgiven : ¬StandsIn records id) :
    GivenTwice records id := by
  obtain ⟨m, n, hlt, hm, hn⟩ := FirstRepeated.exists_places h
  exact ⟨m, n, hlt, (getElem?_ids_eq_some.1 hm).resolve_right fun hstands => hgiven ⟨m, hstands⟩,
    (getElem?_ids_eq_some.1 hn).resolve_right fun hstands => hgiven ⟨n, hstands⟩⟩

/-- **Two records that give no identifier never clash**: one of two equal identifiers has been given. -/
theorem exists_givenAt?_of_firstRepeated (h : FirstRepeated (ids records) id) :
    ∃ i, givenAt? records i = some id := by
  obtain ⟨m, n, hlt, hm, hn⟩ := FirstRepeated.exists_places h
  rcases getElem?_ids_eq_some.1 hm with hgiven | ⟨-, -, -, rfl⟩
  · exact ⟨m, hgiven⟩
  · refine ⟨n, (getElem?_ids_eq_some.1 hn).resolve_right ?_⟩
    rintro ⟨-, -, -, heq⟩
    exact Nat.ne_of_lt hlt (place_injective heq)

/-- A record that can be read and gives none of the fields that may have any form. -/
def plain (record : Record) : Bool :=
  (Declaration.ofRecord record).toOption.isSome &&
    ["usr", "module_name", "doc_module_name", "generic_requirements"].all fun key => (record.field key).isNull

theorem typed_of_plain (records : List Record) (h : records.all plain = true) : ∀ record ∈ records, Typed record := by
  intro record hrecord
  obtain ⟨hread, hnull⟩ := Bool.and_eq_true_iff.1 (List.all_eq_true.1 h record hrecord)
  have hfield : ∀ key ∈ ["usr", "module_name", "doc_module_name", "generic_requirements"],
      (record.field key).TextOrNull := fun key hkey => by
    have hkey := List.all_eq_true.1 hnull key hkey
    cases hvalue : record.field key with
    | null => exact .inl rfl
    | _ =>
      rw [hvalue] at hkey
      cases hkey
  refine ⟨?_, hfield _ (by simp), hfield _ (by simp), hfield _ (by simp), hfield _ (by simp)⟩
  cases hdecl : Declaration.ofRecord record with
  | ok decl => exact ⟨decl, rfl⟩
  | error failure =>
    rw [hdecl] at hread
    cases hread

end Record

/-! ## The reported identifier -/

namespace Loading

variable {state : Loading} {decl : Declaration}

/-- A record that can be read is refused if its identifier is there. -/
theorem Holds.addRecord_eq_error (h : state.Holds records) (hdecl : Declaration.ofRecord record = .ok decl) :
    (state.addRecord record).outcome = .error failure ↔
      (Record.givenId? record).getD ("#" ++ toString records.length) ∈ Record.ids records ∧
        failure = .duplicateId ((Record.givenId? record).getD ("#" ++ toString records.length)) := by
  rw [outcome_addRecord, hdecl, Outcome.ok_bind, h.effectiveId_eq hdecl, ← List.isSome_idxOf?, ← h.indexOf?_eq]
  dsimp only
  split
  · next htaken =>
    exact ⟨fun herror => ⟨htaken, (Except.error.inj herror).symm⟩, fun herror => by rw [herror.2]⟩
  · next hnew => exact ⟨fun hok => (nomatch hok), fun herror => absurd herror.1 hnew⟩

/-- **Adding records fails for the identifier that comes again first.** -/
theorem addRecords_eq_error (h : ∀ record ∈ records, ∃ decl, Declaration.ofRecord record = .ok decl) :
    (records.foldlM Loading.addRecord {}).outcome = .error failure ↔
      ∃ id, failure = .duplicateId id ∧ FirstRepeated (Record.ids records) id := by
  induction records using List.reverseRecOn with
  | nil =>
    refine ⟨fun herror => (nomatch herror), ?_⟩
    rintro ⟨id, -, hid⟩
    exact absurd List.nodup_nil hid.not_nodup
  | append_singleton records record ih =>
    have hreadable : ∀ record ∈ records, ∃ decl, Declaration.ofRecord record = .ok decl :=
      fun record hrecord => h record (List.mem_append_left _ hrecord)
    obtain ⟨decl, hdecl⟩ := h record (List.mem_append_right _ List.mem_cons_self)
    rw [outcome_addRecords_concat, Outcome.bind_eq_error, ih hreadable, Record.ids_concat]
    simp only [FirstRepeated.concat_iff]
    constructor
    · rintro (⟨id, rfl, hid⟩ | ⟨state, hstate, herror⟩)
      · exact ⟨id, rfl, .inl hid⟩
      · have hholds := holds_of_addRecords hstate
        obtain ⟨hmem, rfl⟩ := (hholds.addRecord_eq_error hdecl).1 herror
        exact ⟨_, rfl, .inr ⟨hholds.nodup, hmem, rfl⟩⟩
    · rintro ⟨id, rfl, hid | ⟨hnodup, hmem, rfl⟩⟩
      · exact .inl ⟨id, rfl, hid⟩
      · obtain ⟨state, hstate⟩ :=
          (addRecords_of_readable hreadable).resolve_right fun herror => herror.2 hnodup
        exact .inr ⟨state, hstate,
          ((holds_of_addRecords hstate).addRecord_eq_error hdecl).2 ⟨hmem, rfl⟩⟩

end Loading

/-- **Loading fails for the identifier that comes again first**, and for no other. -/
theorem loadRecords_eq_duplicateId
    (h : ∀ record ∈ records, ∃ decl, Declaration.ofRecord record = .ok decl) :
    (loadRecords records).outcome = .error (.duplicateId id) ↔ FirstRepeated (Record.ids records) id := by
  have hlinks : ∀ state, (records.foldlM Loading.addRecord {}).outcome = .ok state →
      (state.pending.foldlM state.linkPending state.forest).map
        (fun forest => ({ forest, implicit := state.implicit } : Loaded)) ≠ .error (.duplicateId id) := by
    intro state hstate
    have hholds := Loading.holds_of_addRecords hstate
    cases hlinked : state.pending.foldlM state.linkPending state.forest with
    | ok forest => exact fun herror => nomatch herror
    | error failure =>
      obtain ⟨name, parent, rfl⟩ :=
        Loading.linkAll_eq_error (hholds.pending ▸ Loading.nodup_pendingOf records) hholds.free hlinked
      exact fun herror => nomatch herror
  rw [outcome_loadRecords, Outcome.bind_eq_error, Loading.addRecords_eq_error h]
  constructor
  · rintro (⟨other, heq, hid⟩ | ⟨state, hstate, herror⟩)
    · obtain rfl := Failure.duplicateId.inj heq
      exact hid
    · exact absurd herror (hlinks state hstate)
  · exact fun hid => .inl ⟨id, rfl, hid⟩

namespace Forest

/-- **So does a build of typed records**, whatever the options. -/
theorem build_eq_duplicateId (htyped : ∀ record ∈ records, Record.Typed record) :
    (build config inflect records).outcome = .error (.duplicateId id) ↔
      FirstRepeated (Record.ids records) id := by
  have hreadable : ∀ record ∈ records, ∃ decl, Declaration.ofRecord record = .ok decl :=
    fun record hrecord => (htyped record hrecord).readable
  constructor
  · intro herror
    rw [build_outcome, Outcome.bind_eq_error] at herror
    rcases herror with hload | ⟨loaded, hload, herror⟩
    · exact (loadRecords_eq_duplicateId hreadable).1 hload
    · -- behind a loaded forest only the check of the nesting can fail
      cases hnesting : loaded.forest.checkNesting with
      | ok =>
        obtain ⟨forest, hforest⟩ : ∃ forest, (build config inflect records).outcome = .ok forest :=
          build_of_typed htyped hload hnesting
        rw [build_outcome, hload, Outcome.ok_bind, herror] at hforest
        cases hforest
      | error failure =>
        obtain ⟨name, rfl⟩ := checkNesting_eq_error hnesting
        rw [hnesting] at herror
        cases herror
  · intro hid
    rw [build_outcome, (loadRecords_eq_duplicateId hreadable).2 hid]
    rfl

/-- Typed records that have been built are well formed. -/
theorem wellFormed_of_build (htyped : ∀ record ∈ records, Record.Typed record) {forest : Forest}
    (h : (build config inflect records).outcome = .ok forest) : Record.WellFormed records := by
  rcases build_of_typed_or_rejected config inflect htyped with ⟨hwell, -⟩ | ⟨failure, hfailure, -⟩
  · exact hwell
  · rw [h] at hfailure
    cases hfailure

/-! ## What counts -/

/-- A build heeds only the identifiers that are given: it reports none as repeated that has not been given
twice, and has no result if a record names a container that no record gives. -/
structure CountsGiven (config : Config) (inflect : String → String) (records : List Record) : Prop where
  repeated : ∀ id, (build config inflect records).outcome = .error (.duplicateId id) →
    Record.GivenTwice records id
  container : ∀ forest, (build config inflect records).outcome = .ok forest →
    ∀ record ∈ records, ∀ id, record.container? = some id → ∃ i, Record.givenAt? records i = some id
  /-- What has no identifier is in no tree the container of anything. -/
  above : ∀ forest, (build config inflect records).outcome = .ok forest →
    ∀ i p, forest.codeParent? i = some p → (Record.givenAt? records p).isSome = true

/-- Only given identifiers count if no place gets in between. -/
theorem CountsGiven.of_places (htyped : ∀ record ∈ records, Record.Typed record)
    (hrepeated : ∀ id, FirstRepeated (Record.ids records) id → Record.StandsIn records id →
      Record.GivenTwice records id)
    (hcontainer : Record.WellFormed records → ∀ record ∈ records, ∀ id, record.container? = some id →
      ¬Record.StandsIn records id) : CountsGiven config inflect records where
  repeated id herror := by
    have hfirst := (build_eq_duplicateId htyped).1 herror
    by_cases hstands : Record.StandsIn records id
    · exact hrepeated id hfirst hstands
    · exact Record.givenTwice_of_firstRepeated hfirst hstands
  container forest hforest record hrecord id hid := by
    have hwell := wellFormed_of_build htyped hforest
    exact (Record.mem_ids.1 (hwell.containers_known record hrecord id hid)).resolve_right
      (hcontainer hwell record hrecord id hid)
  above forest hforest i p hp := by
    rw [codeParent?_of_build hforest] at hp
    obtain ⟨record, hrecord, hp⟩ := Option.bind_eq_some_iff.1 hp
    obtain ⟨id, hid, hp⟩ := Option.bind_eq_some_iff.1 hp
    have hplace : (Record.ids records)[p]? = some id := by
      obtain ⟨hlt, hget, -⟩ := List.idxOf?_eq_some_iff.1 hp
      rw [List.getElem?_eq_getElem hlt, hget]
    rcases Record.getElem?_ids_eq_some.1 hplace with hgiven | hstands
    · rw [hgiven, Option.isSome_some]
    · exact absurd ⟨p, hstands⟩ (hcontainer (wellFormed_of_build htyped hforest) record
        (List.mem_of_getElem? hrecord) id hid)

/-- No container of well-formed records is a place, if only given identifiers count. -/
theorem CountsGiven.not_standsIn (h : CountsGiven config inflect records)
    (htyped : ∀ record ∈ records, Record.Typed record) (hwell : Record.WellFormed records)
    (hrecord : record ∈ records) (hid : record.container? = some id) : ¬Record.StandsIn records id := by
  rcases build_of_typed_or_rejected config inflect htyped with ⟨-, forest, hforest⟩ | ⟨failure, -, hrejected⟩
  · obtain ⟨i, hi⟩ := h.container forest hforest record hrecord id hid
    exact Record.not_standsIn_of_givenAt? hwell.ids_nodup hi
  · exact absurd hwell hrejected.not_wellFormed

/-- **Only given identifiers count exactly if no place gets in between**: if a place is the first identifier
to come again, two records give it besides, and no container of well-formed records is a place. -/
theorem build_counts_given_iff (htyped : ∀ record ∈ records, Record.Typed record) :
    CountsGiven config inflect records ↔
      (∀ id, FirstRepeated (Record.ids records) id → Record.StandsIn records id →
        Record.GivenTwice records id) ∧
        (Record.WellFormed records → ∀ record ∈ records, ∀ id, record.container? = some id →
          ¬Record.StandsIn records id) :=
  ⟨fun h => ⟨fun id hid _ => h.repeated id ((build_eq_duplicateId htyped).2 hid),
    fun hwell _ hrecord _ => h.not_standsIn htyped hwell hrecord⟩,
    fun h => .of_places htyped h.1 h.2⟩

/-- **Identifiers that do not begin with `#` are safe.** -/
theorem countsGiven_of_unmarked (htyped : ∀ record ∈ records, Record.Typed record)
    (hids : ∀ record ∈ records, ∀ id, record.givenId? = some id → id.toList.head? ≠ some '#')
    (hcontainers : ∀ record ∈ records, ∀ id, record.container? = some id → id.toList.head? ≠ some '#') :
    CountsGiven config inflect records := by
  refine .of_places htyped (fun id hfirst hstands => ?_) fun _ record hrecord id hid hstands =>
    hcontainers record hrecord id hid hstands.head?
  obtain ⟨i, hi⟩ := Record.exists_givenAt?_of_firstRepeated hfirst
  obtain ⟨record, hrecord, hid⟩ := Option.bind_eq_some_iff.1 hi
  exact absurd hstands.head? (hids record (List.mem_of_getElem? hrecord) id hid)

/-- A public Swift declaration as a record, with what else is given of it. -/
def publicRecord (kind name : String) (fields : List (String × Json)) : Record :=
  .obj (("kind", .str ("source.lang.swift.decl." ++ kind)) :: ("name", .str name) ::
    ("accessibility", .str "source.lang.swift.accessibility.public") :: fields)

/-- A structure whose identifier looks like a place, with a method, and a structure that gives none. -/
def namedRecords : List Record :=
  [publicRecord "struct" "Store" [("id", .str "#9")],
   publicRecord "function.method.instance" "load()" [("id", .int 7), ("parent", .str "#9")],
   publicRecord "struct" "Item" []]

/-- A structure whose identifier is the place of the next one. -/
def clashingRecords : List Record :=
  [publicRecord "struct" "Store" [("id", .str "#1")], publicRecord "struct" "Item" []]

/-- A method that names the place of a structure as its container. -/
def strayRecords : List Record :=
  [publicRecord "struct" "Store" [],
   publicRecord "function.method.instance" "load()" [("id", .str "m"), ("parent", .str "#0")]]

/-- An identifier that looks like a place does no harm if no record has this place. -/
theorem build_counts_given_named : (∀ record ∈ namedRecords, Record.Typed record) ∧
    CountsGiven { modules := ["M"] } Text.pluralize namedRecords := by
  have htyped := Record.typed_of_plain namedRecords (by decide +kernel)
  have hnodup : (Record.ids namedRecords).Nodup := by decide +kernel
  have hcontainers : ∀ record ∈ namedRecords, ∀ id ∈ record.container?, id = "#9" := by decide +kernel
  refine ⟨htyped, (build_counts_given_iff htyped).2 ⟨fun id hid => absurd hnodup hid.not_nodup, ?_⟩⟩
  rintro - record hrecord id hid ⟨i, other, hother, -, hplace⟩
  obtain rfl : 9 = i := Record.place_injective ((hcontainers record hrecord id hid).symm.trans hplace)
  cases hother

/-- **A place is taken for an identifier that has been given**, both as one that comes again and as a
container. -/
theorem build_takes_places :
    (∀ record ∈ clashingRecords, Record.Typed record) ∧
      (build { modules := ["M"] } Text.pluralize clashingRecords).outcome = .error (.duplicateId "#1") ∧
      ¬CountsGiven { modules := ["M"] } Text.pluralize clashingRecords ∧
      (∀ record ∈ strayRecords, Record.Typed record) ∧
      (∃ forest, (build { modules := ["M"] } Text.pluralize strayRecords).outcome = .ok forest ∧
        forest.codeParent? 1 = some 0) ∧
      ¬CountsGiven { modules := ["M"] } Text.pluralize strayRecords := by
  have hclashing := Record.typed_of_plain clashingRecords (by decide +kernel)
  have hstray := Record.typed_of_plain strayRecords (by decide +kernel)
  have herror : (build { modules := ["M"] } Text.pluralize clashingRecords).outcome =
      .error (.duplicateId "#1") := by
    refine (build_eq_duplicateId hclashing).2 ⟨["#1"], [], by decide +kernel, List.nodup_singleton _, ?_⟩
    exact List.mem_singleton_self _
  obtain ⟨forest, hforest, hparent⟩ := Outcome.exists_ok_of_map (f := fun forest => forest.codeParent? 1)
    (b := some 0) (o := (build { modules := ["M"] } Text.pluralize strayRecords).outcome) (by decide +kernel)
  have hsecond : ∀ n, 0 < n → Record.givenAt? clashingRecords n = none
    | 1, _ => by decide +kernel
    | _ + 2, _ => rfl
  refine ⟨hclashing, herror, fun h => ?_, hstray, ⟨forest, hforest, hparent⟩, fun h => ?_⟩
  · obtain ⟨m, n, hlt, -, hn⟩ := h.repeated "#1" herror
    rw [hsecond n (Nat.zero_lt_of_lt hlt)] at hn
    cases hn
  · have hgiven := h.above forest hforest 1 0 hparent
    exact absurd hgiven (by decide +kernel)

end Forest
end DocForest
