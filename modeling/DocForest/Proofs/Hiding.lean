import DocForest.Proofs.Levelling
import DocForest.Proofs.Marking
import DocForest.Proofs.Resolving

/-!
# Records without the hidden ones

Hidden are the declarations below the least level and everything in them.  Whatever is left names
containers that are left, so that it can be loaded on its own, and **the forest that is loaded has the
nodes that are left under new numbers**.

## What is here

* `Record.without`, `Record.exists_numbers` — the records at places that are not hidden, and their places.
* `Record.GiveIds`, `Record.containerOf?_eq_some` — containers of records that all give identifiers.
* `Record.HidesMembers`, `Numbers.containerOf?` — **what is left has the same containers**, if whatever
  stands in a hidden container is hidden.
* `Loads.without`, `Loads.renumbers` — **what is left can be loaded**, and what the forest is then.
-/

set_option autoImplicit false

namespace DocForest

open Relation

/-! ## Places that are left -/

/-- Ascending numbers below a bound, and behind them all from the bound on. -/
theorem exists_strictMono {items : List Nat} {size : Nat} (hitems : items.Pairwise (· < ·))
    (hlt : ∀ i ∈ items, i < size) :
    ∃ e : Nat → Nat, StrictMono e ∧ (∀ k, e (items.length + k) = size + k) ∧
      ∀ k < items.length, items[k]? = some (e k) := by
  have hinner : ∀ k (hk : k < items.length), (items[k]?).getD (size + (k - items.length)) = items[k] :=
    fun k hk => by rw [List.getElem?_eq_getElem hk, Option.getD_some]
  have houter : ∀ k, items.length ≤ k →
      (items[k]?).getD (size + (k - items.length)) = size + (k - items.length) :=
    fun k hk => by rw [List.getElem?_eq_none hk, Option.getD_none]
  refine ⟨fun k => (items[k]?).getD (size + (k - items.length)), strictMono_nat_of_lt_succ fun k => ?_,
    fun k => ?_, fun k hk => ?_⟩
  · rcases Nat.lt_trichotomy (k + 1) items.length with hk | hk | hk
    · rw [hinner k (Nat.lt_of_succ_lt hk), hinner (k + 1) hk]
      exact List.pairwise_iff_getElem.1 hitems k (k + 1) _ hk (Nat.lt_succ_self k)
    · rw [hinner k (by omega), houter (k + 1) (by omega)]
      exact Nat.lt_of_lt_of_le (hlt _ (List.getElem_mem _)) (Nat.le_add_right _ _)
    · rw [houter k (by omega), houter (k + 1) (by omega)]
      omega
  · dsimp only
    rw [houter _ (Nat.le_add_right _ _), Nat.add_sub_cancel_left]
  · dsimp only
    rw [hinner k hk, List.getElem?_eq_getElem hk]

namespace Record

variable {records : List Record} {hidden : Nat → Bool} {e : Nat → Nat} {i p : Nat}

/-- The records without those at hidden places. -/
def without (records : List Record) (hidden : Nat → Bool) : List Record :=
  (records.zipIdx.filter fun entry => !hidden entry.2).map (·.1)

/-- `e` gives the places of the records that are left, and behind them goes on without a gap. -/
structure Numbers (e : Nat → Nat) (records : List Record) (hidden : Nat → Bool) : Prop where
  strictMono : StrictMono e
  beyond : ∀ k, e ((without records hidden).length + k) = records.length + k
  getElem? : ∀ k, records[e k]? = (without records hidden)[k]?
  left_iff : ∀ j, j < records.length → (hidden j = false ↔ ∃ k, e k = j)

theorem without_sublist (records : List Record) (hidden : Nat → Bool) :
    (without records hidden).Sublist records := by
  have hsub := (List.filter_sublist (l := records.zipIdx) (p := fun entry => !hidden entry.2)).map
    (·.1)
  rwa [List.zipIdx_map_fst] at hsub

/-- The records that are left, each with its place. -/
def entriesLeft (records : List Record) (hidden : Nat → Bool) : List (Record × Nat) :=
  records.zipIdx.filter fun entry => !hidden entry.2

theorem without_eq (records : List Record) (hidden : Nat → Bool) :
    without records hidden = (entriesLeft records hidden).map (·.1) := rfl

theorem mem_entriesLeft {entry : Record × Nat} :
    entry ∈ entriesLeft records hidden ↔
      records[entry.2]? = some entry.1 ∧ hidden entry.2 = false := by
  rw [entriesLeft, List.mem_filter, List.mem_zipIdx_iff_getElem?, Bool.not_eq_true']

theorem pairwise_placesLeft (records : List Record) (hidden : Nat → Bool) :
    ((entriesLeft records hidden).map (·.2)).Pairwise (· < ·) := by
  have hall : (records.zipIdx.map (·.2)).Pairwise (· < ·) := by
    rw [List.zipIdx_map_snd]
    exact List.pairwise_lt_range'
  exact hall.sublist (List.filter_sublist.map _)

theorem placesLeft_lt (records : List Record) (hidden : Nat → Bool) :
    ∀ j ∈ (entriesLeft records hidden).map (·.2), j < records.length := by
  intro j hj
  obtain ⟨entry, hentry, rfl⟩ := List.mem_map.1 hj
  exact (List.getElem?_eq_some_iff.1 (mem_entriesLeft.1 hentry).1).1

/-- **The records that are left have places in ascending order.** -/
theorem exists_numbers (records : List Record) (hidden : Nat → Bool) :
    ∃ e, Numbers e records hidden := by
  obtain ⟨e, hmono, hbeyond, hplace⟩ :=
    exists_strictMono (pairwise_placesLeft records hidden) (placesLeft_lt records hidden)
  simp only [List.length_map, List.getElem?_map] at hbeyond hplace
  have hlength : (without records hidden).length = (entriesLeft records hidden).length :=
    List.length_map _
  have hentry : ∀ k < (entriesLeft records hidden).length,
      ∃ record, (entriesLeft records hidden)[k]? = some (record, e k) := by
    intro k hk
    obtain ⟨⟨record, j⟩, hleft, rfl⟩ := Option.map_eq_some_iff.1 (hplace k hk)
    exact ⟨record, hleft⟩
  refine ⟨e, hmono, fun k => hlength ▸ hbeyond k, fun k => ?_, fun j hj => ⟨fun hleft => ?_, ?_⟩⟩
  · by_cases hk : k < (entriesLeft records hidden).length
    · obtain ⟨record, hleft⟩ := hentry k hk
      have hrecord := (mem_entriesLeft.1 (List.mem_of_getElem? hleft)).1
      exact hrecord.trans (by rw [without_eq, List.getElem?_map, hleft, Option.map_some])
    · obtain ⟨m, rfl⟩ := Nat.exists_eq_add_of_le (Nat.not_lt.1 hk)
      rw [hbeyond, List.getElem?_eq_none (Nat.le_add_right _ _),
        List.getElem?_eq_none (hlength ▸ Nat.le_add_right _ _)]
  · have hmem : (records[j], j) ∈ entriesLeft records hidden :=
      mem_entriesLeft.2 ⟨List.getElem?_eq_getElem hj, hleft⟩
    obtain ⟨k, hk⟩ := List.mem_iff_getElem?.1 hmem
    obtain ⟨record, hleft⟩ := hentry k (List.getElem?_eq_some_iff.1 hk).1
    exact ⟨k, congrArg Prod.snd (Option.some.inj (hleft.symm.trans hk))⟩
  · rintro ⟨k, rfl⟩
    have hk : k < (entriesLeft records hidden).length := by
      by_contra hle
      obtain ⟨m, rfl⟩ := Nat.exists_eq_add_of_le (Nat.not_lt.1 hle)
      rw [hbeyond] at hj
      exact absurd hj (Nat.not_lt.2 (Nat.le_add_right _ _))
    obtain ⟨record, hleft⟩ := hentry k hk
    exact (mem_entriesLeft.1 (List.mem_of_getElem? hleft)).2

/-! ## Containers of records that give identifiers -/

/-- Every record gives an identifier, so that none goes by its place. -/
def GiveIds (records : List Record) : Prop :=
  ∀ record ∈ records, (givenId? record).isSome = true

instance (records : List Record) : Decidable (GiveIds records) :=
  inferInstanceAs (Decidable (∀ record ∈ records, (givenId? record).isSome = true))

theorem ids_eq_map (h : GiveIds records) :
    ids records = records.map fun record => (givenId? record).getD "" := by
  refine List.ext_getElem? fun i => ?_
  rw [ids, List.getElem?_mapIdx, List.getElem?_map]
  refine Option.map_congr fun record hrecord => ?_
  obtain ⟨id, hid⟩ := Option.isSome_iff_exists.1 (h record (List.mem_of_getElem? hrecord))
  rw [hid, Option.getD_some, Option.getD_some]

theorem idxOf?_ids (h : GiveIds records) (hnodup : (ids records).Nodup) {id : String} :
    (ids records).idxOf? id = some p ↔
      ∃ container, records[p]? = some container ∧ givenId? container = some id := by
  have hplace : (ids records).idxOf? id = some p ↔ (ids records)[p]? = some id := by
    rw [List.idxOf?_eq_some_iff, List.getElem?_eq_some_iff]
    refine ⟨fun ⟨hp, hid, _⟩ => ⟨hp, hid⟩, fun ⟨hp, hid⟩ => ⟨hp, hid, fun j hj heq => ?_⟩⟩
    exact Nat.ne_of_lt hj ((hnodup.getElem_inj_iff).1 (heq.trans hid.symm))
  rw [hplace, ids_eq_map h, List.getElem?_map, Option.map_eq_some_iff]
  refine exists_congr fun container => and_congr_right fun hcontainer => ?_
  obtain ⟨given, hgiven⟩ := Option.isSome_iff_exists.1 (h container (List.mem_of_getElem? hcontainer))
  rw [hgiven, Option.getD_some, Option.some.injEq]

/-- **The container of a record is the record with the identifier that it names.** -/
theorem containerOf?_eq_some (h : GiveIds records) (hnodup : (ids records).Nodup) :
    containerOf? records i = some p ↔
      ∃ record id container, records[i]? = some record ∧ record.container? = some id ∧
        records[p]? = some container ∧ givenId? container = some id := by
  simp only [containerOf?, Option.bind_eq_some_iff, idxOf?_ids h hnodup]
  constructor
  · rintro ⟨record, hrecord, id, hid, container, hcontainer⟩
    exact ⟨record, id, container, hrecord, hid, hcontainer⟩
  · rintro ⟨record, id, container, hrecord, hid, hcontainer⟩
    exact ⟨record, hrecord, id, hid, container, hcontainer⟩

/-- What stands in a hidden container is hidden. -/
def HidesMembers (records : List Record) (hidden : Nat → Bool) : Prop :=
  ∀ i p, containerOf? records i = some p → hidden p = true → hidden i = true

theorem GiveIds.without (h : GiveIds records) (hidden : Nat → Bool) :
    GiveIds (without records hidden) :=
  fun record hrecord => h record ((without_sublist records hidden).subset hrecord)

theorem nodup_ids_without (h : GiveIds records) (hnodup : (ids records).Nodup) (hidden : Nat → Bool) :
    (ids (without records hidden)).Nodup := by
  rw [ids_eq_map (h.without hidden)]
  rw [ids_eq_map h] at hnodup
  exact hnodup.sublist ((without_sublist records hidden).map _)

/-- **Records that are left have the same containers**, under new numbers. -/
theorem Numbers.containerOf? (hnumbers : Numbers e records hidden) (h : GiveIds records)
    (hnodup : (ids records).Nodup) (hhides : HidesMembers records hidden) (k : Nat) :
    Record.containerOf? records (e k) = (Record.containerOf? (without records hidden) k).map e := by
  have hleft := fun q => containerOf?_eq_some (h.without hidden) (nodup_ids_without h hnodup hidden)
    (i := k) (p := q)
  refine Option.ext fun p => ?_
  rw [Option.map_eq_some_iff]
  constructor
  · intro hp
    have hcontainer := (containerOf?_eq_some h hnodup).1 hp
    have hk := (hnumbers.left_iff _ (lt_of_containerOf? hp)).2 ⟨k, rfl⟩
    have hshown : hidden p = false := by
      by_contra hne
      exact absurd (hhides _ p hp (by simpa using hne)) (by simp [hk])
    obtain ⟨q, rfl⟩ := (hnumbers.left_iff p (containerOf?_lt hp)).1 hshown
    rw [hnumbers.getElem?, hnumbers.getElem?] at hcontainer
    exact ⟨q, (hleft q).2 hcontainer, rfl⟩
  · rintro ⟨q, hq, rfl⟩
    rw [containerOf?_eq_some h hnodup, hnumbers.getElem?, hnumbers.getElem?]
    exact (hleft q).1 hq

/-- **They all name containers that are left.** -/
theorem containersKnown_without (h : GiveIds records) (hnodup : (ids records).Nodup)
    (hknown : ContainersKnown records) (hhides : HidesMembers records hidden) :
    ContainersKnown (without records hidden) := by
  obtain ⟨e, hnumbers⟩ := exists_numbers records hidden
  intro record hrecord id hid
  obtain ⟨k, hk⟩ := List.mem_iff_getElem?.1 hrecord
  have hmem := hknown record ((without_sublist records hidden).subset hrecord) id hid
  obtain ⟨p, hp⟩ := Option.isSome_iff_exists.1 (List.isSome_idxOf?.2 hmem)
  have hcontainer : Record.containerOf? records (e k) = some p := by
    rw [containerOf?, hnumbers.getElem?, hk, Option.bind_some, hid, Option.bind_some, hp]
  rw [hnumbers.containerOf? h hnodup hhides] at hcontainer
  obtain ⟨q, hq, -⟩ := Option.map_eq_some_iff.1 hcontainer
  rw [containerOf?, hk, Option.bind_some, hid, Option.bind_some] at hq
  exact List.isSome_idxOf?.1 (Option.isSome_of_eq_some hq)

end Record

/-! ## Loading what is left -/

section Loaded

variable {records : List Record} {hidden : Nat → Bool} {loaded loaded' : Loaded} {e : Nat → Nat}

theorem Loads.decl? (h : Loads records loaded) (i : Nat) :
    loaded.forest.decl? i = records[i]?.bind fun record => (Declaration.ofRecord record).toOption := by
  cases hrecord : records[i]? with
  | none => exact Forest.decl?_of_le (h.size ▸ List.getElem?_eq_none_iff.1 hrecord)
  | some record =>
    obtain ⟨decl, hdecl, hnode⟩ := h.node i record hrecord
    rw [Forest.decl?, hnode, Option.bind_some, hdecl]
    rfl

/-- Some of the records that are loaded can be loaded on their own, if they refer to each other only. -/
theorem Loads.of_subset {part : List Record} (h : Loads records loaded) (hsub : part ⊆ records)
    (hnodup : (Record.ids part).Nodup) (hknown : Record.ContainersKnown part) :
    ∃ loaded', (loadRecords part).outcome = .ok loaded' := by
  have hreadable : ∀ record ∈ part, ∃ decl, Declaration.ofRecord record = .ok decl := by
    intro record hrecord
    obtain ⟨i, hi⟩ := List.mem_iff_getElem?.1 (hsub hrecord)
    obtain ⟨decl, hdecl, -⟩ := h.node i record hi
    exact ⟨decl, hdecl⟩
  rcases loadRecords_of_readable hreadable with hloaded | ⟨_, _, ⟨-, hdup⟩ | ⟨-, hunknown⟩⟩
  · exact hloaded
  · exact absurd hnodup hdup
  · exact absurd hknown hunknown

/-- **Without hidden declarations and all that stands in them, the others can be loaded.** -/
theorem Loads.without (h : Loads records loaded) (hids : Record.GiveIds records)
    (hhides : Record.HidesMembers records hidden) :
    ∃ loaded', (loadRecords (Record.without records hidden)).outcome = .ok loaded' :=
  h.of_subset (Record.without_sublist records hidden).subset
    (Record.nodup_ids_without hids h.ids_nodup hidden)
    (Record.containersKnown_without hids h.ids_nodup h.containers_known hhides)

/-- **The nodes are then those of before**, under new numbers. -/
theorem Loads.renumbers (h : Loads records loaded) (h' : Loads (Record.without records hidden) loaded')
    (hnumbers : Record.Numbers e records hidden) (hids : Record.GiveIds records)
    (hhides : Record.HidesMembers records hidden) :
    Forest.Renumbers e loaded'.forest loaded.forest where
  strictMono := hnumbers.strictMono
  beyond k := by rw [h'.size, h.size, hnumbers.beyond]
  decl? i := by rw [h.decl?, h'.decl?, hnumbers.getElem?]
  codeParent? i := by
    rw [h.codeParent?, h'.codeParent?, hnumbers.containerOf? hids h.ids_nodup hhides]

/-- The levels that are open are those that the records leave open. -/
theorem Loads.mem_implicit (h : Loads records loaded) {i : Nat} :
    i ∈ loaded.implicit ↔ Record.leavesLevelAt records i = true := by
  rw [h.implicit, List.mem_filter, List.mem_range, and_iff_right_iff_imp]
  intro hopen
  obtain ⟨record, hrecord, -⟩ := (Option.any_eq_true _ _).1 hopen
  exact (List.getElem?_eq_some_iff.1 hrecord).1

theorem Loads.mem_implicit_iff (h : Loads records loaded)
    (h' : Loads (Record.without records hidden) loaded') (hnumbers : Record.Numbers e records hidden)
    (i : Nat) : e i ∈ loaded.implicit ↔ i ∈ loaded'.implicit := by
  rw [h.mem_implicit, h'.mem_implicit, Record.leavesLevelAt, Record.leavesLevelAt, hnumbers.getElem?]

theorem Loads.nodup_implicit (h : Loads records loaded) : loaded.implicit.Nodup := by
  rw [h.implicit]
  exact List.nodup_range.filter _

end Loaded
end DocForest
