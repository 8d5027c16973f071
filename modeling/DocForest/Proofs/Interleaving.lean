import DocForest.Proofs.Hiding
import DocForest.Proofs.Placing
import DocForest.Proofs.Replaying
import Mathlib.Logic.Equiv.Basic

/-!
# Records in another order

Records of different containers may come in any order: whatever is computed from the order of the records is
computed from the order of siblings, or from that of the fragments of types.  **Records that are rearranged
without changing these two orders give the same documentation**, and so do two neighbours in different
containers that are exchanged, even if one of them is the container of the other.

## What is here

* `Record.Rearranges` — records in another order, where siblings and fragments keep theirs.
* `Rearranges.containerOf?`, `Loads.rearranged` — they name the same containers, and are loaded as before.
* `Relabels.completed_of_onto` — modules, sections and levels are those of before.
* `Forest.build_of_rearranges` — **so is the documentation**.
* `Rearranges.exchange`, `Forest.build_exchange` — two neighbours that are exchanged.
-/

set_option autoImplicit false

namespace DocForest

variable {config : Config} {inflect : String → String} {records records' : List Record}
  {loaded loaded' : Loaded} {e : Nat → Nat} {i j : Nat}

/-! ## Rearranged records -/

namespace Record

/-- Whether a record declares a type or an extension of one, so that it may be merged with others. -/
def isFragment (record : Record) : Bool :=
  (Declaration.ofRecord record).toOption.any Declaration.isFragment

/-- An extension that leaves its level to its members is a fragment. -/
theorem isFragment_of_leavesLevel {record : Record} (h : leavesLevel record = true) :
    record.isFragment = true := by
  obtain ⟨decl, hdecl, hopen⟩ := (Option.any_eq_true _ _).1 h
  refine (Option.any_eq_true _ _).2 ⟨decl, hdecl, ?_⟩
  rw [Declaration.isFragment, (Bool.and_eq_true_iff.1 hopen).1, Bool.or_true]

/-- The records `records'` are `records` in another order, and `e` tells where each of them was.  Records
with the same container keep their order, and so do fragments. -/
structure Rearranges (e : Nat → Nat) (records' records : List Record) : Prop where
  perm : records'.Perm records
  bijective : Function.Bijective e
  getElem? : ∀ i, records[e i]? = records'[i]?
  beyond : ∀ k, e (records'.length + k) = records.length + k
  sibling_lt : ∀ {i j record other}, records'[i]? = some record → records'[j]? = some other →
    record.container? = other.container? → i < j → e i < e j
  fragment_lt : ∀ {i j record other}, records'[i]? = some record → records'[j]? = some other →
    record.isFragment = true → other.isFragment = true → i < j → e i < e j

namespace Rearranges

variable (h : Rearranges e records' records)

include h

theorem lt_iff : e i < records.length ↔ i < records'.length := by
  rw [← not_iff_not, Nat.not_lt, Nat.not_lt, ← List.getElem?_eq_none_iff, ← List.getElem?_eq_none_iff,
    h.getElem?]

theorem lt_of_le_length (hj : records'.length ≤ j) (hlt : i < j) : e i < e j := by
  obtain ⟨k, rfl⟩ := Nat.exists_eq_add_of_le hj
  rw [h.beyond]
  by_cases hi : i < records'.length
  · exact Nat.lt_of_lt_of_le (h.lt_iff.2 hi) (Nat.le_add_right _ _)
  · obtain ⟨l, rfl⟩ := Nat.exists_eq_add_of_le (Nat.not_lt.1 hi)
    rw [h.beyond]
    omega

theorem giveIds (hids : GiveIds records) : GiveIds records' :=
  fun record hrecord => hids record (h.perm.mem_iff.1 hrecord)

theorem ids_perm (hids : GiveIds records) : (ids records').Perm (ids records) := by
  rw [ids_eq_map hids, ids_eq_map (h.giveIds hids)]
  exact h.perm.map _

/-- **Rearranged records name the same containers.** -/
theorem containerOf? (hids : GiveIds records) (hnodup : (ids records).Nodup) (i : Nat) :
    Record.containerOf? records (e i) = (Record.containerOf? records' i).map e := by
  have hnodup' := (h.ids_perm hids).nodup_iff.2 hnodup
  refine Option.ext fun p => ?_
  obtain ⟨q, rfl⟩ := h.bijective.surjective p
  have hlabels : (Record.containerOf? records' i).map e = some (e q) ↔
      Record.containerOf? records' i = some q :=
    (Option.map_injective h.bijective.injective).eq_iff' rfl
  rw [hlabels, containerOf?_eq_some hids hnodup, containerOf?_eq_some (h.giveIds hids) hnodup',
    h.getElem?, h.getElem?]

end Rearranges
end Record

/-! ## Loading rearranged records -/

open Record in
/-- **Rearranged records can be loaded.** -/
theorem Loads.rearranged (h : Loads records loaded) (hids : GiveIds records)
    (hrearranged : Rearranges e records' records) :
    ∃ loaded', (loadRecords records').outcome = .ok loaded' := by
  have hperm := hrearranged.ids_perm hids
  refine h.of_subset hrearranged.perm.subset (hperm.nodup_iff.2 h.ids_nodup) fun record hrecord id hid => ?_
  exact hperm.mem_iff.2 (h.containers_known record (hrearranged.perm.mem_iff.1 hrecord) id hid)

/-- A record names its container by the identifier that the container has. -/
theorem Loads.container?_eq (h : Loads records loaded) {record : Record} (hi : records[i]? = some record) :
    record.container? = (Record.containerOf? records i).bind fun p => (Record.ids records)[p]? := by
  rw [Record.containerOf?, hi, Option.bind_some]
  cases hid : record.container? with
  | none => rfl
  | some id =>
    have hknown := h.containers_known record (List.mem_of_getElem? hi) id hid
    obtain ⟨p, hp⟩ := Option.isSome_iff_exists.1 (List.isSome_idxOf?.2 hknown)
    obtain ⟨hlt, hget, -⟩ := List.idxOf?_eq_some_iff.1 hp
    rw [Option.bind_some, hp, Option.bind_some, List.getElem?_eq_some_iff.2 ⟨hlt, hget⟩]

theorem Loads.satisfies_isFragment (h : Loads records loaded) (i : Nat) :
    loaded.forest.satisfies i Declaration.isFragment = records[i]?.any Record.isFragment := by
  rw [Forest.satisfies, h.decl?]
  cases records[i]? <;> rfl

/-- **The nodes of rearranged records are those of before**, in another order. -/
theorem Loads.relabels (h : Loads records loaded) (h' : Loads records' loaded')
    (hrearranged : Record.Rearranges e records' records) (hids : Record.GiveIds records) :
    Forest.Relabels e loaded'.forest loaded.forest where
  injective := hrearranged.bijective.injective
  size_le := by rw [h.size, h'.size, hrearranged.perm.length_eq]
  lt_iff := by
    rw [h.size, h'.size]
    exact hrearranged.lt_iff
  beyond k := by
    rw [h.size, h'.size]
    exact hrearranged.beyond k
  decl? i := by rw [h.decl?, h'.decl?, hrearranged.getElem?]
  codeParent? i := by rw [h.codeParent?, h'.codeParent?, hrearranged.containerOf? hids h.ids_nodup]
  sibling_lt {i j} hparent hlt := by
    rw [h'.codeParent?, h'.codeParent?] at hparent
    by_cases hj : j < records'.length
    · have hi : i < records'.length := Nat.lt_trans hlt hj
      have hi := List.getElem?_eq_getElem hi
      have hj := List.getElem?_eq_getElem hj
      refine hrearranged.sibling_lt hi hj ?_ hlt
      rw [h'.container?_eq hi, h'.container?_eq hj, hparent]
    · exact hrearranged.lt_of_le_length (Nat.not_lt.1 hj) hlt
  fragment_lt {i j} hi hj hlt := by
    rw [h'.satisfies_isFragment] at hi hj
    obtain ⟨record, hrecord, hi⟩ := (Option.any_eq_true _ _).1 hi
    obtain ⟨other, hother, hj⟩ := (Option.any_eq_true _ _).1 hj
    exact hrearranged.fragment_lt hrecord hother hi hj hlt

/-- **The same levels are open**, in the same order. -/
theorem Loads.implicit_eq_map (h : Loads records loaded) (h' : Loads records' loaded')
    (hrearranged : Record.Rearranges e records' records) :
    loaded.implicit = loaded'.implicit.map e := by
  rw [h.implicit, h'.implicit]
  refine filter_range_map (fun i j hi hj => ?_) (fun j _ _ => hrearranged.bijective.surjective j)
    fun i => ?_
  · obtain ⟨record, hrecord, hi⟩ := (Option.any_eq_true _ _).1 hi
    obtain ⟨other, hother, hj⟩ := (Option.any_eq_true _ _).1 hj
    exact hrearranged.fragment_lt hrecord hother (Record.isFragment_of_leavesLevel hi)
      (Record.isFragment_of_leavesLevel hj)
  · rw [hrearranged.lt_iff, Record.leavesLevelAt, Record.leavesLevelAt, hrearranged.getElem?]

namespace Forest

variable {forest forest' : Forest}

/-! ## The build -/

/-- **Modules, sections and levels are those of before**, if no node is left out. -/
theorem Relabels.completed_of_onto (h : Relabels e loaded'.forest loaded.forest) (config : Config)
    (hpart : loaded'.forest.Nested) (hwhole : loaded.forest.Nested) (honto : Function.Surjective e)
    (himplicit : loaded.implicit = loaded'.implicit.map e) :
    Relabels e (Forest.completed config loaded') (Forest.completed config loaded) := by
  have hnested : ∀ {forest : Forest}, forest.Nested → (forest.fillModules config).Nested :=
    fun hforest => hforest.congr (codeParent?_fillModules _ _) (Nat.le_of_eq (size_fillModules _ _).symm)
  have hmodules := h.fillModules hpart hwhole config
  have hsections := hmodules.assignMarks (hnested hpart) (hnested hwhole) fun {c _} _ _ => honto c
  rw [Forest.completed, Forest.completed, himplicit]
  exact hsections.deriveLevels_of_onto honto loaded'.implicit

/-- **Rearranged records are loaded as before**, and pass the first checks. -/
theorem Built.exists_rearranged (h : Built config inflect records loaded forest)
    (hids : Record.GiveIds records) (hrearranged : Record.Rearranges e records' records) :
    ∃ loaded', (loadRecords records').outcome = .ok loaded' ∧ loaded'.forest.checkNesting = .ok () ∧
      loaded'.forest.checkMarks = .ok () ∧ Replays config e loaded' loaded := by
  have honto := hrearranged.bijective.surjective
  obtain ⟨loaded', hloaded'⟩ := h.loads.rearranged hids hrearranged
  have hloads' := loadRecords_eq_ok hloaded'
  have hrelabels := h.loads.relabels hloads' hrearranged hids
  have hwhole := h.loads.nested h.nesting
  have hnesting' := hrelabels.checkNesting hwhole
  have hcompleted := hrelabels.completed_of_onto config (hrelabels.nested hwhole) hwhole honto
    (h.loads.implicit_eq_map hloads' hrearranged)
  exact ⟨loaded', hloaded', hnesting', hrelabels.checkMarks h.marks,
    { prepared := hloads'.prepared hnesting' config
      prepared' := h.prepared
      relabels := hcompleted
      filtered := hcompleted.visible (fun c _ => honto c) fun _ c _ => honto c }⟩

/-- **Rearranged records give the same documentation**, and the same locations in it. -/
theorem build_of_rearranges (h : (build config inflect records).outcome = .ok forest)
    (hids : Record.GiveIds records) (hrearranged : Record.Rearranges e records' records) :
    ∃ forest', (build config inflect records').outcome = .ok forest' ∧ SameTree e forest' forest ∧
      Pages.SameLocations e (Pages.Site.locations ⟨forest', config, inflect⟩).outcome
        (Pages.Site.locations ⟨forest, config, inflect⟩).outcome := by
  obtain ⟨loaded, hbuilt⟩ := built_of_build h
  obtain ⟨loaded', hloaded', hnesting', hmarks', hreplays⟩ := hbuilt.exists_rearranged hids hrearranged
  obtain ⟨hfragments', hmodules'⟩ := hreplays.checks hbuilt.fragments hbuilt.modules
  obtain ⟨forest', hforest'⟩ : ∃ forest', (build config inflect records').outcome = .ok forest' :=
    build_of_checks hloaded' hnesting' hmarks' hfragments' hmodules'
  obtain ⟨loaded'', hbuilt'⟩ := built_of_build hforest'
  obtain rfl : loaded' = loaded'' := Except.ok.inj (hloaded'.symm.trans hbuilt'.load)
  have hsame := hreplays.sameTree hbuilt'.frozen hbuilt.frozen
  have hpart := (documents_of_frozen hbuilt'.frozen hreplays.prepared).toNested
  have hwhole := (documents_of_frozen hbuilt.frozen hbuilt.prepared).toNested
  exact ⟨forest', hforest', hsame, hsame.toSamePlaces.sameLocations hpart hwhole hbuilt'.rooted.onePlace
    (fun _ => hbuilt'.rooted.lt_size) config inflect⟩

end Forest

/-! ## Two neighbours -/

/-- The exchange of two neighbours keeps the order of everything but them. -/
theorem swap_lt_swap {n : Nat} (hlt : i < j) (hother : ¬(i = n ∧ j = n + 1)) :
    Equiv.swap n (n + 1) i < Equiv.swap n (n + 1) j := by
  simp only [Equiv.swap_apply_def]
  split_ifs <;> omega

open Record in
/-- **Two neighbours in different containers may be exchanged**, unless both are fragments. -/
theorem Record.Rearranges.exchange (front back : List Record) {a b : Record}
    (hparent : a.container? ≠ b.container?) (hfragment : ¬(a.isFragment = true ∧ b.isFragment = true)) :
    Rearranges (Equiv.swap front.length (front.length + 1)) (front ++ a :: b :: back)
      (front ++ b :: a :: back) := by
  have hfirst : ∀ {record}, (front ++ a :: b :: back)[front.length]? = some record → record = a :=
    fun hrecord => by simpa using hrecord.symm
  have hsecond : ∀ {record}, (front ++ a :: b :: back)[front.length + 1]? = some record → record = b :=
    fun hrecord => by simpa using hrecord.symm
  refine ⟨(List.Perm.swap b a back).append_left front, Equiv.bijective _, fun i => ?_, fun k => ?_,
    fun {i j record other} hi hj hsame hlt => ?_, fun {i j record other} hi hj hrecord hother hlt => ?_⟩
  · rcases Nat.lt_or_ge i front.length with hi | hi
    · rw [Equiv.swap_apply_of_ne_of_ne (by omega) (by omega), List.getElem?_append_left hi,
        List.getElem?_append_left hi]
    · obtain ⟨k, rfl⟩ := Nat.exists_eq_add_of_le hi
      match k with
      | 0 => simp
      | 1 => simp
      | k + 2 =>
        rw [Equiv.swap_apply_of_ne_of_ne (by omega) (by omega), List.getElem?_append_right hi,
          List.getElem?_append_right hi, Nat.add_sub_cancel_left]
        rfl
  · simp only [List.length_append, List.length_cons]
    exact Equiv.swap_apply_of_ne_of_ne (by omega) (by omega)
  · refine swap_lt_swap hlt ?_
    rintro ⟨rfl, rfl⟩
    rw [hfirst hi, hsecond hj] at hsame
    exact hparent hsame
  · refine swap_lt_swap hlt ?_
    rintro ⟨rfl, rfl⟩
    rw [hfirst hi] at hrecord
    rw [hsecond hj] at hother
    exact hfragment ⟨hrecord, hother⟩

namespace Forest

/-- **Records of different containers may come in any order**: two neighbours that name different
containers, neither of them a type or an extension of one, may be exchanged.  The build succeeds if it did
before, and its nodes are those of before with the two numbers exchanged: with the same declarations, merged
in the same way and in the same places.  The locations, or the failure to give any, are the same as well. -/
theorem build_exchange (config : Config) (inflect : String → String) (front back : List Record)
    {a b : Record} (hids : Record.GiveIds (front ++ a :: b :: back)) (hparent : a.container? ≠ b.container?)
    (ha : a.isFragment = false) (hb : b.isFragment = false) :
    ((∃ forest, (build config inflect (front ++ a :: b :: back)).outcome = .ok forest) ↔
        ∃ forest', (build config inflect (front ++ b :: a :: back)).outcome = .ok forest') ∧
      ∀ forest forest', (build config inflect (front ++ a :: b :: back)).outcome = .ok forest →
        (build config inflect (front ++ b :: a :: back)).outcome = .ok forest' →
          SameTree (Equiv.swap front.length (front.length + 1)) forest forest' ∧
            (∀ i, forest'.fragmentsOf (Equiv.swap front.length (front.length + 1) i) =
              (forest.fragmentsOf i).map (Equiv.swap front.length (front.length + 1))) ∧
            Pages.SameLocations (Equiv.swap front.length (front.length + 1))
              (Pages.Site.locations ⟨forest, config, inflect⟩).outcome
              (Pages.Site.locations ⟨forest', config, inflect⟩).outcome := by
  have hforth := Record.Rearranges.exchange front back hparent fun h => by simp [ha] at h
  have hback := Record.Rearranges.exchange front back hparent.symm fun h => by simp [hb] at h
  have hids' := hback.giveIds hids
  constructor
  · constructor
    · rintro ⟨forest, hforest⟩
      obtain ⟨forest', hforest', -⟩ := build_of_rearranges hforest hids hback
      exact ⟨forest', hforest'⟩
    · rintro ⟨forest', hforest'⟩
      obtain ⟨forest, hforest, -⟩ := build_of_rearranges hforest' hids' hforth
      exact ⟨forest, hforest⟩
  · intro forest forest' hforest hforest'
    obtain ⟨forest'', hforest'', hsame, hlocations⟩ := build_of_rearranges hforest' hids' hforth
    obtain rfl : forest'' = forest := Except.ok.inj (hforest''.symm.trans hforest)
    exact ⟨hsame, hsame.toSameMerging.fragmentsOf, hlocations⟩

/-- An Objective-C declaration as a record. -/
def objcRecord (id kind name : String) (parent : Json) : Record :=
  .obj [("id", .str id), ("kind", .str ("sourcekitten.source.lang.objc.decl." ++ kind)),
    ("name", .str name), ("parent", parent)]

/-- A method may even come before the protocol that it stands in. -/
theorem build_exchange_member :
    let s := swiftRecord "s" "struct" "S" "" .null
    let p := objcRecord "p" "protocol" "P" .null
    let m := objcRecord "m" "method.instance" "-m" (.str "p")
    let f := swiftRecord "f" "function.method.instance" "f()" "" (.str "s")
    ∃ forest forest', (build { modules := ["M"] } id [s, p, m, f]).outcome = .ok forest ∧
      forest.walk = [6, 4, 1, 2, 5, 0, 3] ∧
        (build { modules := ["M"] } id [s, m, p, f]).outcome = .ok forest' ∧
          forest'.walk = [6, 4, 2, 1, 5, 0, 3] ∧ SameTree (Equiv.swap 1 2) forest forest' := by
  intro s p m f
  obtain ⟨forest, hforest, hwalk⟩ := Outcome.exists_ok_of_map (f := Forest.walk)
    (b := [6, 4, 1, 2, 5, 0, 3]) (o := (build { modules := ["M"] } id [s, p, m, f]).outcome)
    (by decide +kernel)
  obtain ⟨forest', hforest', hwalk'⟩ := Outcome.exists_ok_of_map (f := Forest.walk)
    (b := [6, 4, 2, 1, 5, 0, 3]) (o := (build { modules := ["M"] } id [s, m, p, f]).outcome)
    (by decide +kernel)
  have hexchange := build_exchange { modules := ["M"] } id [s] [f] (a := p) (b := m)
    (by decide +kernel) (by decide +kernel) (by decide +kernel) (by decide +kernel)
  exact ⟨forest, forest', hforest, hwalk, hforest', hwalk', (hexchange.2 _ _ hforest hforest').1⟩

end Forest
end DocForest
