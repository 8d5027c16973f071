import DocForest.Proofs.Assembling

/-!
# Where the nodes are placed

Every node has one place in the documentation at most, and a merged one has none.  A node that the
access filter keeps is lost, with all that is merged into it, if the owners above it run in a circle:
no root leads there.  Identifiers that contradict the nesting bring that about, as for two structures
that each stand in an extension of the other one.  Nothing but such a circle loses a node.

## What is here

* `Forest.Placed`, `Forest.build_placed` — **nobody has two places**, and who has one at all.
* `Forest.Shown` — a node, or what it is merged into, is met once by the walk.
* `Forest.build_shows_kept_iff` — **all nodes that the filter keeps are shown exactly if none of them
  is its own owner, directly or through others.**
-/

set_option autoImplicit false

namespace DocForest
namespace Forest

open Relation

variable {config : Config} {inflect : String → String} {records : List Record}
  {forest : Forest} {minLevel : AccessLevel} {visible : Layout} {count i j p : Nat}

/-! ## Records to look at -/

/-- A public Swift declaration as a record; a container that is null is none. -/
def swiftRecord (id kind name usr : String) (parent : Json) : Record :=
  .obj [("id", .str id), ("kind", .str ("source.lang.swift.decl." ++ kind)), ("name", .str name),
    ("usr", .str usr), ("parent", parent),
    ("accessibility", .str "source.lang.swift.accessibility.public")]

/-- A structure in two fragments with one member each. -/
def fragmentRecords : List Record :=
  [swiftRecord "e" "extension" "A" "s:A" .null,
   swiftRecord "f" "function.method.instance" "f()" "s:A.f" (.str "e"),
   swiftRecord "a" "struct" "A" "s:A" .null,
   swiftRecord "g" "function.method.instance" "g()" "s:A.g" (.str "a")]

/-- Two structures, each in an extension of the other one. -/
def circularRecords : List Record :=
  [swiftRecord "ea" "extension" "A" "s:A" .null,
   swiftRecord "b" "struct" "B" "s:B" (.str "ea"),
   swiftRecord "eb" "extension" "B" "s:B" .null,
   swiftRecord "a" "struct" "A" "s:A" (.str "eb")]

/-- The members of both fragments are documented under the structure. -/
theorem build_fragmentRecords : ∃ forest,
    (build { modules := ["M"] } id fragmentRecords).outcome = .ok forest ∧
      forest.walk = [5, 4, 2, 3, 1] ∧ forest.mergedInto? 0 = some 2 ∧
        forest.owner? 0 = none ∧ forest.owner? 1 = some 2 ∧
          forest.owner? 2 = none ∧ forest.owner? 3 = some 2 ∧
            forest.childrenOf 2 = [3, 1] ∧ forest.isGroup 2 = false := by
  obtain ⟨forest, hforest, hrun⟩ := Outcome.exists_ok_of_map
    (f := fun forest => (forest.walk, [forest.mergedInto? 0, forest.owner? 0, forest.owner? 1,
      forest.owner? 2, forest.owner? 3], forest.childrenOf 2, forest.isGroup 2))
    (b := ([5, 4, 2, 3, 1], [some 2, none, some 2, none, some 2], [3, 1], false))
    (o := (build { modules := ["M"] } id fragmentRecords).outcome) (by decide +kernel)
  simp only [Prod.mk.injEq, List.cons.injEq, and_true, and_assoc] at hrun
  exact ⟨forest, hforest, hrun⟩

/-! ## One place -/

/-- The places of a documentation forest of `count` records, of which the filter keeps `kept`. -/
structure Placed (kept : List Nat) (count : Nat) (forest : Forest) : Prop where
  nodup_walk : forest.walk.Nodup
  child_iff : ∀ p c, c ∈ forest.childrenOf p ↔ forest.docsParent? c = some p
  root : ∀ i ∈ forest.rootList, forest.docsParent? i = none
  /-- The walk meets groups behind the records, and nodes that are kept and not merged. -/
  walked : ∀ i ∈ forest.walk,
    count ≤ i ∧ forest.isGroup i = true ∨ i ∈ kept ∧ forest.mergedInto? i = none
  /-- A merged node has no place. -/
  merged : ∀ i, forest.mergedInto? i ≠ none →
    (∀ p, i ∉ forest.childrenOf p) ∧ i ∉ forest.rootList ∧ forest.docsParent? i = none

namespace Documents

theorem not_mem_walk_of_merged (h : Documents minLevel visible count forest)
    (hi : forest.mergedInto? i ≠ none) : i ∉ forest.walk := by
  obtain ⟨j, hj⟩ := Option.ne_none_iff_exists'.1 hi
  intro hwalk
  rcases h.mem_walk.1 hwalk with ⟨hstands, -⟩ | ⟨hle, -⟩
  · exact hi hstands.unmerged
  · exact Nat.not_lt.2 hle (h.lt_count (h.consolidated.absorbed hj).1)

theorem stands_of_mem_walk (h : Documents minLevel visible count forest) (hi : i ∈ forest.walk)
    (hgroup : forest.isGroup i = false) : forest.Stands visible i := by
  rcases h.mem_walk.1 hi with ⟨hstands, -⟩ | ⟨hle, hlt⟩
  · exact hstands
  · exact absurd (hgroup.symm.trans (h.group hle hlt)) Bool.false_ne_true

theorem placed (h : Documents minLevel visible count forest) :
    Placed visible.reachable count forest where
  nodup_walk := h.nodup_walk
  child_iff _ _ := h.mem_childrenOf
  root _ := h.docsParent_root
  walked i hi := by
    rcases h.mem_walk.1 hi with ⟨hstands, -⟩ | ⟨hle, hlt⟩
    · exact .inr ⟨hstands.reachable, hstands.unmerged⟩
    · exact .inl ⟨hle, h.group hle hlt⟩
  merged i hi := by
    have hwalk := h.not_mem_walk_of_merged hi
    refine ⟨fun p hp => hwalk (h.mem_walk_of_child hp), fun hr => hwalk (h.mem_walk_of_root hr), ?_⟩
    rw [Option.eq_none_iff_forall_ne_some]
    exact fun p hp => hwalk (h.mem_walk_of_child (h.mem_childrenOf.2 hp))

end Documents

/-- **Nobody has two places in the documentation, and a merged node has none.** -/
theorem build_placed (h : (build config inflect records).outcome = .ok forest) :
    Placed (keptNodes config records) records.length forest :=
  (documents_of_build h).placed

/-- Of the two fragments one is merged and has no place. -/
theorem build_placed_fragments : ∃ forest,
    (build { modules := ["M"] } id fragmentRecords).outcome = .ok forest ∧
      forest.mergedInto? 0 = some 2 ∧
        Placed (keptNodes { modules := ["M"] } fragmentRecords) 4 forest := by
  obtain ⟨forest, hforest, -, hmerged, -⟩ := build_fragmentRecords
  exact ⟨forest, hforest, hmerged, build_placed hforest⟩

/-! ## Nothing is lost -/

/-- The walk meets a node exactly once, or one that the node is merged into. -/
def Shown (forest : Forest) (i : Nat) : Prop :=
  forest.walk.count i = 1 ∨ ∃ j, forest.mergedInto? i = some j ∧ forest.walk.count j = 1

namespace Documents

theorem count_walk (h : Documents minLevel visible count forest) :
    forest.walk.count i = 1 ↔ i ∈ forest.walk := by
  constructor
  · intro hi
    exact List.count_pos_iff.1 (by omega)
  · exact List.count_eq_one_of_mem h.nodup_walk

theorem lt_size (h : Documents minLevel visible count forest) (hi : i ∈ visible.reachable) :
    i < forest.size :=
  Nat.lt_of_lt_of_le (h.lt_count hi) h.count_le

theorem mem_walk_iff_of_lt (h : Documents minLevel visible count forest) (hi : i < count) :
    i ∈ forest.walk ↔ forest.Stands visible i ∧ Ends forest.owner? i := by
  rw [h.mem_walk, or_iff_left]
  exact fun hle => Nat.not_lt.2 hle.1 hi

/-- **A node that is kept is shown exactly if the owners above what stays of it end.** -/
theorem shown_iff (h : Documents minLevel visible count forest) (hi : i ∈ visible.reachable) :
    forest.Shown i ↔ Ends forest.owner? (forest.standing i) := by
  have hstands := h.consolidated.stands_standing hi
  have hstanding : forest.standing i ∈ forest.walk ↔ Ends forest.owner? (forest.standing i) := by
    rw [h.mem_walk_iff_of_lt (h.lt_count hstands.reachable), and_iff_right hstands]
  rw [Shown, h.count_walk, ← hstanding]
  cases hmerged : forest.mergedInto? i with
  | none => simp [standing_of_unmerged hmerged]
  | some j =>
    have hwalk := h.not_mem_walk_of_merged (Option.ne_none_iff_exists'.2 ⟨j, hmerged⟩)
    simp [standing_of_merged hmerged, h.count_walk, hwalk]

theorem owner_lt (h : Documents minLevel visible count forest) (hi : forest.owner? i = some p) :
    p < forest.size := by
  obtain ⟨q, hq, rfl⟩ := owner?_eq_some.1 hi
  cases hmerged : forest.mergedInto? q with
  | none =>
    rw [standing_of_unmerged hmerged]
    exact h.container_lt hq
  | some j =>
    rw [standing_of_merged hmerged]
    exact h.lt_size (h.consolidated.absorbed hmerged).2.1

/-- **All nodes that are kept are shown exactly if no owners run in a circle.** -/
theorem shown_all_iff (h : Documents minLevel visible count forest) :
    (∀ i ∈ visible.reachable, forest.Shown i) ↔
      ∀ i ∈ visible.reachable, ¬TransGen (Up forest.owner?) i i := by
  constructor
  · intro hshown i hi hloop
    -- the owner of a node on a circle stands, and is on the circle as well
    obtain ⟨p, hp, -⟩ := TransGen.head'_iff.1 hloop
    have hstands := h.consolidated.stands_of_owner hi hp
    have hends := (h.shown_iff hstands.reachable).1 (hshown p hstands.reachable)
    rw [standing_of_unmerged hstands.unmerged] at hends
    exact hends.no_loop (Up.loop hp hloop)
  · intro hloops i hi
    have hstands := h.consolidated.stands_standing hi
    refine (h.shown_iff hi).2 (ends_of_no_loop (fun _ _ => h.owner_lt) (h.lt_size hstands.reachable) ?_)
    exact fun j hj => hloops j (h.consolidated.stands_of_above hstands hj).reachable

end Documents

/-- **All nodes that the filter keeps are shown exactly if none of them is its own owner**, directly or
through others. -/
theorem build_shows_kept_iff (h : (build config inflect records).outcome = .ok forest) :
    (∀ i ∈ keptNodes config records, forest.Shown i) ↔
      ∀ i ∈ keptNodes config records, ¬TransGen (Up forest.owner?) i i :=
  (documents_of_build h).shown_all_iff

/-- Both fragments and their members are shown. -/
theorem build_shows_fragments : ∃ forest,
    (build { modules := ["M"] } id fragmentRecords).outcome = .ok forest ∧
      ∀ i ∈ keptNodes { modules := ["M"] } fragmentRecords, forest.Shown i := by
  have hkept : keptNodes { modules := ["M"] } fragmentRecords = [0, 1, 2, 3] := by decide +kernel
  obtain ⟨forest, hforest, -, -, h0, h1, h2, h3, -⟩ := build_fragmentRecords
  refine ⟨forest, hforest, (build_shows_kept_iff hforest).2 fun i hi => ?_⟩
  rw [hkept] at hi
  refine Ends.no_loop ?_
  simp only [List.mem_cons, List.not_mem_nil, or_false] at hi
  rcases hi with rfl | rfl | rfl | rfl
  · exact .top h0
  · exact .step h1 (.top h2)
  · exact .top h2
  · exact .step h3 (.top h2)

/-- **The documentation of two structures in extensions of each other is empty**, although the filter
keeps all four nodes. -/
theorem build_loses_circular : ∃ forest,
    (build { modules := ["M"] } id circularRecords).outcome = .ok forest ∧ forest.walk = [] ∧
      keptNodes { modules := ["M"] } circularRecords = [0, 1, 2, 3] ∧
        ∀ i ∈ keptNodes { modules := ["M"] } circularRecords, ¬forest.Shown i := by
  obtain ⟨forest, hforest, hwalk⟩ := Outcome.exists_ok_of_map (f := walk) (b := [])
    (o := (build { modules := ["M"] } id circularRecords).outcome) (by decide +kernel)
  refine ⟨forest, hforest, hwalk, by decide +kernel, fun i _ => ?_⟩
  rw [Shown, hwalk]
  simp

end Forest
end DocForest
