import DocForest.Files.Abstracts
import DocForest.Proofs.Matching
import Mathlib.Data.List.Induction

/-!
# Which overview file is found

The files of several patterns are gathered pattern by pattern, and a file that an earlier one has found is
not found again.  So **a pattern never takes back what those in front of it have found**: more patterns at
the end only add files at the end, and a name that has a file keeps it.

## What is here

* `addFound_eq_append`, `mem_addFound`, `nodup_addFound` — what is new stands behind what is known, once.
* `findAbstract?_eq_none_iff`, `findAbstract?_of_prefix` — when no file has a name, and when it does not matter
  what else there is.
* `FileTree.findAbstract?_abstracts` — **the first pattern that finds a file with a name decides.**
* `FileTree.earlier_patterns_win` — the files of more patterns.
-/

set_option autoImplicit false

namespace DocForest

variable {known found files more : List Path} {path file : Path} {names : List Json}

/-! ## New files -/

theorem addFound_concat (known found : List Path) (path : Path) :
    addFound known (found ++ [path]) =
      if path ∈ addFound known found then addFound known found else addFound known found ++ [path] := by
  simp [addFound]

theorem addFound_append (known found more : List Path) :
    addFound known (found ++ more) = addFound (addFound known found) more :=
  List.foldl_append

theorem mem_addFound : path ∈ addFound known found ↔ path ∈ known ∨ path ∈ found := by
  induction found using List.reverseRecOn with
  | nil => simp [addFound]
  | append_singleton found last ih =>
    rw [addFound_concat, List.mem_append, ← or_assoc, ← ih, List.mem_singleton]
    split
    · next hlast => exact ⟨.inl, fun h => h.elim id fun heq => heq ▸ hlast⟩
    · rw [List.mem_append, List.mem_singleton]

/-- The known files keep their places, and what is new among the others follows. -/
theorem addFound_eq_append (known found : List Path) :
    addFound known found = known ++ (addFound [] found).filter fun path => path ∉ known := by
  induction found using List.reverseRecOn with
  | nil => simp [addFound]
  | append_singleton found last ih =>
    rw [addFound_concat, addFound_concat]
    by_cases hfound : last ∈ found
    · rw [if_pos (mem_addFound.2 (.inr hfound)), if_pos (mem_addFound.2 (.inr hfound)), ih]
    have hnew : last ∉ addFound [] found := by simpa [mem_addFound] using hfound
    rw [if_neg hnew, List.filter_append]
    by_cases hknown : last ∈ known
    · rw [if_pos (mem_addFound.2 (.inl hknown)), ih]
      simp [hknown]
    · have hmem : last ∉ addFound known found := by simp [mem_addFound, hknown, hfound]
      rw [if_neg hmem, ih, List.append_assoc]
      simp [hknown]

theorem nodup_addFound (h : known.Nodup) : (addFound known found).Nodup := by
  induction found using List.reverseRecOn with
  | nil => exact h
  | append_singleton found last ih =>
    rw [addFound_concat]
    split
    · exact ih
    · next hlast =>
      refine List.nodup_append.2 ⟨ih, by simp, fun path hpath other hother => ?_⟩
      exact List.mem_singleton.1 hother ▸ ne_of_mem_of_not_mem hpath hlast

/-- Leaving out a file that is known does not change which one is found first. -/
theorem find?_addFound (p : Path → Bool) (known found : List Path) :
    (addFound known found).find? p = (known ++ found).find? p := by
  induction found using List.reverseRecOn with
  | nil => simp [addFound]
  | append_singleton found last ih =>
    rw [addFound_concat, ← List.append_assoc, List.find?_append, ← ih]
    split
    · next hlast =>
      cases hfirst : (addFound known found).find? p with
      | some first => rfl
      | none => simp [List.find?_eq_none.1 hfirst last hlast]
    · rw [List.find?_append]

/-! ## Names -/

theorem mem_wanted {name : String} :
    name ∈ (names.filter Json.truthy).filterMap Json.string? ↔ .str name ∈ names ∧ name ≠ "" := by
  rw [List.mem_filterMap]
  constructor
  · rintro ⟨value, hvalue, hname⟩
    obtain ⟨hmem, htruthy⟩ := List.mem_filter.1 hvalue
    cases value <;> simp_all [Json.string?, Json.truthy]
  · rintro ⟨hmem, hne⟩
    exact ⟨.str name, List.mem_filter.2 ⟨hmem, by simpa [Json.truthy] using hne⟩, rfl⟩

theorem findAbstract?_eq_none_iff : findAbstract? files names = none ↔
    ∀ file ∈ files, ∀ name, .str name ∈ names → name ≠ "" → file.stem ≠ name := by
  rw [findAbstract?, List.find?_eq_none]
  refine forall₂_congr fun file _ => ?_
  rw [List.contains_iff_mem, mem_wanted]
  exact ⟨fun h name hname hne heq => h (heq ▸ ⟨hname, hne⟩), fun h hstem => h _ hstem.1 hstem.2 rfl⟩

theorem findAbstract?_of_prefix (h : files <+: more) (hfile : findAbstract? files names = some file) :
    findAbstract? more names = some file :=
  h.find?_eq_some hfile

/-! ## Patterns -/

namespace FileTree

variable (tree : FileTree)

theorem abstracts_eq (patterns : List String) :
    tree.abstracts patterns = addFound [] (patterns.flatMap tree.glob) := by
  rw [abstracts, addFound, List.foldl_flatMap]
  rfl

theorem mem_glob {pattern : String} : path ∈ tree.glob pattern ↔
    (∃ place, tree.locate? path = some place ∧ tree.isFile place = true) ∧
      ∃ text, tree.Matches pattern text ∧ Path.ofText text = path := by
  simp only [glob, List.mem_filter, List.mem_map, mem_foundTexts, Option.any_eq_true, and_comm]

theorem abstracts_append (ps qs : List String) : tree.abstracts (ps ++ qs) =
    tree.abstracts ps ++ (tree.abstracts qs).filter fun path => path ∉ tree.abstracts ps := by
  rw [abstracts_eq, List.flatMap_append, addFound_append, addFound_eq_append, ← abstracts_eq,
    ← abstracts_eq]

theorem nodup_abstracts (patterns : List String) : (tree.abstracts patterns).Nodup := by
  rw [abstracts_eq]
  exact nodup_addFound List.nodup_nil

theorem mem_abstracts {patterns : List String} : path ∈ tree.abstracts patterns ↔
    (∃ place, tree.locate? path = some place ∧ tree.isFile place = true) ∧
      ∃ pattern ∈ patterns, ∃ text, tree.Matches pattern text ∧ Path.ofText text = path := by
  rw [abstracts_eq, mem_addFound, List.mem_flatMap]
  simp only [List.not_mem_nil, false_or, mem_glob]
  exact ⟨fun ⟨pattern, hmem, hfile, htext⟩ => ⟨hfile, pattern, hmem, htext⟩,
    fun ⟨hfile, pattern, hmem, htext⟩ => ⟨pattern, hmem, hfile, htext⟩⟩

/-- **The first pattern that finds a file with a name decides**, and the order of what it finds. -/
theorem findAbstract?_abstracts (patterns : List String) (names : List Json) :
    findAbstract? (tree.abstracts patterns) names =
      patterns.findSome? fun pattern => findAbstract? (tree.glob pattern) names := by
  rw [findAbstract?, abstracts_eq, find?_addFound, List.nil_append, List.find?_flatMap]
  rfl

/-- **Earlier patterns win.**  The files of two lists of patterns are those of the first list, and behind them
those of the second list that are not among them.  No path occurs twice, and the paths are those of the
regular files that some pattern finds.  So a file that is found for some names is found with more patterns as
well, and none is found only if no file has one of the non-empty names as its stem. -/
theorem earlier_patterns_win (ps qs : List String) :
    tree.abstracts (ps ++ qs) =
        tree.abstracts ps ++ ((tree.abstracts qs).filter fun path => path ∉ tree.abstracts ps) ∧
      (tree.abstracts (ps ++ qs)).Nodup ∧
      (∀ path, path ∈ tree.abstracts (ps ++ qs) ↔
        (∃ place, tree.locate? path = some place ∧ tree.isFile place = true) ∧
          ∃ pattern ∈ ps ++ qs, ∃ text, tree.Matches pattern text ∧ Path.ofText text = path) ∧
      (∀ names file, findAbstract? (tree.abstracts ps) names = some file →
        findAbstract? (tree.abstracts (ps ++ qs)) names = some file) ∧
      ∀ names, findAbstract? (tree.abstracts (ps ++ qs)) names = none →
        ∀ file ∈ tree.abstracts (ps ++ qs), ∀ name, .str name ∈ names → name ≠ "" →
          file.stem ≠ name := by
  have happend := tree.abstracts_append ps qs
  refine ⟨happend, tree.nodup_abstracts _, fun path => tree.mem_abstracts, fun names file hfile => ?_,
    fun names => findAbstract?_eq_none_iff.1⟩
  exact findAbstract?_of_prefix ⟨_, happend.symm⟩ hfile

/-- Two overview files of one name, and one in a directory of its own. -/
def overviewTree : FileTree :=
  { files := [(["docs", "Box.md"], "A box."), (["docs", "Stack.md"], "A stack."),
      (["more", "Box.md"], "Another box.")] }

/-- The file that the first pattern finds is used, though a second pattern finds it again and another one. -/
theorem earlier_patterns_win_box :
    findAbstract? (overviewTree.abstracts ["docs/*.md"]) [.str "Box"] = some ⟨"", ["docs", "Box.md"]⟩ ∧
      findAbstract? (overviewTree.abstracts (["docs/*.md"] ++ ["**/B?x.md", "docs/../more/*"])) [.str "Box"] =
        some ⟨"", ["docs", "Box.md"]⟩ ∧
      overviewTree.abstracts (["docs/*.md"] ++ ["**/B?x.md"]) =
        [⟨"", ["docs", "Box.md"]⟩, ⟨"", ["docs", "Stack.md"]⟩, ⟨"", ["more", "Box.md"]⟩] := by
  have hbox : findAbstract? (overviewTree.abstracts ["docs/*.md"]) [.str "Box"] =
      some ⟨"", ["docs", "Box.md"]⟩ := by decide +kernel
  refine ⟨hbox, (earlier_patterns_win overviewTree _ _).2.2.2.1 _ _ hbox, ?_⟩
  rw [(earlier_patterns_win overviewTree _ _).1]
  decide +kernel

end FileTree
end DocForest
