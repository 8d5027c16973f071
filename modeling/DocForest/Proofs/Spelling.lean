import DocForest.Forest.Pattern
import DocForest.Proofs.Ascent

/-!
# Texts that spell a qualified name

Generic arguments may hold dots, brackets and even the names that follow, so that a text can be cut into
names in many ways.  The search for a cut keeps all that can be left of the text behind what has been read.
This file says what a text is that spells a name, without any search, and that **the search finds every cut
and nothing else.**

## What is here

* `Pattern.Arguments`, `Pattern.Spells` — generic arguments on one line, and the texts that spell names.
* `mem_afterName`, `mem_afterArguments`, `mem_afterLink`, `mem_afterNames` — what can be left of a text behind
  each part.
* `namesWhole_iff`, `namesStart_iff`, `namesPart_iff` — the whole text, a beginning or some part of it spells
  the names.
* `Forest.NamePath` — the names that lead to a node, by the links alone; `NamePath.pathNames_eq` — they are the
  names that are searched for.
* `Forest.spelled_of_ends` — **every node whose containers end is found by exactly the texts that spell its
  qualified name.**
-/

set_option autoImplicit false

namespace DocForest

open Relation

namespace Pattern

variable {name s rest : List Char} {names : List (List Char)}

/-! ## Spelling -/

/-- Generic arguments on one line, which may be missing. -/
inductive Arguments : List Char → Prop
  | missing : Arguments []
  | given (inner : List Char) (h : '\n' ∉ inner) : Arguments ('<' :: (inner ++ ['>']))

/-- A text spells names: they stand in their order, with a dot behind each but the last, and arguments may
stand in front of the dot. -/
inductive Spells : List (List Char) → List Char → Prop
  | last (name : List Char) : Spells [name] name
  | link (name : List Char) {names : List (List Char)} {arguments text : List Char}
      (harguments : Arguments arguments) (htext : Spells names text) :
      Spells (name :: names) (name ++ (arguments ++ '.' :: text))

theorem Spells.names_ne_nil {text : List Char} (h : Spells names text) : names ≠ [] := by
  cases h <;> exact List.cons_ne_nil _ _

theorem spells_cons_iff (hnames : names ≠ []) {text : List Char} :
    Spells (name :: names) text ↔ ∃ arguments text', Arguments arguments ∧ Spells names text' ∧
      text = name ++ (arguments ++ '.' :: text') := by
  constructor
  · intro h
    cases h with
    | last => exact absurd rfl hnames
    | link _ harguments htext => exact ⟨_, _, harguments, htext, rfl⟩
  · rintro ⟨arguments, text', harguments, htext, rfl⟩
    exact .link name harguments htext

theorem spells_dotted (names : List (List Char)) (hnames : names ≠ []) :
    Spells names (['.'].intercalate names) := by
  induction names with
  | nil => exact absurd rfl hnames
  | cons name names ih =>
    cases names with
    | nil => simpa using Spells.last name
    | cons next more =>
      rw [List.intercalate_cons_cons, List.append_assoc]
      exact .link name .missing (ih (List.cons_ne_nil _ _))

/-! ## What can be left of a text -/

theorem mem_afterName : rest ∈ afterName name s ↔ s = name ++ rest := by
  rw [afterName]
  split
  · next h =>
    obtain ⟨rest', rfl⟩ := List.isPrefixOf_iff_prefix.1 h
    simp [eq_comm]
  · next h =>
    refine iff_of_false List.not_mem_nil ?_
    rintro rfl
    exact h (List.isPrefixOf_iff_prefix.2 (List.prefix_append _ _))

theorem mem_afterDot : rest ∈ afterDot s ↔ s = '.' :: rest := by
  unfold afterDot
  split
  · simp [eq_comm]
  · next h =>
    refine iff_of_false List.not_mem_nil ?_
    rintro rfl
    exact h rest rfl

/-- Arguments that have been opened may end at any bracket on their line that a dot follows. -/
theorem mem_afterArguments :
    rest ∈ afterArguments s ↔ ∃ inner, '\n' ∉ inner ∧ s = inner ++ '>' :: '.' :: rest := by
  induction s with
  | nil => simp [afterArguments]
  | cons c s ih =>
    have hhere : rest ∈ (if c = '>' then afterDot s else []) ↔ c :: s = '>' :: '.' :: rest := by
      split
      · next h => rw [mem_afterDot, h, List.cons.injEq, and_iff_right rfl]
      · next h => exact iff_of_false List.not_mem_nil fun heq => h (List.cons.inj heq).1
    have hlater : rest ∈ (if c = '\n' then [] else afterArguments s) ↔
        ∃ inner, '\n' ∉ c :: inner ∧ s = inner ++ '>' :: '.' :: rest := by
      split
      · next h => simp [h]
      · next h => simp [ih, eq_comm (a := '\n'), h]
    rw [afterArguments, List.mem_append, hhere, hlater]
    constructor
    · rintro (heq | ⟨inner, hline, rfl⟩)
      · exact ⟨[], List.not_mem_nil, heq⟩
      · exact ⟨c :: inner, hline, rfl⟩
    · rintro ⟨inner, hline, heq⟩
      cases inner with
      | nil => exact .inl heq
      | cons c' inner =>
        obtain ⟨rfl, rfl⟩ := List.cons.inj heq
        exact .inr ⟨inner, hline, rfl⟩

theorem mem_afterLink :
    rest ∈ afterLink s ↔ ∃ arguments, Arguments arguments ∧ s = arguments ++ '.' :: rest := by
  unfold afterLink
  split
  · -- the text goes on with a bracket, so that the arguments are not missing
    next s' =>
    rw [mem_afterArguments]
    constructor
    · rintro ⟨inner, hline, rfl⟩
      exact ⟨_, .given inner hline, by simp⟩
    · rintro ⟨arguments, harguments, heq⟩
      cases harguments with
      | missing => simp at heq
      | given inner hline => exact ⟨inner, hline, by simpa using heq⟩
  · next h =>
    rw [mem_afterDot]
    constructor
    · exact fun heq => ⟨[], .missing, heq⟩
    · rintro ⟨arguments, harguments, rfl⟩
      cases harguments with
      | missing => rfl
      | given inner hline => exact absurd rfl (h _)

/-- **What can be left of a text is what stands behind a beginning that spells the names.** -/
theorem mem_afterNames (hnames : names ≠ []) :
    rest ∈ afterNames names s ↔ ∃ text, Spells names text ∧ s = text ++ rest := by
  induction names generalizing s with
  | nil => exact absurd rfl hnames
  | cons name names ih =>
    cases names with
    | nil =>
      rw [afterNames, mem_afterName]
      constructor
      · exact fun heq => ⟨name, .last name, heq⟩
      · rintro ⟨text, htext, heq⟩
        cases htext with
        | last => exact heq
        | link _ _ htext => exact absurd rfl htext.names_ne_nil
    | cons next more =>
      have hmore : next :: more ≠ [] := List.cons_ne_nil _ _
      simp only [afterNames, List.mem_flatMap, mem_afterName, mem_afterLink, ih hmore,
        spells_cons_iff hmore]
      constructor
      · rintro ⟨_, ⟨_, rfl, arguments, harguments, rfl⟩, text, htext, rfl⟩
        exact ⟨_, ⟨arguments, text, harguments, htext, rfl⟩, by simp⟩
      · rintro ⟨_, ⟨arguments, text, harguments, htext, rfl⟩, rfl⟩
        exact ⟨text ++ rest, ⟨_, by simp, arguments, harguments, rfl⟩, text, htext, rfl⟩

/-! ## Searching for names -/

theorem namesWhole_iff (hnames : names ≠ []) : namesWhole names s = true ↔ Spells names s := by
  simp only [namesWhole, List.any_eq_true, List.isEmpty_iff, exists_eq_right, mem_afterNames hnames,
    List.append_nil, exists_eq_right']

theorem namesStart_iff (hnames : names ≠ []) :
    namesStart names s = true ↔ ∃ front, front <+: s ∧ Spells names front := by
  rw [namesStart, Bool.not_eq_true', List.isEmpty_eq_false_iff_exists_mem]
  simp only [mem_afterNames hnames]
  constructor
  · rintro ⟨rest, front, hfront, rfl⟩
    exact ⟨front, List.prefix_append _ _, hfront⟩
  · rintro ⟨front, ⟨rest, rfl⟩, hfront⟩
    exact ⟨rest, front, hfront, rfl⟩

theorem namesPart_iff (hnames : names ≠ []) :
    namesPart names s = true ↔ ∃ part, part <:+: s ∧ Spells names part := by
  induction s with
  | nil => simp only [namesPart, namesStart_iff hnames, List.prefix_nil, List.infix_nil]
  | cons c s ih =>
    simp only [namesPart, Bool.or_eq_true, namesStart_iff hnames, ih, List.infix_cons_iff, or_and_right,
      exists_or]

end Pattern

/-! ## The names that lead to a node -/

namespace Forest

open Pattern

variable {forest : Forest} {i j : Nat} {names : List String}

/-- The names of the containers of a node, from the outermost one, and its own. -/
inductive NamePath (forest : Forest) : Nat → List String → Prop
  | top {i : Nat} {decl : Declaration} {name : String} (hdecl : forest.decl? i = some decl)
      (hname : decl.name = .str name) (hcontainer : forest.codeParent? i = none) : NamePath forest i [name]
  | member {i p : Nat} {decl : Declaration} {name : String} {names : List String}
      (hdecl : forest.decl? i = some decl) (hname : decl.name = .str name)
      (hcontainer : forest.codeParent? i = some p) (hnames : NamePath forest p names) :
      NamePath forest i (names ++ [name])

theorem nameOf_of_decl? {decl : Declaration} (h : forest.decl? i = some decl) :
    forest.nameOf i = decl.name := by
  rw [nameOf, h, Option.elim_some]

/-- A node whose containers end is led to by names, if all of them are there and are named by texts. -/
theorem exists_namePath (h : Ends forest.codeParent? i)
    (hnames : ∀ j, ReflTransGen (Up forest.codeParent?) i j →
      ∃ decl name, forest.decl? j = some decl ∧ decl.name = .str name) :
    ∃ names, forest.NamePath i names := by
  induction h with
  | top hcontainer =>
    obtain ⟨decl, name, hdecl, hname⟩ := hnames _ .refl
    exact ⟨_, .top hdecl hname hcontainer⟩
  | step hcontainer _ ih =>
    obtain ⟨decl, name, hdecl, hname⟩ := hnames _ .refl
    obtain ⟨names, hpath⟩ := ih fun j hj => hnames j (.head hcontainer hj)
    exact ⟨_, .member hdecl hname hcontainer hpath⟩

namespace NamePath

theorem ends (h : forest.NamePath i names) : Ends forest.codeParent? i := by
  induction h with
  | top _ _ hcontainer => exact .top hcontainer
  | member _ _ hcontainer _ ih => exact .step hcontainer ih

theorem ne_nil (h : forest.NamePath i names) : names ≠ [] := by
  cases h <;> simp

theorem lt_size (h : forest.NamePath i names) (hj : ReflTransGen (Up forest.codeParent?) i j) :
    j < forest.size := by
  induction h with
  | top hdecl _ hcontainer =>
    rcases hj.cases_head with rfl | ⟨p, hp, -⟩
    · exact lt_of_decl? hdecl
    · exact absurd (hp.symm.trans hcontainer) (Option.some_ne_none p)
  | member hdecl _ hcontainer _ ih =>
    rcases hj.cases_head with rfl | ⟨q, hq, hqj⟩
    · exact lt_of_decl? hdecl
    · obtain rfl := Option.some.inj (hcontainer.symm.trans hq)
      exact ih hqj

/-- Climbing far enough meets the names in reverse. -/
theorem map_nameOf_climb (h : forest.NamePath i names) {steps : Nat} (hsteps : names.length ≤ steps + 1) :
    (climb forest.codeParent? steps i).map forest.nameOf = names.reverse.map .str := by
  induction h generalizing steps with
  | top hdecl hname hcontainer =>
    have hself := (nameOf_of_decl? hdecl).trans hname
    cases steps with
    | zero => simp [climb, hself]
    | succ steps => simp [climb, hcontainer, hself]
  | member hdecl hname hcontainer hpath ih =>
    have hself := (nameOf_of_decl? hdecl).trans hname
    rw [List.length_append, List.length_singleton] at hsteps
    cases steps with
    | zero => exact absurd (List.length_eq_zero_iff.1 (Nat.le_zero.1 (Nat.le_of_succ_le_succ hsteps))) hpath.ne_nil
    | succ steps =>
      rw [climb, hcontainer, List.map_cons, ih (Nat.le_of_succ_le_succ hsteps), hself]
      simp

theorem length_le (h : forest.NamePath i names) : names.length ≤ forest.size := by
  have hlength : (climb forest.codeParent? names.length i).length = names.length := by
    simpa using congrArg List.length (h.map_nameOf_climb (Nat.le_succ _))
  have hnodup : (climb forest.codeParent? names.length i).Nodup :=
    nodup_climb (fun j hj => (h.ends.of_above hj).no_loop) _
  have hsub : climb forest.codeParent? names.length i ⊆ List.range forest.size :=
    fun j hj => List.mem_range.2 (h.lt_size (above_of_mem_climb hj))
  simpa [hlength] using (hnodup.subperm hsub).length_le

/-- **The path of a node shows these names.** -/
theorem map_nameOf_namespacePath (h : forest.NamePath i names) :
    (forest.namespacePath i).map forest.nameOf = names.map .str := by
  rw [namespacePath, List.map_reverse, h.map_nameOf_climb (Nat.le_succ_of_le h.length_le),
    ← List.map_reverse, List.reverse_reverse]

theorem nameTextOf_of_mem (h : forest.NamePath i names) (hj : j ∈ forest.namespacePath i) :
    forest.nameOf j = .str (forest.nameTextOf j) := by
  have hmem := List.mem_map_of_mem hj (f := forest.nameOf)
  rw [h.map_nameOf_namespacePath] at hmem
  obtain ⟨name, -, hname⟩ := List.mem_map.1 hmem
  rw [nameTextOf, ← hname]
  rfl

theorem map_nameTextOf_namespacePath (h : forest.NamePath i names) :
    (forest.namespacePath i).map forest.nameTextOf = names := by
  have htexts := congrArg (List.map Json.plainText) h.map_nameOf_namespacePath
  rw [List.map_map, List.map_map] at htexts
  exact htexts.trans (List.map_id names)

/-- **They are the names that are searched for.** -/
theorem pathNames_eq (h : forest.NamePath i names) : forest.pathNames i = names.map String.toList := by
  rw [pathNames, ← h.map_nameTextOf_namespacePath, List.map_map]
  rfl

/-- **Joined by dots they are the qualified name.** -/
theorem checkedName_eq (h : forest.NamePath i names) :
    forest.checkedName i = .ok (String.intercalate "." names) := by
  have hlength : (forest.namespacePath i).length = names.length := by
    simpa using congrArg List.length h.map_nameTextOf_namespacePath
  have hexist : ¬((forest.namespacePath i).any fun j => decide (forest.size ≤ j)) = true := by
    simp only [List.any_eq_true, decide_eq_true_eq, not_exists, not_and, Nat.not_le]
    exact fun j hj => h.lt_size (above_of_mem_climb (List.mem_reverse.1 hj))
  have htexts : ((forest.namespacePath i).all fun j => (forest.nameOf j).isText) = true :=
    List.all_eq_true.2 fun j hj => by rw [h.nameTextOf_of_mem hj]; rfl
  have hpath : forest.checkedPath i = .ok (forest.namespacePath i) := by
    rw [checkedPath]
    exact (if_neg hexist).trans (if_neg (by rw [hlength]; exact Nat.not_lt.2 h.length_le))
  rw [checkedName, hpath, Outcome.ok_bind, if_pos htexts, dotted, h.map_nameTextOf_namespacePath]
  rfl

end NamePath

/-- **A node whose containers end is found by exactly the texts that spell its qualified name**: in the whole
text, at its beginning, or in some part of it.  Its qualified name is one of them. -/
theorem spelled_of_ends (h : Ends forest.codeParent? i)
    (hnames : ∀ j, ReflTransGen (Up forest.codeParent?) i j →
      ∃ decl name, forest.decl? j = some decl ∧ decl.name = .str name) :
    ∃ names, forest.NamePath i names ∧
      (∀ text, namesWhole (forest.pathNames i) text = true ↔ Spells (names.map String.toList) text) ∧
      (∀ text, namesStart (forest.pathNames i) text = true ↔
        ∃ front, front <+: text ∧ Spells (names.map String.toList) front) ∧
      (∀ text, namesPart (forest.pathNames i) text = true ↔
        ∃ part, part <:+: text ∧ Spells (names.map String.toList) part) ∧
      ∃ name, forest.checkedName i = .ok name ∧ namesWhole (forest.pathNames i) name.toList = true := by
  obtain ⟨names, hpath⟩ := exists_namePath h hnames
  have hne : names.map String.toList ≠ [] := fun hnil => hpath.ne_nil (List.map_eq_nil_iff.1 hnil)
  rw [hpath.pathNames_eq]
  refine ⟨names, hpath, fun text => namesWhole_iff hne, fun text => namesStart_iff hne,
    fun text => namesPart_iff hne, _, hpath.checkedName_eq, (namesWhole_iff hne).2 ?_⟩
  rw [String.toList_intercalate]
  exact spells_dotted _ hne

/-- A method in a type whose name holds a dot. -/
def entryForest : Forest :=
  { nodes := #[
      { decl := { kind := .swiftStruct, name := .str "Map.Entry" } },
      { decl := { kind := .swiftInstanceMethod, name := .str "key()" }, codeParent := some 0 }] }

/-- Arguments may hold brackets and names, and stand only behind the whole name of the type. -/
theorem spelled_of_ends_entry : Ends entryForest.codeParent? 1 ∧
    namesWhole (entryForest.pathNames 1) "Map.Entry<K<V>.key()>.key()".toList = true ∧
      namesWhole (entryForest.pathNames 1) "Map<K>.Entry.key()".toList = false ∧
        ∃ names, entryForest.NamePath 1 names ∧ ∀ text,
          namesWhole (entryForest.pathNames 1) text = true ↔ Spells (names.map String.toList) text := by
  have hends : Ends entryForest.codeParent? 1 := .step (p := 0) rfl (.top rfl)
  obtain ⟨names, hpath, hwhole, -⟩ := spelled_of_ends hends fun j hj => by
    rcases hj.cases_head with rfl | ⟨p, hp, hj⟩
    · exact ⟨_, _, rfl, rfl⟩
    · obtain rfl : 0 = p := Option.some.inj hp
      rcases hj.cases_head with rfl | ⟨q, hq, -⟩
      · exact ⟨_, _, rfl, rfl⟩
      · exact nomatch hq
  exact ⟨hends, by decide +kernel, by decide +kernel, names, hpath, hwhole⟩

end Forest
end DocForest
