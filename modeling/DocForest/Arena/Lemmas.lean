import DocForest.Arena.Operation
import DocForest.Forest.Lemmas

/-!
# What the calls do to an arena

## What is here

* `coe_position`, `position_natCast`, `position_lt_iff` — which node an index names.
* `Arena.codeIndex?`, `Arena.docsIndex?`, `Arena.childIndices?` — the links as they have been given.
* `docsParent?_forest` and its companions — the links that the arena shows are these, looked up now.
* `docsIndex?_withChildren`, `childIndices?_withChildren` and their companions — what the calls do to the
  links.
* `Arena.Step`, `apply_eq_ok_iff` — **when a call is not refused, and what it makes of the arena.**
-/

set_option autoImplicit false

namespace DocForest

variable {β : Type}

/-! ## Indices -/

theorem coe_position (size : Nat) (k : Int) :
    (position size k : Int) = if 0 ≤ k then k else if -(size : Int) ≤ k then size + k else size := by
  cases k with
  | ofNat i => simp [position]
  | negSucc i =>
    simp only [position]
    split <;> split <;> omega

/-- An index that counts from the front names the same node at any time. -/
@[simp] theorem position_natCast (size i : Nat) : position size (i : Int) = i := rfl

theorem position_lt_iff {size : Nat} {k : Int} : position size k < size ↔ -(size : Int) ≤ k ∧ k < size := by
  have h := coe_position size k
  split at h
  · omega
  · split at h <;> omega

namespace Arena

variable {arena next : Arena} {operation : Operation} {child parent k : Int} {children roots : List Int}
  {i : Nat}

/-! ## Links as they have been given -/

/-- The index that a node has been given for its container. -/
def codeIndex? (arena : Arena) (i : Nat) : Option Int :=
  (arena.entryAt? i).bind (·.codeParent)

/-- The index that a node has been given for its parent in the documentation. -/
def docsIndex? (arena : Arena) (i : Nat) : Option Int :=
  (arena.entryAt? i).bind (·.docsParent)

/-- The indices that a node has been given for its children. -/
def childIndices? (arena : Arena) (i : Nat) : Option (List Int) :=
  (arena.entryAt? i).bind (·.children)

theorem entryAt?_isSome_iff (arena : Arena) (i : Nat) : (arena.entryAt? i).isSome = true ↔ i < arena.size := by
  simp [entryAt?, size]

theorem entryAt?_eq_none_iff (arena : Arena) (i : Nat) : arena.entryAt? i = none ↔ arena.size ≤ i := by
  simp [entryAt?, size]

theorem exists_entryAt? (h : i < arena.size) : ∃ entry, arena.entryAt? i = some entry :=
  Option.isSome_iff_exists.1 ((arena.entryAt?_isSome_iff i).2 h)

theorem entry_eq_ok {entry : Entry} : arena.entry k = .ok entry ↔ arena.entryAt? (arena.position k) = some entry := by
  unfold Arena.entry
  cases arena.entryAt? (arena.position k) <;> simp

theorem lt_of_entry_eq_ok {entry : Entry} (h : arena.entry k = .ok entry) : arena.position k < arena.size :=
  (arena.entryAt?_isSome_iff _).1 (Option.isSome_of_eq_some (entry_eq_ok.1 h))

/-! ## What an arena shows -/

@[simp] theorem size_forest (arena : Arena) : arena.forest.size = arena.size := by
  simp [forest, Forest.size, size]

theorem node?_forest (arena : Arena) (i : Nat) :
    arena.forest.node? i = (arena.entryAt? i).map (Entry.node arena.size) := by
  simp [forest, Forest.node?, entryAt?]

theorem docsParent?_forest (arena : Arena) (i : Nat) :
    arena.forest.docsParent? i = (arena.docsIndex? i).map arena.position := by
  rw [Forest.docsParent?, docsIndex?, node?_forest]
  cases arena.entryAt? i <;> rfl

theorem childrenOf_forest (arena : Arena) (i : Nat) :
    arena.forest.childrenOf i = ((arena.childIndices? i).getD []).map arena.position := by
  rw [Forest.childrenOf, childIndices?, node?_forest]
  cases arena.entryAt? i with
  | none => rfl
  | some entry => cases h : entry.children <;> simp [Entry.node, h, position]

theorem rootList_forest (arena : Arena) : arena.forest.rootList = arena.rootList.map arena.position := by
  rw [Forest.rootList, rootList, forest]
  cases arena.roots <;> rfl

/-! ## Adding -/

@[simp] theorem size_add (arena : Arena) (decl : Declaration) : (arena.add decl).size = arena.size + 1 := by
  simp [add, size]

/-- A new node has no links, no more than one that is not there. -/
theorem bind_entryAt?_add (arena : Arena) {decl : Declaration} {field : Entry → Option β}
    (hfield : field { decl } = none) (i : Nat) :
    ((arena.add decl).entryAt? i).bind field = (arena.entryAt? i).bind field := by
  rw [entryAt?, entryAt?, add, Array.getElem?_push]
  split
  · next h =>
    subst h
    rw [Array.getElem?_eq_none (Nat.le_refl _), Option.bind_none, Option.bind_some, hfield]
  · rfl

/-! ## Changing an entry -/

@[simp] theorem size_modify (arena : Arena) (k : Int) (change : Entry → Entry) :
    (arena.modify k change).size = arena.size := by
  simp [modify, size]

theorem position_modify (arena : Arena) (k : Int) (change : Entry → Entry) :
    (arena.modify k change).position = arena.position := by
  funext l
  rw [position, size_modify, position]

theorem entryAt?_modify (arena : Arena) (k : Int) (change : Entry → Entry) (i : Nat) :
    (arena.modify k change).entryAt? i =
      if arena.position k = i then (arena.entryAt? i).map change else arena.entryAt? i := by
  simp [modify, entryAt?, Array.getElem?_modify]

theorem bind_entryAt?_modify {field : Entry → Option β} {change : Entry → Entry}
    (h : ∀ entry, field (change entry) = field entry) :
    ((arena.modify k change).entryAt? i).bind field = (arena.entryAt? i).bind field := by
  rw [entryAt?_modify]
  split
  · rw [Option.bind_map]
    exact congrArg (Option.bind _) (funext h)
  · rfl

/-! ## Giving a node its children -/

theorem size_putParents (arena : Arena) (parent : Int) (children : List Int) :
    (arena.putParents parent children).size = arena.size := by
  induction children generalizing arena with
  | nil => rfl
  | cons child rest ih => rw [putParents, List.foldl_cons, ← putParents, ih, size_modify]

theorem roots_putParents (arena : Arena) (parent : Int) (children : List Int) :
    (arena.putParents parent children).roots = arena.roots := by
  induction children generalizing arena with
  | nil => rfl
  | cons child rest ih =>
    rw [putParents, List.foldl_cons, ← putParents, ih]
    rfl

theorem entryAt?_putParents (arena : Arena) (parent : Int) (children : List Int) (i : Nat) :
    (arena.putParents parent children).entryAt? i =
      if i ∈ children.map arena.position then
        (arena.entryAt? i).map fun entry => { entry with docsParent := some parent }
      else arena.entryAt? i := by
  induction children generalizing arena with
  | nil => simp [putParents]
  | cons child rest ih =>
    rw [putParents, List.foldl_cons, ← putParents, ih, entryAt?_modify, position_modify]
    by_cases hchild : arena.position child = i
    · subst hchild
      by_cases hrest : arena.position child ∈ rest.map arena.position <;> simp [hrest, Function.comp_def]
    · simp [hchild, Ne.symm hchild]

theorem size_withChildren (arena : Arena) (parent : Int) (children : List Int) :
    (arena.withChildren parent children).size = arena.size := by
  rw [withChildren, size_modify, size_putParents]

theorem roots_withChildren (arena : Arena) (parent : Int) (children : List Int) :
    (arena.withChildren parent children).roots = arena.roots :=
  arena.roots_putParents parent children

theorem entryAt?_withChildren (arena : Arena) (parent : Int) (children : List Int) (i : Nat) :
    (arena.withChildren parent children).entryAt? i =
      if arena.position parent = i then
        ((arena.putParents parent children).entryAt? i).map fun entry =>
          { entry with children := some children }
      else (arena.putParents parent children).entryAt? i := by
  rw [withChildren, entryAt?_modify, position, size_putParents, ← position]

theorem codeIndex?_withChildren (arena : Arena) (parent : Int) (children : List Int) (i : Nat) :
    (arena.withChildren parent children).codeIndex? i = arena.codeIndex? i := by
  have hlast : (arena.withChildren parent children).codeIndex? i =
      (arena.putParents parent children).codeIndex? i := bind_entryAt?_modify fun _ => rfl
  rw [hlast, codeIndex?, codeIndex?, entryAt?_putParents]
  split
  · cases arena.entryAt? i <;> rfl
  · rfl

theorem childIndices?_withChildren (hparent : arena.position parent < arena.size) (children : List Int)
    (i : Nat) :
    (arena.withChildren parent children).childIndices? i =
      if arena.position parent = i then some children else arena.childIndices? i := by
  rw [childIndices?, childIndices?, entryAt?_withChildren, entryAt?_putParents]
  split
  · next hi =>
    subst hi
    obtain ⟨entry, hentry⟩ := exists_entryAt? hparent
    rw [hentry]
    split <;> rfl
  · split <;> cases arena.entryAt? i <;> rfl

theorem docsIndex?_withChildren (hchildren : ∀ c ∈ children, arena.position c < arena.size)
    (parent : Int) (i : Nat) :
    (arena.withChildren parent children).docsIndex? i =
      if i ∈ children.map arena.position then some parent else arena.docsIndex? i := by
  have hlast : (arena.withChildren parent children).docsIndex? i =
      (arena.putParents parent children).docsIndex? i := bind_entryAt?_modify fun _ => rfl
  rw [hlast, docsIndex?, docsIndex?, entryAt?_putParents]
  split
  · next hi =>
    obtain ⟨c, hc, rfl⟩ := List.mem_map.1 hi
    obtain ⟨entry, hentry⟩ := exists_entryAt? (hchildren c hc)
    rw [hentry]
    rfl
  · rfl

/-! ## Calls that succeed -/

theorem checkChild_eq_ok :
    arena.checkChild parent child = .ok () ↔
      arena.position child < arena.size ∧ arena.docsIndex? (arena.position child) = none ∧
        child ∉ arena.rootList ∧ child ≠ parent := by
  simp only [checkChild, Outcome.bind_eq_ok, Outcome.check_eq_ok, entry_eq_ok, docsIndex?,
    ← entryAt?_isSome_iff]
  cases arena.entryAt? (arena.position child) <;> simp [pure, Except.pure, and_assoc]

theorem checkRoot_eq_ok :
    arena.checkRoot k = .ok () ↔
      arena.position k < arena.size ∧ arena.docsIndex? (arena.position k) = none := by
  simp only [checkRoot, Outcome.bind_eq_ok, Outcome.check_eq_ok, entry_eq_ok, docsIndex?,
    ← entryAt?_isSome_iff]
  cases arena.entryAt? (arena.position k) <;> simp [pure, Except.pure]

/-- An index of a node that can be given to another as a child: the node exists and has no parent, and
the index is none of those that the roots have been given by. -/
structure Unplaced (arena : Arena) (k : Int) : Prop where
  lt_size : arena.position k < arena.size
  docsIndex : arena.docsIndex? (arena.position k) = none
  not_root : k ∉ arena.rootList

/-- What a call that is not refused makes of an arena. -/
inductive Step (arena : Arena) : Operation → Arena → Prop
  | add (decl : Declaration) : Step arena (.add decl) (arena.add decl)
  | link {child : Int} (parent : Int) (hchild : arena.position child < arena.size)
      (hfree : arena.codeIndex? (arena.position child) = none) :
      Step arena (.link child parent)
        (arena.modify child fun entry => { entry with codeParent := some parent })
  | setChildren {parent : Int} {children : List Int} (hparent : arena.position parent < arena.size)
      (hfree : arena.childIndices? (arena.position parent) = none)
      (hchildren : ∀ c ∈ children, arena.Unplaced c ∧ c ≠ parent) :
      Step arena (.setChildren parent children) (arena.withChildren parent children)
  | setRoots {roots : List Int} (hfree : arena.roots = none)
      (hroots : ∀ r ∈ roots,
        arena.position r < arena.size ∧ arena.docsIndex? (arena.position r) = none) :
      Step arena (.setRoots roots) { arena with roots := some roots }

theorem link_eq_ok :
    arena.link child parent = .ok next ↔
      arena.position child < arena.size ∧ arena.codeIndex? (arena.position child) = none ∧
        next = arena.modify child fun entry => { entry with codeParent := some parent } := by
  simp only [link, Outcome.bind_eq_ok, Outcome.check_eq_ok, Outcome.pure_eq_ok, entry_eq_ok,
    codeIndex?, ← entryAt?_isSome_iff]
  cases arena.entryAt? (arena.position child) <;> simp

theorem setChildren_eq_ok :
    arena.setChildren parent children = .ok next ↔
      arena.position parent < arena.size ∧ arena.childIndices? (arena.position parent) = none ∧
        (∀ c ∈ children, arena.Unplaced c ∧ c ≠ parent) ∧ next = arena.withChildren parent children := by
  have hguard : ∀ c, arena.checkChild parent c = .ok () ↔ arena.Unplaced c ∧ c ≠ parent := fun c =>
    checkChild_eq_ok.trans ⟨fun ⟨hlt, hdocs, hroot, hne⟩ => ⟨⟨hlt, hdocs, hroot⟩, hne⟩,
      fun ⟨h, hne⟩ => ⟨h.lt_size, h.docsIndex, h.not_root, hne⟩⟩
  simp only [setChildren, Outcome.bind_eq_ok, Outcome.check_eq_ok, Outcome.pure_eq_ok, entry_eq_ok,
    Outcome.exists_check, Outcome.forM_eq_ok, hguard]
  rw [childIndices?, ← entryAt?_isSome_iff arena]
  cases arena.entryAt? (arena.position parent) <;> simp

theorem setRoots_eq_ok :
    arena.setRoots roots = .ok next ↔
      arena.roots = none ∧
        (∀ r ∈ roots, arena.position r < arena.size ∧ arena.docsIndex? (arena.position r) = none) ∧
        next = { arena with roots := some roots } := by
  simp only [setRoots, Outcome.bind_eq_ok, Outcome.check_eq_ok, Outcome.pure_eq_ok,
    Outcome.exists_check, Outcome.forM_eq_ok, checkRoot_eq_ok]
  cases arena.roots <;> simp

/-- **A call is not refused exactly when it is such a step.** -/
theorem apply_eq_ok_iff : operation.apply arena = .ok next ↔ Step arena operation next := by
  constructor
  · intro h
    cases operation with
    | add decl =>
      obtain rfl := Except.ok.inj h
      exact .add decl
    | addAgain k =>
      obtain ⟨entry, -, hthrow⟩ := Outcome.bind_eq_ok.1 h
      exact absurd hthrow Outcome.throw_ne_ok
    | link child parent =>
      obtain ⟨hchild, hfree, rfl⟩ := link_eq_ok.1 h
      exact .link parent hchild hfree
    | setChildren parent children =>
      obtain ⟨hparent, hfree, hchildren, rfl⟩ := setChildren_eq_ok.1 h
      exact .setChildren hparent hfree hchildren
    | setRoots roots =>
      obtain ⟨hfree, hroots, rfl⟩ := setRoots_eq_ok.1 h
      exact .setRoots hfree hroots
  · intro h
    cases h with
    | add => rfl
    | link parent hchild hfree => exact link_eq_ok.2 ⟨hchild, hfree, rfl⟩
    | setChildren hparent hfree hchildren => exact setChildren_eq_ok.2 ⟨hparent, hfree, hchildren, rfl⟩
    | setRoots hfree hroots => exact setRoots_eq_ok.2 ⟨hfree, hroots, rfl⟩

theorem after_of_step (h : Step arena operation next) : arena.after operation = next := by
  rw [after, apply_eq_ok_iff.2 h]

end Arena
end DocForest
