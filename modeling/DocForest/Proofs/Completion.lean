import DocForest.Build.Assembly
import DocForest.Proofs.Ascent
import DocForest.Proofs.Loading

/-!
# What filling in leaves as it is

Modules, section marks and levels are filled in behind the loading.  The three passes change these
three fields of declarations and nothing else, so that all links, kinds and names are still those of
the records.

## What is here

* `Settled` — a part of a node that does not show the three fields.
* `view_completed` — it stays through all three passes.
* `Prepared` — a forest whose records have been loaded, checked and filled in; `Loads.prepared`
  says that the passes make one.
-/

set_option autoImplicit false

namespace DocForest
namespace Forest

open Relation

variable {β : Type} {forest : Forest} {read : Node → β} {j : Nat}

/-- A part of a node that shows neither its module nor its section nor its level. -/
def Settled (read : Node → β) : Prop :=
  ∀ node docModule mark level,
    read { node with decl := { node.decl with docModule, mark, level } } = read node

theorem view_fillModule (hread : Settled read) (config : Config) (i : Nat) :
    (fillModule config forest i).view read j = forest.view read j := by
  unfold fillModule
  split
  · rfl
  · split
    · rfl
    · exact view_modify fun node => hread node _ node.decl.mark node.decl.level

theorem view_fillModules (hread : Settled read) (config : Config) :
    (forest.fillModules config).view read j = forest.view read j :=
  foldl_keeps (fun forest => forest.view read j) _ _ fun _ _ =>
    foldl_keeps (fun forest => forest.view read j) _ _ fun _ i => view_fillModule hread config i

theorem view_putMarks (hread : Settled read) (marks : List (Nat × SectionMark)) :
    (forest.putMarks marks).view read j = forest.view read j :=
  foldl_keeps (fun forest => forest.view read j) _ _ fun _ _ =>
    view_modify fun node => hread node node.decl.docModule _ node.decl.level

theorem view_deriveLevels_of (hread : ∀ node level,
    read { node with decl := { node.decl with level } } = read node) (extensions : List Nat) :
    (forest.deriveLevels extensions).view read j = forest.view read j := by
  refine foldl_keeps (fun forest => forest.view read j) _ _ fun forest i => ?_
  unfold deriveLevel
  split
  · exact view_modify fun node => hread node _
  · rfl

theorem view_deriveLevels (hread : Settled read) (extensions : List Nat) :
    (forest.deriveLevels extensions).view read j = forest.view read j :=
  view_deriveLevels_of (fun node => hread node node.decl.docModule node.decl.mark) extensions

/-- **All that is not filled in stays.** -/
theorem view_completed (hread : Settled read) (config : Config) (loaded : Loaded) :
    (completed config loaded).view read j = loaded.forest.view read j := by
  rw [completed, view_deriveLevels hread, assignMarks, view_putMarks hread, view_fillModules hread]

theorem codeParent?_completed (config : Config) (loaded : Loaded) :
    (completed config loaded).codeParent? = loaded.forest.codeParent? :=
  codeParent?_congr fun _ => view_completed (fun _ _ _ _ => rfl) config loaded

theorem bounds_fillModule (config : Config) (forest : Forest) (i : Nat) :
    (fillModule config forest i).bounds = forest.bounds := by
  unfold fillModule
  split
  · rfl
  · split
    · rfl
    · exact forest.bounds_modify i _

theorem bounds_putMarks (forest : Forest) (marks : List (Nat × SectionMark)) :
    (forest.putMarks marks).bounds = forest.bounds :=
  foldl_keeps bounds _ _ fun forest entry => forest.bounds_modify entry.1 _

theorem bounds_deriveLevel (forest : Forest) (i : Nat) :
    (deriveLevel forest i).bounds = forest.bounds := by
  unfold deriveLevel
  split
  · exact forest.bounds_modify i _
  · rfl

/-- Filling in neither adds nodes nor gives the documentation roots. -/
theorem bounds_completed (config : Config) (loaded : Loaded) :
    (completed config loaded).bounds = loaded.forest.bounds := by
  have hmodules : (loaded.forest.fillModules config).bounds = loaded.forest.bounds :=
    foldl_keeps bounds _ _ fun _ _ => foldl_keeps bounds _ _ fun _ _ => bounds_fillModule config _ _
  rw [completed, deriveLevels, foldl_keeps bounds _ _ bounds_deriveLevel, assignMarks, bounds_putMarks,
    hmodules]

theorem size_completed (config : Config) (loaded : Loaded) :
    (completed config loaded).size = loaded.forest.size :=
  congrArg Prod.fst (bounds_completed config loaded)

/-! ## A forest that is ready for the access filter -/

/-- What the passes behind the loading may rely on: containers exist and are nested without loops,
and nothing has a place in the documentation yet. -/
structure Prepared (forest : Forest) : Prop extends Nested forest where
  docsParent : ∀ i, forest.docsParent? i = none
  childList : ∀ i, forest.childList? i = none
  mergedInto : ∀ i, forest.mergedInto? i = none
  undocumentedBase : ∀ i, forest.isUndocumentedBase i = false
  roots : forest.roots = none

end Forest

open Forest

variable {records : List Record} {loaded : Loaded}

theorem Loads.codeParent? (h : Loads records loaded) (i : Nat) :
    loaded.forest.codeParent? i = Record.containerOf? records i := by
  rw [Forest.codeParent?, Record.containerOf?]
  cases hrecord : records[i]? with
  | none =>
    have hlt : loaded.forest.size ≤ i := by rw [h.size]; exact List.getElem?_eq_none_iff.1 hrecord
    rw [(loaded.forest.node?_eq_none_iff i).2 hlt]
    rfl
  | some record =>
    obtain ⟨decl, -, hnode⟩ := h.node i record hrecord
    rw [hnode, Record.containerOf?, hrecord]
    rfl

/-- What only a fresh node shows of itself is the same for all loaded nodes. -/
theorem Loads.view_getD {β : Type} {read : Node → β} {fallback : β} (h : Loads records loaded)
    (hread : ∀ decl codeParent, read { decl, codeParent } = fallback) (i : Nat) :
    (loaded.forest.view read i).getD fallback = fallback := by
  rw [Forest.view]
  cases hnode : loaded.forest.node? i with
  | none => rfl
  | some node =>
    have hlt : i < records.length := h.size ▸ Forest.lt_of_node? hnode
    obtain ⟨decl, -, hnode'⟩ := h.node i _ (List.getElem?_eq_getElem hlt)
    obtain rfl := Option.some.inj (hnode.symm.trans hnode')
    exact hread decl _

theorem Loads.nested (h : Loads records loaded) (hnesting : loaded.forest.checkNesting = .ok ()) :
    loaded.forest.Nested := by
  have hlt : ∀ i p, loaded.forest.codeParent? i = some p → p < loaded.forest.size := by
    intro i p hp
    rw [h.codeParent?] at hp
    rw [h.size]
    exact Record.containerOf?_lt hp
  exact ⟨hlt _ _, (checkNesting_eq_ok hlt).1 hnesting⟩

/-- **Loaded records that are nested without loops are ready for the filter** once modules, marks and
levels are filled in. -/
theorem Loads.prepared (h : Loads records loaded)
    (hnesting : loaded.forest.checkNesting = .ok ()) (config : Config) :
    (completed config loaded).Prepared := by
  have hparent := codeParent?_completed config loaded
  have hsize : loaded.forest.size ≤ (completed config loaded).size :=
    Nat.le_of_eq (size_completed config loaded).symm
  refine ⟨(h.nested hnesting).congr hparent hsize, fun i => ?_, fun i => ?_, fun i => ?_, fun i => ?_, ?_⟩
  · rw [docsParent?_eq_view, view_completed fun _ _ _ _ => rfl]
    exact h.view_getD (fun _ _ => rfl) i
  · rw [childList?_eq_view, view_completed fun _ _ _ _ => rfl]
    exact h.view_getD (fun _ _ => rfl) i
  · rw [mergedInto?_eq_view, view_completed fun _ _ _ _ => rfl]
    exact h.view_getD (fun _ _ => rfl) i
  · rw [isUndocumentedBase_eq_view, view_completed fun _ _ _ _ => rfl]
    exact h.view_getD (fun _ _ => rfl) i
  · exact (congrArg Prod.snd (bounds_completed config loaded)).trans h.roots

end DocForest
