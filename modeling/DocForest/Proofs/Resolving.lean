import DocForest.Proofs.Completion
import DocForest.Proofs.Renumbering

/-!
# Which module a declaration gets

Modules are filled in along the path of one node after the other, so that most nodes are visited several
times.  The first visit settles a node, since its containers have been settled before; later ones change
nothing.  In the end **the module of every node follows from its own declaration and the module of its
container**, and a forest that has these nodes among others gives them the same modules.

## What is here

* `Forest.settle` — what a visit makes of the module of a node.
* `Forest.Resolved` — some nodes have been settled; `Resolved.fillModule` and `Resolved.foldl_climb`, one
  visit and the visits along a path.
* `Forest.decl?_fillModules` — **the modules in the end**.
* `Relabels.fillModules` — they do not depend on other nodes.
-/

set_option autoImplicit false

namespace DocForest

/-- Whether a declaration keeps its module: it states one, or it is a guide and has none. -/
def Declaration.keepsModule (decl : Declaration) : Bool :=
  !decl.docModule.isNull || decl.kind.isMarkdown

namespace Forest

open Relation

variable {config : Config} {forest state part whole : Forest} {done : Nat → Prop} {e : Nat → Nat}
  {decl : Declaration} {i j p : Nat}

/-! ## One visit -/

/-- The module of a node after a visit. -/
def settle (config : Config) (forest : Forest) (i : Nat) (decl : Declaration) : Json :=
  if decl.keepsModule then decl.docModule else forest.moduleFor config decl (forest.codeParent? i)

/-- Modules that are taken over from a container depend on its module alone. -/
theorem moduleFor_congr (config : Config) (decl : Declaration) {parent parent' : Option Nat}
    (h : parent.map forest.docModuleOf = parent'.map state.docModuleOf) :
    forest.moduleFor config decl parent = state.moduleFor config decl parent' := by
  rw [moduleFor, moduleFor, h]

/-- What a visit gives a node is what another one would give it. -/
theorem settle_settle (config : Config) (forest : Forest) (i : Nat) (decl : Declaration) :
    forest.settle config i { decl with docModule := forest.settle config i decl } =
      forest.settle config i decl := by
  by_cases hkeeps : decl.keepsModule = true
  · have hmodule : forest.settle config i decl = decl.docModule := if_pos hkeeps
    rw [hmodule]
    exact hmodule
  · have hmodule : forest.settle config i decl = forest.moduleFor config decl (forest.codeParent? i) :=
      if_neg hkeeps
    rw [hmodule, settle]
    split <;> rfl

theorem decl?_fillModule (config : Config) (forest : Forest) (i j : Nat) :
    (fillModule config forest i).decl? j =
      if i = j then (forest.decl? i).map fun decl => { decl with docModule := forest.settle config i decl }
      else forest.decl? j := by
  cases hnode : forest.node? i with
  | none =>
    have hdecl : forest.decl? i = none := by rw [decl?, hnode, Option.map_none]
    have hsame : fillModule config forest i = forest := by rw [fillModule, hnode]
    rw [hsame, hdecl, Option.map_none]
    by_cases heq : i = j
    · rw [if_pos heq, ← heq, hdecl]
    · rw [if_neg heq]
  | some node =>
    have hdecl : forest.decl? i = some node.decl := by rw [decl?, hnode, Option.map_some]
    have hparent : forest.codeParent? i = node.codeParent := by rw [codeParent?, hnode, Option.bind_some]
    rw [fillModule, hnode, hdecl, Option.map_some, settle, Declaration.keepsModule, hparent]
    dsimp only
    by_cases hkeeps : (!node.decl.docModule.isNull || node.decl.kind.isMarkdown) = true
    · rw [if_pos hkeeps, if_pos hkeeps]
      split
      · next heq => exact heq ▸ hdecl
      · rfl
    · rw [if_neg hkeeps, if_neg hkeeps, decl?_modifyDecl]
      split
      · next heq => rw [← heq, hdecl, Option.map_some]
      · rfl

theorem docModuleOf_fillModule_of_ne (h : i ≠ j) :
    (fillModule config forest i).docModuleOf j = forest.docModuleOf j := by
  rw [docModuleOf, decl?_fillModule, if_neg h, docModuleOf]

theorem codeParent?_fillModule (config : Config) (forest : Forest) (i : Nat) :
    (fillModule config forest i).codeParent? = forest.codeParent? :=
  codeParent?_congr fun _ => view_fillModule (fun _ _ _ _ => rfl) config i

/-! ## Visits one after the other -/

/-- The nodes `done` of a forest have been settled, each behind its containers, and no others. -/
structure Resolved (config : Config) (forest : Forest) (done : Nat → Prop) (state : Forest) : Prop where
  codeParent? : state.codeParent? = forest.codeParent?
  size : state.size = forest.size
  closed : ∀ {i p}, done i → forest.codeParent? i = some p → done p
  undone : ∀ {i}, ¬done i → state.decl? i = forest.decl? i
  settled : ∀ {i}, done i → state.decl? i = (forest.decl? i).map fun decl =>
    { decl with docModule := state.settle config i decl }

theorem resolved_nil (config : Config) (forest : Forest) :
    Resolved config forest (fun _ => False) forest :=
  ⟨rfl, rfl, False.elim, fun _ => rfl, False.elim⟩

namespace Resolved

/-- Once a node has been settled, another visit changes nothing. -/
theorem fillModule_of_done (h : Resolved config forest done state) (hi : done i) :
    ∀ j, (fillModule config state i).decl? j = state.decl? j := by
  intro j
  rw [decl?_fillModule]
  split
  · next heq =>
    subst heq
    rw [h.settled hi, Option.map_map]
    exact Option.map_congr fun decl _ => by rw [Function.comp_apply, settle_settle]
  · rfl

/-- **One more visit**, whose containers have been visited before. -/
theorem fillModule (h : Resolved config forest done state)
    (hcontainer : ∀ p, forest.codeParent? i = some p → done p) :
    Resolved config forest (fun j => done j ∨ j = i) (fillModule config state i) := by
  have hparent := codeParent?_fillModule config state i
  have hclosed : ∀ {j p}, done j ∨ j = i → forest.codeParent? j = some p → done p := by
    rintro j p (hj | rfl) hp
    · exact h.closed hj hp
    · exact hcontainer p hp
  -- the modules of containers, which have been settled, do not change any more
  have hsettle : ∀ {j} decl, done j ∨ j = i →
      (Forest.fillModule config state i).settle config j decl = state.settle config j decl := by
    intro j decl hj
    rw [settle, settle, hparent]
    refine if_congr Iff.rfl rfl (moduleFor_congr config decl ?_)
    refine Option.map_congr fun p hp => ?_
    have hp : done p := hclosed hj (h.codeParent? ▸ Option.mem_def.1 hp)
    by_cases heq : i = p
    · rw [docModuleOf, docModuleOf, h.fillModule_of_done (heq ▸ hp)]
    · exact docModuleOf_fillModule_of_ne heq
  refine ⟨hparent.trans h.codeParent?, ?_, fun hj hp => .inl (hclosed hj hp), fun {j} hj => ?_,
    fun {j} hj => ?_⟩
  · exact (congrArg Prod.fst (bounds_fillModule config state i)).trans h.size
  · rw [decl?_fillModule, if_neg fun heq => hj (.inr heq.symm)]
    exact h.undone fun hdone => hj (.inl hdone)
  · simp only [hsettle _ hj]
    by_cases hdone : done j
    · by_cases heq : i = j
      · rw [h.fillModule_of_done (heq ▸ hdone), h.settled hdone]
      · rw [decl?_fillModule, if_neg heq, h.settled hdone]
    · obtain rfl : j = i := hj.resolve_left hdone
      rw [decl?_fillModule, if_pos rfl, h.undone hdone]

/-- **The visits along a path** settle all its nodes. -/
theorem foldl_climb {steps : Nat} (h : Resolved config forest done state)
    (hends : (climb forest.codeParent? steps i).length ≤ steps) :
    ∃ done', (∀ j, done j → done' j) ∧ done' i ∧ Resolved config forest done'
      ((climb forest.codeParent? steps i).reverse.foldl (Forest.fillModule config) state) := by
  induction steps generalizing i with
  | zero => simp [climb] at hends
  | succ steps ih =>
    rw [climb] at hends ⊢
    cases hp : forest.codeParent? i with
    | none =>
      refine ⟨_, fun _ => .inl, .inr rfl, h.fillModule fun p hp' => ?_⟩
      exact absurd (hp'.symm.trans hp) (Option.some_ne_none p)
    | some p =>
      rw [hp] at hends
      obtain ⟨done', hmono, hdone, hresolved⟩ := ih (Nat.le_of_succ_le_succ hends)
      rw [List.reverse_cons, List.foldl_append, List.foldl_cons, List.foldl_nil]
      refine ⟨_, fun j hj => .inl (hmono j hj), .inr rfl, hresolved.fillModule fun q hq => ?_⟩
      exact Option.some.inj (hp.symm.trans hq) ▸ hdone

end Resolved

/-! ## All visits -/

theorem exists_resolved_fillModules (h : forest.Nested) (config : Config) :
    ∃ done, (∀ i < forest.size, done i) ∧ Resolved config forest done (forest.fillModules config) := by
  have hall : ∀ (items : List Nat) (done : Nat → Prop) (state : Forest), (∀ i ∈ items, i < forest.size) →
      Resolved config forest done state → ∃ done', (∀ j, done j → done' j) ∧ (∀ i ∈ items, done' i) ∧
        Resolved config forest done' (items.foldl (fun state i =>
          (state.namespacePath i).foldl (fillModule config) state) state) := by
    intro items
    induction items with
    | nil => exact fun done state _ hstate => ⟨done, fun _ => id, by simp, hstate⟩
    | cons i rest ih =>
      intro done state hlt hstate
      obtain ⟨hi, hrest⟩ := List.forall_mem_cons.1 hlt
      have hpath : state.namespacePath i = (climb forest.codeParent? forest.size i).reverse := by
        rw [namespacePath, hstate.codeParent?, hstate.size]
      obtain ⟨done', hmono, hdone, hnext⟩ := hstate.foldl_climb (h.length_climb_le hi)
      obtain ⟨final, hmono', hdone', hfinal⟩ := ih done' _ hrest hnext
      rw [List.foldl_cons, hpath]
      exact ⟨final, fun j hj => hmono' j (hmono j hj),
        List.forall_mem_cons.2 ⟨hmono' i hdone, hdone'⟩, hfinal⟩
  obtain ⟨done, -, hdone, hresolved⟩ := hall (List.range forest.size) _ forest
    (fun i hi => List.mem_range.1 hi) (resolved_nil config forest)
  exact ⟨done, fun i hi => hdone i (List.mem_range.2 hi), hresolved⟩

/-- **In the end the module of a node follows from its declaration and the module of its container.** -/
theorem decl?_fillModules (h : forest.Nested) (config : Config) (i : Nat) :
    (forest.fillModules config).decl? i = (forest.decl? i).map fun decl =>
      { decl with docModule := (forest.fillModules config).settle config i decl } := by
  obtain ⟨done, hdone, hresolved⟩ := exists_resolved_fillModules h config
  by_cases hi : i < forest.size
  · exact hresolved.settled (hdone i hi)
  · rw [decl?_of_le (Nat.not_lt.1 hi), decl?_of_le (hresolved.size ▸ Nat.not_lt.1 hi), Option.map_none]

theorem codeParent?_fillModules (config : Config) (forest : Forest) :
    (forest.fillModules config).codeParent? = forest.codeParent? :=
  codeParent?_congr fun _ => view_fillModules (fun _ _ _ _ => rfl) config

theorem size_fillModules (config : Config) (forest : Forest) :
    (forest.fillModules config).size = forest.size :=
  congrArg Prod.fst (foldl_keeps bounds _ _ fun _ _ => foldl_keeps bounds _ _ fun _ _ =>
    bounds_fillModule config _ _)

/-- **Modules do not depend on nodes that are no containers.** -/
theorem Relabels.fillModules (h : Relabels e part whole) (hpart : part.Nested) (hwhole : whole.Nested)
    (config : Config) : Relabels e (part.fillModules config) (whole.fillModules config) := by
  have hparent : ∀ i, (whole.fillModules config).codeParent? (e i) =
      ((part.fillModules config).codeParent? i).map e := fun i => by
    rw [codeParent?_fillModules, codeParent?_fillModules, h.codeParent?]
  -- the induction follows the containers, whose modules are known first
  have hstep : ∀ i, (∀ p, part.codeParent? i = some p →
      (whole.fillModules config).decl? (e p) = (part.fillModules config).decl? p) →
        (whole.fillModules config).decl? (e i) = (part.fillModules config).decl? i := by
    intro i ih
    have hsettle : ∀ decl, (whole.fillModules config).settle config (e i) decl =
        (part.fillModules config).settle config i decl := by
      intro decl
      have habove : (((part.fillModules config).codeParent? i).map e).map
          (whole.fillModules config).docModuleOf =
          ((part.fillModules config).codeParent? i).map (part.fillModules config).docModuleOf := by
        rw [Option.map_map]
        refine Option.map_congr fun p hp => ?_
        rw [codeParent?_fillModules] at hp
        rw [Function.comp_apply, Forest.docModuleOf, Forest.docModuleOf, ih p (Option.mem_def.1 hp)]
      rw [settle, settle, hparent]
      exact if_congr Iff.rfl rfl (moduleFor_congr config decl habove)
    rw [decl?_fillModules hwhole, decl?_fillModules hpart, h.decl?]
    simp only [hsettle]
  have hdecl : ∀ i, (whole.fillModules config).decl? (e i) = (part.fillModules config).decl? i := by
    intro i
    induction hpart.ends i with
    | top hnone => exact hstep _ fun p hp => absurd (hp.symm.trans hnone) (Option.some_ne_none p)
    | step hp _ ih => exact hstep _ fun q hq => Option.some.inj (hp.symm.trans hq) ▸ ih
  exact h.congr (size_fillModules _ _) (size_fillModules _ _) (codeParent?_fillModules _ _)
    (codeParent?_fillModules _ _) (fun i => satisfies_congr (view_fillModules (fun _ _ _ _ => rfl) _)) hdecl

end Forest
end DocForest
