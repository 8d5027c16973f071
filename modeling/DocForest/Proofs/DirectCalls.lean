import DocForest.Proofs.Granting
import Mathlib.Data.Set.List
import Mathlib.Tactic.Lift

/-!
# Calls that count from the front

An index that is not negative names the same node at any time.  An arena that has been given such indices
only is no more than a forest, and such a call on it **does what the operation of the forest does, and is
refused for the same reason**.

## What is here

* `Arena.ofForest` — a forest as an arena; `forest_ofForest` — it shows that forest.
* `ofForest_add`, `ofForest_link`, `ofForest_setChildren`, `ofForest_setRoots` — the calls.
* `Operation.Direct` — no index of a call is negative.
* `exists_ofForest_afterAll` — **behind such calls an arena is a forest in which children and parents
  agree.**
-/

set_option autoImplicit false

namespace DocForest

/-- The indices that a call is given. -/
def Operation.indices : Operation → List Int
  | .add _ => []
  | .addAgain k => [k]
  | .link child parent => [child, parent]
  | .setChildren parent children => parent :: children
  | .setRoots roots => roots

/-- Whether they all count from the front. -/
def Operation.Direct (operation : Operation) : Prop :=
  ∀ k ∈ operation.indices, 0 ≤ k

/-- A node with links that count from the front. -/
def Entry.ofNode (node : Node) : Entry where
  decl := node.decl
  codeParent := node.codeParent.map Nat.cast
  docsParent := node.docsParent.map Nat.cast
  children := node.children.map fun children => children.map Nat.cast
  mergedInto := node.mergedInto
  undocumentedBase := node.undocumentedBase

namespace Arena

/-- A forest as an arena. -/
def ofForest (forest : Forest) : Arena where
  entries := forest.nodes.map Entry.ofNode
  roots := forest.roots.map fun roots => roots.map Nat.cast

variable {arena next : Arena} {forest : Forest} {operation : Operation} {i p c : Nat} {children roots : List Nat}

/-! ## What it shows -/

theorem map_position_natCast (size : Nat) (items : List Nat) :
    (items.map Nat.cast).map (DocForest.position size) = items := by
  rw [List.map_map]
  exact List.map_id items

theorem node_ofNode (size : Nat) (node : Node) : (Entry.ofNode node).node size = node := by
  have hlist : (fun children => children.map (DocForest.position size)) ∘
      (fun children : List Nat => children.map Nat.cast) = id :=
    funext (map_position_natCast size)
  have hone : DocForest.position size ∘ Nat.cast = id := rfl
  simp only [Entry.node, Entry.ofNode, Option.map_map, hone, hlist, Option.map_id, id_eq]

theorem position_ofForest (forest : Forest) (i : Nat) : (ofForest forest).position i = i := rfl

theorem forest_ofForest (forest : Forest) : (ofForest forest).forest = forest := by
  have hnodes : Entry.node (ofForest forest).size ∘ Entry.ofNode = id :=
    funext fun node => node_ofNode _ node
  have hroots : (fun roots => roots.map (ofForest forest).position) ∘
      (fun roots : List Nat => roots.map Nat.cast) = id :=
    funext (map_position_natCast _)
  cases forest with
  | mk nodes roots =>
    simp only [Arena.forest, ofForest, Array.map_map, Option.map_map] at hnodes hroots ⊢
    rw [hnodes, hroots, Array.map_id, Option.map_id, id]

theorem rootList_ofForest (forest : Forest) : (ofForest forest).rootList = forest.rootList.map Nat.cast := by
  rw [rootList, ofForest, Forest.rootList]
  cases forest.roots <;> rfl

theorem entryAt?_ofForest (forest : Forest) (i : Nat) :
    (ofForest forest).entryAt? i = (forest.node? i).map Entry.ofNode :=
  Array.getElem?_map

theorem childIndices?_ofForest (forest : Forest) (i : Nat) :
    (ofForest forest).childIndices? i = (forest.childList? i).map fun children => children.map Nat.cast := by
  rw [childIndices?, entryAt?_ofForest, Forest.childList?]
  cases forest.node? i <;> rfl

/-! ## Calls -/

theorem ofForest_add (forest : Forest) (decl : Declaration) :
    (ofForest forest).add decl = ofForest (forest.add decl) := by
  simp [add, ofForest, Forest.add, Entry.ofNode]

theorem ofForest_modify (forest : Forest) (i : Nat) (change : Entry → Entry) (change' : Node → Node)
    (h : ∀ node, change (Entry.ofNode node) = Entry.ofNode (change' node)) :
    (ofForest forest).modify i change = ofForest (forest.modify i change') := by
  have hentries : (forest.nodes.map Entry.ofNode).modify i change =
      (forest.nodes.modify i change').map Entry.ofNode := by
    refine Array.ext_getElem? fun j => ?_
    simp only [Array.getElem?_modify, Array.getElem?_map]
    split
    · rw [Option.map_map, Option.map_map]
      exact Option.map_congr fun node _ => h node
    · rfl
  exact congrArg (Arena.mk · _) hentries

theorem entry_ofForest (forest : Forest) (i : Nat) :
    (ofForest forest).entry i = (forest.node i).map Entry.ofNode := by
  rw [entry, position_ofForest, entryAt?_ofForest, Forest.node]
  cases forest.node? i <;> rfl

theorem ofForest_link (forest : Forest) (c p : Nat) :
    (ofForest forest).link c p = (forest.link c p).map ofForest := by
  have hchange := ofForest_modify forest c (fun entry => { entry with codeParent := some (p : Int) })
    (fun node => { node with codeParent := some p }) fun _ => rfl
  rw [link, entry_ofForest, Forest.link]
  cases forest.node c with
  | error failure => rfl
  | ok node =>
    rw [Except.map, Outcome.ok_bind, Outcome.ok_bind, Entry.ofNode, Option.isSome_map]
    split
    · rfl
    · exact congrArg Except.ok hchange

theorem checkChild_ofForest (forest : Forest) (p c : Nat) :
    (ofForest forest).checkChild p c = forest.checkChild p c := by
  have hroots : (ofForest forest).rootList.contains (c : Int) = forest.rootList.contains c := by
    rw [rootList_ofForest, Bool.eq_iff_iff, List.contains_iff_mem, List.contains_iff_mem]
    exact List.mem_map_of_injective fun _ _ => Int.ofNat.inj
  have hself : ((c : Int) == (p : Int)) = (c == p) := by
    rw [Bool.eq_iff_iff, beq_iff_eq, beq_iff_eq, Int.natCast_inj]
  rw [checkChild, entry_ofForest, Forest.checkChild, hroots, hself]
  cases forest.node c with
  | error failure => rfl
  | ok node =>
    rw [Except.map, Outcome.ok_bind, Outcome.ok_bind, Entry.ofNode, Option.isSome_map]

theorem ofForest_putParents (forest : Forest) (p : Nat) (children : List Nat) :
    (ofForest forest).putParents p (children.map Nat.cast) = ofForest (forest.putParents p children) := by
  induction children generalizing forest with
  | nil => rfl
  | cons c rest ih =>
    rw [List.map_cons, putParents, List.foldl_cons, ← putParents,
      ofForest_modify forest c _ (fun node => { node with docsParent := some p }) fun _ => rfl, ih]
    rfl

theorem ofForest_withChildren (forest : Forest) (p : Nat) (children : List Nat) :
    (ofForest forest).withChildren p (children.map Nat.cast) = ofForest (forest.withChildren p children) := by
  rw [withChildren, ofForest_putParents,
    ofForest_modify _ p _ (fun node => { node with children := some children }) fun _ => rfl]
  rfl

theorem ofForest_setChildren (forest : Forest) (p : Nat) (children : List Nat) :
    (ofForest forest).setChildren p (children.map Nat.cast) =
      (forest.setChildren p children).map ofForest := by
  have hchecks : (children.map Nat.cast).forM ((ofForest forest).checkChild p) =
      children.forM (forest.checkChild p) :=
    Outcome.forM_map_congr fun c _ => checkChild_ofForest forest p c
  rw [setChildren, entry_ofForest, Forest.setChildren, hchecks, ofForest_withChildren]
  cases forest.node p with
  | error failure => rfl
  | ok node =>
    rw [Except.map, Outcome.ok_bind, Outcome.ok_bind, Entry.ofNode, Option.isSome_map]
    split
    · rfl
    · cases children.forM (forest.checkChild p) <;> rfl

theorem checkRoot_ofForest (forest : Forest) (r : Nat) :
    (ofForest forest).checkRoot r = forest.checkRoot r := by
  rw [checkRoot, entry_ofForest, Forest.checkRoot]
  cases forest.node r with
  | error failure => rfl
  | ok node =>
    rw [Except.map, Outcome.ok_bind, Outcome.ok_bind, Entry.ofNode, Option.isSome_map]

theorem ofForest_setRoots (forest : Forest) (roots : List Nat) :
    (ofForest forest).setRoots (roots.map Nat.cast) = (forest.setRoots roots).map ofForest := by
  have hchecks : (roots.map Nat.cast).forM (ofForest forest).checkRoot = roots.forM forest.checkRoot :=
    Outcome.forM_map_congr fun r _ => checkRoot_ofForest forest r
  have hfree : (ofForest forest).roots.isSome = forest.roots.isSome := Option.isSome_map
  rw [setRoots, Forest.setRoots, hchecks, hfree]
  split
  · rfl
  · cases roots.forM forest.checkRoot <;> rfl

/-! ## Several calls -/

/-- **A direct call that is not refused makes a forest of a forest**, and keeps children and parents in
agreement. -/
theorem exists_ofForest_of_apply (htied : forest.Tied) (hdirect : operation.Direct)
    (h : operation.apply (ofForest forest) = .ok next) : ∃ later, next = ofForest later ∧ later.Tied := by
  -- the operation of the forest that the call does
  have hcall : ∀ {outcome : Except Failure Forest}, outcome.map ofForest = .ok next →
      ∃ later, outcome = .ok later ∧ next = ofForest later := by
    intro outcome hmap
    cases outcome with
    | error failure => cases hmap
    | ok later => exact ⟨later, rfl, (Except.ok.inj hmap).symm⟩
  cases operation with
  | add decl =>
    refine ⟨forest.add decl, ?_, htied.add decl⟩
    exact (Except.ok.inj h).symm.trans (ofForest_add forest decl)
  | addAgain k =>
    obtain ⟨entry, -, hthrow⟩ := Outcome.bind_eq_ok.1 h
    exact absurd hthrow Outcome.throw_ne_ok
  | link child parent =>
    lift child to Nat using hdirect child (by simp [Operation.indices])
    lift parent to Nat using hdirect parent (by simp [Operation.indices])
    obtain ⟨later, hlink, rfl⟩ := hcall ((ofForest_link forest child parent).symm.trans h)
    obtain ⟨-, -, rfl⟩ := Forest.link_eq_ok.1 hlink
    exact ⟨_, rfl, htied.modify _ (fun _ => rfl) fun _ => rfl⟩
  | setChildren parent children =>
    lift parent to Nat using hdirect parent (by simp [Operation.indices])
    lift children to List Nat using fun c hc => hdirect c (List.mem_cons_of_mem _ hc)
    obtain ⟨later, hset, rfl⟩ := hcall ((ofForest_setChildren forest parent children).symm.trans h)
    obtain ⟨hparent, hfree, hchildren, rfl⟩ := Forest.setChildren_eq_ok_iff.1 hset
    exact ⟨_, rfl, htied.setChildren hparent hfree hchildren⟩
  | setRoots roots =>
    lift roots to List Nat using hdirect
    obtain ⟨later, hset, rfl⟩ := hcall ((ofForest_setRoots forest roots).symm.trans h)
    obtain ⟨-, hroots, rfl⟩ := Forest.setRoots_eq_ok.1 hset
    exact ⟨_, rfl, htied.setRoots hroots⟩

theorem exists_ofForest (htied : forest.Tied) (operations : List Operation)
    (hdirect : ∀ call ∈ (ofForest forest).accepted operations, call.2.Direct) :
    ∃ later, (ofForest forest).afterAll operations = ofForest later ∧ later.Tied := by
  induction operations generalizing forest with
  | nil => exact ⟨forest, rfl, htied⟩
  | cons operation rest ih =>
    change ∃ later, ((ofForest forest).after operation).afterAll rest = ofForest later ∧ _
    rw [after]
    rw [accepted] at hdirect
    cases happly : operation.apply (ofForest forest) with
    | error failure =>
      rw [happly] at hdirect
      exact ih htied hdirect
    | ok next =>
      rw [happly] at hdirect
      obtain ⟨hfirst, hrest⟩ := List.forall_mem_cons.1 hdirect
      obtain ⟨later, rfl, hlater⟩ := exists_ofForest_of_apply htied hfirst happly
      exact ih hlater hrest

/-- **If no index counts from the end of all calls that are not refused, the arena is a forest in which
children and parents agree.** -/
theorem exists_ofForest_afterAll {operations : List Operation}
    (hdirect : ∀ call ∈ accepted {} operations, call.2.Direct) :
    ∃ forest, afterAll {} operations = ofForest forest ∧ forest.Tied := by
  have hempty : ofForest {} = {} := by simp [ofForest]
  exact hempty ▸ exists_ofForest Forest.tied_empty operations (hempty ▸ hdirect)

end Arena
end DocForest
