import DocForest.Forest.Walk
import Mathlib.Data.List.Nodup
import Mathlib.Data.List.Perm.Subperm

/-!
# Walking down from the roots

`preorder` follows lists of children through a number of levels.  This file says which nodes it
meets, and how often, when the number of levels is large enough to be no restriction.

## What is here

* `Below` — the nodes that are found by going down from some starts, in any number of steps.
* `Trail` — the same with the way back up to the start, which is what `preorder` counts the levels
  of (`mem_preorder`).
* `Below.upward` — induction from the children of a node to the node, where no way down is endless;
  `preorder_congr`, the walk depends on the lists of the nodes that it meets alone.
* `Acyclic` — no node that can be reached is below itself.  Then a way repeats no node
  (`Acyclic.nodup_trail`), and the walk meets every node below the starts (`Acyclic.mem_preorder_iff`).
  Nothing is said of nodes that no start leads to: they may well run in a circle.
* `OnePlace` — the condition that makes lists of children and roots a forest as far as they can be
  reached: **nobody has two places**.  Then the way to a node is unique (`OnePlace.trail_unique`), there
  is no circle (`OnePlace.acyclic`), and the walk meets no node twice (`OnePlace.nodup_preorder`).
* `OnePlace.wrap`, `below_wrap` — putting some of the roots under a new one.
-/

set_option autoImplicit false

namespace DocForest

variable {children children' : Nat → List Nat} {starts roots rest : List Nat} {i p : Nat}

/-! ## Ways down -/

/-- The nodes that are found by going down from some starts. -/
inductive Below (children : Nat → List Nat) (starts : List Nat) : Nat → Prop
  | start {i : Nat} (h : i ∈ starts) : Below children starts i
  | child {p i : Nat} (hp : Below children starts p) (h : i ∈ children p) : Below children starts i

/-- A way down from a start to a node, read from the node up to the start. -/
inductive Trail (children : Nat → List Nat) (starts : List Nat) : Nat → List Nat → Prop
  | start {i : Nat} (h : i ∈ starts) : Trail children starts i [i]
  | child {p i : Nat} {path : List Nat} (hp : Trail children starts p path) (h : i ∈ children p) :
      Trail children starts i (i :: path)

theorem below_iff_exists_trail : Below children starts i ↔ ∃ path, Trail children starts i path := by
  constructor
  · intro h
    induction h with
    | start h => exact ⟨_, .start h⟩
    | child _ h ih =>
      obtain ⟨path, hpath⟩ := ih
      exact ⟨_, .child hpath h⟩
  · rintro ⟨path, h⟩
    induction h with
    | start h => exact .start h
    | child _ h ih => exact .child ih h

theorem Trail.isBelow {path : List Nat} (h : Trail children starts i path) :
    Below children starts i :=
  below_iff_exists_trail.2 ⟨path, h⟩

theorem Below.mono (hstarts : starts ⊆ roots) (hchildren : ∀ p, children p ⊆ children' p)
    (h : Below children starts i) : Below children' roots i := by
  induction h with
  | start h => exact .start (hstarts h)
  | child _ h ih => exact .child ih (hchildren _ h)

theorem Below.congr (h : Below children starts i)
    (hchildren : ∀ p, Below children starts p → Below children' starts p → children p = children' p) :
    Below children' starts i := by
  induction h with
  | start h => exact .start h
  | child hp h ih => exact .child ih (hchildren _ hp ih ▸ h)

theorem Trail.mono {path : List Nat} (hstarts : starts ⊆ roots) (h : Trail children starts i path) :
    Trail children roots i path := by
  induction h with
  | start h => exact .start (hstarts h)
  | child _ h ih => exact .child ih h

theorem Trail.append {path path' : List Nat} {s : Nat} (h : Trail children (children s) i path)
    (hs : Trail children starts s path') : Trail children starts i (path ++ path') := by
  induction h with
  | start h => exact .child hs h
  | child _ h ih => exact .child ih h

theorem Trail.extend {path : List Nat} {s : Nat} (hs : s ∈ starts)
    (h : Trail children (children s) i path) : Trail children starts i (path ++ [s]) :=
  h.append (.start hs)

theorem eq_nil_of_length_trail_le_zero
    (hlength : ∀ i path, Trail children starts i path → path.length ≤ 0) : starts = [] :=
  List.eq_nil_iff_forall_not_mem.2 fun s hs => absurd (hlength s [s] (.start hs)) (by simp)

/-- Below a start there is one level less than there is with it. -/
theorem length_trail_le_of_mem {depth s : Nat}
    (hlength : ∀ i path, Trail children starts i path → path.length ≤ depth + 1) (hs : s ∈ starts)
    {path : List Nat} (h : Trail children (children s) i path) : path.length ≤ depth := by
  have hle := hlength i _ (h.extend hs)
  rwa [List.length_append, List.length_singleton, Nat.add_le_add_iff_right] at hle

/-- **What holds of a node if it holds of its children holds of all nodes below the starts**, when there
is an end to the ways down from them. -/
theorem Below.upward {bound : Nat} {P : Nat → Prop}
    (hlength : ∀ i path, Trail children starts i path → path.length ≤ bound)
    (hstep : ∀ i, Below children starts i → (∀ c ∈ children i, P c) → P i)
    (hi : Below children starts i) : P i := by
  obtain ⟨path, hpath⟩ := below_iff_exists_trail.1 hi
  -- the longer the way to a node is, the fewer levels there are below it
  generalize hlevels : bound - path.length = levels
  induction levels generalizing i path with
  | zero =>
    refine hstep i hi fun c hc => ?_
    have hle := hlength c _ (hpath.child hc)
    rw [List.length_cons] at hle
    omega
  | succ levels ih =>
    refine hstep i hi fun c hc => ?_
    refine ih (.child hi hc) _ (hpath.child hc) ?_
    rw [List.length_cons]
    omega

/-- The first step of a way: it ends at its start, or goes on below it. -/
theorem Trail.split {path : List Nat} (h : Trail children starts i path) :
    ∃ s ∈ starts, (i = s ∧ path = [s]) ∨
      ∃ front, Trail children (children s) i front ∧ path = front ++ [s] := by
  induction h with
  | start h => exact ⟨_, h, .inl ⟨rfl, rfl⟩⟩
  | @child p i path _ h ih =>
    obtain ⟨s, hs, ⟨rfl, rfl⟩ | ⟨front, hfront, rfl⟩⟩ := ih
    · exact ⟨p, hs, .inr ⟨[i], .start h, rfl⟩⟩
    · exact ⟨s, hs, .inr ⟨i :: front, .child hfront h, rfl⟩⟩

theorem Trail.mem {path : List Nat} (h : Trail children starts i path) : i ∈ path := by
  cases h <;> exact List.mem_cons_self

theorem Trail.exists_start {path : List Nat} (h : Trail children starts i path) :
    ∃ s ∈ starts, path.getLast? = some s := by
  obtain ⟨s, hs, ⟨-, rfl⟩ | ⟨front, -, rfl⟩⟩ := h.split
  · exact ⟨s, hs, rfl⟩
  · exact ⟨s, hs, List.getLast?_concat⟩

theorem Trail.length_pos {path : List Nat} (h : Trail children starts i path) : 0 < path.length := by
  cases h <;> simp

/-- **The walk meets the nodes that a way of at most so many levels leads to.** -/
theorem mem_preorder (children : Nat → List Nat) (depth : Nat) (starts : List Nat) (i : Nat) :
    i ∈ preorder children depth starts ↔
      ∃ path, Trail children starts i path ∧ path.length ≤ depth := by
  induction depth generalizing starts with
  | zero =>
    refine ⟨fun h => (List.not_mem_nil h).elim, fun ⟨path, hpath, hlength⟩ => ?_⟩
    exact absurd hpath.length_pos (by omega)
  | succ depth ih =>
    simp only [preorder, List.mem_flatMap, List.mem_cons, ih]
    constructor
    · rintro ⟨s, hs, rfl | ⟨path, hpath, hlength⟩⟩
      · exact ⟨[i], .start hs, by simp⟩
      · exact ⟨path ++ [s], hpath.extend hs, by simpa using hlength⟩
    · rintro ⟨path, hpath, hlength⟩
      obtain ⟨s, hs, ⟨rfl, rfl⟩ | ⟨front, hfront, rfl⟩⟩ := hpath.split
      · exact ⟨i, hs, .inl rfl⟩
      · exact ⟨s, hs, .inr ⟨front, hfront, by simpa using hlength⟩⟩

theorem below_of_mem_preorder {depth : Nat} (h : i ∈ preorder children depth starts) :
    Below children starts i := by
  obtain ⟨path, hpath, -⟩ := (mem_preorder children depth starts i).1 h
  exact hpath.isBelow

/-- **The walk depends on the lists below its starts alone**, if it has levels enough. -/
theorem preorder_congr {n k : Nat}
    (hchildren : ∀ p, Below children starts p → children p = children' p)
    (hn : ∀ i path, Trail children starts i path → path.length ≤ n)
    (hk : ∀ i path, Trail children' starts i path → path.length ≤ k) :
    preorder children n starts = preorder children' k starts := by
  induction n generalizing k starts with
  | zero => rw [eq_nil_of_length_trail_le_zero hn, preorder_nil, preorder_nil]
  | succ n ih =>
    cases k with
    | zero => rw [eq_nil_of_length_trail_le_zero hk, preorder_nil, preorder_nil]
    | succ k =>
      refine List.flatMap_congr fun s hs => congrArg (s :: ·) ?_
      have hbelow : ∀ p, Below children (children s) p → Below children starts p := by
        intro p hp
        obtain ⟨path, hpath⟩ := below_iff_exists_trail.1 hp
        exact (hpath.extend hs).isBelow
      have hright : ∀ i path, Trail children' (children' s) i path → path.length ≤ k :=
        fun _ _ => length_trail_le_of_mem hk hs
      rw [← hchildren s (.start hs)] at hright ⊢
      exact ih (fun p hp => hchildren p (hbelow p hp)) (fun _ _ => length_trail_le_of_mem hn hs) hright

theorem preorder_sublist_of_mem {depth s : Nat} (hs : s ∈ starts) :
    (preorder children depth (children s)).Sublist (preorder children (depth + 1) starts) := by
  obtain ⟨front, back, rfl⟩ := List.append_of_mem hs
  rw [preorder_append, preorder_cons]
  exact (List.sublist_cons_self _ _).trans
    ((List.sublist_append_left _ _).trans (List.sublist_append_right _ _))

/-- The starts stand in the walk in their order, -/
theorem sublist_preorder {depth : Nat}
    (hlength : ∀ i path, Trail children starts i path → path.length ≤ depth) :
    starts.Sublist (preorder children depth starts) := by
  cases depth with
  | zero => rw [eq_nil_of_length_trail_le_zero hlength, preorder_nil]
  | succ depth =>
    clear hlength
    induction starts with
    | nil => exact List.nil_sublist _
    | cons s rest ih =>
      rw [preorder_cons, List.cons_append]
      exact (ih.trans (List.sublist_append_right _ _)).cons_cons s

/-- and so do the children of every node that it meets. -/
theorem children_sublist_preorder {depth : Nat}
    (hlength : ∀ i path, Trail children starts i path → path.length ≤ depth)
    (hp : Below children starts p) : (children p).Sublist (preorder children depth starts) := by
  obtain ⟨path, hpath⟩ := below_iff_exists_trail.1 hp
  induction depth generalizing starts path with
  | zero => exact absurd hpath.length_pos (Nat.not_lt.2 (hlength p path hpath))
  | succ depth ih =>
    obtain ⟨s, hs, ⟨rfl, -⟩ | ⟨front, hfront, -⟩⟩ := hpath.split
    · exact (sublist_preorder fun _ _ => length_trail_le_of_mem hlength hs).trans
        (preorder_sublist_of_mem hs)
    · exact (ih (fun _ _ => length_trail_le_of_mem hlength hs) hfront.isBelow front hfront).trans
        (preorder_sublist_of_mem hs)

/-- If there is only one way to every node, the walk meets no node twice. -/
theorem nodup_preorder_of_unique (hchildren : ∀ p, (children p).Nodup) (depth : Nat)
    (hstarts : starts.Nodup)
    (hunique : ∀ i path path', Trail children starts i path → Trail children starts i path' →
      path = path') : (preorder children depth starts).Nodup := by
  induction depth generalizing starts with
  | zero => exact List.nodup_nil
  | succ depth ih =>
    -- two ways that pass different starts, or one of them no start below, differ at their ends
    have hlast : ∀ s ∈ starts, ∀ i ∈ s :: preorder children depth (children s),
        ∃ front, Trail children starts i (front ++ [s]) := by
      intro s hs i hi
      rcases List.mem_cons.1 hi with rfl | hi
      · exact ⟨[], .start hs⟩
      · obtain ⟨path, hpath, -⟩ := (mem_preorder _ _ _ _).1 hi
        exact ⟨path, hpath.extend hs⟩
    refine List.nodup_flatMap.2 ⟨fun s hs => List.nodup_cons.2 ⟨fun hmem => ?_, ?_⟩, ?_⟩
    · obtain ⟨path, hpath, -⟩ := (mem_preorder _ _ _ _).1 hmem
      have := congrArg List.length (hunique s _ _ (.start hs) (hpath.extend hs))
      have := hpath.length_pos
      simp_all
    · refine ih (hchildren s) fun i path path' h h' => ?_
      exact List.append_cancel_right (hunique i _ _ (h.extend hs) (h'.extend hs))
    · refine hstarts.imp_of_mem fun {s s'} hs hs' hne => ?_
      intro i hi hi'
      obtain ⟨front, hfront⟩ := hlast s hs i hi
      obtain ⟨front', hfront'⟩ := hlast s' hs' i hi'
      have := congrArg List.getLast? (hunique i _ _ hfront hfront')
      simp only [List.getLast?_append, List.getLast?_singleton, Option.some_or,
        Option.some.injEq] at this
      exact hne this

/-- Every node on the way to a node is reached by the end of that way. -/
theorem Trail.suffix {path : List Nat} {j : Nat} (h : Trail children starts i path) (hj : j ∈ path) :
    ∃ front back, path = front ++ back ∧ Trail children starts j back := by
  induction h with
  | start h =>
    obtain rfl := List.mem_singleton.1 hj
    exact ⟨[], _, rfl, .start h⟩
  | @child p i path hp h ih =>
    rcases List.mem_cons.1 hj with rfl | hj
    · exact ⟨[], _, rfl, .child hp h⟩
    · obtain ⟨front, back, rfl, hback⟩ := ih hj
      exact ⟨i :: front, back, rfl, hback⟩

theorem Trail.children_ne_nil {path : List Nat} {j : Nat} (h : Trail children starts i path)
    (hj : j ∈ path.tail) : children j ≠ [] := by
  induction h with
  | start => exact (List.not_mem_nil hj).elim
  | @child p i path hp h ih =>
    cases hp with
    | start =>
      obtain rfl := List.mem_singleton.1 hj
      exact List.ne_nil_of_mem h
    | child =>
      rcases List.mem_cons.1 hj with rfl | hj
      · exact List.ne_nil_of_mem h
      · exact ih hj

/-- A node on the way to another is that one, or has it below its children. -/
theorem Trail.eq_or_below {path : List Nat} {j : Nat} (h : Trail children starts i path)
    (hj : j ∈ path) : i = j ∨ Below children (children j) i := by
  induction h with
  | start => exact .inl (List.mem_singleton.1 hj).symm
  | @child p i path _ hi ih =>
    rcases List.mem_cons.1 hj with rfl | hj
    · exact .inl rfl
    · rcases ih hj with rfl | hp
      · exact .inr (.start hi)
      · exact .inr (.child hp hi)

/-! ## No circles -/

/-- No node below the starts is found once more by going down from its own children. -/
def Acyclic (children : Nat → List Nat) (starts : List Nat) : Prop :=
  ∀ i, Below children starts i → ¬Below children (children i) i

namespace Acyclic

theorem nodup_trail (h : Acyclic children starts) {path : List Nat}
    (ht : Trail children starts i path) : path.Nodup := by
  induction ht with
  | start => exact List.nodup_singleton _
  | @child p i path hp hi ih =>
    refine List.nodup_cons.2 ⟨fun hmem => h i (.child hp.isBelow hi) ?_, ih⟩
    rcases hp.eq_or_below hmem with rfl | hbelow
    · exact .start hi
    · exact .child hbelow hi

/-- No way has more nodes than there are nodes with children, its end apart. -/
theorem length_trail_le_inner (h : Acyclic children starts) {inner path : List Nat}
    (hinner : ∀ p, children p ≠ [] → p ∈ inner) (ht : Trail children starts i path) :
    path.length ≤ inner.length + 1 := by
  have htail : path.tail.length ≤ inner.length :=
    ((h.nodup_trail ht).sublist (List.tail_sublist path)).subperm
      (fun j hj => hinner j (ht.children_ne_nil hj)) |>.length_le
  rw [List.length_tail] at htail
  omega

theorem length_trail_le (h : Acyclic children starts) {size : Nat} {path : List Nat}
    (hsize : ∀ i, Below children starts i → i < size) (ht : Trail children starts i path) :
    path.length ≤ size := by
  have hle : path.length ≤ (List.range size).length :=
    (h.nodup_trail ht).subperm (fun j hj => ?_) |>.length_le
  · rwa [List.length_range] at hle
  · obtain ⟨-, back, -, hback⟩ := ht.suffix hj
    exact List.mem_range.2 (hsize j hback.isBelow)

/-- **The walk is complete** if it has one level more than there are nodes with children. -/
theorem mem_preorder_iff (h : Acyclic children starts) {depth : Nat} {inner : List Nat}
    (hinner : ∀ p, children p ≠ [] → p ∈ inner) (hdepth : inner.length < depth) :
    i ∈ preorder children depth starts ↔ Below children starts i := by
  refine ⟨below_of_mem_preorder, fun hi => ?_⟩
  obtain ⟨path, hpath⟩ := below_iff_exists_trail.1 hi
  have hlength := h.length_trail_le_inner hinner hpath
  exact (mem_preorder _ _ _ _).2 ⟨path, hpath, by omega⟩

/-- A walk with as many levels as there are nodes is complete, too. -/
theorem mem_preorder_iff_of_lt (h : Acyclic children starts) {size : Nat}
    (hsize : ∀ i, Below children starts i → i < size) :
    i ∈ preorder children size starts ↔ Below children starts i := by
  refine ⟨below_of_mem_preorder, fun hi => ?_⟩
  obtain ⟨path, hpath⟩ := below_iff_exists_trail.1 hi
  exact (mem_preorder _ _ _ _).2 ⟨path, hpath, h.length_trail_le hsize hpath⟩

/-- Taking nodes out of the lists closes no circle. -/
theorem mono (h : Acyclic children roots) (hroots : starts ⊆ roots)
    (hchildren : ∀ p, children' p ⊆ children p) : Acyclic children' starts :=
  fun i hi hloop => h i (hi.mono hroots hchildren) (hloop.mono (hchildren i) hchildren)

end Acyclic

/-- There is no circle if every node has a smaller number than its children. -/
theorem acyclic_of_lt (h : ∀ p, ∀ c ∈ children p, p < c) : Acyclic children starts := by
  intro i _ hloop
  have hlt : ∀ j, Below children (children i) j → i < j := by
    intro j hj
    induction hj with
    | start hj => exact h i _ hj
    | child _ hj ih => exact Nat.lt_trans ih (h _ _ hj)
  exact Nat.lt_irrefl i (hlt i hloop)

/-! ## Nobody has two places -/

/-- No node is listed twice, be it among the roots, among the children of one node, or among those
of two. -/
structure OnePlace (children : Nat → List Nat) (roots : List Nat) : Prop where
  roots_nodup : roots.Nodup
  children_nodup : ∀ p, (children p).Nodup
  /-- No node is a child of two. -/
  parent_unique : ∀ {p q i}, i ∈ children p → i ∈ children q → p = q
  /-- No root is a child. -/
  root_free : ∀ {p i}, i ∈ roots → i ∉ children p

namespace OnePlace

theorem trail_unique (h : OnePlace children roots) {path path' : List Nat}
    (ht : Trail children roots i path) (ht' : Trail children roots i path') : path = path' := by
  induction ht generalizing path' with
  | start hi =>
    cases ht' with
    | start => rfl
    | child _ hi' => exact absurd hi' (h.root_free hi)
  | child _ hi ih =>
    cases ht' with
    | start hi' => exact absurd hi (h.root_free hi')
    | child hp' hi' =>
      obtain rfl := h.parent_unique hi hi'
      rw [ih hp']

/-- Nobody is below itself: there would be two ways to it, one longer than the other. -/
theorem acyclic (h : OnePlace children roots) : Acyclic children roots := by
  intro i hi hloop
  obtain ⟨path, hpath⟩ := below_iff_exists_trail.1 hi
  obtain ⟨path', hpath'⟩ := below_iff_exists_trail.1 hloop
  have hlength := congrArg List.length (h.trail_unique (hpath'.append hpath) hpath)
  have hpos := hpath'.length_pos
  rw [List.length_append] at hlength
  omega

/-- **The walk meets no node twice.** -/
theorem nodup_preorder (h : OnePlace children roots) (depth : Nat) :
    (preorder children depth roots).Nodup :=
  nodup_preorder_of_unique h.children_nodup depth h.roots_nodup
    fun _ _ _ ht ht' => h.trail_unique ht ht'

/-- Taking nodes out of the lists gives nobody a second place. -/
theorem sublist (h : OnePlace children roots) (hroots : starts.Sublist roots)
    (hchildren : ∀ p, (children' p).Sublist (children p)) : OnePlace children' starts where
  roots_nodup := h.roots_nodup.sublist hroots
  children_nodup p := (h.children_nodup p).sublist (hchildren p)
  parent_unique hi hi' := h.parent_unique ((hchildren _).subset hi) ((hchildren _).subset hi')
  root_free hi hi' := h.root_free (hroots.subset hi) ((hchildren _).subset hi')

/-- Neither does rearranging the roots. -/
theorem perm (h : OnePlace children roots) (hroots : starts.Perm roots) : OnePlace children starts where
  roots_nodup := hroots.nodup_iff.2 h.roots_nodup
  children_nodup := h.children_nodup
  parent_unique := h.parent_unique
  root_free hi := h.root_free (hroots.subset hi)

end OnePlace

/-! ## New groups -/

section Wrap

variable {items : List Nat} {g : Nat}

/-- **Some of the roots may be put under a new one**, which has been nowhere before. -/
theorem OnePlace.wrap (h : OnePlace children (items ++ rest))
    (hnew : g ∉ items ++ rest) (hchild : ∀ p, g ∉ children p) (hempty : children g = [])
    (hchildren : ∀ p, children' p = if g = p then items else children p) :
    OnePlace children' (g :: rest) := by
  have hitems : ∀ {i p}, i ∈ items → i ∉ children p :=
    fun hi => h.root_free (List.mem_append_left _ hi)
  have hrest : ∀ {i p}, i ∈ rest → i ∉ children p :=
    fun hi => h.root_free (List.mem_append_right _ hi)
  refine ⟨?_, fun p => ?_, fun {p q i} hp hq => ?_, fun {p i} hi hp => ?_⟩
  · refine List.nodup_cons.2 ⟨fun hg => hnew (List.mem_append_right _ hg), ?_⟩
    exact h.roots_nodup.of_append_right
  · rw [hchildren]
    split
    · exact h.roots_nodup.of_append_left
    · exact h.children_nodup p
  · rw [hchildren] at hp hq
    split at hp <;> split at hq
    · exact (‹g = p›).symm.trans ‹g = q›
    · exact absurd hq (hitems hp)
    · exact absurd hp (hitems hq)
    · exact h.parent_unique hp hq
  · rw [hchildren] at hp
    split at hp
    · rcases List.mem_cons.1 hi with rfl | hi
      · exact hnew (List.mem_append_left _ hp)
      · exact (List.nodup_append.1 h.roots_nodup).2.2 i hp i hi rfl
    · rcases List.mem_cons.1 hi with rfl | hi
      · exact hchild p hp
      · exact hrest hi hp

theorem below_wrap (hempty : children g = [])
    (hchildren : ∀ p, children' p = if g = p then items else children p) :
    Below children' (g :: rest) i ↔ i = g ∨ Below children (items ++ rest) i := by
  have hself : children' g = items := by rw [hchildren, if_pos rfl]
  have hother : ∀ p, g ≠ p → children' p = children p := fun p hp => by rw [hchildren, if_neg hp]
  have hg : Below children' (g :: rest) g := .start List.mem_cons_self
  constructor
  · intro h
    induction h with
    | start hi =>
      exact (List.mem_cons.1 hi).imp_right fun hi => .start (List.mem_append_right _ hi)
    | @child p i _ hi ih =>
      by_cases hgp : g = p
      · subst hgp
        exact .inr (.start (List.mem_append_left _ (hself ▸ hi)))
      · exact .inr (.child (ih.resolve_left (Ne.symm hgp)) (hother p hgp ▸ hi))
  · rintro (rfl | h)
    · exact hg
    · induction h with
      | start hi =>
        rcases List.mem_append.1 hi with hi | hi
        · exact .child hg (hself ▸ hi)
        · exact .start (List.mem_cons_of_mem _ hi)
      | @child p i _ hi ih =>
        have hgp : g ≠ p := fun heq => by simp [← heq, hempty] at hi
        exact .child ih (hother p hgp ▸ hi)

end Wrap

end DocForest
