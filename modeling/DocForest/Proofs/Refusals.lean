import DocForest.Arena.Lemmas
import DocForest.Arena.Procedure

/-!
# Calls that are refused

A list of children is checked as a whole before anything of it is written.  A node that is not there, or
one that stands elsewhere already, may be found behind any number of good ones, and by then nothing has
been written for these.  And once writing has begun, no access fails any more.  So a call, taken as a
procedure that keeps what it has written when it fails, **either does what `Operation.apply` says or leaves
everything as it was** (`perform_on`).

No index that has been stored is ever overwritten.  **The node that it names is another one, though, once
nodes have been added, if it counts from the end.**

## What is here

* `perform_bind`, `perform_forM_check` — performing one step after the other, and checks.
* `perform_setChildren`, `perform_on` — the procedures do what the operations do.
* `Arena.KeptBy` — an arena has all links of an earlier one.
* `locate?_eq_iff` — which indices name the same node among more nodes.
* `performAll_keeps_links` — **a call that fails changes nothing, and no link is ever written twice**;
  `links_drift` shows links that lead elsewhere all the same.
-/

set_option autoImplicit false

namespace DocForest

variable {α β γ : Type} {arenas : Arenas} {t : Nat} {k : Int}

namespace Procedure

/-! ## Performing -/

theorem perform_read (t : Nat) (arenas : Arenas) :
    (read t).perform arenas = (.ok (arenas t), arenas) := rfl

theorem perform_write (t : Nat) (next : Arena) (arenas : Arenas) :
    (write t next).perform arenas = (.ok (), Function.update arenas t next) := rfl

theorem perform_bind (first : Procedure α) (next : α → Procedure β) (arenas : Arenas) :
    (first >>= next).perform arenas =
      match first.perform arenas with
      | (.ok a, later) => (next a).perform later
      | (.error failure, later) => (.error failure, later) := by
  rw [perform, ExceptT.run_bind, StateT.run_bind]
  change (perform first arenas >>= _ : Id _) = _
  rcases perform first arenas with ⟨_ | _, later⟩ <;> rfl

theorem perform_bind_of_ok {first : Procedure α} {next : α → Procedure β} {a : α} {later : Arenas}
    (h : first.perform arenas = (.ok a, later)) :
    (first >>= next).perform arenas = (next a).perform later := by
  rw [perform_bind, h]

/-- A step that only looks at the arenas may stand in front of what ends with a failure, or however it
does, as `finish` says. -/
theorem perform_bind_of_looks {first : Procedure α} {next : α → Procedure β} {found : Except Failure α}
    {last : α → Except Failure γ} (finish : Except Failure γ → Except Failure β × Arenas)
    (herror : ∀ failure, finish (.error failure) = (.error failure, arenas))
    (h : first.perform arenas = (found, arenas))
    (hnext : ∀ a, found = .ok a → (next a).perform arenas = finish (last a)) :
    (first >>= next).perform arenas = finish (found >>= last) := by
  rw [perform_bind, h]
  cases found with
  | error failure => exact (herror failure).symm
  | ok a => exact hnext a rfl

/-- Checks of all elements of a list leave everything as it is if each of them does. -/
theorem perform_forM_check {run : α → Procedure Unit} {check : α → Except Failure Unit}
    (h : ∀ a, (run a).perform arenas = (check a, arenas)) (items : List α) :
    (items.forM run).perform arenas = (items.forM check, arenas) := by
  induction items with
  | nil => rfl
  | cons a rest ih =>
    exact perform_bind_of_looks (·, arenas) (fun _ => rfl) (h a) fun _ _ => ih

theorem perform_fetch (t : Nat) (k : Int) (arenas : Arenas) :
    (fetch t k).perform arenas = ((arenas t).entry k, arenas) := by
  rw [fetch, perform_bind_of_ok (perform_read t arenas)]
  cases (arenas t).entry k <;> rfl

theorem perform_store (h : (arenas t).position k < (arenas t).size) (change : Entry → Entry) :
    (store t k change).perform arenas =
      (.ok (), Function.update arenas t ((arenas t).modify k change)) := by
  obtain ⟨entry, hentry⟩ := Arena.exists_entryAt? h
  have hfetch : (fetch t k).perform arenas = (.ok entry, arenas) := by
    rw [perform_fetch, Arena.entry_eq_ok.2 hentry]
  rw [store, perform_bind_of_ok hfetch, perform_bind_of_ok (perform_read t arenas), perform_write]

theorem perform_forM_store {children : List Int} {parent : Int}
    (h : ∀ c ∈ children, (arenas t).position c < (arenas t).size) :
    (children.forM fun c => store t c fun entry => { entry with docsParent := some parent }).perform arenas =
      (.ok (), Function.update arenas t ((arenas t).putParents parent children)) := by
  induction children generalizing arenas with
  | nil =>
    rw [Arena.putParents, List.foldl_nil, Function.update_eq_self]
    rfl
  | cons c rest ih =>
    rw [List.forall_mem_cons] at h
    rw [List.forM, perform_bind_of_ok (perform_store h.1 _), ih, Function.update_self,
      Function.update_idem]
    · rfl
    · simpa [Arena.position_modify] using h.2

/-! ## Calls -/

/-- What a call leaves that writes a whole arena when it succeeds, and nothing when it fails. -/
def settled (arenas : Arenas) (t : Nat) : Except Failure Arena → Except Failure Unit × Arenas
  | .ok next => (.ok (), Function.update arenas t next)
  | .error failure => (.error failure, arenas)

theorem settled_error (arenas : Arenas) (t : Nat) (failure : Failure) :
    settled arenas t (.error failure) = (.error failure, arenas) := rfl

theorem settled_eq_error {outcome : Except Failure Arena} {failure : Failure} {later : Arenas}
    (h : settled arenas t outcome = (.error failure, later)) :
    later = arenas ∧ outcome = .error failure := by
  cases outcome with
  | ok next => cases h
  | error other =>
    cases h
    exact ⟨rfl, rfl⟩

theorem perform_add (t : Nat) (decl : Declaration) (arenas : Arenas) :
    (add t decl).perform arenas = settled arenas t (.ok ((arenas t).add decl)) := by
  rw [add, perform_bind_of_ok (perform_read t arenas), perform_write]
  rfl

theorem perform_addFrom (home : Nat) (k : Int) (t : Nat) (arenas : Arenas) :
    (addFrom home k).perform arenas = settled arenas t ((arenas home).addAgain k) :=
  perform_bind_of_looks (settled arenas t) (settled_error arenas t) (perform_fetch home k arenas)
    fun _ _ => rfl

theorem perform_addFrom_error (home : Nat) (k : Int) (arenas : Arenas) :
    ∃ failure, (addFrom home k).perform arenas = (.error failure, arenas) := by
  rw [perform_addFrom home k 0]
  cases happly : (arenas home).addAgain k with
  | error failure => exact ⟨failure, rfl⟩
  | ok next =>
    obtain ⟨entry, -, hthrow⟩ := Outcome.bind_eq_ok.1 happly
    exact absurd hthrow Outcome.throw_ne_ok

theorem perform_link (t : Nat) (child parent : Int) (arenas : Arenas) :
    (link t child parent).perform arenas = settled arenas t ((arenas t).link child parent) := by
  refine perform_bind_of_looks (settled arenas t) (settled_error arenas t) (perform_fetch t child arenas)
    fun entry hentry => ?_
  split
  · rfl
  · exact perform_store (Arena.lt_of_entry_eq_ok hentry) _

theorem perform_checkChild (t : Nat) (parent child : Int) (arenas : Arenas) :
    (checkChild t parent child).perform arenas = ((arenas t).checkChild parent child, arenas) := by
  refine perform_bind_of_looks (·, arenas) (fun _ => rfl) (perform_fetch t child arenas)
    fun entry _ => ?_
  rw [perform_bind_of_ok (perform_read t arenas)]
  split
  · rfl
  · split <;> rfl

theorem perform_checkRoot (t : Nat) (root : Int) (arenas : Arenas) :
    (checkRoot t root).perform arenas = ((arenas t).checkRoot root, arenas) := by
  refine perform_bind_of_looks (·, arenas) (fun _ => rfl) (perform_fetch t root arenas)
    fun entry _ => ?_
  split <;> rfl

/-- **Behind the checks of all children no access fails**, so that they are written all or not at all. -/
theorem perform_setChildren (t : Nat) (parent : Int) (children : List Int) (arenas : Arenas) :
    (setChildren t parent children).perform arenas =
      settled arenas t ((arenas t).setChildren parent children) := by
  refine perform_bind_of_looks (settled arenas t) (settled_error arenas t) (perform_fetch t parent arenas)
    fun entry hentry => ?_
  split
  · rfl
  · have hchecks := perform_forM_check (fun c => perform_checkChild t parent c arenas) children
    refine perform_bind_of_looks (settled arenas t) (settled_error arenas t) hchecks fun _ hok => ?_
    have hchildren : ∀ c ∈ children, (arenas t).position c < (arenas t).size := fun c hc =>
      (Arena.checkChild_eq_ok.1 ((Outcome.forM_eq_ok _ _).1 hok c hc)).1
    have hsize := (arenas t).size_putParents parent children
    have hparent : (Function.update arenas t ((arenas t).putParents parent children) t).position parent <
        (Function.update arenas t ((arenas t).putParents parent children) t).size := by
      rw [Function.update_self, Arena.position, hsize]
      exact Arena.lt_of_entry_eq_ok hentry
    rw [perform_bind_of_ok (perform_forM_store hchildren), perform_store hparent, Function.update_self,
      Function.update_idem]
    rfl

theorem perform_setRoots (t : Nat) (roots : List Int) (arenas : Arenas) :
    (setRoots t roots).perform arenas = settled arenas t ((arenas t).setRoots roots) := by
  rw [setRoots, perform_bind_of_ok (perform_read t arenas), Arena.setRoots]
  split
  · rfl
  · have hchecks := perform_forM_check (fun r => perform_checkRoot t r arenas) roots
    refine perform_bind_of_looks (settled arenas t) (settled_error arenas t) hchecks fun _ _ => ?_
    rw [perform_bind_of_ok (perform_read t arenas), perform_write]
    rfl

/-- **A call does what the operation says, or leaves everything as it was.** -/
theorem perform_on (t : Nat) (operation : Operation) (arenas : Arenas) :
    (ofRequest (.on t operation)).perform arenas = settled arenas t (operation.apply (arenas t)) := by
  cases operation with
  | add decl => exact perform_add t decl arenas
  | addAgain k => exact perform_addFrom t k t arenas
  | link child parent => exact perform_link t child parent arenas
  | setChildren parent children => exact perform_setChildren t parent children arenas
  | setRoots roots => exact perform_setRoots t roots arenas

end Procedure

/-! ## Why calls fail -/

/-- Whether a failure says that something is malformed, or is to be linked a second time. -/
def Failure.isAssembly : Failure → Bool
  | .duplicateId _ | .unknownParent _ _ | .cyclicNesting _ => true
  | .alreadyInForest _ | .containerTaken _ | .childrenTaken _ | .parentTaken _ | .ownChild _ => true
  | .rootsTaken | .rootHasParent _ => true
  | _ => false

/-- The indices that a call looks up. -/
def Operation.lookedUp : Operation → List Int
  | .add _ => []
  | .addAgain k => [k]
  | .link child _ => [child]
  | .setChildren parent children => parent :: children
  | .setRoots roots => roots

namespace Arena

variable {arena next : Arena} {operation : Operation} {failure : Failure} {parent : Int}

theorem bind_entry_eq_error {look : Entry → Except Failure α}
    (h : (arena.entry k >>= look) = .error failure) :
    (failure = .indexOutOfRange ∧ arena.size ≤ arena.position k) ∨ ∃ entry, look entry = .error failure := by
  rcases Outcome.bind_eq_error.1 h with hentry | ⟨entry, -, hlook⟩
  · rw [entry] at hentry
    split at hentry
    · cases hentry
    · next hnone => exact .inl ⟨(Except.error.inj hentry).symm, (arena.entryAt?_eq_none_iff _).1 hnone⟩
  · exact .inr ⟨entry, hlook⟩

theorem checkChild_eq_error (h : arena.checkChild parent k = .error failure) :
    failure.isAssembly = true ∨ failure = .indexOutOfRange ∧ arena.size ≤ arena.position k := by
  rcases bind_entry_eq_error h with hentry | ⟨entry, h⟩
  · exact .inr hentry
  · split at h
    · exact .inl (Except.error.inj h ▸ rfl)
    · split at h
      · exact .inl (Except.error.inj h ▸ rfl)
      · cases h

theorem checkRoot_eq_error (h : arena.checkRoot k = .error failure) :
    failure.isAssembly = true ∨ failure = .indexOutOfRange ∧ arena.size ≤ arena.position k := by
  rcases bind_entry_eq_error h with hentry | ⟨entry, h⟩
  · exact .inr hentry
  · split at h
    · exact .inl (Except.error.inj h ▸ rfl)
    · cases h

/-- **A call fails over the links that there are, or over a node that is not there.** -/
theorem apply_eq_error (h : operation.apply arena = .error failure) :
    failure.isAssembly = true ∨
      failure = .indexOutOfRange ∧ ∃ k ∈ operation.lookedUp, arena.size ≤ arena.position k := by
  cases operation with
  | add decl => cases h
  | addAgain k =>
    rcases bind_entry_eq_error h with ⟨hfailure, hle⟩ | ⟨entry, h⟩
    · exact .inr ⟨hfailure, k, List.mem_cons_self, hle⟩
    · exact .inl (Except.error.inj h ▸ rfl)
  | link child parent =>
    rcases bind_entry_eq_error h with ⟨hfailure, hle⟩ | ⟨entry, h⟩
    · exact .inr ⟨hfailure, child, List.mem_cons_self, hle⟩
    · split at h
      · exact .inl (Except.error.inj h ▸ rfl)
      · cases h
  | setChildren parent children =>
    rcases bind_entry_eq_error h with ⟨hfailure, hle⟩ | ⟨entry, h⟩
    · exact .inr ⟨hfailure, parent, List.mem_cons_self, hle⟩
    · split at h
      · exact .inl (Except.error.inj h ▸ rfl)
      · rcases Outcome.bind_eq_error.1 h with hchecks | ⟨_, -, h⟩
        · obtain ⟨c, hc, hcheck⟩ := Outcome.exists_of_forM_eq_error hchecks
          refine (checkChild_eq_error hcheck).imp_right fun ⟨hfailure, hle⟩ => ?_
          exact ⟨hfailure, c, List.mem_cons_of_mem _ hc, hle⟩
        · cases h
  | setRoots roots =>
    rw [Operation.apply, setRoots] at h
    split at h
    · exact .inl (Except.error.inj h ▸ rfl)
    · rcases Outcome.bind_eq_error.1 h with hchecks | ⟨_, -, h⟩
      · obtain ⟨r, hr, hcheck⟩ := Outcome.exists_of_forM_eq_error hchecks
        exact (checkRoot_eq_error hcheck).imp_right fun ⟨hfailure, hle⟩ => ⟨hfailure, r, hr, hle⟩
      · cases h

/-! ## Links are written once -/

/-- Every link of an arena is found in a later one as it has been given, an empty list of children or roots
as well. -/
structure KeptBy (arena later : Arena) : Prop where
  size_le : arena.size ≤ later.size
  codeIndex? : ∀ {i p}, arena.codeIndex? i = some p → later.codeIndex? i = some p
  docsIndex? : ∀ {i p}, arena.docsIndex? i = some p → later.docsIndex? i = some p
  childIndices? : ∀ {i children}, arena.childIndices? i = some children →
    later.childIndices? i = some children
  roots : ∀ {roots}, arena.roots = some roots → later.roots = some roots

namespace KeptBy

theorem refl (arena : Arena) : arena.KeptBy arena where
  size_le := Nat.le_refl _
  codeIndex? := id
  docsIndex? := id
  childIndices? := id
  roots := id

theorem trans {last : Arena} (h : arena.KeptBy next) (hlast : next.KeptBy last) :
    arena.KeptBy last where
  size_le := Nat.le_trans h.size_le hlast.size_le
  codeIndex? hi := hlast.codeIndex? (h.codeIndex? hi)
  docsIndex? hi := hlast.docsIndex? (h.docsIndex? hi)
  childIndices? hi := hlast.childIndices? (h.childIndices? hi)
  roots hroots := hlast.roots (h.roots hroots)

end KeptBy

/-- **No step writes a link that there is already.** -/
theorem Step.keptBy (h : Step arena operation next) : arena.KeptBy next := by
  cases h with
  | add decl =>
    refine ⟨?_, fun hi => ?_, fun hi => ?_, fun hi => ?_, id⟩
    · rw [size_add]
      exact Nat.le_succ _
    · rwa [codeIndex?, bind_entryAt?_add arena rfl]
    · rwa [docsIndex?, bind_entryAt?_add arena rfl]
    · rwa [childIndices?, bind_entryAt?_add arena rfl]
  | @link child parent _ hfree =>
    refine ⟨Nat.le_of_eq (size_modify arena child _).symm, fun {i p} hi => ?_, fun hi => ?_,
      fun hi => ?_, id⟩
    · have hne : arena.position child ≠ i := by
        rintro rfl
        exact Option.some_ne_none p (hi.symm.trans hfree)
      rwa [codeIndex?, entryAt?_modify, if_neg hne]
    · rw [docsIndex?, bind_entryAt?_modify]
      · exact hi
      · exact fun _ => rfl
    · rw [childIndices?, bind_entryAt?_modify]
      · exact hi
      · exact fun _ => rfl
  | @setChildren parent children hparent hfree hchildren =>
    refine ⟨Nat.le_of_eq (size_withChildren arena parent children).symm, fun hi => ?_,
      fun {i p} hi => ?_, fun {i list} hi => ?_, fun hroots => ?_⟩
    · rwa [codeIndex?_withChildren]
    · have hnot : i ∉ children.map arena.position := by
        intro hmem
        obtain ⟨c, hc, rfl⟩ := List.mem_map.1 hmem
        exact Option.some_ne_none p (hi.symm.trans (hchildren c hc).1.docsIndex)
      rwa [docsIndex?_withChildren fun c hc => (hchildren c hc).1.lt_size, if_neg hnot]
    · have hne : arena.position parent ≠ i := by
        rintro rfl
        exact Option.some_ne_none list (hi.symm.trans hfree)
      rwa [childIndices?_withChildren hparent, if_neg hne]
    · exact (arena.roots_withChildren parent children).trans hroots
  | @setRoots roots hfree _ =>
    exact ⟨Nat.le_refl _, id, id, id, fun hroots => absurd (hroots.symm.trans hfree) (Option.some_ne_none _)⟩

/-! ## Where links lead -/

/-- The node that an index names, if there is one. -/
def locate? (arena : Arena) (k : Int) : Option Nat :=
  if arena.position k < arena.size then some (arena.position k) else none

/-- **An index names the same node among more nodes exactly if it counts from the front**, as long as it
names one.  Otherwise it may come to name one. -/
theorem locate?_eq_iff {later : Arena} (h : arena.size ≤ later.size) (k : Int) :
    later.locate? k = arena.locate? k ↔ later.size = arena.size ∨
      (0 ≤ k ∧ (k < arena.size ∨ later.size ≤ k)) ∨ k < -(later.size : Int) := by
  have hnow := coe_position arena.size k
  have hthen := coe_position later.size k
  rw [locate?, locate?, position, position]
  generalize DocForest.position arena.size k = i at hnow ⊢
  generalize DocForest.position later.size k = j at hthen ⊢
  by_cases hi : i < arena.size <;> by_cases hj : j < later.size <;>
    simp only [hi, hj, ↓reduceIte, Option.some.injEq, reduceCtorEq, false_iff, true_iff] <;>
    split at hnow <;> split at hthen <;> omega

end Arena

namespace Procedure

/-- Wherever a request is made, every arena keeps its links. -/
theorem perform_keeps (request : Request) (arenas : Arenas) (s : Nat) :
    (arenas s).KeptBy (((ofRequest request).perform arenas).2 s) := by
  cases request with
  | addFrom t home k =>
    obtain ⟨failure, hfailure⟩ := perform_addFrom_error home k arenas
    rw [ofRequest, hfailure]
    exact .refl _
  | on t operation =>
    rw [perform_on]
    cases happly : operation.apply (arenas t) with
    | error failure => exact .refl _
    | ok next =>
      change (arenas s).KeptBy (Function.update arenas t next s)
      by_cases hs : s = t
      · subst hs
        rw [Function.update_self]
        exact (Arena.apply_eq_ok_iff.1 happly).keptBy
      · rw [Function.update_of_ne hs]
        exact .refl _

theorem performAll_keptBy (requests : List Request) (arenas : Arenas) (t : Nat) :
    (arenas t).KeptBy (performAll arenas requests t) := by
  induction requests generalizing arenas with
  | nil => exact .refl _
  | cons request rest ih => exact (perform_keeps request arenas t).trans (ih _)

/-- A request that fails leaves all arenas as they were. -/
theorem perform_eq_error {request : Request} {failure : Failure} {later : Arenas}
    (h : (ofRequest request).perform arenas = (.error failure, later)) :
    later = arenas ∧ (failure.isAssembly = true ∨ failure = .indexOutOfRange) := by
  obtain ⟨t, s, operation, hperform⟩ : ∃ t s operation, (ofRequest request).perform arenas =
      settled arenas t (Operation.apply (arenas s) operation) := by
    cases request with
    | on t operation => exact ⟨t, t, operation, perform_on t operation arenas⟩
    | addFrom t home k => exact ⟨t, home, .addAgain k, perform_addFrom home k t arenas⟩
  obtain ⟨hlater, happly⟩ := settled_eq_error (hperform.symm.trans h)
  exact ⟨hlater, (Arena.apply_eq_error happly).imp_right fun h => h.1⟩

/-- **A call that fails changes nothing**, wherever in its list the node stands that it fails for, **and what
has once been linked stays so as it has been given**, whatever is called later.  It leads to the same node
exactly as long as no node has been added, or if it counts from the front; one that leads nowhere may come to
lead to a node.  A call that does not fail does what the operation says. -/
theorem performAll_keeps_links (arenas : Arenas) :
    (∀ request failure later, (ofRequest request).perform arenas = (.error failure, later) →
      later = arenas ∧ (failure.isAssembly = true ∨ failure = .indexOutOfRange)) ∧
    (∀ t operation, (ofRequest (.on t operation)).perform arenas =
      settled arenas t (operation.apply (arenas t))) ∧
    ∀ requests t, let later := performAll arenas requests t
      (arenas t).KeptBy later ∧ ∀ k, later.locate? k = (arenas t).locate? k ↔
        later.size = (arenas t).size ∨ (0 ≤ k ∧ (k < (arenas t).size ∨ later.size ≤ k)) ∨
          k < -(later.size : Int) := by
  refine ⟨fun _ _ _ => perform_eq_error, fun t operation => perform_on t operation arenas,
    fun requests t => ?_⟩
  have hkept := performAll_keptBy requests arenas t
  exact ⟨hkept, Arena.locate?_eq_iff hkept.size_le⟩

/-- Adding a node changes a container, a parent, a list of children and the roots that have been given by
indices that count from the end. -/
theorem links_drift :
    let decl := Declaration.group (.str "G") .null
    let requests : List Request := [.on 0 (.add decl), .on 0 (.add decl), .on 0 (.link 0 (-1)),
      .on 0 (.setRoots [-2]), .on 0 (.setChildren (-2) [-1])]
    let before := (performAll (fun _ => {}) requests 0).forest
    let behind := (performAll (fun _ => {}) (requests ++ [.on 0 (.add decl)]) 0).forest
    (before.codeParent? 0 = some 1 ∧ behind.codeParent? 0 = some 2) ∧
      (before.docsParent? 1 = some 0 ∧ behind.docsParent? 1 = some 1) ∧
      (before.childrenOf 0 = [1] ∧ behind.childrenOf 0 = [2]) ∧
      before.rootList = [0] ∧ behind.rootList = [1] := by
  decide +kernel

-- a node that is not there, behind two that could be given to the first one
example (decl : Declaration) :
    let arenas : Arenas := fun _ => ((({} : Arena).add decl).add decl).add decl
    (setChildren 0 0 [1, 2, 7]).perform arenas = (.error .indexOutOfRange, arenas) := rfl

end Procedure
end DocForest
