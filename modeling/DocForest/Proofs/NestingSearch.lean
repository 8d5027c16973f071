import DocForest.Proofs.Ascent
import DocForest.Proofs.Halting

/-!
# Searching for a loop of containers

`Forest.checkNesting` goes up from every node anew, and counts its steps so that it ends.  A search needs
neither if it remembers where it has been: it goes up from one node after the other until it leaves all
containers or comes to a node that an earlier start has led to, and it has found a loop where its path meets
itself.  **This search ends, and it finds what the check finds.**  A node that is remembered hides no loop,
since everything above it has been passed without meeting one, and a path that meets itself has come back to
a node of the loop, wherever the path began.

## What is here

* `Search`, `Search.round` — the search and its rounds, `Search.closed?` — where it has found a loop.
* `Search.Sound`, `Sound.round` — **what every round keeps**, and that the rounds come to an end.
* `Search.answer` — what is left to be found from a state on; `Sound.answer_round` — no round changes it.
* `Forest.nestingSearch_ends` — the search ends, fails exactly if there is a loop, names a node of one, and
  leaves paths that end.
-/

set_option autoImplicit false

namespace DocForest

open Relation

/-- A search for a loop of containers. -/
structure Search where
  /-- The nodes that are left to start from. -/
  starts : List Nat
  /-- The nodes that earlier starts have led to. -/
  resolved : List Nat
  /-- The nodes that the last start has led to so far, the latest one first. -/
  path : List Nat
  /-- The node that comes next on the path, if there is one. -/
  next : Option Nat
  deriving DecidableEq, Repr

namespace Search

variable {parent : Nat → Option Nat} {size i : Nat} {search after : Search}

/-- The search among all nodes of a forest, before its first round. -/
def start (size : Nat) : Search :=
  { starts := List.range size, resolved := [], path := [], next := none }

/-- The node to go on with: the next one, unless an earlier start has led to it. -/
def ahead? (search : Search) : Option Nat :=
  search.next.filter fun i => i ∉ search.resolved

/-- Puts one more node on the path, or begins with the next start.  There are no more rounds where the
path meets itself, and behind the last start. -/
def round (parent : Nat → Option Nat) (search : Search) : Option Search :=
  match search.ahead? with
  | some i =>
    if i ∈ search.path then none
    else some { search with path := i :: search.path, next := parent i }
  | none =>
    match search.starts with
    | [] => none
    | first :: rest =>
      some { starts := rest, resolved := search.path ++ search.resolved, path := [], next := some first }

/-- The node at which the path meets itself. -/
def closed? (search : Search) : Option Nat :=
  search.ahead?.filter fun i => i ∈ search.path

/-- What is left to be found: the node at which the path is going to meet itself, and otherwise the first
that one of the remaining starts leads to twice. -/
def answer (parent : Nat → Option Nat) (size : Nat) (search : Search) : Option Nat :=
  (search.next.bind fun i =>
    firstRepeated? search.path (climb parent (size - search.path.length) i)).or
      (search.starts.findSome? fun i => firstRepeated? [] (climb parent size i))

/-! ## Rounds -/

theorem ahead?_eq_some : search.ahead? = some i ↔ search.next = some i ∧ i ∉ search.resolved := by
  simp [ahead?, Option.filter_eq_some_iff]

theorem ahead?_eq_none (h : search.ahead? = none) :
    search.next = none ∨ ∃ i ∈ search.resolved, search.next = some i := by
  cases hnext : search.next with
  | none => exact .inl rfl
  | some i =>
    refine .inr ⟨i, ?_, rfl⟩
    by_contra hi
    exact Option.some_ne_none i ((ahead?_eq_some.2 ⟨hnext, hi⟩).symm.trans h)

/-- **The two kinds of rounds.** -/
theorem round_eq_some (h : search.round parent = some after) :
    (∃ i, search.next = some i ∧ i ∉ search.path ∧
        after = { search with path := i :: search.path, next := parent i }) ∨
      ∃ first rest, search.ahead? = none ∧ search.starts = first :: rest ∧
        after = { starts := rest, resolved := search.path ++ search.resolved, path := [],
                  next := some first } := by
  rw [round] at h
  split at h
  · next i hahead =>
    split at h
    · cases h
    · next hpath => exact .inl ⟨i, (ahead?_eq_some.1 hahead).1, hpath, (Option.some.inj h).symm⟩
  · next hahead =>
    split at h
    · cases h
    · next first rest hstarts => exact .inr ⟨first, rest, hahead, hstarts, (Option.some.inj h).symm⟩

theorem round_eq_none (h : search.round parent = none) :
    (∃ i, search.ahead? = some i ∧ i ∈ search.path) ∨ search.ahead? = none ∧ search.starts = [] := by
  rw [round] at h
  split at h
  · next i hahead =>
    split at h
    · next hpath => exact .inl ⟨i, hahead, hpath⟩
    · cases h
  · next hahead =>
    split at h
    · next hstarts => exact .inr ⟨hahead, hstarts⟩
    · cases h

/-! ## What rounds keep -/

/-- What holds of a search between its rounds. -/
structure Sound (parent : Nat → Option Nat) (size : Nat) (search : Search) : Prop where
  starts_lt : ∀ i ∈ search.starts, i < size
  next_lt : ∀ i, search.next = some i → i < size
  path_lt : ∀ j ∈ search.path, j < size
  path_nodup : search.path.Nodup
  /-- The path leads to the node that comes next, -/
  leads : ∀ i, search.next = some i → ∀ j ∈ search.path, TransGen (Up parent) j i
  /-- or out of all containers. -/
  leaves : search.next = none → ∀ j ∈ search.path, Ends parent j
  /-- There is no loop above a node that is known. -/
  resolved : ∀ j ∈ search.resolved, Ends parent j

/-- The rounds that are left, at most. -/
def remaining (size : Nat) (search : Search) : Nat :=
  search.starts.length * (size + 1) + (size - search.path.length)

theorem sound_start (parent : Nat → Option Nat) (size : Nat) : Sound parent size (start size) where
  starts_lt _ hi := List.mem_range.1 hi
  next_lt _ hi := nomatch hi
  path_lt _ hj := nomatch hj
  path_nodup := List.nodup_nil
  leads _ hi := nomatch hi
  leaves _ _ hj := nomatch hj
  resolved _ hj := nomatch hj

namespace Sound

theorem ends_of_mem_path (h : Sound parent size search) (hahead : search.ahead? = none) :
    ∀ j ∈ search.path, Ends parent j := by
  rcases ahead?_eq_none hahead with hnext | ⟨i, hi, hnext⟩
  · exact h.leaves hnext
  · exact fun j hj => (h.resolved i hi).of_below (h.leads i hnext j hj).to_reflTransGen

theorem length_path_lt (h : Sound parent size search) (hnext : search.next = some i)
    (hi : i ∉ search.path) : search.path.length < size := by
  have hsub : i :: search.path ⊆ List.range size := fun j hj => by
    rcases List.mem_cons.1 hj with rfl | hj
    · exact List.mem_range.2 (h.next_lt j hnext)
    · exact List.mem_range.2 (h.path_lt j hj)
  have hlength := ((List.nodup_cons.2 ⟨hi, h.path_nodup⟩).subperm hsub).length_le
  rw [List.length_cons, List.length_range] at hlength
  exact hlength

/-- Going up by one node keeps this, -/
theorem onward (hlt : ∀ i p, parent i = some p → p < size) (h : Sound parent size search)
    (hnext : search.next = some i) (hi : i ∉ search.path) :
    Sound parent size { search with path := i :: search.path, next := parent i } := by
  have hup : ∀ j ∈ i :: search.path, ReflTransGen (Up parent) j i := fun j hj => by
    rcases List.mem_cons.1 hj with rfl | hj
    · exact .refl
    · exact (h.leads i hnext j hj).to_reflTransGen
  exact {
    starts_lt := h.starts_lt
    next_lt := hlt i
    path_lt := List.forall_mem_cons.2 ⟨h.next_lt i hnext, h.path_lt⟩
    path_nodup := List.nodup_cons.2 ⟨hi, h.path_nodup⟩
    leads := fun _ hp j hj => .tail' (hup j hj) hp
    leaves := fun htop j hj => (Ends.top htop).of_below (hup j hj)
    resolved := h.resolved }

/-- and so does going over to the next start. -/
theorem restart {first : Nat} {rest : List Nat} (h : Sound parent size search)
    (hahead : search.ahead? = none) (hstarts : search.starts = first :: rest) :
    Sound parent size { starts := rest, resolved := search.path ++ search.resolved, path := [],
                        next := some first } where
  starts_lt i hi := h.starts_lt i (hstarts ▸ List.mem_cons_of_mem _ hi)
  next_lt _ hi := Option.some.inj hi ▸ h.starts_lt first (hstarts ▸ List.mem_cons_self)
  path_lt _ hj := nomatch hj
  path_nodup := List.nodup_nil
  leads _ _ _ hj := nomatch hj
  leaves hnone := nomatch hnone
  resolved := List.forall_mem_append.2 ⟨h.ends_of_mem_path hahead, h.resolved⟩

/-- **Every round keeps this, and leaves less to be done.** -/
theorem round (hlt : ∀ i p, parent i = some p → p < size) (h : Sound parent size search)
    (hround : search.round parent = some after) :
    Sound parent size after ∧ after.remaining size < search.remaining size := by
  rcases round_eq_some hround with ⟨i, hnext, hi, rfl⟩ | ⟨first, rest, hahead, hstarts, rfl⟩
  · refine ⟨h.onward hlt hnext hi, ?_⟩
    have hroom := h.length_path_lt hnext hi
    simp only [remaining, List.length_cons]
    omega
  · refine ⟨h.restart hahead hstarts, ?_⟩
    have hlength : search.starts.length = rest.length + 1 := by rw [hstarts, List.length_cons]
    simp only [remaining, hlength, List.length_nil, Nat.add_mul]
    omega

/-! ## What is left to be found -/

/-- A path that comes to a known node is not going to meet itself. -/
theorem firstRepeated?_of_ahead?_eq_none (h : Sound parent size search) (hahead : search.ahead? = none)
    (steps : Nat) :
    (search.next.bind fun i => firstRepeated? search.path (climb parent steps i)) = none := by
  rcases ahead?_eq_none hahead with hnext | ⟨i, hi, hnext⟩
  · rw [hnext, Option.bind_none]
  · rw [hnext, Option.bind_some, firstRepeated?_eq_none]
    have hends := h.resolved i hi
    refine ⟨nodup_climb (fun j hj => (hends.of_above hj).no_loop) steps, fun j hj hpath => ?_⟩
    have habove := above_of_mem_climb hj
    exact (hends.of_above habove).no_loop ((h.leads i hnext j hpath).trans_left habove)

/-- **No round changes what is left to be found.** -/
theorem answer_round (h : Sound parent size search) (hround : search.round parent = some after) :
    after.answer parent size = search.answer parent size := by
  rcases round_eq_some hround with ⟨i, hnext, hi, rfl⟩ | ⟨first, rest, hahead, hstarts, rfl⟩
  · obtain ⟨steps, hsteps⟩ : ∃ steps, size - search.path.length = steps + 1 :=
      ⟨size - search.path.length - 1, by have := h.length_path_lt hnext hi; omega⟩
    have hrest : size - (search.path.length + 1) = steps := by omega
    simp only [answer, hnext, Option.bind_some, List.length_cons, hsteps, hrest, climb, firstRepeated?,
      List.contains_eq_mem, hi, decide_false, Bool.false_eq_true, if_false]
    cases parent i <;> rfl
  · simp only [answer, h.firstRepeated?_of_ahead?_eq_none hahead, hstarts, Option.none_or,
      List.findSome?_cons, Option.bind_some, List.length_nil, Nat.sub_zero]
    cases firstRepeated? [] (climb parent size first) <;> rfl

/-- **Behind the last round it has been found.** -/
theorem closed?_eq_answer (h : Sound parent size search) (hround : search.round parent = none) :
    search.closed? = search.answer parent size := by
  rcases round_eq_none hround with ⟨i, hahead, hi⟩ | ⟨hahead, hstarts⟩
  · have hfound : ∀ steps, firstRepeated? search.path (climb parent steps i) = some i := fun steps => by
      cases steps <;> simp [climb, firstRepeated?, hi]
    rw [closed?, answer, hahead, (ahead?_eq_some.1 hahead).1, Option.bind_some, hfound, Option.some_or]
    simp [hi]
  · rw [closed?, answer, hahead, h.firstRepeated?_of_ahead?_eq_none hahead, hstarts]
    rfl

/-- **The search ends**, and has then found what there was to be found at its beginning. -/
theorem exists_last (hlt : ∀ i p, parent i = some p → p < size) :
    ∃ last, StateTransition.eval (Search.round parent) (start size) = Part.some last ∧
      Sound parent size last ∧ last.closed? = (start size).answer parent size := by
  have hrounds : ∀ search after : Search,
      Sound parent size search ∧ search.answer parent size = (start size).answer parent size →
      search.round parent = some after →
      (Sound parent size after ∧ after.answer parent size = (start size).answer parent size) ∧
        after.remaining size < search.remaining size := by
    rintro search after ⟨hsound, hanswer⟩ hround
    obtain ⟨hafter, hless⟩ := hsound.round hlt hround
    exact ⟨⟨hafter, (hsound.answer_round hround).trans hanswer⟩, hless⟩
  obtain ⟨last, heval, ⟨hsound, hanswer⟩, hround⟩ :=
    exists_eval_eq_some (remaining size) hrounds ⟨sound_start parent size, rfl⟩
  exact ⟨last, heval, hsound, (hsound.closed?_eq_answer hround).trans hanswer⟩

theorem loop_of_closed? (h : Sound parent size search) (hi : search.closed? = some i) :
    TransGen (Up parent) i i := by
  obtain ⟨hahead, hpath⟩ := Option.filter_eq_some_iff.1 hi
  exact h.leads i (ahead?_eq_some.1 hahead).1 i (of_decide_eq_true hpath)

end Sound
end Search

/-! ## The check of the nesting -/

namespace Forest

variable {forest : Forest} {i : Nat}

/-- What a search that has ended says of the nesting. -/
def verdict (forest : Forest) (search : Search) : Except Failure Unit :=
  match search.closed? with
  | some i => .error (.cyclicNesting (forest.nameOf i))
  | none => .ok ()

/-- The path of a node is finite: it goes on where the path of the container ends, and containers do. -/
structure PathEnds (forest : Forest) (i : Nat) : Prop where
  ends : Ends forest.codeParent? i
  path_eq : forest.namespacePath i = (forest.codeParent? i).elim [] forest.namespacePath ++ [i]
  checkedPath_eq : forest.checkedPath i = .ok (forest.namespacePath i)

theorem Nested.pathEnds (h : forest.Nested) (hi : i < forest.size) : forest.PathEnds i where
  ends := h.ends i
  path_eq := by
    rw [namespacePath_eq]
    cases hp : forest.codeParent? i with
    | some p => rw [h.namespaceAncestors_of_codeParent? hp, Option.elim_some]
    | none =>
      rw [namespaceAncestors, namespacePath]
      cases forest.size <;> simp [climb, hp]
  checkedPath_eq := h.checkedPath_eq hi

/-- **The search for a loop of containers ends**, and its verdict is that of the check.  It fails exactly if
a node is in itself, directly or through others, and what it names is such a node; otherwise the paths of
all nodes are finite. -/
theorem nestingSearch_ends (hlt : ∀ i p, forest.codeParent? i = some p → p < forest.size) :
    ∃ last, StateTransition.eval (Search.round forest.codeParent?) (Search.start forest.size) =
        Part.some last ∧
      forest.checkNesting = forest.verdict last ∧
      ((∃ failure, forest.checkNesting = .error failure) ↔
        ∃ i, TransGen (Up forest.codeParent?) i i) ∧
      (∀ i, last.closed? = some i → TransGen (Up forest.codeParent?) i i) ∧
      (forest.checkNesting = .ok () → ∀ i < forest.size, forest.PathEnds i) := by
  obtain ⟨last, heval, hsound, hclosed⟩ := Search.Sound.exists_last hlt
  have hcheck : forest.checkNesting = forest.verdict last := by
    rw [verdict, hclosed]
    rfl
  refine ⟨last, heval, hcheck, ?_, fun i => hsound.loop_of_closed?, fun hok i hi => ?_⟩
  · have hfails : (∃ failure, forest.checkNesting = .error failure) ↔ forest.checkNesting ≠ .ok () := by
      cases forest.checkNesting <;> simp
    rw [hfails, Ne, checkNesting_eq_ok hlt, not_forall_not]
  · exact Nested.pathEnds ⟨hlt _ _, (checkNesting_eq_ok hlt).1 hok⟩ hi

/-- Two nodes that contain each other, and one in front of them that is in the first of the two. -/
def tailedForest : Forest where
  nodes := #[{ decl := .group (.str "Tail") .null, codeParent := some 1 },
    { decl := .group (.str "First") .null, codeParent := some 2 },
    { decl := .group (.str "Second") .null, codeParent := some 1 }]

/-- The search starts at the node in front and names the first of the loop. -/
theorem nestingSearch_ends_tail :
    (∀ i p, tailedForest.codeParent? i = some p → p < tailedForest.size) ∧
      ∃ last, StateTransition.eval (Search.round tailedForest.codeParent?)
          (Search.start tailedForest.size) = Part.some last ∧
        tailedForest.verdict last = .error (.cyclicNesting (.str "First")) ∧
          ∀ i, last.closed? = some i → TransGen (Up tailedForest.codeParent?) i i := by
  have hcontainers : ∀ i < tailedForest.size, ∀ p ∈ tailedForest.codeParent? i, p < tailedForest.size := by
    decide
  have hlt : ∀ i p, tailedForest.codeParent? i = some p → p < tailedForest.size :=
    fun i p hp => hcontainers i (lt_of_codeParent? hp) p hp
  obtain ⟨last, heval, hcheck, -, hloop, -⟩ := nestingSearch_ends hlt
  have hfailure : tailedForest.checkNesting = .error (.cyclicNesting (.str "First")) := by decide +kernel
  exact ⟨hlt, last, heval, hcheck.symm.trans hfailure, hloop⟩

end Forest
end DocForest
