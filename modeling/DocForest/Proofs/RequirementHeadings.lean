import DocForest.Proofs.Trimming
import DocForest.SectionMark
import Mathlib.Data.List.Basic

/-!
# Headings of generic requirements

The heading over the members of a constrained extension shows each requirement with its two sides as code.  It
is made from a text in which commas divide the requirements, and a right side may hold commas of its own.  It
is cut at those as well, so that **the heading shows the requirements exactly if no right side holds a comma
or a line break.**

## What is here

* `SectionMark.Requirement` — two sides and their relation, with the blanks between them;
  `Requirement.text`, `Requirement.shown` — how it is written, and how it is to be shown.
* `Enclosed` — commas stand within brackets only.
* `clauseTexts`, `requirementsHeading_eq` — what a heading consists of; `clauseTexts_append`,
  `clauseTexts_of_no_comma` — its parts.
* `sides?_append`, `passed_of_sides?` — the left side ends at the first relation with something behind it.
* `Parted` — texts that go on differently; `clauseTexts_of_whole`, `exists_parted_of_not_whole` — a requirement
  is shown, or already its first part is shown in another way.
* `SectionMark.name_ofRequirements_iff` — **which headings show their requirements**;
  `SectionMark.ofRequirements_cuts_dictionary` — a generic type is torn apart.
-/

set_option autoImplicit false

namespace DocForest

open Text

/-! ## Texts that go on differently -/

/-- Behind a common beginning the two texts have different characters. -/
def Parted (s t : List Char) : Prop :=
  ∃ front c d, c ≠ d ∧ front ++ [c] <+: s ∧ front ++ [d] <+: t

theorem Parted.append_left {s t : List Char} (front : List Char) (h : Parted s t) :
    Parted (front ++ s) (front ++ t) := by
  obtain ⟨common, c, d, hne, hs, ht⟩ := h
  refine ⟨front ++ common, c, d, hne, ?_, ?_⟩
  · rwa [List.append_assoc, List.prefix_append_right_inj]
  · rwa [List.append_assoc, List.prefix_append_right_inj]

theorem Parted.append_ne {s t : List Char} (h : Parted s t) (s' t' : List Char) : s ++ s' ≠ t ++ t' := by
  obtain ⟨common, c, d, hne, ⟨s, rfl⟩, ⟨t, rfl⟩⟩ := h
  intro heq
  simp only [List.append_assoc, List.append_cancel_left_eq] at heq
  exact hne (List.cons.inj heq).1

namespace SectionMark

variable {left s t : List Char} {c : Char}

/-! ## Requirements -/

/-- The sign of a relation in a requirement. -/
def Relation.operator : Relation → List Char
  | .sameType => ['=', '=']
  | .conforms => [':']

/-- The characters of dotted names, and all others that end no left side. -/
def isPathChar (c : Char) : Bool :=
  !isBlank c && c != ',' && c != ':' && c != '='

/-- A generic requirement: the left side is a dotted name, and the right side is a text without blanks around
it. -/
structure Requirement where
  left : List Char
  relation : Relation
  right : List Char
  /-- The blanks in front of the relation. -/
  ahead : List Char := []
  /-- The blanks behind the relation. -/
  behind : List Char := [' ']
  left_ne_nil : left ≠ [] := by decide
  left_path : ∀ c ∈ left, isPathChar c = true := by exact List.all_eq_true.1 (by decide)
  right_ne_nil : right ≠ [] := by decide
  right_trimmed : Trimmed right := by decide
  ahead_blank : ∀ c ∈ ahead, isBlank c = true := by exact List.all_eq_true.1 (by decide)
  behind_blank : ∀ c ∈ behind, isBlank c = true := by exact List.all_eq_true.1 (by decide)

namespace Requirement

/-- The requirement as it is written, with another right side. -/
def textWith (requirement : Requirement) (right : List Char) : List Char :=
  requirement.left ++ (requirement.ahead ++ (requirement.relation.operator ++
    (requirement.behind ++ right)))

/-- The requirement as it is written. -/
def text (requirement : Requirement) : List Char :=
  requirement.textWith requirement.right

/-- The requirement as it is to be shown. -/
def shown (requirement : Requirement) : List Char :=
  asCode requirement.left ++ requirement.relation.sign ++ asCode requirement.right

/-- A requirement that is not cut, and stands on one line. -/
def IsWhole (requirement : Requirement) : Prop :=
  ',' ∉ requirement.right ∧ '\n' ∉ requirement.right

end Requirement

/-! ## The parts of a heading -/

/-- The requirements of a text as they stand in a heading. -/
def clauseTexts (s : List Char) : List (List Char) :=
  (((piecesBy (· = ',') s).map trimList).filter fun clause => !clause.isEmpty).map clauseText

/-- Texts one behind the other. -/
def joined (texts : List (List Char)) : String :=
  String.intercalate ", " (texts.map String.ofList)

theorem toList_joined (texts : List (List Char)) : (joined texts).toList = [',', ' '].intercalate texts := by
  rw [joined, String.toList_intercalate, List.map_map]
  exact congrArg _ ((List.map_congr_left fun _ _ => String.toList_ofList).trans (List.map_id texts))

theorem requirementsHeading_eq (requirements : String) :
    requirementsHeading requirements = "Available where " ++ joined (clauseTexts requirements.toList) := by
  unfold requirementsHeading
  rfl

theorem piecesBy_append {p : Char → Bool} (hc : p c = true) (s t : List Char) :
    piecesBy p (s ++ c :: t) = piecesBy p s ++ piecesBy p t := by
  induction s with
  | nil => simp [piecesBy, hc]
  | cons d s ih =>
    rw [List.cons_append, piecesBy, piecesBy, ih]
    split
    · rfl
    · obtain ⟨first, others, hpieces⟩ := List.exists_cons_of_ne_nil (piecesBy_ne_nil p s)
      rw [hpieces]
      rfl

theorem piecesBy_of_not_mem {p : Char → Bool} (h : ∀ c ∈ s, p c = false) : piecesBy p s = [s] := by
  induction s with
  | nil => rfl
  | cons c s ih =>
    obtain ⟨hc, hs⟩ := List.forall_mem_cons.1 h
    rw [piecesBy, hc, if_neg Bool.false_ne_true, ih hs]

/-- A comma divides a heading. -/
theorem clauseTexts_append (s t : List Char) : clauseTexts (s ++ ',' :: t) = clauseTexts s ++ clauseTexts t := by
  rw [clauseTexts, piecesBy_append (by decide), List.map_append, List.filter_append, List.map_append]
  rfl

theorem clauseTexts_blank_cons (s : List Char) : clauseTexts (' ' :: s) = clauseTexts s := by
  obtain ⟨first, others, hpieces⟩ := List.exists_cons_of_ne_nil (piecesBy_ne_nil (· = ',') s)
  rw [clauseTexts, clauseTexts, piecesBy, if_neg (by decide), hpieces, List.map_cons, List.map_cons,
    trimList_blank_cons (by decide)]

theorem clauseTexts_of_no_comma (hcomma : ',' ∉ s) (hs : trimList s ≠ []) :
    clauseTexts s = [clauseText (trimList s)] := by
  have hpieces : piecesBy (· = ',') s = [s] :=
    piecesBy_of_not_mem fun c hc => decide_eq_false fun h => hcomma (h ▸ hc)
  rw [clauseTexts, hpieces, List.map_singleton, List.filter_cons_of_pos (by simpa using hs), List.filter_nil,
    List.map_singleton]

theorem clauseTexts_intercalate (clauses : List (List Char)) :
    clauseTexts ([',', ' '].intercalate clauses) = clauses.flatMap clauseTexts := by
  induction clauses with
  | nil => rfl
  | cons clause rest ih =>
    cases rest with
    | nil => simp
    | cons next more =>
      rw [List.intercalate_cons_cons, List.append_assoc, List.flatMap_cons, ← ih, ← clauseTexts_blank_cons
        ([',', ' '].intercalate (next :: more)), ← clauseTexts_append]
      rfl

/-! ## The sides of a requirement -/

theorem relation?_of_isPathChar (hc : isPathChar c = true) (s : List Char) : relation? (c :: s) = none := by
  simp only [isPathChar, Bool.and_eq_true, Bool.not_eq_true', bne_iff_ne, ne_eq] at hc
  obtain ⟨⟨⟨hblank, -⟩, hcolon⟩, hequals⟩ := hc
  rw [relation?, List.dropWhile_cons_of_neg (Bool.eq_false_iff.1 hblank)]
  split
  · next h => exact absurd (List.cons.inj h).1 hequals
  · next h => exact absurd (List.cons.inj h).1 hcolon
  · rfl

theorem sides?_append (hne : left ≠ []) (hleft : ∀ c ∈ left, isPathChar c = true) (before s : List Char) :
    sides? before (left ++ s) = match relation? s with
      | some (relation, right) => some (before.reverse ++ left, relation, right)
      | none => sides? (left.reverse ++ before) s := by
  induction left generalizing before with
  | nil => exact absurd rfl hne
  | cons c left ih =>
    obtain ⟨hc, hmore⟩ := List.forall_mem_cons.1 hleft
    have hline : c ≠ '\n' := by rintro rfl; exact absurd hc (by decide)
    rw [List.cons_append, sides?, if_neg hline]
    cases left with
    | nil =>
      rw [List.nil_append]
      cases relation? s with
      | none => rfl
      | some found => simp
    | cons d left =>
      rw [List.cons_append, relation?_of_isPathChar (hmore d List.mem_cons_self), ← List.cons_append,
        ih (List.cons_ne_nil _ _) hmore]
      simp

theorem passed_of_sides? {before right : List Char} {relation : Relation}
    (h : sides? before s = some (left, relation, right)) : ∃ c ∈ s.head?, before.reverse ++ [c] <+: left := by
  induction s generalizing before with
  | nil => cases h
  | cons c s ih =>
    rw [sides?] at h
    split at h
    · cases h
    refine ⟨c, rfl, ?_⟩
    cases hfound : relation? s with
    | some found =>
      rw [hfound] at h
      obtain rfl := congrArg Prod.fst (Option.some.inj h)
      exact List.reverse_cons ▸ List.prefix_refl _
    | none =>
      rw [hfound] at h
      obtain ⟨d, -, hprefix⟩ := ih h
      rw [List.reverse_cons] at hprefix
      exact (List.prefix_append _ [d]).trans hprefix

/-! ## Requirements in a heading -/

theorem blank_or_operator (requirement : Requirement) (s : List Char) :
    ∃ c rest, c ≠ '\x60' ∧ requirement.ahead ++ (requirement.relation.operator ++ s) = c :: rest := by
  cases hahead : requirement.ahead with
  | nil =>
    cases requirement.relation with
    | sameType => exact ⟨'=', _, by decide, rfl⟩
    | conforms => exact ⟨':', _, by decide, rfl⟩
  | cons c rest =>
    refine ⟨c, _, ?_, rfl⟩
    rintro rfl
    exact absurd (requirement.ahead_blank _ (hahead ▸ List.mem_cons_self)) (by decide)

theorem relation?_text (requirement : Requirement) (s : List Char) :
    relation? (requirement.ahead ++ (requirement.relation.operator ++ s)) =
      (some (requirement.relation, s.dropWhile isBlank)).filter fun side =>
        !side.2.isEmpty && !side.2.contains '\n' := by
  rw [relation?, List.dropWhile_append_of_pos requirement.ahead_blank]
  cases requirement.relation with
  | sameType =>
    have hdrop : (Relation.sameType.operator ++ s).dropWhile isBlank = '=' :: '=' :: s := by
      simp [Relation.operator, isBlank]
    rw [hdrop]
    rfl
  | conforms =>
    have hdrop : (Relation.conforms.operator ++ s).dropWhile isBlank = ':' :: s := by
      simp [Relation.operator, isBlank]
    rw [hdrop]
    rfl

theorem dropWhile_trimEndOf (requirement : Requirement) {front : List Char}
    (hfront : ∀ c ∈ front.head?, isBlank c = false) :
    (trimEndOf isBlank (requirement.behind ++ front)).dropWhile isBlank = trimEndOf isBlank front := by
  have hbehind := requirement.behind_blank
  cases front with
  | nil =>
    have hnone : trimEndOf isBlank requirement.behind = [] :=
      List.rdropWhile_eq_nil_iff.2 hbehind
    rw [List.append_nil, hnone]
    rfl
  | cons c rest =>
    have hc := hfront c rfl
    rw [trimEndOf_append_cons hc, List.dropWhile_append_of_pos hbehind,
      List.dropWhile_cons_of_neg (Bool.eq_false_iff.1 hc)]
    exact (trimEndOf_append_cons hc [] rest).symm

/-- A requirement is trimmed behind its relation. -/
theorem trimList_textWith (requirement : Requirement) (front : List Char) :
    trimList (requirement.textWith front) = requirement.left ++ (requirement.ahead ++
      (requirement.relation.operator ++ trimEndOf isBlank (requirement.behind ++ front))) := by
  have hhead : ∀ c ∈ (requirement.textWith front).head?, isBlank c = false := by
    obtain ⟨c, more, hleft⟩ := List.exists_cons_of_ne_nil requirement.left_ne_nil
    intro d hd
    rw [Requirement.textWith, hleft] at hd
    obtain rfl := Option.some.inj hd
    have hpath := requirement.left_path c (hleft ▸ List.mem_cons_self)
    simp only [isPathChar, Bool.and_eq_true, Bool.not_eq_true'] at hpath
    exact hpath.1.1.1
  -- the last character of the relation is no blank
  obtain ⟨init, c, hc, hoperator⟩ : ∃ init c, isBlank c = false ∧ requirement.relation.operator = init ++ [c] := by
    cases requirement.relation with
    | sameType => exact ⟨['='], '=', by decide, rfl⟩
    | conforms => exact ⟨[], ':', by decide, rfl⟩
  have hcut := trimEndOf_append_cons hc (requirement.left ++ (requirement.ahead ++ init))
    (requirement.behind ++ front)
  rw [trimList, trimBothOf, dropWhile_eq_self hhead, Requirement.textWith, hoperator]
  simpa only [List.append_assoc, List.singleton_append] using hcut

/-- With something on one line behind it, the relation is found. -/
theorem clauseText_of_line (requirement : Requirement) {front : List Char}
    (hfront : ∀ c ∈ front.head?, isBlank c = false) (hne : trimEndOf isBlank front ≠ [])
    (hline : '\n' ∉ trimEndOf isBlank front) :
    clauseText (trimList (requirement.textWith front)) =
      asCode requirement.left ++ requirement.relation.sign ++ asCode (trimEndOf isBlank front) := by
  have hsides : sides? [] (trimList (requirement.textWith front)) =
      some (requirement.left, requirement.relation, trimEndOf isBlank front) := by
    rw [trimList_textWith, sides?_append requirement.left_ne_nil requirement.left_path, relation?_text,
      dropWhile_trimEndOf requirement hfront, Option.filter_some, if_pos (by simp [hne, hline])]
    rfl
  rw [clauseText, hsides]

/-- Otherwise the left side is not shown as code. -/
theorem passed_of_clauseText (requirement : Requirement) {front : List Char}
    (hfront : ∀ c ∈ front.head?, isBlank c = false)
    (h : ¬(trimEndOf isBlank front ≠ [] ∧ '\n' ∉ trimEndOf isBlank front)) :
    ∃ c, c ≠ '\x60' ∧
      '\x60' :: (requirement.left ++ [c]) <+: clauseText (trimList (requirement.textWith front)) := by
  obtain ⟨c, rest, hc, hrest⟩ := blank_or_operator requirement
    (trimEndOf isBlank (requirement.behind ++ front))
  refine ⟨c, hc, ?_⟩
  have hsides : sides? [] (trimList (requirement.textWith front)) =
      sides? requirement.left.reverse (c :: rest) := by
    rw [trimList_textWith, sides?_append requirement.left_ne_nil requirement.left_path, relation?_text,
      dropWhile_trimEndOf requirement hfront, Option.filter_some, if_neg (by simpa using h), hrest,
      List.append_nil]
  rw [clauseText, hsides]
  cases hfound : sides? requirement.left.reverse (c :: rest) with
  | none =>
    rw [trimList_textWith, hrest]
    exact ⟨rest ++ ['\x60'], by simp [asCode]⟩
  | some found =>
    obtain ⟨left, relation, right⟩ := found
    obtain ⟨d, hd, more, hmore⟩ := passed_of_sides? hfound
    obtain rfl := Option.some.inj hd
    rw [List.reverse_reverse] at hmore
    exact ⟨more ++ ['\x60'] ++ relation.sign ++ asCode right, by simp [asCode, ← hmore]⟩

/-! ## Headings -/

theorem trimList_textWith_ne_nil (requirement : Requirement) (front : List Char) :
    trimList (requirement.textWith front) ≠ [] := by
  rw [trimList_textWith]
  exact List.append_ne_nil_of_left_ne_nil requirement.left_ne_nil _

theorem comma_not_mem_textWith (requirement : Requirement) {front : List Char} (h : ',' ∉ front) :
    ',' ∉ requirement.textWith front := by
  have hleft : ',' ∉ requirement.left := fun hmem => absurd (requirement.left_path _ hmem) (by decide)
  have hahead : ',' ∉ requirement.ahead := fun hmem => absurd (requirement.ahead_blank _ hmem) (by decide)
  have hbehind : ',' ∉ requirement.behind := fun hmem => absurd (requirement.behind_blank _ hmem) (by decide)
  have hoperator : ',' ∉ requirement.relation.operator := by
    cases requirement.relation <;> decide
  simp only [Requirement.textWith, List.mem_append, not_or]
  exact ⟨hleft, hahead, hoperator, hbehind, h⟩

/-- A whole requirement is shown. -/
theorem clauseTexts_of_whole {requirement : Requirement} (h : requirement.IsWhole) :
    clauseTexts requirement.text = [requirement.shown] := by
  have hright : trimEndOf isBlank requirement.right = requirement.right :=
    trimEndOf_eq_self requirement.right_trimmed.last
  have hclause := clauseText_of_line requirement requirement.right_trimmed.head
    (hright.symm ▸ requirement.right_ne_nil) (hright.symm ▸ h.2)
  rw [Requirement.text, clauseTexts_of_no_comma (comma_not_mem_textWith requirement h.1)
    (trimList_textWith_ne_nil requirement _), hclause, hright]
  rfl

/-- What is shown of the first part of a requirement goes on differently, unless this part is the whole. -/
theorem parted_clauseText (requirement : Requirement) {front back : List Char}
    (hright : requirement.right = front ++ back) (hback : back.head? = some ',' ∨ '\n' ∈ front) :
    Parted (clauseText (trimList (requirement.textWith front))) requirement.shown := by
  have hfront : ∀ c ∈ front.head?, isBlank c = false := fun c hc =>
    requirement.right_trimmed.head c (hright ▸ List.mem_head?_append_of_mem_head? hc)
  by_cases h : trimEndOf isBlank front ≠ [] ∧ '\n' ∉ trimEndOf isBlank front
  · -- the right side goes on with a blank or with the comma, and what is shown ends
    obtain ⟨blanks, hblanks, hcut⟩ := exists_trimmed_off isBlank front
    obtain ⟨c, rest, hc, hrest⟩ : ∃ c rest, c ≠ '\x60' ∧ blanks ++ back = c :: rest := by
      cases blanks with
      | nil =>
        rw [List.append_nil] at hcut
        obtain ⟨rest, rfl⟩ := List.head?_eq_some_iff.1 (hback.resolve_right fun hline => h.2 (hcut ▸ hline))
        exact ⟨',', rest, by decide, rfl⟩
      | cons c rest =>
        refine ⟨c, rest ++ back, ?_, rfl⟩
        rintro rfl
        exact absurd (hblanks _ List.mem_cons_self) (by decide)
    rw [clauseText_of_line requirement hfront h.1 h.2, Requirement.shown]
    refine Parted.append_left _ ⟨'\x60' :: trimEndOf isBlank front, '\x60', c, hc.symm, ⟨[], by simp [asCode]⟩,
      rest ++ ['\x60'], ?_⟩
    rw [hright]
    conv_rhs => rw [hcut]
    simp [asCode, hrest]
  · -- behind the left side there is a blank or the relation, and not the end of what is shown as code
    obtain ⟨c, hc, hpassed⟩ := passed_of_clauseText requirement hfront h
    exact ⟨'\x60' :: requirement.left, c, '\x60', hc, hpassed,
      requirement.relation.sign ++ asCode requirement.right, by simp [Requirement.shown, asCode]⟩

/-- A requirement that is cut, or goes on in another line, is shown in another way. -/
theorem exists_parted_of_not_whole {requirement : Requirement} (h : ¬requirement.IsWhole) :
    ∃ first others, clauseTexts requirement.text = first :: others ∧ Parted first requirement.shown := by
  by_cases hcomma : ',' ∈ requirement.right
  · obtain ⟨front, back, hright, hfront⟩ := List.eq_append_cons_of_mem hcomma
    have htext : requirement.text = requirement.textWith front ++ ',' :: back := by
      simp [Requirement.text, Requirement.textWith, hright]
    refine ⟨_, clauseTexts back, ?_, parted_clauseText requirement hright (.inl rfl)⟩
    rw [htext, clauseTexts_append, clauseTexts_of_no_comma (comma_not_mem_textWith requirement hfront)
      (trimList_textWith_ne_nil requirement front)]
    rfl
  · have hline : '\n' ∈ requirement.right := Classical.not_not.1 fun hline => h ⟨hcomma, hline⟩
    refine ⟨_, [], ?_, parted_clauseText requirement (List.append_nil _).symm (.inr hline)⟩
    exact clauseTexts_of_no_comma (comma_not_mem_textWith requirement hcomma)
      (trimList_textWith_ne_nil requirement _)

theorem clauseTexts_text_ne_nil (requirement : Requirement) : clauseTexts requirement.text ≠ [] := by
  by_cases h : requirement.IsWhole
  · rw [clauseTexts_of_whole h]
    exact List.cons_ne_nil _ _
  · obtain ⟨first, others, hfirst, -⟩ := exists_parted_of_not_whole h
    rw [hfirst]
    exact List.cons_ne_nil _ _

/-- The texts with a comma and a space in front of each. -/
def listed (texts : List (List Char)) : List Char :=
  texts.flatMap ([',', ' '] ++ ·)

theorem append_intercalate {texts : List (List Char)} (h : texts ≠ []) :
    [',', ' '] ++ [',', ' '].intercalate texts = listed texts := by
  induction texts with
  | nil => exact absurd rfl h
  | cons text rest ih =>
    cases rest with
    | nil => simp [listed]
    | cons next more =>
      rw [List.intercalate_cons_cons, List.append_assoc, ih (List.cons_ne_nil _ _)]
      rfl

theorem listed_clauseTexts_iff (requirements : List Requirement) :
    listed (requirements.flatMap fun r => clauseTexts r.text) = listed (requirements.map Requirement.shown) ↔
      ∀ r ∈ requirements, r.IsWhole := by
  induction requirements with
  | nil => simp
  | cons r rest ih =>
    rw [List.flatMap_cons, List.map_cons, List.forall_mem_cons, listed, List.flatMap_append, listed,
      List.flatMap_cons]
    by_cases hwhole : r.IsWhole
    · rw [clauseTexts_of_whole hwhole, List.flatMap_singleton, List.append_cancel_left_eq, and_iff_right hwhole]
      exact ih
    · obtain ⟨first, others, hfirst, hparted⟩ := exists_parted_of_not_whole hwhole
      rw [hfirst, List.flatMap_cons, List.append_assoc]
      exact iff_of_false ((hparted.append_left _).append_ne _ _) fun h => hwhole h.1

/-- **A heading shows its requirements exactly if none of them is cut**: no right side holds a comma or a line
break. -/
theorem name_ofRequirements_iff (requirements : List Requirement) :
    (ofRequirements (joined (requirements.map Requirement.text))).name =
        some ("Available where " ++ joined (requirements.map Requirement.shown)) ↔
      ∀ r ∈ requirements, ',' ∉ r.right ∧ '\n' ∉ r.right := by
  have htexts : clauseTexts (joined (requirements.map Requirement.text)).toList =
      requirements.flatMap fun r => clauseTexts r.text := by
    rw [toList_joined, clauseTexts_intercalate, List.flatMap_map]
  rw [ofRequirements, Option.some.injEq, requirementsHeading_eq, htexts, ← String.toList_inj, String.toList_append,
    String.toList_append, toList_joined, toList_joined, List.append_cancel_left_eq]
  refine Iff.trans ?_ (listed_clauseTexts_iff requirements)
  cases requirements with
  | nil => exact iff_of_true rfl rfl
  | cons r rest =>
    have hparts : (r :: rest).flatMap (fun r => clauseTexts r.text) ≠ [] :=
      List.append_ne_nil_of_left_ne_nil (clauseTexts_text_ne_nil r) _
    rw [← append_intercalate hparts, ← append_intercalate (by simp), List.append_cancel_left_eq]

/-! ## Right sides with commas -/

/-- The brackets in which commas may stand. -/
def brackets : List (Char × Char) :=
  [('<', '>'), ('(', ')'), ('[', ']')]

/-- Whether a character opens or closes brackets. -/
def isBracket (c : Char) : Bool :=
  brackets.any fun pair => c = pair.1 || c = pair.2

/-- A text in which every bracket has its counterpart.  The head of an arrow is no bracket. -/
inductive Balanced : List Char → Prop
  | plain {s : List Char} (h : s.any isBracket = false) : Balanced s
  | arrow : Balanced ['-', '>']
  | group {pair : Char × Char} {inner : List Char} (hpair : pair ∈ brackets) (h : Balanced inner) :
      Balanced (pair.1 :: (inner ++ [pair.2]))
  | append {s t : List Char} (hs : Balanced s) (ht : Balanced t) : Balanced (s ++ t)

/-- A text in which commas stand only within brackets. -/
inductive Enclosed : List Char → Prop
  | plain {s : List Char} (hcomma : ',' ∉ s) (h : Balanced s) : Enclosed s
  | group {pair : Char × Char} {inner : List Char} (hpair : pair ∈ brackets) (h : Balanced inner) :
      Enclosed (pair.1 :: (inner ++ [pair.2]))
  | append {s t : List Char} (hs : Enclosed s) (ht : Enclosed t) : Enclosed (s ++ t)

/-- A parameter is to be a dictionary. -/
def Requirement.dictionary : Requirement where
  left := ['T']
  relation := .sameType
  right := "Dictionary".toList ++ "<K, V>".toList
  ahead := [' ']

/-- **Brackets do not keep a requirement whole**: the type of a dictionary is torn apart at its comma. -/
theorem ofRequirements_cuts_dictionary :
    ¬∀ requirements : List Requirement, requirements ≠ [] → (∀ r ∈ requirements, Enclosed r.right) →
      (ofRequirements (joined (requirements.map Requirement.text))).name =
        some ("Available where " ++ joined (requirements.map Requirement.shown)) := by
  intro h
  have hparameters : Enclosed ('<' :: ("K, V".toList ++ ['>'])) :=
    @Enclosed.group ('<', '>') _ List.mem_cons_self (.plain (by decide))
  have henclosed : Enclosed Requirement.dictionary.right :=
    .append (.plain (by decide) (.plain (by decide))) hparameters
  have hshown := h [.dictionary] (List.cons_ne_nil _ _) (List.forall_mem_singleton.2 henclosed)
  exact absurd hshown (by decide +kernel)

/-- What stands in the heading instead. -/
example : (ofRequirements "T == Dictionary<K, V>").name =
    some "Available where \x60T\x60 == \x60Dictionary<K\x60, \x60V>\x60" := by decide +kernel

end SectionMark
end DocForest
