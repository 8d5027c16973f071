import DocForest.Proofs.Trimming
import DocForest.SectionMark

/-!
# Marks written as comments

A mark is written as a keyword, a name, and a dash on either side that is set off by a space.  A name alone
may look like a dash, begin like one or end like one; apart from that **the comment of a mark is read as that
mark.**

## What is here

* `SectionMark.comment` — the comment that writes a mark.
* `isPrefixOf_written`, `isSuffixOf_written` — there is a dash at an end exactly if one was written.
* `SectionMark.ofContent_written` — what is left between the dashes is the name.
* `SectionMark.ofComment_comment` — **every mark is read as it was written, and every name that is read is
  trimmed.**
-/

set_option autoImplicit false

namespace DocForest
namespace SectionMark

open Text

variable {name : List Char} {startDash endDash : Bool}

/-! ## Writing -/

/-- The dash in front of a name. -/
def opening (startDash : Bool) : List Char :=
  if startDash then ['-', ' '] else []

/-- The dash behind a name. -/
def closing (endDash : Bool) : List Char :=
  if endDash then [' ', '-'] else []

/-- A name between its dashes. -/
def written (name : List Char) (startDash endDash : Bool) : List Char :=
  opening startDash ++ (name ++ closing endDash)

/-- The comment that writes a mark. -/
def comment (name : String) (startDash endDash : Bool) : String :=
  "MARK: " ++ String.ofList (written name.toList startDash endDash)

/-! ## The dashes -/

/-- Two characters that begin a text begin its first part, or this part is shorter. -/
theorem pair_prefix_append {a b : Char} {s t : List Char} (h : [a, b] <+: s ++ t) :
    s = [] ∨ s = [a] ∨ [a, b] <+: s := by
  match s with
  | [] => exact .inl rfl
  | [c] =>
    obtain ⟨rfl, -⟩ := List.cons_prefix_cons.1 h
    exact .inr (.inl rfl)
  | c :: d :: rest =>
    obtain ⟨rfl, hrest⟩ := List.cons_prefix_cons.1 h
    obtain ⟨rfl, -⟩ := List.cons_prefix_cons.1 hrest
    exact .inr (.inr (List.prefix_append [a, b] rest))

theorem isPrefixOf_written (hne : name ≠ []) (hdash : name ≠ ['-'])
    (hstart : startDash = false → ¬['-', ' '] <+: name) :
    ['-', ' '].isPrefixOf (written name startDash endDash) = startDash := by
  cases startDash with
  | true => rfl
  | false =>
    rw [Bool.eq_false_iff, Ne, List.isPrefixOf_iff_prefix, written, opening, if_neg Bool.false_ne_true,
      List.nil_append]
    intro hprefix
    rcases pair_prefix_append hprefix with h | h | h
    · exact hne h
    · exact hdash h
    · exact hstart rfl h

theorem isSuffixOf_written (hne : name ≠ []) (hdash : name ≠ ['-'])
    (hend : endDash = false → ¬[' ', '-'] <:+ name) :
    [' ', '-'].isSuffixOf (written name startDash endDash) = endDash := by
  rw [written, ← List.append_assoc]
  cases endDash with
  | true => exact List.isSuffixOf_iff_suffix.2 (List.suffix_append _ _)
  | false =>
    rw [Bool.eq_false_iff, Ne, List.isSuffixOf_iff_suffix, closing, if_neg Bool.false_ne_true,
      List.append_nil, ← List.reverse_prefix, List.reverse_append]
    intro hprefix
    rcases pair_prefix_append hprefix with h | h | h
    · exact hne (List.reverse_eq_nil_iff.1 h)
    · exact hdash (List.reverse_eq_iff.1 h)
    · exact hend rfl (List.reverse_prefix.1 h)

/-! ## Reading -/

theorem nameOf?_of_trimmed (hne : name ≠ []) (htrimmed : Trimmed name) :
    nameOf? name = some (String.ofList name) := by
  rw [nameOf?, trimList_eq_self htrimmed, if_neg (fun h => hne (List.isEmpty_iff.1 h))]

theorem drop_take_written (name : List Char) (startDash endDash : Bool) :
    ((written name startDash endDash).take (if endDash then (written name startDash endDash).length - 2
      else (written name startDash endDash).length)).drop (if startDash then 2 else 0) = name := by
  cases startDash <;> cases endDash <;> simp [written, opening, closing]

theorem ofContent_written (hne : name ≠ []) (hdash : name ≠ ['-']) (htrimmed : Trimmed name)
    (hstart : startDash = false → ¬['-', ' '] <+: name) (hend : endDash = false → ¬[' ', '-'] <:+ name) :
    ofContent (written name startDash endDash) = { name := some (String.ofList name), startDash, endDash } := by
  have hempty : ¬(written name startDash endDash).isEmpty = true := by
    simp [written, hne]
  have hsingle : written name startDash endDash ≠ ['-'] := by
    cases startDash with
    | true => simp [written, opening]
    | false =>
      cases endDash with
      | true => exact fun h => absurd (congrArg List.length h) (by simp [written, opening, closing])
      | false => simpa [written, opening, closing] using hdash
  simp only [ofContent]
  rw [if_neg hempty, if_neg hsingle, isPrefixOf_written hne hdash hstart, isSuffixOf_written hne hdash hend,
    drop_take_written, nameOf?_of_trimmed hne htrimmed]

theorem trimmed_of_nameOf? {s : List Char} {parsed : String} (h : nameOf? s = some parsed) :
    parsed ≠ "" ∧ Trimmed parsed.toList := by
  simp only [nameOf?] at h
  split at h
  · cases h
  · next hne =>
    obtain rfl := Option.some.inj h
    rw [Ne, String.ofList_eq_empty_iff, String.toList_ofList]
    exact ⟨fun heq => hne (List.isEmpty_iff.2 heq), trimmed_trimList s⟩

theorem trimmed_of_ofContent {content : List Char} {parsed : String}
    (h : (ofContent content).name = some parsed) : parsed ≠ "" ∧ Trimmed parsed.toList := by
  simp only [ofContent] at h
  split at h
  · cases h
  · split at h
    · cases h
    · exact trimmed_of_nameOf? h

theorem withoutStart_append (start s : List Char) : withoutStart start (start ++ s) = s := by
  rw [withoutStart, if_pos (List.isPrefixOf_iff_prefix.2 (List.prefix_append start s)), List.drop_left]

/-- **Every mark is read as it was written**, unless its name alone is a dash, or it looks as if there were a
dash where there is none.  **Every name that is read from a comment is trimmed** and not empty. -/
theorem ofComment_comment :
    (∀ {name : String} {startDash endDash : Bool}, name ≠ "" → name ≠ "-" → Trimmed name.toList →
      (startDash = false → startsWith "- " name = false) → (endDash = false → endsWith " -" name = false) →
      ofComment (comment name startDash endDash) = { name := some name, startDash, endDash }) ∧
    ∀ (text parsed : String), (ofComment text).name = some parsed → parsed ≠ "" ∧ Trimmed parsed.toList := by
  refine ⟨fun {name startDash endDash} hne hdash htrimmed hstart hend => ?_, fun text parsed => trimmed_of_ofContent⟩
  rw [ofComment, comment, String.toList_append, withoutStart_append, String.toList_ofList,
    ofContent_written (fun h => hne (String.toList_eq_nil_iff.1 h)) (fun h => hdash (String.toList_inj.1 h))
      htrimmed, String.ofList_toList]
  · exact fun h hprefix => Bool.eq_false_iff.1 (hstart h) (List.isPrefixOf_iff_prefix.2 hprefix)
  · exact fun h hsuffix => Bool.eq_false_iff.1 (hend h) (List.isSuffixOf_iff_suffix.2 hsuffix)

/-- A name may begin like a dash if there is one in front of it. -/
theorem ofComment_comment_setup :
    Trimmed "- Setup".toList ∧ endsWith " -" "- Setup" = false ∧
      ofComment (comment "- Setup" true false) = { name := some "- Setup", startDash := true } ∧
      (ofComment "MARK:  - - ").name = some "- -" ∧ Trimmed "- -".toList := by
  have htrimmed : Trimmed "- Setup".toList := by decide
  have hend : endsWith " -" "- Setup" = false := by decide +kernel
  obtain ⟨hwritten, hnames⟩ := ofComment_comment
  have hread := hwritten (by decide) (by decide) htrimmed (fun h : true = false => nomatch h)
    (fun _ : false = false => hend)
  have hname : (ofComment "MARK:  - - ").name = some "- -" := by decide +kernel
  exact ⟨htrimmed, hend, hread, hname, (hnames _ _ hname).2⟩

/-- Dashes that share their space leave no name. -/
example : ofComment "MARK: - -" = { startDash := true, endDash := true } := by decide +kernel

end SectionMark
end DocForest
