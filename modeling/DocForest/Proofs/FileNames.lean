import DocForest.Pages.FileName
import Mathlib.Data.List.Nodup
import Mathlib.Data.List.Perm.Subperm
import Mathlib.Order.Bounds.Basic

/-!
# File names of siblings

A file name is a text of ASCII characters without a slash, so that two of them differ without regard to
case exactly if their small forms do, however the rest of Unicode is folded.  **The name that is chosen
for a sibling is new**, since there are more names to try than used ones.

## What is here

* `Text.CaseFolding` — the ways to read a text without regard to case, `CaseFolding.fold_eq_iff` — they
  agree on ASCII texts.
* `isFileChar`, `fileName_chars`, `unusedName_chars` — the characters of file names.
* `tried` — the names to try, of which none comes twice; `exists_unusedName_eq_tried` — **the first that is
  not used is chosen**; `unusedName_eq_self`, `unusedName_eq_or_exists` — which name it is.
* `IsDirectory`, `directory_append_inj` — the last name of a path can be told from its directory.
-/

set_option autoImplicit false

namespace DocForest

/-! ## Regardless of case -/

namespace Text

/-- A way to read texts without regard to case: every character is replaced on its own, an ASCII character
by its small form.  What becomes of other characters is left open. -/
structure CaseFolding where
  ofChar : Char → List Char
  ofChar_ascii : ∀ c, c.toNat < 128 → ofChar c = [c.toLower]

/-- The folding that knows ASCII letters only. -/
def CaseFolding.ascii : CaseFolding where
  ofChar c := [c.toLower]
  ofChar_ascii _ _ := rfl

/-- A text of ASCII characters. -/
def IsAscii (s : String) : Prop :=
  ∀ c ∈ s.toList, c.toNat < 128

instance (s : String) : Decidable (IsAscii s) :=
  decidable_of_iff (s.toList.all fun c => decide (c.toNat < 128)) (by simp [IsAscii])

theorem IsAscii.append {s t : String} (hs : IsAscii s) (ht : IsAscii t) : IsAscii (s ++ t) := by
  intro c hc
  rw [String.toList_append, List.mem_append] at hc
  exact hc.elim (hs c) (ht c)

theorem toList_foldAscii (s : String) : (foldAscii s).toList = s.toList.map Char.toLower :=
  String.toList_ofList

theorem foldAscii_append (s t : String) : foldAscii (s ++ t) = foldAscii s ++ foldAscii t := by
  rw [← String.toList_inj, String.toList_append, toList_foldAscii, toList_foldAscii, toList_foldAscii,
    String.toList_append, List.map_append]

theorem toLower_eq_slash_iff {c : Char} : c.toLower = '/' ↔ c = '/' := by
  refine ⟨fun h => ?_, fun h => by rw [h]; rfl⟩
  by_cases hupper : c.val ≥ 'A'.val ∧ c.val ≤ 'Z'.val
  · -- small letters stand behind the slash
    have hlower : c.toLower = _ := dif_pos hupper
    have hval := congrArg (fun d : Char => d.val.toNat) (hlower.symm.trans h)
    simp only [UInt32.toNat_add, ge_iff_le, UInt32.le_iff_toNat_le] at hval hupper
    simp at hval hupper
    omega
  · exact (dif_neg hupper : c.toLower = c).symm.trans h

theorem toLower_of_isDigit {c : Char} (h : c.isDigit = true) : c.toLower = c := by
  simp only [Char.isDigit, Bool.and_eq_true, decide_eq_true_eq] at h
  exact dif_neg fun hupper => absurd (UInt32.le_trans hupper.1 h.2) (by decide)

namespace CaseFolding

variable (folding : CaseFolding) {s t : String}

/-- A text without regard to case. -/
def fold (s : String) : List Char :=
  s.toList.flatMap folding.ofChar

theorem fold_append (s t : String) : folding.fold (s ++ t) = folding.fold s ++ folding.fold t := by
  rw [fold, String.toList_append, List.flatMap_append]
  rfl

theorem fold_ascii (s : String) : ascii.fold s = (foldAscii s).toList := by
  rw [fold, toList_foldAscii, List.map_eq_flatMap]
  rfl

theorem fold_of_isAscii (hs : IsAscii s) : folding.fold s = (foldAscii s).toList := by
  rw [fold, toList_foldAscii, List.map_eq_flatMap]
  exact List.flatMap_congr fun c hc => folding.ofChar_ascii c (hs c hc)

/-- **All foldings agree on ASCII texts.** -/
theorem fold_eq_iff (hs : IsAscii s) (ht : IsAscii t) :
    folding.fold s = folding.fold t ↔ foldAscii s = foldAscii t := by
  rw [folding.fold_of_isAscii hs, folding.fold_of_isAscii ht, String.toList_inj]

end CaseFolding
end Text

namespace Pages

open Text

variable {candidate name : String} {used : List String} {n : Nat} {c : Char}

/-! ## Characters -/

/-- The characters of file names. -/
def isFileChar (c : Char) : Bool :=
  isPlainChar c || c = '%'

theorem isFileChar_of_isDigit (h : c.isDigit = true) : isFileChar c = true := by
  rw [isFileChar, isPlainChar, Char.isAlphanum, h]
  simp

theorem toNat_lt_of_isFileChar (h : isFileChar c = true) : c.toNat < 128 := by
  delta isFileChar isPlainChar Char.isAlphanum Char.isAlpha Char.isUpper Char.isLower at h
  simp only [Char.isDigit, Bool.or_eq_true, Bool.and_eq_true, decide_eq_true_eq, UInt32.le_iff_toNat_le,
    ge_iff_le] at h
  have hval : c.val.toNat = c.toNat := rfl
  rw [hval] at h
  rcases h with ((((((((⟨-, h⟩ | ⟨-, h⟩) | ⟨-, h⟩) | rfl) | rfl) | rfl) | rfl) | rfl) | rfl) | rfl
  · exact Nat.lt_of_le_of_lt h (by decide)
  · exact Nat.lt_of_le_of_lt h (by decide)
  · exact Nat.lt_of_le_of_lt h (by decide)
  all_goals decide

theorem slash_not_mem_foldAscii (h : ∀ c ∈ name.toList, isFileChar c = true) :
    '/' ∉ (foldAscii name).toList := by
  rw [toList_foldAscii]
  intro hmem
  obtain ⟨c, hc, hslash⟩ := List.mem_map.1 hmem
  rw [toLower_eq_slash_iff.1 hslash] at hc
  exact absurd (h '/' hc) (by decide)

theorem isAscii_of_isFileChar (h : ∀ c ∈ name.toList, isFileChar c = true) : IsAscii name :=
  fun c hc => toNat_lt_of_isFileChar (h c hc)

theorem utf8_lt (c : Char) : ∀ byte ∈ utf8 c, byte < 256 := by
  have hc : c.toNat < 0x110000 := by
    rcases c.valid with h | h <;> simp only [Char.toNat] at * <;> omega
  intro byte hbyte
  simp only [utf8] at hbyte
  split at hbyte
  · simp only [List.mem_cons, List.not_mem_nil, or_false] at hbyte
    omega
  · split at hbyte
    · simp only [List.mem_cons, List.not_mem_nil, or_false] at hbyte
      omega
    · split at hbyte <;> simp only [List.mem_cons, List.not_mem_nil, or_false] at hbyte <;> omega

theorem isFileChar_hexDigit : ∀ n < 16, isFileChar (hexDigit n) = true := by decide

theorem percentChar_chars (c : Char) : ∀ d ∈ percentChar c, isFileChar d = true := by
  intro d hd
  rw [percentChar] at hd
  split at hd
  · next hplain =>
    obtain rfl := List.mem_singleton.1 hd
    rw [isFileChar, hplain, Bool.true_or]
  · obtain ⟨byte, hbyte, hd⟩ := List.mem_flatMap.1 hd
    have hlt := utf8_lt c byte hbyte
    simp only [percentByte, List.mem_cons, List.not_mem_nil, or_false] at hd
    rcases hd with rfl | rfl | rfl
    · rfl
    · exact isFileChar_hexDigit _ (by omega)
    · exact isFileChar_hexDigit _ (by omega)

theorem fileName_chars (name : String) : ∀ c ∈ (fileName name).toList, isFileChar c = true := by
  simp only [fileName]
  split
  · exact List.all_eq_true.1 (by decide +kernel)
  · split
    · exact List.all_eq_true.1 (by decide +kernel)
    · split
      · exact List.all_eq_true.1 (by decide +kernel)
      · intro c hc
        rw [String.toList_ofList] at hc
        obtain ⟨d, -, hc⟩ := List.mem_flatMap.1 hc
        exact percentChar_chars d c hc

/-! ## Numbers behind names -/

theorem toList_numbered (candidate : String) (n : Nat) :
    (numbered candidate n).toList = candidate.toList ++ '-' :: Nat.toDigits 10 n := by
  simp [numbered]

theorem isDigit_of_mem_digits (h : c ∈ Nat.toDigits 10 n) : c.isDigit = true :=
  Nat.isDigit_of_mem_toDigits (by decide) (by decide) h

theorem fold_numbered (folding : CaseFolding) (candidate : String) (n : Nat) :
    folding.fold (numbered candidate n) = folding.fold candidate ++ '-' :: Nat.toDigits 10 n := by
  have hdigits : (Nat.toDigits 10 n).flatMap folding.ofChar = Nat.toDigits 10 n := by
    rw [← List.flatMap_singleton' (Nat.toDigits 10 n), List.flatMap_assoc]
    refine List.flatMap_congr fun c hc => ?_
    have hdigit := isDigit_of_mem_digits hc
    have hascii := toNat_lt_of_isFileChar (isFileChar_of_isDigit hdigit)
    rw [List.flatMap_singleton, folding.ofChar_ascii c hascii, toLower_of_isDigit hdigit]
  rw [CaseFolding.fold, toList_numbered, List.flatMap_append, List.flatMap_cons, hdigits,
    folding.ofChar_ascii '-' (by decide)]
  rfl

theorem foldAscii_numbered (candidate : String) (n : Nat) :
    (foldAscii (numbered candidate n)).toList =
      (foldAscii candidate).toList ++ '-' :: Nat.toDigits 10 n := by
  rw [← CaseFolding.fold_ascii, fold_numbered, CaseFolding.fold_ascii]

theorem numbered_chars (h : ∀ c ∈ candidate.toList, isFileChar c = true) (n : Nat) :
    ∀ c ∈ (numbered candidate n).toList, isFileChar c = true := by
  intro c hc
  rw [toList_numbered, List.mem_append, List.mem_cons] at hc
  rcases hc with hc | rfl | hc
  · exact h c hc
  · rfl
  · exact isFileChar_of_isDigit (isDigit_of_mem_digits hc)

/-! ## The chosen name -/

/-- The names to try: the name that is asked for, and that name with the numbers from 2 on. -/
def tried (candidate : String) : Nat → String
  | 0 => candidate
  | k + 1 => numbered candidate (k + 2)

/-- **No name is tried twice.** -/
theorem fold_tried_injective (folding : CaseFolding) (candidate : String) :
    Function.Injective fun k => folding.fold (tried candidate k) := by
  intro k l h
  cases k with
  | zero =>
    cases l with
    | zero => rfl
    | succ l => simp [tried, fold_numbered] at h
  | succ k =>
    cases l with
    | zero => simp [tried, fold_numbered] at h
    | succ l =>
      simp only [tried, fold_numbered, List.append_cancel_left_eq, List.cons.injEq, true_and] at h
      have hnumbers := congrArg (fun digits => Nat.ofDigitChars 10 digits 0) h
      simpa [Nat.ofDigitChars_ten_toDigits] using hnumbers

/-- There are no more names tried in vain than there are used ones. -/
theorem le_length_of_tried_mem {folding : CaseFolding} {used : List (List Char)}
    (h : ∀ k < n, folding.fold (tried candidate k) ∈ used) : n ≤ used.length := by
  have hnodup : ((List.range n).map fun k => folding.fold (tried candidate k)).Nodup :=
    List.nodup_range.map (fold_tried_injective folding candidate)
  have hsub := hnodup.subperm fun name hname => by
    obtain ⟨k, hk, rfl⟩ := List.mem_map.1 hname
    exact h k (List.mem_range.1 hk)
  simpa using hsub.length_le

/-- **The chosen name is the first one to try that is not used.** -/
theorem exists_unusedName_eq_tried (candidate : String) (used : List String) :
    ∃ k, unusedName candidate used = tried candidate k ∧
      IsLeast {k | foldAscii (tried candidate k) ∉ used} k := by
  have hnames : (candidate :: (List.range used.length).map fun k => numbered candidate (k + 2)) =
      (List.range (used.length + 1)).map (tried candidate) := by
    rw [List.range_succ_eq_map, List.map_cons, List.map_map]
    rfl
  simp only [unusedName, hnames, List.find?_map]
  cases hfind : (List.range (used.length + 1)).find?
      ((fun name => !used.contains (foldAscii name)) ∘ tried candidate) with
  | some k =>
    obtain ⟨hk, -, hless⟩ := List.find?_range_eq_some.1 hfind
    refine ⟨k, rfl, by simpa using hk, fun l hl => ?_⟩
    by_contra hlt
    have hused := hless l (Nat.lt_of_not_le hlt)
    exact hl (by simpa using hused)
  | none =>
    -- there is one name more to try than there are used ones
    have hused : ∀ k < used.length + 1,
        CaseFolding.ascii.fold (tried candidate k) ∈ used.map String.toList := by
      intro k hk
      have hmem := List.find?_eq_none.1 hfind k (List.mem_range.2 hk)
      rw [CaseFolding.fold_ascii]
      exact List.mem_map_of_mem (by simpa using hmem)
    have hle := le_length_of_tried_mem hused
    rw [List.length_map] at hle
    omega

/-- **The chosen name is not used.** -/
theorem foldAscii_unusedName_not_mem (candidate : String) (used : List String) :
    foldAscii (unusedName candidate used) ∉ used := by
  obtain ⟨k, heq, hleast⟩ := exists_unusedName_eq_tried candidate used
  rw [heq]
  exact hleast.1

theorem unusedName_eq_self (h : foldAscii candidate ∉ used) : unusedName candidate used = candidate := by
  obtain ⟨k, heq, hleast⟩ := exists_unusedName_eq_tried candidate used
  obtain rfl : k = 0 := Nat.le_zero.1 (hleast.2 h)
  exact heq

theorem unusedName_eq_or_exists (candidate : String) (used : List String) :
    unusedName candidate used = candidate ∨ ∃ n, unusedName candidate used = numbered candidate n := by
  obtain ⟨k, heq, -⟩ := exists_unusedName_eq_tried candidate used
  cases k with
  | zero => exact .inl heq
  | succ k => exact .inr ⟨k + 2, heq⟩

theorem unusedName_chars (h : ∀ c ∈ candidate.toList, isFileChar c = true) (used : List String) :
    ∀ c ∈ (unusedName candidate used).toList, isFileChar c = true := by
  rcases unusedName_eq_or_exists candidate used with heq | ⟨n, heq⟩
  · rwa [heq]
  · rw [heq]
    exact numbered_chars h n

/-- A name without a dash is chosen only by whoever asks for it. -/
theorem foldAscii_candidate_eq (hdash : '-' ∉ name.toList)
    (h : foldAscii (unusedName candidate used) = name) : foldAscii candidate = name := by
  rcases unusedName_eq_or_exists candidate used with heq | ⟨n, heq⟩
  · rwa [heq] at h
  · rw [heq] at h
    refine absurd ?_ hdash
    rw [← h, foldAscii_numbered]
    exact List.mem_append_right _ List.mem_cons_self

/-! ## Directories -/

/-- A directory is empty, or ends with a slash. -/
def IsDirectory (directory : String) : Prop :=
  directory = "" ∨ ∃ front, directory = front ++ "/"

theorem IsDirectory.foldAscii {directory : String} (h : IsDirectory directory) :
    IsDirectory (foldAscii directory) := by
  rcases h with rfl | ⟨front, rfl⟩
  · exact .inl rfl
  · exact .inr ⟨Text.foldAscii front, foldAscii_append front "/"⟩

/-- What a longer path has more than a directory does not end with a slash, if it is part of a name. -/
theorem eq_nil_of_append_eq {directory front rest : List Char} {longer name : List Char}
    (hlonger : longer = [] ∨ ∃ front, longer = front ++ ['/']) (hname : '/' ∉ name)
    (h : longer = directory ++ front) (hrest : name = front ++ rest) : front = [] := by
  rcases hlonger with rfl | ⟨start, rfl⟩
  · exact (List.append_eq_nil_iff.1 h.symm).2
  · rcases List.eq_nil_or_concat front with rfl | ⟨init, last, rfl⟩
    · rfl
    · rw [List.concat_eq_append, ← List.append_assoc] at h
      obtain ⟨-, hlast⟩ := List.append_inj' h rfl
      refine absurd ?_ hname
      rw [hrest, List.concat_eq_append, ← hlast]
      simp

/-- **The last name of a path can be told from its directory**, as it holds no slash. -/
theorem directory_append_inj {directory directory' name name' : String} (hd : IsDirectory directory)
    (hd' : IsDirectory directory') (hname : '/' ∉ name.toList) (hname' : '/' ∉ name'.toList)
    (h : directory ++ name = directory' ++ name') : directory = directory' ∧ name = name' := by
  have hends : ∀ {d : String}, IsDirectory d → d.toList = [] ∨ ∃ front, d.toList = front ++ ['/'] := by
    rintro d (rfl | ⟨front, rfl⟩)
    · exact .inl rfl
    · exact .inr ⟨front.toList, String.toList_append⟩
  have hlists := congrArg String.toList h
  rw [String.toList_append, String.toList_append, List.append_eq_append_iff] at hlists
  rcases hlists with ⟨front, hlonger, hrest⟩ | ⟨front, hlonger, hrest⟩
  · obtain rfl := eq_nil_of_append_eq (hends hd') hname hlonger hrest
    exact ⟨String.toList_inj.1 (by simpa using hlonger.symm), String.toList_inj.1 (by simpa using hrest)⟩
  · obtain rfl := eq_nil_of_append_eq (hends hd) hname' hlonger hrest
    exact ⟨String.toList_inj.1 (by simpa using hlonger),
      String.toList_inj.1 (by simpa using hrest.symm)⟩

end Pages
end DocForest
