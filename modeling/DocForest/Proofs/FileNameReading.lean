import DocForest.Json.Reader
import DocForest.Proofs.FileNames
import DocForest.Proofs.Trimming

/-!
# Reading file names back

A file name holds the bytes of a name's UTF-8 form, some of them as a percent sign and two hexadecimal
digits.  Whoever reads these bytes has the name again, since a percent sign never stands for itself: a name
that looks encoded already is encoded once more.

## What is here

* `Text.percentBytes`, `Text.percentDecode?` — the bytes that a text in percent-encoding stands for, and the
  text that they are the UTF-8 form of.
* `Text.utf8_eq` — the bytes that are written are those of the standard library.
* `percentBytes_percentEncode`, `percentDecode?_percentEncode` — **decoding undoes encoding.**
* `Pages.percentDecode?_fileName`, `Pages.fileName_eq_iff` — the name in a file name.
* `Pages.fileName_readable` — **every file name can be read back, and is safe.**
-/

set_option autoImplicit false

namespace DocForest

namespace Text

/-! ## Decoding -/

/-- The bytes that a text in percent-encoding stands for.  A percent sign without two hexadecimal digits
behind it is kept, as every other character is. -/
def percentBytes : List Char → List UInt8
  | '%' :: c :: d :: rest =>
    match Json.hexValue? c, Json.hexValue? d with
    | some high, some low => UInt8.ofNat (high * 16 + low) :: percentBytes rest
    | _, _ => String.utf8EncodeChar '%' ++ percentBytes (c :: d :: rest)
  | c :: rest => String.utf8EncodeChar c ++ percentBytes rest
  | [] => []

/-- The text that a text in percent-encoding stands for, if its bytes are the UTF-8 form of one. -/
def percentDecode? (s : String) : Option String :=
  String.fromUTF8? (percentBytes s.toList).toByteArray

theorem percentBytes_cons_of_ne {c : Char} (hc : c ≠ '%') (s : List Char) :
    percentBytes (c :: s) = String.utf8EncodeChar c ++ percentBytes s := by
  rw [percentBytes]
  exact fun _ _ _ h => absurd h hc

theorem hexValue?_hexDigit : ∀ n < 16, Json.hexValue? (hexDigit n) = some n := by decide

theorem percentBytes_percentByte {byte : Nat} (hbyte : byte < 256) (s : List Char) :
    percentBytes (percentByte byte ++ s) = UInt8.ofNat byte :: percentBytes s := by
  have hhigh := hexValue?_hexDigit (byte / 16) (by omega)
  have hlow := hexValue?_hexDigit (byte % 16) (by omega)
  have hboth : byte / 16 * 16 + byte % 16 = byte := Nat.div_add_mod' byte 16
  simp only [percentByte, List.cons_append, List.nil_append, percentBytes, hhigh, hlow, hboth]

theorem percentBytes_flatMap_percentByte {bytes : List Nat} (hbytes : ∀ byte ∈ bytes, byte < 256)
    (s : List Char) :
    percentBytes (bytes.flatMap percentByte ++ s) = bytes.map UInt8.ofNat ++ percentBytes s := by
  induction bytes with
  | nil => rfl
  | cons byte rest ih =>
    obtain ⟨hbyte, hrest⟩ := List.forall_mem_cons.1 hbytes
    rw [List.flatMap_cons, List.append_assoc, percentBytes_percentByte hbyte, ih hrest]
    rfl

/-! ## UTF-8 -/

theorem utf8_eq (c : Char) : (utf8 c).map UInt8.ofNat = String.utf8EncodeChar c := by
  have hc : c.val.toNat < 0x110000 := by
    rcases c.valid with h | h <;> omega
  simp only [utf8, String.utf8EncodeChar, Char.toNat]
  -- on either side the size of the code decides how many bytes there are
  by_cases h₁ : c.val.toNat ≤ 0x7f
  · rw [if_pos (Nat.lt_succ_of_le h₁), if_pos h₁]
    rfl
  rw [if_neg (by omega : ¬c.val.toNat < 0x80), if_neg h₁]
  by_cases h₂ : c.val.toNat ≤ 0x7ff
  · rw [if_pos (Nat.lt_succ_of_le h₂), if_pos h₂]
    simp only [List.map_cons, List.map_nil, List.cons.injEq, and_true]
    exact ⟨congrArg UInt8.ofNat (by omega), congrArg UInt8.ofNat (by omega)⟩
  rw [if_neg (by omega : ¬c.val.toNat < 0x800), if_neg h₂]
  by_cases h₃ : c.val.toNat ≤ 0xffff
  · rw [if_pos (Nat.lt_succ_of_le h₃), if_pos h₃]
    simp only [List.map_cons, List.map_nil, List.cons.injEq, and_true]
    exact ⟨congrArg UInt8.ofNat (by omega), congrArg UInt8.ofNat (by omega),
      congrArg UInt8.ofNat (by omega)⟩
  · rw [if_neg (by omega : ¬c.val.toNat < 0x10000), if_neg h₃]
    simp only [List.map_cons, List.map_nil, List.cons.injEq, and_true]
    exact ⟨congrArg UInt8.ofNat (by omega), congrArg UInt8.ofNat (by omega),
      congrArg UInt8.ofNat (by omega), congrArg UInt8.ofNat (by omega)⟩

theorem fromUTF8?_utf8Encode (s : List Char) : String.fromUTF8? s.utf8Encode = some (String.ofList s) := by
  rw [String.fromUTF8?, dif_pos ByteArray.isValidUTF8_utf8Encode, Option.some.injEq, ← String.toByteArray_inj,
    String.toByteArray_ofList]
  rfl

/-! ## Decoding undoes encoding -/

theorem percentBytes_percentChar (c : Char) (s : List Char) :
    percentBytes (percentChar c ++ s) = String.utf8EncodeChar c ++ percentBytes s := by
  rw [percentChar]
  split
  · next hplain =>
    exact percentBytes_cons_of_ne (by rintro rfl; exact absurd hplain (by decide)) s
  · rw [percentBytes_flatMap_percentByte (Pages.utf8_lt c), utf8_eq]

theorem percentBytes_percentEncode (s : List Char) :
    percentBytes (percentEncode s) = s.flatMap String.utf8EncodeChar := by
  induction s with
  | nil => rfl
  | cons c rest ih =>
    rw [percentEncode, List.flatMap_cons, percentBytes_percentChar, ← percentEncode, ih, List.flatMap_cons]

theorem percentDecode?_of_bytes {s : String} {t : List Char}
    (h : percentBytes s.toList = t.flatMap String.utf8EncodeChar) :
    percentDecode? s = some (String.ofList t) := by
  rw [percentDecode?, h]
  exact fromUTF8?_utf8Encode t

/-- **Decoding undoes encoding.** -/
theorem percentDecode?_percentEncode (s : List Char) :
    percentDecode? (String.ofList (percentEncode s)) = some (String.ofList s) :=
  percentDecode?_of_bytes (by rw [String.toList_ofList, percentBytes_percentEncode])

end Text

/-! ## File names -/

namespace Pages

open Text

variable {name other : String}

/-- **The name can be read from its file name.** -/
theorem percentDecode?_fileName (hname : trim name ≠ "") :
    percentDecode? (fileName name) = some (trim name) := by
  have hne : ¬(trimList name.toList).isEmpty = true := fun h =>
    hname (String.ofList_eq_empty_iff.2 (List.isEmpty_iff.1 h))
  simp only [fileName, trim]
  rw [if_neg hne]
  split
  · next hdot => exact hdot ▸ percentDecode?_of_bytes (by decide +kernel)
  · split
    · next hdots => exact hdots ▸ percentDecode?_of_bytes (by decide +kernel)
    · exact percentDecode?_percentEncode _

theorem fileName_congr (h : trim name = trim other) : fileName name = fileName other := by
  rw [fileName, fileName, String.ofList_inj.1 h]

/-- Names have the same file name exactly if they agree up to the blanks around them. -/
theorem fileName_eq_iff (hname : trim name ≠ "") (hother : trim other ≠ "") :
    fileName name = fileName other ↔ trim name = trim other := by
  refine ⟨fun h => ?_, fileName_congr⟩
  have hdecoded := percentDecode?_fileName hname
  rw [h, percentDecode?_fileName hother] at hdecoded
  exact (Option.some.inj hdecoded).symm

/-- No file name is empty or stands for a directory: read back, it would be the name of a declaration, which
has a form of its own. -/
theorem fileName_safe (name : String) : fileName name ∉ ["", ".", ".."] := by
  intro hmem
  have hplain : ∀ s ∈ ["", ".", ".."], percentBytes s.toList = s.toList.flatMap String.utf8EncodeChar := by
    decide +kernel
  have hforms : ∀ s ∈ ["", ".", ".."], trim s = s ∧ fileName s ∉ ["", ".", ".."] := by
    decide +kernel
  obtain ⟨htrim, hform⟩ := hforms _ hmem
  by_cases hname : trim name = ""
  · have hunknown : fileName name = fileName "" := fileName_congr hname
    exact (hforms "" List.mem_cons_self).2 (hunknown ▸ hmem)
  · have hdecoded := percentDecode?_of_bytes (hplain _ hmem)
    rw [percentDecode?_fileName hname, String.ofList_toList, Option.some.injEq] at hdecoded
    have hsame : fileName name = fileName (fileName name) := fileName_congr (hdecoded.trans htrim.symm)
    rw [← hsame] at hform
    exact hform hmem

/-- **Every file name can be read back, and is safe**: it holds the name up to the blanks around it, is
neither empty nor the name of a directory, and consists of unreserved characters, parentheses and percent
signs. -/
theorem fileName_readable (name : String) :
    (trim name ≠ "" → percentDecode? (fileName name) = some (trim name)) ∧
      (∀ other, trim name ≠ "" → trim other ≠ "" →
        (fileName name = fileName other ↔ trim name = trim other)) ∧
      fileName name ∉ ["", ".", ".."] ∧
      ∀ c ∈ (fileName name).toList, c.isAlphanum = true ∨ c ∈ ".-_~()%".toList := by
  refine ⟨percentDecode?_fileName, fun other => fileName_eq_iff, fileName_safe name, fun c hc => ?_⟩
  have hfile := fileName_chars name c hc
  simp only [isFileChar, isPlainChar, Bool.or_eq_true, decide_eq_true_eq] at hfile
  rcases hfile with (((((((halphanum | rfl) | rfl) | rfl) | rfl) | rfl) | rfl) | rfl)
  · exact .inl halphanum
  all_goals exact .inr (by decide)

/-- A name that looks encoded is encoded like any other. -/
example : fileName " 100%25\n" = "100%2525" := by decide +kernel

end Pages
end DocForest
