import DocForest.Text.Blank
import DocForest.Text.Letter
import DocForest.Text.Pieces

/-!
# Access levels

## What is here

* `AccessLevel` — the six levels, from the least to the most visible, ordered by `rank`.
* `AccessLevel.label` — the level in small letters.
* `AccessLevel.ofLabel?` — reading a label, with blanks around it and in any case.
-/

set_option autoImplicit false

namespace DocForest

/-- How widely a declaration can be seen. -/
inductive AccessLevel where
  | privateLevel
  | fileprivateLevel
  | internalLevel
  | packageLevel
  | publicLevel
  | openLevel
  deriving DecidableEq, Repr

namespace AccessLevel

/-- The place of a level, from 0 for the least to 5 for the most visible one. -/
def rank : AccessLevel → Nat
  | privateLevel => 0
  | fileprivateLevel => 1
  | internalLevel => 2
  | packageLevel => 3
  | publicLevel => 4
  | openLevel => 5

instance : LE AccessLevel := ⟨fun a b => a.rank ≤ b.rank⟩

instance : LT AccessLevel := ⟨fun a b => a.rank < b.rank⟩

instance (a b : AccessLevel) : Decidable (a ≤ b) := inferInstanceAs (Decidable (a.rank ≤ b.rank))

instance (a b : AccessLevel) : Decidable (a < b) := inferInstanceAs (Decidable (a.rank < b.rank))

/-- The more visible one of two levels, the first one if they are equal. -/
protected def max (a b : AccessLevel) : AccessLevel :=
  if a < b then b else a

/-- The levels, from the least to the most visible. -/
def all : List AccessLevel :=
  [privateLevel, fileprivateLevel, internalLevel, packageLevel, publicLevel, openLevel]

/-- The name of a level in small letters. -/
def label : AccessLevel → String
  | privateLevel => "private"
  | fileprivateLevel => "fileprivate"
  | internalLevel => "internal"
  | packageLevel => "package"
  | publicLevel => "public"
  | openLevel => "open"

/-- The level with a given label, where blanks around it and case do not matter. -/
def ofLabel? (text : String) : Option AccessLevel :=
  let capital := Text.capitalized (Text.trim text)
  all.find? fun level => Text.upperAscii level.label = capital

/-- The beginning of the texts in which records give a level. -/
def recordStart : String :=
  "source.lang.swift.accessibility."

theorem rank_injective {a b : AccessLevel} (h : a.rank = b.rank) : a = b := by
  cases a <;> cases b <;> first | rfl | cases h

theorem rank_max (a b : AccessLevel) : (a.max b).rank = Nat.max a.rank b.rank := by
  cases a <;> cases b <;> rfl

theorem not_lt_iff_le {a b : AccessLevel} : ¬a < b ↔ b ≤ a :=
  Nat.not_lt

theorem le_iff_rank_le {a b : AccessLevel} : a ≤ b ↔ a.rank ≤ b.rank := Iff.rfl

end AccessLevel
end DocForest
