import DocForest.Text.Pieces

/-!
# Plurals of labels

## What is here

* `endsInConsonantY` — whether a label ends in a `y` behind a consonant.
* `pluralize` — the plural of a label: *Class* gives *Classes*, *Category* gives *Categories*.
-/

set_option autoImplicit false

namespace DocForest
namespace Text

/-- The letters that count as vowels: in either case, the dotted capital and the dotless small I
among them. -/
def isVowel (c : Char) : Bool :=
  "aeiouAEIOU".toList.contains c || c.toNat = 0x130 || c.toNat = 0x131

/-- Whether a reversed label begins with a `y` and then something else than a vowel. -/
def startsYConsonant : List Char → Bool
  | y :: c :: _ => (y = 'y' || y = 'Y') && !isVowel c
  | _ => false

/-- Whether a label ends in a `y` behind something else than a vowel.  A line feed at the very end
is overlooked. -/
def endsInConsonantY (s : List Char) : Bool :=
  match s.reverse with
  | '\n' :: rest => startsYConsonant rest
  | rest => startsYConsonant rest

/-- The endings that take `es` instead of `s`. -/
def hissingEndings : List String :=
  ["s", "x", "z", "ch", "sh"]

/-- The plural of a label, formed at its last word. -/
def pluralize (word : String) : String :=
  if word.isEmpty then word
  else if endsInConsonantY word.toList then String.ofList (word.toList.dropLast ++ ['i', 'e', 's'])
  else
    let small := String.ofList (word.toList.map Char.toLower)
    if hissingEndings.any fun ending => endsWith ending small then word ++ "es" else word ++ "s"

end Text
end DocForest
