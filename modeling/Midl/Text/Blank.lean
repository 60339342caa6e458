import Midl.Text.Ranges

/-!
# Blanks and words

The characters that separate words, which is the property `White_Space`, and the words of a text.
-/

namespace Midl.Text

/-- The characters that separate words. -/
def blanks : Ranges :=
  [(0x0009, 0x000D), (0x0020, 0x0020), (0x0085, 0x0085), (0x00A0, 0x00A0), (0x1680, 0x1680),
    (0x2000, 0x200A), (0x2028, 0x2029), (0x202F, 0x202F), (0x205F, 0x205F), (0x3000, 0x3000)]

/-- Whether a character separates words. -/
def isBlank (c : Char) : Bool := blanks.has c

/-- Puts a word in front of others, unless it is empty. -/
def consWord (word : List Char) (words : List (List Char)) : List (List Char) :=
  if word.isEmpty then words else word :: words

/-- The word that a sequence of characters begins with, which is empty before a blank, and the
words after it. -/
def splitWords : List Char → List Char × List (List Char)
  | [] => ([], [])
  | c :: cs =>
    let (word, words) := splitWords cs
    if isBlank c then ([], consWord word words) else (c :: word, words)

/-- The words of a text: its longest stretches without a blank. Source: `split_whitespace`. -/
def words (text : String) : List String :=
  let (word, words) := splitWords text.toList
  (consWord word words).map String.ofList

end Midl.Text
