import ContentAssist.Text.Ranges

/-! # Blanks

Blank characters separate words. The class holds the Unicode white space characters and the four
information separators U+001C to U+001F. -/

namespace ContentAssist.Text

/-- The blank characters. -/
def blankRanges : List (Nat × Nat) := [
    (9, 13), (28, 32), (133, 133), (160, 160), (5760, 5760), (8192, 8202), (8232, 8233),
    (8239, 8239), (8287, 8287), (12288, 12288)]

/-- Whether `c` is a blank. -/
def isBlank (c : Char) : Bool := inRanges blankRanges c.toNat

/-- Collects the maximal runs of characters that are not blank; `word` holds the run so far,
last character first. -/
def wordsFrom (word : List Char) : List Char → List String
  | [] => if word.isEmpty then [] else [String.ofList word.reverse]
  | c :: rest =>
    if isBlank c then
      if word.isEmpty then wordsFrom [] rest else String.ofList word.reverse :: wordsFrom [] rest
    else wordsFrom (c :: word) rest

/-- The words of a text: its maximal runs of characters that are not blank. -/
def words (s : String) : List String := wordsFrom [] s.toList

end ContentAssist.Text
