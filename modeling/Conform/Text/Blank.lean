import Conform.Text.Ranges

/-!
# Blank characters

The white space that separates words: Unicode white space and the four information separators.
-/

namespace Conform.Text

/-- The code points of blank characters. -/
def blankRanges : List (Nat × Nat) := [
  (9, 13), (28, 32), (133, 133), (160, 160), (5760, 5760), (8192, 8202), (8232, 8233),
  (8239, 8239), (8287, 8287), (12288, 12288)]

def isBlank (c : Char) : Bool := inRanges blankRanges c

/-- The text without the blanks at both ends. -/
def trimBlanks (s : String) : String :=
  String.ofList ((s.toList.dropWhile isBlank).reverse.dropWhile isBlank).reverse

end Conform.Text
