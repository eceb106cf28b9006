import RouteCatalog.Text.CodeRanges

/-! Blank characters: the Unicode white space characters and the four separators from U+001C
to U+001F. Trimming takes them off both ends of a text. -/

namespace RouteCatalog.Text

def blankRanges : CodeRanges := [
  (0x9, 0xD), (0x1C, 0x20), (0x85, 0x85), (0xA0, 0xA0), (0x1680, 0x1680), (0x2000, 0x200A),
  (0x2028, 0x2029), (0x202F, 0x202F), (0x205F, 0x205F), (0x3000, 0x3000)]

def isBlank (c : Char) : Bool := blankRanges.contains c.toNat

/-- Leaves the text from its first to its last character that is not blank. -/
def trim (cs : List Char) : List Char :=
  ((cs.dropWhile isBlank).reverse.dropWhile isBlank).reverse

end RouteCatalog.Text
