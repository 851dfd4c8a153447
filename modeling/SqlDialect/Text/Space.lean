import SqlDialect.Text.Utf8

set_option autoImplicit false

/-! # White space

White space in the sense of Unicode, which is wider than the four blanks of a statement
(`Bytes.isBlank`): it also holds vertical tab, form feed, the no-break space and the wide spaces.
Words, one-line forms and outer trimming go by it. -/

namespace SqlDialect

/-- Whether the code point has the Unicode property White_Space. -/
def isSpace (code : Nat) : Bool :=
  9 ≤ code && code ≤ 13 || code == 0x20 || code == 0x85 || code == 0xA0 || code == 0x1680 ||
    0x2000 ≤ code && code ≤ 0x200A || code == 0x2028 || code == 0x2029 || code == 0x202F ||
    code == 0x205F || code == 0x3000

namespace Bytes

/-- The text without white space at either end. -/
def trimSpace (s : Bytes) : Bytes :=
  let inner := (Utf8.glyphs s).dropWhile fun g => isSpace g.code
  Utf8.ofGlyphs (inner.reverse.dropWhile fun g => isSpace g.code).reverse

/-- Groups characters into the maximal runs that hold no white space. -/
def wordsOf : List Glyph → List Bytes
  | [] => []
  | g :: gs =>
    if isSpace g.code then wordsOf gs
    else
      match gs with
      | [] => [g.raw]
      | next :: _ =>
        if isSpace next.code then g.raw :: wordsOf gs
        else
          match wordsOf gs with
          | [] => [g.raw]
          | word :: words => (g.raw ++ word) :: words

/-- The maximal runs without white space. -/
def words (s : Bytes) : List Bytes :=
  wordsOf (Utf8.glyphs s)

/-- The words of a text with one space between them. -/
def oneLine (s : Bytes) : Bytes :=
  join [32] (words s)

end Bytes

end SqlDialect
