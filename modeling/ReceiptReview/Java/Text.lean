import Mathlib.Data.List.DropRight

/-!
# Java strings

A Java `String` is a sequence of UTF-16 code units, unpaired surrogates
included.  `isBlank` and `trim` use two different notions of white space:
`isBlank` asks `Character.isWhitespace`, `trim` removes everything up to
U+0020.  Neither contains the other, so a string that is not blank can become
empty when it is trimmed.
-/

namespace Java

/-- A Java `String`, as its UTF-16 code units. -/
abbrev JString := List UInt16

/-- The UTF-16 code units of one character. -/
def utf16 (c : Char) : List UInt16 :=
  if c.toNat < 0x10000 then [c.toNat.toUInt16]
  else [(0xD800 + (c.toNat - 0x10000) / 0x400).toUInt16,
    (0xDC00 + (c.toNat - 0x10000) % 0x400).toUInt16]

/-- A string literal of the program. -/
def JString.ofString (s : String) : JString :=
  s.toList.flatMap utf16

/-- `Character.isWhitespace`: the space, line and paragraph separators except
the non-breaking ones, and the control characters used as separators.  No
surrogate and no supplementary character is white space. -/
def isWhitespace (unit : UInt16) : Bool :=
  (0x09 ≤ unit && unit ≤ 0x0D) || (0x1C ≤ unit && unit ≤ 0x20) || unit == 0x1680 ||
    (0x2000 ≤ unit && unit ≤ 0x200A && unit != 0x2007) || unit == 0x2028 || unit == 0x2029 ||
    unit == 0x205F || unit == 0x3000

/-- `String.isBlank`. -/
def JString.isBlank (s : JString) : Bool :=
  s.all isWhitespace

/-- `String.trim`. -/
def JString.trim (s : JString) : JString :=
  (s.dropWhile (· ≤ 0x20)).rdropWhile (· ≤ 0x20)

/-- What is left of a text has nothing more to trim. -/
theorem JString.trim_trim (s : JString) : s.trim.trim = s.trim := by
  have hfront : s.trim.dropWhile (· ≤ 0x20) = s.trim := by
    rw [List.dropWhile_eq_self_iff]
    intro hpos hspace
    -- the first unit is the one at which the trimming of the front has stopped
    have hstart : s.trim <+: s.dropWhile (· ≤ 0x20) := List.rdropWhile_prefix _ _
    have hlength : 0 < (s.dropWhile (· ≤ 0x20)).length := hpos.trans_le hstart.length_le
    have hstopped := List.dropWhile_eq_self_iff.mp (List.dropWhile_idempotent (· ≤ 0x20) s) hlength
    rw [hstart.getElem hpos] at hspace
    exact hstopped hspace
  calc s.trim.trim = (s.trim.dropWhile (· ≤ 0x20)).rdropWhile (· ≤ 0x20) := rfl
    _ = s.trim.rdropWhile (· ≤ 0x20) := by rw [hfront]
    _ = s.trim := List.rdropWhile_idempotent _ _

/-- `Character.toLowerCase(Character.toUpperCase(c))`, for the units that it maps
to an ASCII letter; the others are kept. -/
def foldCase (unit : UInt16) : UInt16 :=
  if 0x41 ≤ unit && unit ≤ 0x5A then unit + 0x20
  else if unit == 0x130 || unit == 0x131 then 0x69
  else if unit == 0x17F then 0x73
  else if unit == 0x212A then 0x6B
  else unit

/-- `String.equalsIgnoreCase`, against a text in ASCII. -/
def JString.equalsIgnoreCase (s ascii : JString) : Bool :=
  s.map foldCase == ascii.map foldCase

def isHighSurrogate (unit : UInt16) : Bool := 0xD800 ≤ unit && unit ≤ 0xDBFF

def isLowSurrogate (unit : UInt16) : Bool := 0xDC00 ≤ unit && unit ≤ 0xDFFF

/-- The UTF-8 bytes of a code point. -/
def utf8 (codePoint : ℕ) : List UInt8 :=
  if codePoint < 0x80 then [codePoint.toUInt8]
  else if codePoint < 0x800 then
    [(0xC0 + codePoint / 0x40).toUInt8, (0x80 + codePoint % 0x40).toUInt8]
  else if codePoint < 0x10000 then
    [(0xE0 + codePoint / 0x1000).toUInt8, (0x80 + codePoint / 0x40 % 0x40).toUInt8,
      (0x80 + codePoint % 0x40).toUInt8]
  else
    [(0xF0 + codePoint / 0x40000).toUInt8, (0x80 + codePoint / 0x1000 % 0x40).toUInt8,
      (0x80 + codePoint / 0x40 % 0x40).toUInt8, (0x80 + codePoint % 0x40).toUInt8]

/-- The bytes of a unit outside a surrogate pair; a lone surrogate becomes `?`. -/
def utf8Unit (unit : UInt16) : List UInt8 :=
  if isHighSurrogate unit || isLowSurrogate unit then [0x3F] else utf8 unit.toNat

/-- `String.getBytes(StandardCharsets.UTF_8)`. -/
def JString.getBytes : JString → List UInt8
  | [] => []
  | [unit] => utf8Unit unit
  | high :: low :: rest =>
      if isHighSurrogate high && isLowSurrogate low then
        utf8 (0x10000 + (high.toNat - 0xD800) * 0x400 + (low.toNat - 0xDC00)) ++ getBytes rest
      else utf8Unit high ++ getBytes (low :: rest)

/-- The two notions of white space differ: U+0001 is trimmed, yet not blank. -/
example : JString.isBlank [1] = false ∧ JString.trim [1] = [] := by decide

end Java
