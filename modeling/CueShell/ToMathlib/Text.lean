import Mathlib.Data.List.Basic
import Mathlib.Algebra.Group.Nat.Defs
import Mathlib.Algebra.GroupWithZero.Nat

/-! # Text operations over character lists

Operations of a UTF-8 string library, stated over lists of Unicode scalar values: byte lengths and
byte ranges, white space in the sense of the Unicode `White_Space` property, trimming, splitting,
ASCII case folding and decimal numerals.
-/

namespace Text

/-- The number of bytes of the UTF-8 encoding. -/
def byteLength (text : List Char) : ℕ := (text.map Char.utf8Size).sum

@[simp] theorem byteLength_nil : byteLength [] = 0 := rfl

@[simp] theorem byteLength_cons (c : Char) (text : List Char) :
    byteLength (c :: text) = c.utf8Size + byteLength text := by
  simp [byteLength]

@[simp] theorem byteLength_append (front back : List Char) :
    byteLength (front ++ back) = byteLength front + byteLength back := by
  simp [byteLength]

/-- The characters that start at or after byte `start`. -/
def dropBytes : ℕ → List Char → List Char
  | _, [] => []
  | start, c :: rest => if start = 0 then c :: rest else dropBytes (start - c.utf8Size) rest

/-- The characters that start before byte `stop`. -/
def takeBytes : ℕ → List Char → List Char
  | _, [] => []
  | stop, c :: rest => if stop = 0 then [] else c :: takeBytes (stop - c.utf8Size) rest

/-- The characters of a byte range. -/
def slice (text : List Char) (start stop : ℕ) : List Char :=
  takeBytes (stop - start) (dropBytes start text)

/-- The Unicode `White_Space` property. -/
def isWhiteSpace (c : Char) : Bool :=
  let code := c.toNat
  (0x09 ≤ code && code ≤ 0x0D) || code == 0x20 || code == 0x85 || code == 0xA0 ||
    code == 0x1680 || (0x2000 ≤ code && code ≤ 0x200A) || code == 0x2028 || code == 0x2029 ||
    code == 0x202F || code == 0x205F || code == 0x3000

/-- `char::is_control`: the characters of the category Cc. -/
def isControl (char : Char) : Bool := char.toNat < 0x20 || 0x7f ≤ char.toNat && char.toNat < 0xa0

def trimStart (text : List Char) : List Char := text.dropWhile isWhiteSpace

def trimEnd (text : List Char) : List Char := (text.reverse.dropWhile isWhiteSpace).reverse

def trim (text : List Char) : List Char := trimEnd (trimStart text)

/-- The maximal runs of characters other than white space. -/
def splitWhitespace (text : List Char) : List (List Char) :=
  (text.splitOnP isWhiteSpace).filter (· ≠ [])

/-- The text before and after the first occurrence of a character. -/
def splitOnce (separator : Char) : List Char → Option (List Char × List Char)
  | [] => none
  | c :: rest =>
      if c = separator then some ([], rest)
      else (splitOnce separator rest).map fun (front, back) => (c :: front, back)

/-- The text before and after the last occurrence of a character. -/
def rsplitOnce (separator : Char) (text : List Char) : Option (List Char × List Char) :=
  (splitOnce separator text.reverse).map fun (back, front) => (front.reverse, back.reverse)

def stripPrefix (front text : List Char) : Option (List Char) :=
  if front.isPrefixOf text then some (text.drop front.length) else none

def stripSuffix (back text : List Char) : Option (List Char) :=
  if back.isSuffixOf text then some (text.take (text.length - back.length)) else none

def toAsciiLowercase (text : List Char) : List Char := text.map Char.toLower

/-- The value of a decimal numeral, most significant digit first. -/
def numeral (digits : List Char) : ℕ :=
  digits.foldl (fun value digit => 10 * value + (digit.toNat - '0'.toNat)) 0

/-- A nonempty string of ASCII digits whose value is below `bound`. -/
def parseDigits (bound : ℕ) (text : List Char) : Option ℕ :=
  if text ≠ [] ∧ text.all Char.isDigit ∧ numeral text < bound then some (numeral text) else none

end Text
