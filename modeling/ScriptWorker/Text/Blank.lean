/-!
# Blank characters

The characters with the Unicode property White_Space, and taking them off the ends of a text.
-/

namespace ScriptWorker.Text

def isBlank (c : Char) : Bool :=
  let n := c.toNat
  (0x09 ≤ n && n ≤ 0x0d) || n = 0x20 || n = 0x85 || n = 0xa0 || n = 0x1680 ||
    (0x2000 ≤ n && n ≤ 0x200a) || n = 0x2028 || n = 0x2029 || n = 0x202f || n = 0x205f || n = 0x3000

def trim (s : String) : String :=
  String.ofList (((s.toList.dropWhile isBlank).reverse.dropWhile isBlank).reverse)

/-- The text with the letters A to Z in lower case, all else as it is. -/
def asciiLower (s : String) : String := String.ofList (s.toList.map Char.toLower)

end ScriptWorker.Text
