/-!
Blank characters and their removal from both ends of a text.

A character is blank when it has the Unicode property `White_Space`: twenty-five
characters, six of them ASCII. `trim` removes the longest blank run at either end and
nothing in between.
-/

namespace CheckRounds.Text

/-- Characters with the Unicode property `White_Space`. -/
def isBlank (c : Char) : Bool :=
  let n := c.toNat
  (9 ≤ n && n ≤ 13) || n == 0x20 || n == 0x85 || n == 0xA0 || n == 0x1680 ||
    (0x2000 ≤ n && n ≤ 0x200A) || n == 0x2028 || n == 0x2029 || n == 0x202F ||
    n == 0x205F || n == 0x3000

def trim (cs : List Char) : List Char :=
  ((cs.dropWhile isBlank).reverse.dropWhile isBlank).reverse

end CheckRounds.Text
