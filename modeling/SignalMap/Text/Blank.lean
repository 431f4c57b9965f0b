/-!
Blank characters and trimming. Texts are read as lists of characters, so that
every cut is a `takeWhile` or a `dropWhile` on the list.
-/

namespace SignalMap.Text

/-- A character is blank when it has the White_Space property of Unicode. -/
def isBlank (c : Char) : Bool :=
  let n := c.toNat
  (0x09 ≤ n && n ≤ 0x0D) || n == 0x20 || n == 0x85 || n == 0xA0 || n == 0x1680 ||
    (0x2000 ≤ n && n ≤ 0x200A) || n == 0x2028 || n == 0x2029 || n == 0x202F ||
    n == 0x205F || n == 0x3000

def dropRightWhile (p : Char → Bool) (cs : List Char) : List Char :=
  (cs.reverse.dropWhile p).reverse

def trimChars (cs : List Char) : List Char :=
  dropRightWhile isBlank (cs.dropWhile isBlank)

def trim (s : String) : String :=
  String.ofList (trimChars s.toList)

def isBlankText (s : String) : Bool :=
  s.toList.all isBlank

theorem dropRightWhile_of_last {p : Char → Bool} {cs : List Char} {c : Char}
    (h : p c = false) : dropRightWhile p (cs ++ [c]) = cs ++ [c] := by
  simp [dropRightWhile, h]

end SignalMap.Text
