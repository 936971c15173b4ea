/-!
The lines of a text that hold something, without the blank characters around it. A character is
blank if Unicode gives it the property `White_Space`.
-/

namespace FolGraph.Text

def isBlank (c : Char) : Bool :=
  let n := c.toNat
  (9 ≤ n && n ≤ 13) || n == 32 || n == 0x85 || n == 0xA0 || n == 0x1680 ||
    (0x2000 ≤ n && n ≤ 0x200A) || n == 0x2028 || n == 0x2029 || n == 0x202F || n == 0x205F ||
    n == 0x3000

/-- Removes the blank characters at both ends. -/
def trim (cs : List Char) : List Char :=
  ((cs.dropWhile isBlank).reverse.dropWhile isBlank).reverse

/-- The parts of a text between line feeds. -/
def splitLines : List Char → List (List Char)
  | [] => [[]]
  | c :: cs =>
    if c = '\n' then [] :: splitLines cs
    else match splitLines cs with
      | [] => [[c]]
      | line :: rest => (c :: line) :: rest

/-- The lines without the blank characters around them and without the empty ones. A carriage
return at the end of a line is blank. -/
def trimmedLines (cs : List Char) : List (List Char) :=
  ((splitLines cs).map trim).filter (!·.isEmpty)

end FolGraph.Text
