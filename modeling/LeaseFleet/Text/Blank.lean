/-!
# Blanks

The characters that Unicode counts as white space, and the cutting of texts at them.
-/

namespace LeaseFleet.Text

def isBlank (c : Char) : Bool :=
  let code := c.toNat
  (9 ≤ code && code ≤ 13) || code = 0x20 || code = 0x85 || code = 0xA0 || code = 0x1680 ||
    (0x2000 ≤ code && code ≤ 0x200A) || code = 0x2028 || code = 0x2029 || code = 0x202F ||
    code = 0x205F || code = 0x3000

/-- The text without the blanks at its two ends. -/
def trimBlanks (text : List Char) : List Char :=
  ((text.dropWhile isBlank).reverse.dropWhile isBlank).reverse

/-- The words of a text: its longest runs without a blank. -/
def words : List Char → List (List Char)
  | [] => []
  | c :: rest =>
    if isBlank c then words rest
    else match rest, words rest with
      | [], parts => [c] :: parts
      | next :: _, parts =>
        if isBlank next then [c] :: parts
        else match parts with
          | [] => [[c]]
          | part :: parts => (c :: part) :: parts

end LeaseFleet.Text
