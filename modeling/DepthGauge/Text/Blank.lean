/-!
# Blank characters

The characters with the Unicode property White_Space, and trimming by them.

## Main definitions

* `isBlank c`: whether `c` is white space.
* `trim text`: the text without the white space at both ends.
-/

namespace DepthGauge

/-- The first and last code points of each run of white space characters. -/
def blankRanges : List (Nat × Nat) :=
  [(0x9, 0xD), (0x20, 0x20), (0x85, 0x85), (0xA0, 0xA0), (0x1680, 0x1680), (0x2000, 0x200A),
    (0x2028, 0x2029), (0x202F, 0x202F), (0x205F, 0x205F), (0x3000, 0x3000)]

/-- Whether a character has the Unicode property White_Space. -/
def isBlank (c : Char) : Bool :=
  blankRanges.any fun (first, last) => first ≤ c.toNat && c.toNat ≤ last

/-- Drops the white space at the start. -/
def trimStart (text : List Char) : List Char := text.dropWhile isBlank

/-- Drops the white space at the end. -/
def trimEnd (text : List Char) : List Char := (text.reverse.dropWhile isBlank).reverse

/-- Drops the white space at both ends. -/
def trim (text : List Char) : List Char := trimEnd (trimStart text)

@[simp]
theorem trim_nil : trim [] = [] := rfl

end DepthGauge
