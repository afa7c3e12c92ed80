/-!
# Markers

The two pieces of markup that open and close a `div`. A marker is plain text: `<div` is found in
`<divider` too, and upper case is another text.

## Main definitions

* `Marker.text`: what a marker looks like.
* `Marker.count`: how often it is found by a search that goes on behind each find.
* `Marker.positions`: every place where it stands, found by looking at each.
-/

namespace DepthGauge

/-- The markers of a `div` element. -/
inductive Marker where
  | opening
  | closing
deriving DecidableEq, Repr

namespace Marker

/-- The characters of a marker. -/
def text : Marker → List Char
  | opening => ['<', 'd', 'i', 'v']
  | closing => ['<', '/', 'd', 'i', 'v', '>']

/-- Goes through `text` from left to right, passes over the next `skip` characters, and adds the
finds to `found`. Behind a find the search goes on after its last character. -/
def countFrom (m : Marker) (skip found : Nat) : List Char → Nat
  | [] => found
  | c :: rest =>
    match skip with
    | n + 1 => countFrom m n found rest
    | 0 =>
      if m.text.isPrefixOf (c :: rest) then countFrom m (m.text.length - 1) (found + 1) rest
      else countFrom m 0 found rest

/-- How often a search from left to right finds the marker. -/
def count (m : Marker) (text : List Char) : Nat := m.countFrom 0 0 text

@[simp]
theorem count_nil (m : Marker) : m.count [] = 0 := rfl

/-- The places in `text` where the marker stands, whether or not the places overlap. -/
def positions (m : Marker) (text : List Char) : List Nat :=
  (List.range text.length).filter fun i => m.text.isPrefixOf (text.drop i)

theorem mem_positions {m : Marker} {text : List Char} {i : Nat} :
    i ∈ m.positions text ↔ i < text.length ∧ m.text <+: text.drop i := by
  simp [positions]

end Marker

end DepthGauge
