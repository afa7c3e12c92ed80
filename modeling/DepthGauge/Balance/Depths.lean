import DepthGauge.Balance.Marker

/-!
# Depths

How far braces, parentheses and `div` markers are out of balance. A positive number counts what is
open and was not closed, a negative one what was closed and not open.

## Main definitions

* `Depths`: the three counters, with addition.
* `Depths.tally text`: the counters of a text.
-/

namespace DepthGauge

/-- The three counters. They never interact. -/
@[ext]
structure Depths where
  braces : Int
  parens : Int
  divs : Int
deriving DecidableEq, Repr

namespace Depths

instance : Zero Depths := ⟨⟨0, 0, 0⟩⟩

instance : Add Depths := ⟨fun a b => ⟨a.braces + b.braces, a.parens + b.parens, a.divs + b.divs⟩⟩

@[simp] theorem braces_zero : (0 : Depths).braces = 0 := rfl
@[simp] theorem parens_zero : (0 : Depths).parens = 0 := rfl
@[simp] theorem divs_zero : (0 : Depths).divs = 0 := rfl

@[simp] theorem braces_add (a b : Depths) : (a + b).braces = a.braces + b.braces := rfl
@[simp] theorem parens_add (a b : Depths) : (a + b).parens = a.parens + b.parens := rfl
@[simp] theorem divs_add (a b : Depths) : (a + b).divs = a.divs + b.divs := rfl

@[simp]
theorem zero_add (a : Depths) : 0 + a = a := by
  ext <;> simp

@[simp]
theorem add_zero (a : Depths) : a + 0 = a := by
  ext <;> simp

theorem add_comm (a b : Depths) : a + b = b + a := by
  ext <;> simp [Int.add_comm]

theorem add_assoc (a b c : Depths) : a + b + c = a + (b + c) := by
  ext <;> simp [Int.add_assoc]

/-- Nothing is open and nothing was closed too often. -/
def isBalanced (d : Depths) : Bool := d = 0

/-- What one character counts. -/
def ofBracket : Char → Depths
  | '{' => ⟨1, 0, 0⟩
  | '}' => ⟨-1, 0, 0⟩
  | '(' => ⟨0, 1, 0⟩
  | ')' => ⟨0, -1, 0⟩
  | _ => 0

/-- The counters of the brackets of a text. -/
def brackets (text : List Char) : Depths := text.foldl (fun d c => d + ofBracket c) 0

/-- The counter of the markers of a text. -/
def markers (text : List Char) : Depths :=
  ⟨0, 0, Marker.opening.count text - Marker.closing.count text⟩

/-- The counters of a text. -/
def tally (text : List Char) : Depths := brackets text + markers text

@[simp]
theorem brackets_nil : brackets [] = 0 := rfl

theorem foldl_add_ofBracket (d : Depths) (text : List Char) :
    text.foldl (fun d c => d + ofBracket c) d = d + brackets text := by
  induction text generalizing d with
  | nil => simp
  | cons c text ih =>
    have h : brackets (c :: text) = ofBracket c + brackets text := by
      rw [brackets, List.foldl_cons, ih, zero_add]
    rw [List.foldl_cons, ih, h, add_assoc]

@[simp]
theorem brackets_cons (c : Char) (text : List Char) :
    brackets (c :: text) = ofBracket c + brackets text := by
  rw [brackets, List.foldl_cons, foldl_add_ofBracket, zero_add]

theorem brackets_append (a b : List Char) : brackets (a ++ b) = brackets a + brackets b := by
  rw [brackets, List.foldl_append, foldl_add_ofBracket]; rfl

@[simp]
theorem tally_nil : tally [] = 0 := rfl

/-- How depths are printed. -/
def display (d : Depths) : String := s!"Braces={d.braces}, Parens={d.parens}, Divs={d.divs}"

end Depths

end DepthGauge
