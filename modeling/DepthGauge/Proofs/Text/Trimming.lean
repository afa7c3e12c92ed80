import DepthGauge.Text.Blank
import Mathlib.Data.List.DropRight
import Mathlib.Data.List.TakeWhile

/-!
# Trimmed texts

Trimming leaves a text that neither starts nor ends with white space, and it leaves such a text as
it is.

## Main definitions

* `IsTrimmed text`: no white space stands at either end.

## Main results

* `isTrimmed_trim`, `trim_eq_self_iff`: what trimming leaves, and what it leaves alone.
* `exists_eq_append_trim`, `trim_append`: white space in front and behind is what goes away.
-/

namespace DepthGauge

variable {text before after : List Char} {c : Char}

/-- Neither the first nor the last character is white space. -/
def IsTrimmed (text : List Char) : Prop :=
  (∀ c ∈ text.head?, isBlank c = false) ∧ ∀ c ∈ text.getLast?, isBlank c = false

theorem isTrimmed_of_forall (h : ∀ c ∈ text, isBlank c = false) : IsTrimmed text :=
  ⟨fun c hc => h c (List.mem_of_mem_head? hc), fun c hc => h c (List.mem_of_mem_getLast? hc)⟩

theorem isBlank_of_isDigit (h : c.isDigit = true) : isBlank c = false := by
  have hrange : 48 ≤ c.toNat ∧ c.toNat ≤ 57 := by
    simpa [Char.isDigit, UInt32.le_iff_toNat_le] using h
  simp [isBlank, blankRanges]
  omega

theorem trimStart_eq_self (h : ∀ c ∈ text.head?, isBlank c = false) : trimStart text = text := by
  cases text with
  | nil => rfl
  | cons c text => simp_all [trimStart]

theorem trimEnd_eq_rdropWhile (text : List Char) : trimEnd text = text.rdropWhile isBlank := rfl

theorem trimEnd_eq_self (h : ∀ c ∈ text.getLast?, isBlank c = false) : trimEnd text = text := by
  rw [trimEnd_eq_rdropWhile, List.rdropWhile_eq_self_iff]
  intro hne
  simpa using h (text.getLast hne) (List.getLast?_eq_some_getLast hne)

theorem trim_eq_self (h : IsTrimmed text) : trim text = text := by
  rw [trim, trimStart_eq_self h.1, trimEnd_eq_self h.2]

theorem isTrimmed_trim (text : List Char) : IsTrimmed (trim text) := by
  constructor
  · intro c hc
    -- What is left of the text in front starts as it did.
    obtain ⟨rest, hrest⟩ := List.rdropWhile_prefix isBlank (trimStart text)
    have hhead : (trimStart text).head? = some c := by
      rw [← hrest]
      exact List.mem_head?_append_of_mem_head? hc
    have hfirst := List.head?_dropWhile_not isBlank text
    rw [← trimStart, hhead] at hfirst
    exact hfirst
  · intro c hc
    have hne : trim text ≠ [] := by
      rintro heq
      simp [heq] at hc
    have hlast := List.rdropWhile_last_not isBlank (trimStart text) hne
    obtain rfl : (trim text).getLast hne = c := by
      simpa [List.getLast?_eq_some_getLast hne] using hc
    exact Bool.eq_false_iff.2 hlast

theorem trim_eq_self_iff : trim text = text ↔ IsTrimmed text :=
  ⟨fun h => h ▸ isTrimmed_trim text, trim_eq_self⟩

/-- A first character that is not white space stays the first. -/
theorem head?_trim_cons (h : isBlank c = false) (text : List Char) :
    (trim (c :: text)).head? = some c := by
  have hstart : trimStart (c :: text) = c :: text := trimStart_eq_self (by simpa using h)
  have hne : trimEnd (c :: text) ≠ [] := by
    rw [trimEnd_eq_rdropWhile, ne_eq, List.rdropWhile_eq_nil_iff]
    intro hall
    simp [hall c List.mem_cons_self] at h
  obtain ⟨rest, hrest⟩ := List.rdropWhile_prefix isBlank (c :: text)
  rw [trim, hstart, ← List.head?_append_of_ne_nil _ hne, trimEnd_eq_rdropWhile, hrest,
    List.head?_cons]

/-! ## White space around a text -/

theorem exists_eq_append_trim (text : List Char) : ∃ before after,
    (∀ c ∈ before, isBlank c) ∧ (∀ c ∈ after, isBlank c) ∧ text = before ++ trim text ++ after := by
  refine ⟨text.takeWhile isBlank, (trimStart text).rtakeWhile isBlank,
    fun c => List.mem_takeWhile_imp, fun c => List.mem_rtakeWhile_imp, ?_⟩
  rw [trim, trimEnd_eq_rdropWhile, List.append_assoc, List.rdropWhile_append_rtakeWhile, trimStart,
    List.takeWhile_append_dropWhile]

theorem trimEnd_append (h : ∀ c ∈ after, isBlank c) (text : List Char) :
    trimEnd (text ++ after) = trimEnd text := by
  rw [trimEnd, trimEnd, List.reverse_append, List.dropWhile_append_of_pos (by simpa using h)]

theorem trim_append (hbefore : ∀ c ∈ before, isBlank c) (hafter : ∀ c ∈ after, isBlank c)
    (text : List Char) : trim (before ++ text ++ after) = trim text := by
  rw [trim, trimStart, List.append_assoc, List.dropWhile_append_of_pos hbefore,
    List.dropWhile_append]
  split
  · next hblank =>
    -- Nothing but white space: what stands behind it goes with it.
    have hnil : after.dropWhile isBlank = [] := List.dropWhile_eq_nil_iff.2 hafter
    rw [hnil, trim, trimStart, List.isEmpty_iff.1 hblank]
  · rw [trimEnd_append hafter, trim, trimStart]

theorem trim_eq_nil_iff : trim text = [] ↔ ∀ c ∈ text, isBlank c := by
  constructor
  · intro h
    obtain ⟨before, after, hbefore, hafter, htext⟩ := exists_eq_append_trim text
    rw [h, List.append_nil] at htext
    rw [htext]
    exact fun c hc => (List.mem_append.1 hc).elim (hbefore c) (hafter c)
  · intro h
    have hblank : trim (text ++ [] ++ []) = trim [] := trim_append h (by simp) []
    simpa using hblank

end DepthGauge
