import DepthGauge.Proofs.Balance.Counting
import DepthGauge.Proofs.Scan.WholeText

/-!
# Well-nested documents

A document that closes what it opens, one thing inside the other, comes out even. On the way nothing
is ever closed that was not open, wherever the lines end and whichever checkpoints there are.

## Main definitions

* `WellNested document`: plain text, parentheses, braces and elements, nested and side by side.
* `IsBalanced text`: the text is uncut, counts nothing in all, and no start of it goes below zero.

## Main results

* `IsBalanced.append`, `IsBalanced.enclose`: balanced texts side by side and enclosed.
* `WellNested.isBalanced`: a well-nested document is balanced.
* `scanText_of_wellNested`: what a scan of one reports.
-/

namespace DepthGauge

variable {a b d p text opener closer : List Char}

/-- The documents that close what they open. An element has an opening marker, attributes, the end
of its tag, content and a closing marker. -/
inductive WellNested : List Char → Prop where
  | nil : WellNested []
  | plain {text : List Char} (h : ∀ c ∈ text, c ∉ ['{', '}', '(', ')', '<']) : WellNested text
  | append {a b : List Char} (ha : WellNested a) (hb : WellNested b) : WellNested (a ++ b)
  | parens {d : List Char} (h : WellNested d) : WellNested (['('] ++ d ++ [')'])
  | braces {d : List Char} (h : WellNested d) : WellNested (['{'] ++ d ++ ['}'])
  | element {attributes content : List Char} (ha : WellNested attributes)
    (hc : WellNested content) :
    WellNested ("<div".toList ++ attributes ++ ['>'] ++ content ++ "</div>".toList)

/-! ## Balanced texts -/

/-- No counter is below zero. -/
structure Depths.IsNonneg (depths : Depths) : Prop where
  braces : 0 ≤ depths.braces
  parens : 0 ≤ depths.parens
  divs : 0 ≤ depths.divs

instance (depths : Depths) : Decidable depths.IsNonneg :=
  decidable_of_iff (0 ≤ depths.braces ∧ 0 ≤ depths.parens ∧ 0 ≤ depths.divs)
    ⟨fun ⟨hb, hp, hd⟩ => ⟨hb, hp, hd⟩, fun h => ⟨h.braces, h.parens, h.divs⟩⟩

theorem Depths.isNonneg_zero : (0 : Depths).IsNonneg :=
  ⟨Int.le_refl 0, Int.le_refl 0, Int.le_refl 0⟩

theorem Depths.IsNonneg.add {x y : Depths} (hx : x.IsNonneg) (hy : y.IsNonneg) : (x + y).IsNonneg :=
  ⟨Int.add_nonneg hx.braces hy.braces, Int.add_nonneg hx.parens hy.parens,
    Int.add_nonneg hx.divs hy.divs⟩

/-- A start of two joined texts is one of the first, or all of the first and a start of the
second. -/
theorem forall_isPrefix_append {P : List Char → Prop} (hfirst : ∀ p, p <+: a → P p)
    (hsecond : ∀ q, q <+: b → P (a ++ q)) : ∀ p, p <+: a ++ b → P p := by
  intro p hp
  rcases List.prefix_or_prefix_of_prefix hp (List.prefix_append a b) with hp' | ⟨q, rfl⟩
  · exact hfirst p hp'
  · exact hsecond q ((List.prefix_append_right_inj a).1 hp)

structure IsBalanced (text : List Char) : Prop where
  uncut : IsUncut text
  total : Depths.tally text = 0
  starts : ∀ p, p <+: text → (Depths.tally p).IsNonneg

/-- An uncut piece of text that counts at once or not at all. -/
structure IsToken (text : List Char) : Prop where
  uncut : IsUncut text
  atOnce : ∀ p ∈ text.inits, Depths.tally p = 0 ∨ Depths.tally p = Depths.tally text

/-- Two tokens of which the second closes what the first opens. -/
structure IsPair (opener closer : List Char) : Prop where
  isToken_opener : IsToken opener
  isToken_closer : IsToken closer
  opens : (Depths.tally opener).IsNonneg
  closes : Depths.tally opener + Depths.tally closer = 0

theorem isToken_bracket {c : Char} (hc : c ≠ '<') : IsToken [c] :=
  ⟨isUncut_of_not_mem (by simpa using hc.symm), by simp [List.inits]⟩

theorem isToken_text (m : Marker) : IsToken m.text :=
  ⟨isUncut_text m, by cases m <;> decide +kernel⟩

theorem isPair_parens : IsPair ['('] [')'] :=
  ⟨isToken_bracket (by decide), isToken_bracket (by decide), by decide, rfl⟩

theorem isPair_braces : IsPair ['{'] ['}'] :=
  ⟨isToken_bracket (by decide), isToken_bracket (by decide), by decide, rfl⟩

theorem isPair_markers : IsPair Marker.opening.text Marker.closing.text :=
  ⟨isToken_text .opening, isToken_text .closing, by decide, rfl⟩

namespace IsBalanced

theorem of_plain (h : ∀ c ∈ text, c ∉ ['{', '}', '(', ')', '<']) : IsBalanced text where
  uncut := isUncut_of_not_mem fun hmem => h '<' hmem (by simp)
  total := Depths.tally_eq_zero h
  starts p hp := by
    rw [Depths.tally_eq_zero fun c hc => h c (hp.subset hc)]
    exact Depths.isNonneg_zero

theorem append (ha : IsBalanced a) (hb : IsBalanced b) : IsBalanced (a ++ b) where
  uncut := ha.uncut.append hb.uncut
  total := by rw [ha.uncut.tally_append, ha.total, hb.total, add_zero]
  starts := forall_isPrefix_append ha.starts fun q hq => by
    rw [ha.uncut.tally_append, ha.total, zero_add]
    exact hb.starts q hq

/-- What the first token opens stays open up to the second one, which closes it. -/
theorem enclose (hd : IsBalanced d) (h : IsPair opener closer) :
    IsBalanced (opener ++ d ++ closer) := by
  have huncut : IsUncut (opener ++ d) := h.isToken_opener.uncut.append hd.uncut
  have hopen : Depths.tally (opener ++ d) = Depths.tally opener := by
    rw [h.isToken_opener.uncut.tally_append, hd.total, add_zero]
  refine ⟨huncut.append h.isToken_closer.uncut, ?_,
    forall_isPrefix_append (forall_isPrefix_append ?inOpener ?inside) ?inCloser⟩
  · rw [huncut.tally_append, hopen, h.closes]
  case inOpener =>
    intro p hp
    rcases h.isToken_opener.atOnce p ((List.mem_inits p opener).2 hp) with hnone | hall
    · exact hnone ▸ Depths.isNonneg_zero
    · exact hall ▸ h.opens
  case inside =>
    intro q hq
    rw [h.isToken_opener.uncut.tally_append]
    exact h.opens.add (hd.starts q hq)
  case inCloser =>
    intro q hq
    rw [huncut.tally_append, hopen]
    rcases h.isToken_closer.atOnce q ((List.mem_inits q closer).2 hq) with hnone | hall
    · rw [hnone, add_zero]
      exact h.opens
    · rw [hall, h.closes]
      exact Depths.isNonneg_zero

end IsBalanced

/-! ## Well-nested documents -/

theorem WellNested.isBalanced (h : WellNested text) : IsBalanced text := by
  induction h with
  | nil => exact .of_plain (by simp)
  | plain h => exact .of_plain h
  | append _ _ iha ihb => exact iha.append ihb
  | parens _ ih => exact ih.enclose isPair_parens
  | braces _ ih => exact ih.enclose isPair_braces
  | @element attributes content _ _ iha ihc =>
    -- The end of the tag is plain text between the attributes and the content.
    have htag : IsBalanced ['>'] := .of_plain (by simp)
    have helement := ((iha.append htag).append ihc).enclose isPair_markers
    simpa [Marker.text] using helement

theorem textBetween_zero_isPrefix (text : List Char) (n : Nat) : textBetween text 0 n <+: text := by
  have htake : (lines text).take n <+: lines text := List.take_prefix n _
  have hflatten := htake.flatten
  rwa [flatten_lines] at hflatten

/-- A well-nested document comes out even, whatever the table, and no checkpoint in it finds more
closed than was open. -/
theorem scanText_of_wellNested (h : WellNested text) (table : Table) :
    (scanText text table).finalDepths = 0 ∧
      ∀ hit ∈ (scanText text table).hits, hit.depths.IsNonneg := by
  have hbalanced := h.isBalanced
  rw [scanText, scanLines_eq_filterMap]
  refine ⟨?_, fun hit hhit => ?_⟩
  · rw [depthsBehind_lines_length, hbalanced.total]
  · obtain ⟨n, -, hat⟩ := List.mem_filterMap.1 hhit
    obtain ⟨label, -, rfl⟩ := Option.map_eq_some_iff.1 hat
    rw [depthsBehind_lines]
    exact hbalanced.starts _ (textBetween_zero_isPrefix text n)

/-- Lines that end in a tag and in braces, and a checkpoint where everything is open. -/
theorem scanText_of_wellNested_open : ∃ table,
    Table.ofEntries [⟨9, "late"⟩, ⟨2, "open"⟩] = .ok table ∧
      let document := "(<div a\r>\x7bx\n\x7d</div>\n)".toList
      WellNested document ∧ (scanText document table).finalDepths = 0 ∧
        ⟨2, "open", ⟨1, 1, 1⟩⟩ ∈ (scanText document table).hits ∧
        (⟨1, 1, 1⟩ : Depths).IsNonneg := by
  obtain ⟨table, h⟩ : ∃ table, Table.ofEntries [⟨9, "late"⟩, ⟨2, "open"⟩] = .ok table :=
    Table.ofEntries_isOk_iff.2 (by decide)
  obtain ⟨hindexed, hlist⟩ := Table.of_ofEntries_eq_ok h
  have htag : WellNested " a\r".toList := .plain (by simp)
  have hinner : WellNested "x\n".toList := .plain (by simp)
  have hend : WellNested "\n".toList := .plain (by simp)
  have hdocument : WellNested "(<div a\r>\x7bx\n\x7d</div>\n)".toList :=
    ((htag.element hinner.braces).append hend).parens
  obtain ⟨hfinal, hhits⟩ := scanText_of_wellNested hdocument table
  have hcount : (lines "(<div a\r>\x7bx\n\x7d</div>\n)".toList).length = 4 := by decide +kernel
  have hopen : Checkpoint.hit (lines "(<div a\r>\x7bx\n\x7d</div>\n)".toList) ⟨2, "open"⟩ =
      ⟨2, "open", ⟨1, 1, 1⟩⟩ := by decide +kernel
  have hmem : ⟨2, "open", ⟨1, 1, 1⟩⟩ ∈
      (scanText "(<div a\r>\x7bx\n\x7d</div>\n)".toList table).hits := by
    rw [← hopen]
    exact hit_mem_scanLines hindexed (by simp [hlist]) (hcount ▸ by decide)
  exact ⟨table, h, hdocument, hfinal, hmem, hhits _ hmem⟩

end DepthGauge
