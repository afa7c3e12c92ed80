import DepthGauge.Text.Line
import Mathlib.Data.List.Chain

/-!
# Line splits

What it means that some pieces are the lines of a text, said without the way in which lines are
found. A text has one such split only, and a cursor gives it out.

## Main definitions

* `IsBody`, `IsFullLine`: a piece without terminators, and one that ends with its only one.
* `IsLineSplit text pieces`: the pieces are the text, cut behind every terminator.
* `LineCursor.Yields cursor pieces`: the cursor gives out the pieces and then ends.

## Main results

* `isLineSplit_iff`: the only split of a text is `lines`.
* `LineCursor.yields_iff`: a cursor ends, and yields the lines it has not passed yet.
* `LineCursor.yields_only_split`: both of them for the calls of a cursor, one after the other.
-/

namespace DepthGauge

open LineSymbol

variable {α : Type} [LineSymbol α]

def IsBody (piece : List α) : Prop := lf ∉ piece ∧ cr ∉ piece

/-- The three terminators. -/
def terminators : List (List α) := [[lf], [cr, lf], [cr]]

/-- A body and one terminator. -/
def IsFullLine (piece : List α) : Prop :=
  ∃ body, IsBody body ∧ ∃ ending ∈ terminators, piece = body ++ ending

/-- No line feed follows a lone carriage return from one piece to the next. -/
def NoPairAcross (a b : List α) : Prop := a.getLast? = some cr → b.head? ≠ some lf

/-- The pieces are a text cut behind every terminator. Only the last piece may lack one. -/
structure IsLineSplit (text : List α) (pieces : List (List α)) : Prop where
  flatten : pieces.flatten = text
  nonempty : [] ∉ pieces
  full : ∀ piece ∈ pieces.dropLast, IsFullLine piece
  last : ∀ piece ∈ pieces.getLast?, IsFullLine piece ∨ IsBody piece
  noPair : pieces.IsChain NoPairAcross

@[simp]
theorem isBody_nil : IsBody ([] : List α) := by simp [IsBody]

@[simp]
theorem isBody_cons {c : α} {piece : List α} :
    IsBody (c :: piece) ↔ (c ≠ lf ∧ c ≠ cr) ∧ IsBody piece := by
  simp only [IsBody, List.mem_cons, not_or]
  tauto

theorem mem_terminators {ending : List α} :
    ending ∈ terminators ↔ ending = [lf] ∨ ending = [cr, lf] ∨ ending = [cr] := by
  simp [terminators]

theorem IsFullLine.ne_nil {piece : List α} (h : IsFullLine piece) : piece ≠ [] := by
  obtain ⟨body, -, ending, hend, rfl⟩ := h
  rcases mem_terminators.1 hend with rfl | rfl | rfl <;> simp

theorem isFullLine_terminator {ending : List α} (h : ending ∈ terminators) : IsFullLine ending :=
  ⟨[], isBody_nil, ending, h, rfl⟩

theorem IsFullLine.cons {c : α} {piece : List α} (hc : c ≠ lf ∧ c ≠ cr) (h : IsFullLine piece) :
    IsFullLine (c :: piece) := by
  obtain ⟨body, hbody, ending, hend, rfl⟩ := h
  exact ⟨c :: body, isBody_cons.2 ⟨hc, hbody⟩, ending, hend, rfl⟩

/-- A text without a body of its own starts with a full line that no pair leads out of. -/
theorem isBody_or_exists_isFullLine [DecidableEq α] (text : List α) :
    IsBody text ∨ ∃ line rest, text = line ++ rest ∧ IsFullLine line ∧ NoPairAcross line rest := by
  induction text with
  | nil => exact .inl isBody_nil
  | cons c text ih =>
    by_cases hl : c = lf
    · have hne : (lf : α) ≠ cr := lf_ne_cr
      refine .inr ⟨[c], text, rfl, isFullLine_terminator (by simp [terminators, hl]), ?_⟩
      simp [NoPairAcross, hl, hne]
    by_cases hr : c = cr
    · by_cases hpair : text.head? = some lf
      · obtain ⟨rest, rfl⟩ := List.head?_eq_some_iff.1 hpair
        have hne : (lf : α) ≠ cr := lf_ne_cr
        refine .inr ⟨[c, lf], rest, rfl, isFullLine_terminator (by simp [terminators, hr]), ?_⟩
        simp [NoPairAcross, hne]
      · exact .inr ⟨[c], text, rfl, isFullLine_terminator (by simp [terminators, hr]),
          fun _ => hpair⟩
    rcases ih with hbody | ⟨line, rest, rfl, hline, hcut⟩
    · exact .inl (isBody_cons.2 ⟨⟨hl, hr⟩, hbody⟩)
    · refine .inr ⟨c :: line, rest, rfl, hline.cons ⟨hl, hr⟩, fun hlast => hcut ?_⟩
      rwa [List.getLast?_cons_of_ne_nil hline.ne_nil] at hlast

/-- A text is taken apart line by line, down to what stands behind its last terminator. -/
@[elab_as_elim]
theorem lineInduction [DecidableEq α] {motive : List α → Prop}
    (body : ∀ text, IsBody text → motive text)
    (line : ∀ line rest, IsFullLine line → NoPairAcross line rest → motive rest →
      motive (line ++ rest)) (text : List α) : motive text := by
  rcases isBody_or_exists_isFullLine text with hbody | ⟨first, rest, rfl, hfirst, hcut⟩
  · exact body text hbody
  · have : 0 < first.length := List.length_pos_of_ne_nil hfirst.ne_nil
    exact line first rest hfirst hcut (lineInduction body line rest)
termination_by text.length
decreasing_by subst_vars; simp; omega

/-! ## Lines with and without a terminator -/

section Terminated

variable [DecidableEq α] {line : List α}

theorem isTerminated_iff :
    isTerminated line = true ↔ line.getLast? = some lf ∨ line.getLast? = some cr := by
  cases h : line.getLast? <;> simp [isTerminated, isTerminator, h]

theorem IsFullLine.isTerminated (h : IsFullLine line) : isTerminated line = true := by
  obtain ⟨body, -, ending, hend, rfl⟩ := h
  rw [isTerminated_iff]
  rcases mem_terminators.1 hend with rfl | rfl | rfl <;> simp

theorem IsBody.isTerminated_eq_false (h : IsBody line) : isTerminated line = false := by
  rw [Bool.eq_false_iff, ne_eq, isTerminated_iff]
  rintro (hlast | hlast)
  · exact h.1 (List.mem_of_getLast? hlast)
  · exact h.2 (List.mem_of_getLast? hlast)

end Terminated

/-! ## Splits, piece by piece -/

namespace IsLineSplit

variable {text piece : List α} {pieces : List (List α)}

theorem nil : IsLineSplit ([] : List α) [] := ⟨rfl, by simp, by simp, by simp, .nil⟩

theorem singleton (h : IsBody text) (hne : text ≠ []) : IsLineSplit text [text] :=
  ⟨by simp, by simpa using hne.symm, by simp, by simpa using .inr h, .singleton text⟩

/-- The first piece starts with the first symbol of the text. -/
theorem head?_eq (h : IsLineSplit text (piece :: pieces)) : piece.head? = text.head? := by
  have hne : piece ≠ [] := fun hp => h.nonempty (by simp [hp])
  rw [← h.flatten, List.flatten_cons, List.head?_append_of_ne_nil piece hne]

theorem cons (h : IsLineSplit text pieces) (hfull : IsFullLine piece)
    (hcut : NoPairAcross piece text) : IsLineSplit (piece ++ text) (piece :: pieces) := by
  cases pieces with
  | nil =>
    obtain rfl : text = [] := h.flatten.symm
    exact ⟨by simp, by simpa using hfull.ne_nil.symm, by simp, by simpa using .inl hfull,
      .singleton piece⟩
  | cons next pieces =>
    refine ⟨by simp [← h.flatten], ?_, ?_, ?_, ?_⟩
    · simpa [hfull.ne_nil.symm] using h.nonempty
    · simpa [hfull] using h.full
    · simpa using h.last
    · refine .cons_cons ?_ h.noPair
      intro hcr
      rw [h.head?_eq]
      exact hcut hcr

theorem tail (h : IsLineSplit text (piece :: pieces)) : IsLineSplit pieces.flatten pieces := by
  cases pieces with
  | nil => exact nil
  | cons next pieces =>
    refine ⟨rfl, fun hm => h.nonempty (List.mem_cons_of_mem piece hm), ?_, ?_, h.noPair.tail⟩
    · intro p hp
      exact h.full p (by simpa using .inr hp)
    · simpa using h.last

/-- No pair leads from the first piece to the text of the others. -/
theorem noPairAcross (h : IsLineSplit text (piece :: pieces)) :
    NoPairAcross piece pieces.flatten := by
  intro hcr
  cases pieces with
  | nil => simp
  | cons next pieces =>
    rw [← h.tail.head?_eq]
    exact (List.isChain_cons_cons.1 h.noPair).1 hcr

/-- Only the last piece can be a body. -/
theorem isFullLine_or (h : IsLineSplit text (piece :: pieces)) :
    IsFullLine piece ∨ pieces = [] ∧ IsBody piece := by
  cases pieces with
  | nil => exact (h.last piece (by simp)).imp_right fun hbody => ⟨rfl, hbody⟩
  | cons next pieces => exact .inl (h.full piece (by simp))

theorem isFullLine_or_isBody (h : IsLineSplit text pieces) (hp : piece ∈ pieces) :
    IsFullLine piece ∨ IsBody piece := by
  induction pieces generalizing text with
  | nil => cases hp
  | cons first pieces ih =>
    rcases List.mem_cons.1 hp with rfl | hp
    · exact h.isFullLine_or.imp_right And.right
    · exact ih h.tail hp

end IsLineSplit

/-! ## The lines of a text that starts with a line -/

section Lines

variable [DecidableEq α] {body line rest : List α} {ls : List (List α)}

theorem lines_lf_cons (rest : List α) : lines (lf :: rest) = [lf] :: lines rest := by
  rw [lines_cons]
  cases lines rest <;> simp [attach]

theorem lines_cr_lf_cons (rest : List α) : lines (cr :: lf :: rest) = [cr, lf] :: lines rest := by
  have hne : (cr : α) ≠ lf := lf_ne_cr.symm
  rw [lines_cons, lines_lf_cons]
  simp [attach, hne]

theorem lines_cr_cons (h : rest.head? ≠ some lf) : lines (cr :: rest) = [cr] :: lines rest := by
  rw [lines_cons]
  cases hl : lines rest with
  | nil => rfl
  | cons line ls =>
    have hne : line ≠ [] := fun hline => ne_nil_of_mem_lines rest (by simp [hl, hline])
    have hhead : line.head? = rest.head? := by
      rw [← flatten_lines rest, hl, List.flatten_cons, List.head?_append_of_ne_nil line hne]
    simp [attach, hhead, h]

/-- A body becomes a part of the line behind it. -/
theorem lines_append_of_isBody (h : IsBody body) (hl : lines rest = line :: ls) :
    lines (body ++ rest) = (body ++ line) :: ls := by
  induction body with
  | nil => exact hl
  | cons c body ih =>
    obtain ⟨hc, hbody⟩ := isBody_cons.1 h
    rw [List.cons_append, lines_cons, ih hbody]
    simp [attach, hc]

theorem lines_of_isBody (h : IsBody body) (hne : body ≠ []) : lines body = [body] := by
  have hlast : lines [body.getLast hne] = [[body.getLast hne]] := rfl
  have hsub := (List.dropLast_sublist body).subset
  have hinit : IsBody body.dropLast := ⟨fun hm => h.1 (hsub hm), fun hm => h.2 (hsub hm)⟩
  have hlines := lines_append_of_isBody hinit hlast
  rwa [List.dropLast_concat_getLast] at hlines

/-- A full line in front of a text is the first line of both together. -/
theorem lines_append_of_isFullLine (h : IsFullLine line) (hcut : NoPairAcross line rest) :
    lines (line ++ rest) = line :: lines rest := by
  obtain ⟨body, hbody, ending, hend, rfl⟩ := h
  have hstart : lines (ending ++ rest) = ending :: lines rest := by
    rcases mem_terminators.1 hend with rfl | rfl | rfl
    · exact lines_lf_cons rest
    · exact lines_cr_lf_cons rest
    · exact lines_cr_cons (hcut (by simp))
  rw [List.append_assoc]
  exact lines_append_of_isBody hbody hstart

theorem isLineSplit_lines (text : List α) : IsLineSplit text (lines text) := by
  induction text using lineInduction with
  | body text hbody =>
    by_cases hne : text = []
    · rw [hne]; exact .nil
    · rw [lines_of_isBody hbody hne]
      exact .singleton hbody hne
  | line line rest hline hcut ih =>
    rw [lines_append_of_isFullLine hline hcut]
    exact ih.cons hline hcut

theorem IsLineSplit.eq_lines {text : List α} {pieces : List (List α)}
    (h : IsLineSplit text pieces) : pieces = lines text := by
  induction pieces generalizing text with
  | nil => rw [← h.flatten]; rfl
  | cons piece pieces ih =>
    have htail : pieces = lines pieces.flatten := ih h.tail
    rw [← h.flatten, List.flatten_cons]
    rcases h.isFullLine_or with hfull | ⟨rfl, hbody⟩
    · rw [lines_append_of_isFullLine hfull h.noPairAcross, ← htail]
    · have hne : piece ≠ [] := fun hp => h.nonempty (by simp [hp])
      rw [List.flatten_nil, List.append_nil, lines_of_isBody hbody hne]

theorem isLineSplit_iff {text : List α} {pieces : List (List α)} :
    IsLineSplit text pieces ↔ pieces = lines text :=
  ⟨IsLineSplit.eq_lines, fun h => h ▸ isLineSplit_lines text⟩

end Lines

/-! ## Cursors -/

namespace LineCursor

variable [DecidableEq α]

/-- The cursor gives out the pieces, one with each call, and then nothing. Only a cursor that comes
to an end yields anything. -/
inductive Yields : LineCursor α → List (List α) → Prop where
  | done {cursor : LineCursor α} (h : cursor.next.1 = none) : Yields cursor []
  | more {cursor : LineCursor α} {line : List α} {rest : List (List α)}
    (h : cursor.next.1 = some line) (hrest : Yields cursor.next.2 rest) :
    Yields cursor (line :: rest)

/-- The cursor after some calls, those that gave nothing included. -/
def after (cursor : LineCursor α) : Nat → LineCursor α
  | 0 => cursor
  | calls + 1 => cursor.next.2.after calls

theorem yields_lines (cursor : LineCursor α) : cursor.Yields cursor.lines := by
  obtain ⟨hline, hrest⟩ := cursor.next_eq
  generalize hl : cursor.lines = ls at *
  induction ls generalizing cursor with
  | nil => exact .done hline
  | cons line ls ih =>
    refine .more hline ?_
    obtain ⟨hline', hrest'⟩ := cursor.next.2.next_eq
    rw [List.tail_cons] at hrest
    rw [hrest] at hline' hrest'
    exact ih cursor.next.2 hrest hline' hrest'

theorem Yields.unique {cursor : LineCursor α} {a b : List (List α)} (ha : cursor.Yields a)
    (hb : cursor.Yields b) : a = b := by
  induction ha generalizing b with
  | done h =>
    cases hb with
    | done _ => rfl
    | more h' _ => rw [h] at h'; cases h'
  | more h _ ih =>
    cases hb with
    | done h' => rw [h] at h'; cases h'
    | more h' hrest =>
      rw [h] at h'
      cases h'
      rw [ih hrest]

theorem yields_iff {cursor : LineCursor α} {pieces : List (List α)} :
    cursor.Yields pieces ↔ pieces = cursor.lines :=
  ⟨fun h => h.unique cursor.yields_lines, fun h => h ▸ cursor.yields_lines⟩

theorem lines_after (cursor : LineCursor α) (calls : Nat) :
    (cursor.after calls).lines = cursor.lines.drop calls := by
  induction calls generalizing cursor with
  | zero => rfl
  | succ calls ih => rw [after, ih, cursor.next_eq.2, List.drop_tail]

/-- With each call a cursor gives out the line at its place in the text, and nothing behind the
last one. -/
theorem next_after (cursor : LineCursor α) (calls : Nat) :
    (cursor.after calls).next.1 = cursor.lines[calls]? := by
  rw [(cursor.after calls).next_eq.1, lines_after, List.head?_drop]

/-- A cursor on a text comes to an end, and what it gives out is the only split of the text. Each
call leaves the lines behind the one it gives out, and the first call that gives nothing is followed
by such calls alone. -/
theorem yields_only_split (text : List Char) :
    Yields ⟨text⟩ (DepthGauge.lines text) ∧
      (∀ pieces, IsLineSplit text pieces ↔ pieces = DepthGauge.lines text) ∧
      (∀ calls, (after ⟨text⟩ calls).Yields ((DepthGauge.lines text).drop calls)) ∧
      ∀ calls more, (after ⟨text⟩ calls).next.1 = none →
        (after ⟨text⟩ (calls + more)).next.1 = none := by
  refine ⟨yields_lines ⟨text⟩, fun pieces => isLineSplit_iff, ?_, ?_⟩
  · intro calls
    rw [yields_iff, lines_after]
    rfl
  · intro calls more h
    rw [next_after, List.getElem?_eq_none_iff] at h ⊢
    omega

/-- The three terminators one after the other, and calls behind the end. -/
theorem yields_only_split_mixed :
    Yields ⟨"a\r\n\r\nb\n\rc".toList⟩
        ["a\r\n".toList, "\r\n".toList, "b\n".toList, "\r".toList, "c".toList] ∧
      (after ⟨"a\r\n\r\nb\n\rc".toList⟩ 5).next.1 = none ∧
      (after ⟨"a\r\n\r\nb\n\rc".toList⟩ (5 + 2)).next.1 = none := by
  obtain ⟨hyields, -, -, hnone⟩ := yields_only_split "a\r\n\r\nb\n\rc".toList
  have hlast : (after ⟨"a\r\n\r\nb\n\rc".toList⟩ 5).next.1 = none := by decide +kernel
  exact ⟨hyields, hlast, hnone 5 2 hlast⟩

end LineCursor

end DepthGauge
