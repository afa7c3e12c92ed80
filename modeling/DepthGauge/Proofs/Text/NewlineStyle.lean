import DepthGauge.Proofs.Text.Border

/-!
# Newline styles

A text can end its lines with `\n`, with `\r\n` or with `\r`. The lines are the same in each style,
but for their terminators.

## Main definitions

* `unifyNewlines text`: the text with `\n` for each of its terminators.
* `restyle ending text`: the text with another ending for each line feed.
* `withLineFeed line`: a line with `\n` for its terminator.

## Main results

* `lines_unifyNewlines`: the lines of a unified text.
* `unifyNewlines_restyle`: both styles with `\r` are unified to the same text.
* `count_unifyNewlines`: terminators, counted as line feeds of the unified text.
-/

namespace DepthGauge

/-- Universal newlines: each `\r\n`, and then each `\r`, becomes `\n`. -/
def unifyNewlines : List Char → List Char
  | [] => []
  | '\r' :: '\n' :: rest => '\n' :: unifyNewlines rest
  | '\r' :: rest => '\n' :: unifyNewlines rest
  | c :: rest => c :: unifyNewlines rest

/-- Puts another ending in the place of each line feed. -/
def restyle (ending text : List Char) : List Char :=
  text.flatMap fun c => if c = '\n' then ending else [c]

/-- The line with a line feed in the place of its terminator, if it has one. -/
def withLineFeed (line : List Char) : List Char :=
  line.takeWhile (!isTerminator ·) ++ if isTerminated line then ['\n'] else []

variable {body ending line rest text : List Char}

/-! ## One step -/

theorem unifyNewlines_cons_of_ne {c : Char} (hc : c ≠ '\r') (rest : List Char) :
    unifyNewlines (c :: rest) = c :: unifyNewlines rest :=
  unifyNewlines.eq_4 c rest (fun _ h _ => hc h) hc

theorem unifyNewlines_cr_cons (h : rest.head? ≠ some '\n') :
    unifyNewlines ('\r' :: rest) = '\n' :: unifyNewlines rest :=
  unifyNewlines.eq_3 rest fun _ hrest => h (by simp [hrest])

theorem unifyNewlines_append_of_isBody (h : IsBody body) (rest : List Char) :
    unifyNewlines (body ++ rest) = body ++ unifyNewlines rest := by
  induction body with
  | nil => rfl
  | cons c body ih =>
    obtain ⟨hc, hbody⟩ := isBody_cons.1 h
    rw [List.cons_append, unifyNewlines_cons_of_ne hc.2, ih hbody]
    rfl

theorem unifyNewlines_of_isBody (h : IsBody body) : unifyNewlines body = body := by
  simpa [unifyNewlines] using unifyNewlines_append_of_isBody h []

/-! ## Lines with a line feed -/

theorem takeWhile_append_of_isBody (h : IsBody body) (rest : List Char) :
    (body ++ rest).takeWhile (!isTerminator ·) = body ++ rest.takeWhile (!isTerminator ·) := by
  apply List.takeWhile_append_of_pos
  intro c hc
  grind [isTerminator, IsBody]

theorem withLineFeed_of_isBody (h : IsBody body) : withLineFeed body = body := by
  simpa [withLineFeed, h.isTerminated_eq_false] using takeWhile_append_of_isBody h []

theorem withLineFeed_append (h : IsBody body) (hend : ending ∈ terminators) :
    withLineFeed (body ++ ending) = body ++ ['\n'] := by
  have hfull : IsFullLine (body ++ ending) := ⟨body, h, ending, hend, rfl⟩
  rw [withLineFeed, if_pos hfull.isTerminated, takeWhile_append_of_isBody h]
  rcases mem_terminators.1 hend with rfl | rfl | rfl <;> simp [isTerminator]

theorem exists_withLineFeed_eq (h : IsFullLine line) :
    ∃ body, IsBody body ∧ withLineFeed line = body ++ ['\n'] := by
  obtain ⟨body, hbody, ending, hend, rfl⟩ := h
  exact ⟨body, hbody, withLineFeed_append hbody hend⟩

/-- A full line is unified by itself if no pair leads out of it. -/
theorem unifyNewlines_append_of_isFullLine (h : IsFullLine line) (hcut : NoPairAcross line rest) :
    unifyNewlines (line ++ rest) = withLineFeed line ++ unifyNewlines rest := by
  obtain ⟨body, hbody, ending, hend, rfl⟩ := h
  rw [withLineFeed_append hbody hend, List.append_assoc, unifyNewlines_append_of_isBody hbody,
    List.append_assoc]
  congr 1
  rcases mem_terminators.1 hend with rfl | rfl | rfl
  · exact unifyNewlines_cons_of_ne (by decide) rest
  · rfl
  · exact unifyNewlines_cr_cons (hcut (by simp))

theorem lines_unifyNewlines (text : List Char) :
    lines (unifyNewlines text) = (lines text).map withLineFeed := by
  induction text using lineInduction with
  | body text hbody =>
    rw [unifyNewlines_of_isBody hbody]
    by_cases hne : text = []
    · simp [hne]
    · simp [lines_of_isBody hbody hne, withLineFeed_of_isBody hbody]
  | line line rest hline hcut ih =>
    obtain ⟨body, hbody, heq⟩ := exists_withLineFeed_eq hline
    have hfull : IsFullLine (withLineFeed line) :=
      ⟨body, hbody, ['\n'], by simp [terminators, LineSymbol.lf], heq⟩
    -- The next line may start with a line feed now, but none ends with a carriage return.
    have hcut' : NoPairAcross (withLineFeed line) (unifyNewlines rest) := by
      simp [NoPairAcross, heq, LineSymbol.cr]
    rw [unifyNewlines_append_of_isFullLine hline hcut, lines_append_of_isFullLine hfull hcut', ih,
      lines_append_of_isFullLine hline hcut]
    rfl

/-- The line feeds of the unified text stand for the terminators, one for each. -/
theorem count_unifyNewlines (text : List Char) :
    (unifyNewlines text).count '\n' = terminatorCount text := by
  have hnone {body : List Char} (h : IsBody body) : body.count '\n' = 0 := List.count_eq_zero.2 h.1
  induction text using lineInduction with
  | body text hbody =>
    have hcount : terminatorCount text = 0 := by
      by_cases hne : text = []
      · simp [hne, terminatorCount]
      · simp [terminatorCount, lines_of_isBody hbody hne, hbody.isTerminated_eq_false]
    rw [unifyNewlines_of_isBody hbody, hnone hbody, hcount]
  | line line rest hline hcut ih =>
    have hcount : terminatorCount (line ++ rest) = 1 + terminatorCount rest := by
      simp [terminatorCount, lines_append_of_isFullLine hline hcut, hline.isTerminated,
        Nat.add_comm]
    obtain ⟨body, hbody, heq⟩ := exists_withLineFeed_eq hline
    rw [unifyNewlines_append_of_isFullLine hline hcut, List.count_append, ih, hcount, heq,
      List.count_append, hnone hbody]
    rfl

/-! ## Other styles -/

theorem head?_restyle_cr (text : List Char) : (restyle ['\r'] text).head? ≠ some '\n' := by
  cases text with
  | nil => simp [restyle]
  | cons c text => by_cases hc : c = '\n' <;> simp [restyle, hc]

theorem unifyNewlines_restyle (hend : ending = ['\r', '\n'] ∨ ending = ['\r'])
    (h : '\r' ∉ text) : unifyNewlines (restyle ending text) = text := by
  induction text with
  | nil => rfl
  | cons c text ih =>
    have hc : c ≠ '\r' := by grind
    have htext : unifyNewlines (restyle ending text) = text := ih (by grind)
    have hcons : restyle ending (c :: text) =
        (if c = '\n' then ending else [c]) ++ restyle ending text := rfl
    rw [hcons]
    split
    · next hlf =>
      subst hlf
      rcases hend with rfl | rfl
      · exact congrArg ('\n' :: ·) htext
      · exact (unifyNewlines_cr_cons (head?_restyle_cr text)).trans (congrArg ('\n' :: ·) htext)
    · exact (unifyNewlines_cons_of_ne hc _).trans (congrArg (c :: ·) htext)

end DepthGauge
