import DepthGauge.Proofs.Checkpoint.Written

/-!
# The grammar of checkpoints

Which texts stand for a checkpoint, said without the way in which they are read: a number in decimal
digits, an equals sign and a label, with white space wherever it is trimmed away. Every other text
is refused for one reason, which decides what is said about it.

## Main definitions

* `Checkpoint.IsSpelledBy c arg`: the texts that stand for a checkpoint.
* `Checkpoint.Refusal arg e message`: why a text stands for none, and the message.

## Main results

* `Checkpoint.parse_eq_ok_iff_isSpelledBy`: what is read is what is spelled.
* `Checkpoint.refusal_iff`: the reasons and the messages of what is not read.
* `Checkpoint.parse_classifies`: every text is one or the other, in one way only.
-/

namespace DepthGauge

namespace Checkpoint

variable {arg message : String} {c : Checkpoint} {e : ParseError}

/-! ## Texts that stand for a checkpoint -/

/-- White space, a number of at most sixty-four binary digits, white space, an equals sign, and
something that is more than white space and has the label between white space. -/
def IsSpelledBy (c : Checkpoint) (arg : String) : Prop :=
  ∃ before sign digits behind after : List Char,
    arg.toList = before ++ sign ++ digits ++ behind ++ '=' :: after ∧
      (∀ x ∈ before, isBlank x) ∧ (∀ x ∈ behind, isBlank x) ∧ (sign = [] ∨ sign = ['+']) ∧
      digits ≠ [] ∧ (∀ x ∈ digits, x.isDigit) ∧ decimalValue digits = c.line ∧
      1 ≤ c.line ∧ c.line ≤ 2 ^ 64 - 1 ∧ trim after = c.label.toList ∧ trim after ≠ []

theorem not_mem_equals_of_blank {blank : List Char} (h : ∀ x ∈ blank, isBlank x) : '=' ∉ blank :=
  fun hmem => absurd (h '=' hmem) (by decide)

theorem parse_eq_ok_iff_isSpelledBy : parse arg = .ok c ↔ c.IsSpelledBy arg := by
  have hlabel : c.label ≠ "" ↔ c.label.toList ≠ [] := by simp
  rw [parse_eq_ok_iff]
  constructor
  · rintro ⟨number, after, harg, -, hline, hzero, hafter, hne⟩
    obtain ⟨⟨sign, digits, hnumber, hsign, hdigits⟩, hle⟩ := readLineNumber?_eq_some_iff.1 hline
    obtain ⟨before, behind, hbefore, hbehind, htext⟩ := exists_eq_append_trim number
    refine ⟨before, sign, digits, behind, after, ?_, hbefore, hbehind, hsign, hdigits.1,
      hdigits.2.1, hdigits.2.2, Nat.one_le_iff_ne_zero.2 hzero, hle, hafter, hafter ▸ hlabel.1 hne⟩
    rw [harg, htext, hnumber]
    simp only [List.append_assoc]
  · rintro ⟨before, sign, digits, behind, after, harg, hbefore, hbehind, hsign, hne, hdigits,
      hvalue, hone, hle, hafter, htrim⟩
    have hnumeral : IsNumeral (sign ++ digits) c.line :=
      ⟨sign, digits, rfl, hsign, hne, hdigits, hvalue⟩
    have hnumber : trim (before ++ (sign ++ digits) ++ behind) = sign ++ digits := by
      rw [trim_append hbefore hbehind, trim_eq_self hnumeral.isTrimmed]
    refine ⟨before ++ (sign ++ digits) ++ behind, after, by simpa using harg, ?_, ?_,
      Nat.one_le_iff_ne_zero.1 hone, hafter, hlabel.2 (hafter ▸ htrim)⟩
    · simp only [List.mem_append (s := before ++ _), List.mem_append (s := before), not_or]
      exact ⟨⟨not_mem_equals_of_blank hbefore, hnumeral.not_mem_equals⟩,
        not_mem_equals_of_blank hbehind⟩
    · rw [hnumber]
      exact readLineNumber?_eq_some_iff.2 ⟨hnumeral, hle⟩

/-! ## Texts that stand for none -/

/-- The reason why a text stands for no checkpoint, and what is said about it. The number is looked
at before the label, and the first equals sign ends it. -/
inductive Refusal (arg : String) : ParseError → String → Prop where
  | noEquals (h : '=' ∉ arg.toList) :
    Refusal arg (.noEquals arg) s!"Expected LINE=LABEL, got: {arg}"
  | badNumber {before after : List Char} (harg : arg.toList = before ++ '=' :: after)
    (hbefore : '=' ∉ before) (h : ¬ ∃ n, IsNumeral (trim before) n ∧ n ≤ 2 ^ 64 - 1) :
    Refusal arg (.badNumber (String.ofList (trim before)))
      s!"Invalid line number: {String.ofList (trim before)}"
  | zeroLine {before after : List Char} (harg : arg.toList = before ++ '=' :: after)
    (hbefore : '=' ∉ before) (h : IsNumeral (trim before) 0) :
    Refusal arg .zeroLine "Line numbers start at 1"
  | noLabel {before after : List Char} {n : Nat} (harg : arg.toList = before ++ '=' :: after)
    (hbefore : '=' ∉ before) (h : IsNumeral (trim before) n) (hone : 1 ≤ n)
    (hle : n ≤ 2 ^ 64 - 1) (hblank : ∀ x ∈ after, isBlank x) :
    Refusal arg (.noLabel n) s!"Missing label for line {n}"

theorem Refusal.parse_eq_error (h : Refusal arg e message) :
    parse arg = .error e ∧ e.message = message := by
  refine ⟨?_, by cases h <;> rfl⟩
  cases h with
  | noEquals h => exact parse_of_not_mem h
  | @badNumber before _ harg hbefore h =>
    have hnone : readLineNumber? (trim before) = none :=
      Option.eq_none_iff_forall_ne_some.2 fun n hn => h ⟨n, readLineNumber?_eq_some_iff.1 hn⟩
    rw [parse_of_toList_eq harg hbefore, hnone]
  | zeroLine harg hbefore h =>
    rw [parse_of_toList_eq harg hbefore, readLineNumber?_eq_some_iff.2 ⟨h, Nat.zero_le _⟩]
    rfl
  | noLabel harg hbefore h hone hle hblank =>
    rw [parse_of_toList_eq harg hbefore, readLineNumber?_eq_some_iff.2 ⟨h, hle⟩]
    obtain ⟨n, rfl⟩ := Nat.exists_eq_add_one_of_ne_zero (Nat.one_le_iff_ne_zero.1 hone)
    simp [trim_eq_nil_iff.2 hblank]

theorem refusal_of_parse_eq_error (h : parse arg = .error e) : Refusal arg e e.message := by
  by_cases hmem : '=' ∈ arg.toList
  · obtain ⟨before, after, harg, hbefore⟩ := List.eq_append_cons_of_mem hmem
    rw [parse_of_toList_eq harg hbefore] at h
    split at h
    · next hnone =>
      cases h
      refine .badNumber harg hbefore ?_
      rintro ⟨n, hn⟩
      rw [readLineNumber?_eq_some_iff.2 hn] at hnone
      cases hnone
    · next hzero =>
      cases h
      exact .zeroLine harg hbefore (readLineNumber?_eq_some_iff.1 hzero).1
    · next n hne hn =>
      split at h
      · next hblank =>
        cases h
        obtain ⟨hnumeral, hle⟩ := readLineNumber?_eq_some_iff.1 hn
        exact .noLabel harg hbefore hnumeral (Nat.one_le_iff_ne_zero.2 hne) hle
          (trim_eq_nil_iff.1 hblank)
      · cases h
  · rw [parse_of_not_mem hmem] at h
    cases h
    exact .noEquals hmem

theorem refusal_iff : Refusal arg e message ↔ parse arg = .error e ∧ e.message = message :=
  ⟨Refusal.parse_eq_error, fun ⟨h, hmessage⟩ => hmessage ▸ refusal_of_parse_eq_error h⟩

/-- A text is read as the checkpoint that it spells, and refused for the reason and with the message
that apply to it. It spells one checkpoint and nothing applies, or it spells none and one reason
applies. -/
theorem parse_classifies (arg : String) :
    (∀ c, parse arg = .ok c ↔ c.IsSpelledBy arg) ∧
    (∀ e message, parse arg = .error e ∧ e.message = message ↔ Refusal arg e message) ∧
    ((∃! c : Checkpoint, c.IsSpelledBy arg) ∧ (¬ ∃ e message, Refusal arg e message) ∨
      (¬ ∃ c : Checkpoint, c.IsSpelledBy arg) ∧ ∃! e, ∃ message, Refusal arg e message) := by
  refine ⟨fun c => parse_eq_ok_iff_isSpelledBy, fun e message => refusal_iff.symm, ?_⟩
  simp only [← parse_eq_ok_iff_isSpelledBy, refusal_iff, exists_and_left, exists_eq', and_true]
  cases parse arg with
  | ok c => exact .inl ⟨⟨c, rfl, fun d hd => (Except.ok.inj hd).symm⟩, nofun⟩
  | error e => exact .inr ⟨nofun, e, rfl, fun d hd => (Except.error.inj hd).symm⟩

/-- A number with a plus sign, zeros and a wide blank around it, in front of a label with an equals
sign. A line zero is refused as such though the label is missing too, and a number that is one too
large is none. -/
theorem parse_classifies_padded :
    parse "\u3000+007 = a=b " = .ok ⟨7, "a=b"⟩ ∧ parse "00= " = .error .zeroLine ∧
      parse "18446744073709551616=x" = .error (.badNumber "18446744073709551616") := by
  obtain ⟨hread, -, -⟩ := parse_classifies "\u3000+007 = a=b "
  obtain ⟨-, hzero, -⟩ := parse_classifies "00= "
  obtain ⟨-, hlarge, -⟩ := parse_classifies "18446744073709551616=x"
  have hnone : ¬ ∃ n, IsNumeral (trim "18446744073709551616".toList) n ∧ n ≤ 2 ^ 64 - 1 := by
    rintro ⟨n, hn⟩
    have hsome := readLineNumber?_eq_some_iff.2 hn
    have hunread : readLineNumber? (trim "18446744073709551616".toList) = none := by decide +kernel
    rw [hunread] at hsome
    cases hsome
  have hspelled : IsSpelledBy ⟨7, "a=b"⟩ "\u3000+007 = a=b " :=
    ⟨['\u3000'], ['+'], "007".toList, [' '], " a=b ".toList, rfl, List.all_eq_true.1 rfl,
      List.all_eq_true.1 rfl, .inr rfl, by simp, List.all_eq_true.1 rfl, rfl, by simp, by simp,
      by decide +kernel⟩
  have hzeros : IsNumeral (trim "00".toList) 0 :=
    ⟨[], "00".toList, rfl, .inl rfl, by simp, List.all_eq_true.1 rfl, rfl⟩
  exact ⟨(hread _).2 hspelled, ((hzero _ _).2 (.zeroLine rfl (by simp) hzeros)).1,
    ((hlarge _ _).2 (.badNumber rfl (by simp) hnone)).1⟩

end Checkpoint

end DepthGauge
