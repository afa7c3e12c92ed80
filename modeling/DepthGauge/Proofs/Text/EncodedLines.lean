import DepthGauge.Proofs.Text.Encoding
import DepthGauge.Proofs.Text.LineSplit

/-!
# Lines of encoded texts

Bytes have the same lines as the text that they encode: a byte below `0x80` is a character of its
own, and so the bytes of other characters hold none of the two line symbols.

## Main results

* `mem_encode_iff`: such a byte stands for its character wherever it is.
* `lines_encode`: the lines of the bytes encode the lines of the text.
* `terminatorCount_encode`: terminators, counted in the bytes.
-/

namespace DepthGauge.Utf8

open String (utf8EncodeChar)

variable {b : UInt8} {c : Char} {text line rest : List Char}

/-! ## Bytes below `0x80` -/

theorem Spells.eq_of_mem {bytes : List UInt8} {n : Nat} (h : Spells bytes n) (hmem : b ∈ bytes)
    (hb : b.toNat < 0x80) : n = b.toNat := by
  cases h <;> simp only [List.mem_cons, List.not_mem_nil, or_false] at hmem
  case one => obtain rfl := hmem; simp; omega
  case two => rcases hmem with rfl | rfl <;> simp at hb <;> omega
  case three => rcases hmem with rfl | rfl | rfl <;> simp at hb <;> omega
  case four => rcases hmem with rfl | rfl | rfl | rfl <;> simp at hb <;> omega

theorem mem_utf8EncodeChar_iff {d : Char} (hc : c.toNat < 0x80) :
    .ofNat c.toNat ∈ utf8EncodeChar d ↔ d = c := by
  have hbyte : (UInt8.ofNat c.toNat).toNat = c.toNat := by simp; omega
  constructor
  · intro hmem
    have hd := (spells_utf8EncodeChar d).eq_of_mem hmem (by omega)
    exact Char.toNat_inj.1 (hd.trans hbyte)
  · rintro rfl
    simp [utf8EncodeChar_eq_singleton hc]

theorem mem_encode_iff (hc : c.toNat < 0x80) : .ofNat c.toNat ∈ encode text ↔ c ∈ text := by
  simp [encode, mem_utf8EncodeChar_iff hc]

theorem encode_eq_nil_iff : encode text = [] ↔ text = [] := by
  cases text <;> simp

theorem head?_of_head?_encode (hc : c.toNat < 0x80)
    (h : (encode text).head? = some (.ofNat c.toNat)) : text.head? = some c := by
  cases text with
  | nil => simp at h
  | cons d text =>
    rw [encode_cons, List.head?_append_of_ne_nil _ String.utf8EncodeChar_ne_nil] at h
    have hmem := List.mem_of_head? h
    rw [(mem_utf8EncodeChar_iff hc).1 hmem, List.head?_cons]

/-! ## Lines -/

theorem isBody_encode (h : IsBody text) : IsBody (encode text) := by
  obtain ⟨hlf, hcr⟩ := h
  exact ⟨mt (mem_encode_iff (c := '\n') (by decide)).1 hlf,
    mt (mem_encode_iff (c := '\r') (by decide)).1 hcr⟩

theorem isFullLine_encode (h : IsFullLine line) : IsFullLine (encode line) := by
  obtain ⟨body, hbody, ending, hend, rfl⟩ := h
  refine ⟨encode body, isBody_encode hbody, encode ending, ?_, encode_append body ending⟩
  rcases mem_terminators.1 hend with rfl | rfl | rfl <;> decide

/-- A pair of bytes across two full lines would be a pair of characters. -/
theorem noPairAcross_encode (h : IsFullLine line) (hcut : NoPairAcross line rest) :
    NoPairAcross (encode line) (encode rest) := by
  obtain ⟨body, -, ending, hend, rfl⟩ := h
  intro hlast hhead
  have hrest : rest.head? = some '\n' := head?_of_head?_encode (by decide) hhead
  rcases mem_terminators.1 hend with rfl | rfl | rfl
  · simp [LineSymbol.lf, LineSymbol.cr, utf8EncodeChar] at hlast
  · simp [LineSymbol.lf, LineSymbol.cr, utf8EncodeChar] at hlast
  · exact hcut (by simp) hrest

theorem lines_encode (text : List Char) : lines (encode text) = (lines text).map encode := by
  induction text using lineInduction with
  | body text hbody =>
    by_cases hne : text = []
    · simp [hne]
    · rw [lines_of_isBody hbody hne, List.map_singleton]
      exact lines_of_isBody (isBody_encode hbody) (mt encode_eq_nil_iff.1 hne)
  | line line rest hline hcut ih =>
    rw [encode_append, lines_append_of_isFullLine (isFullLine_encode hline)
      (noPairAcross_encode hline hcut), ih, lines_append_of_isFullLine hline hcut, List.map_cons]

theorem isTerminated_encode (h : line ∈ lines text) :
    isTerminated (encode line) = isTerminated line := by
  rcases (isLineSplit_lines text).isFullLine_or_isBody h with hfull | hbody
  · rw [(isFullLine_encode hfull).isTerminated, hfull.isTerminated]
  · rw [(isBody_encode hbody).isTerminated_eq_false, hbody.isTerminated_eq_false]

theorem terminatorCount_encode (text : List Char) :
    terminatorCount (encode text) = terminatorCount text := by
  rw [terminatorCount, lines_encode, List.countP_map, terminatorCount]
  exact List.countP_congr fun line hline => by simp [isTerminated_encode hline]

end DepthGauge.Utf8
