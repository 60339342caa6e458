import Midl.Text.Byte
import Midl.Text.Utf8

/-!
# Reading back what was written

Text that is encoded is decoded to itself (`decode_encode`). A character of several bytes is
followed through the decoder byte by byte; the ranges that each byte has to lie in are those that
the encoder puts it in. Quotes are neither lost nor made up: the byte of a quote turns up in an
encoding only where the text has a quote, and a quote is decoded from nothing else.
-/

namespace Midl.Utf8

/-! ## The decoder, byte by byte -/

variable {b : UInt8}

/-- The bytes below `80` are characters by themselves. -/
theorem lead_ascii (h : b.toNat < 0x80) : lead b = ([Char.ofNat b.toNat], .none) := by
  rw [lead, if_pos (UInt8.lt_iff_toNat_lt.mpr h)]

/-- The first byte of two holds the upper bits of the number. -/
theorem lead_two (h : 0xC2 ≤ b.toNat) (h' : b.toNat < 0xE0) :
    lead b = ([], .some (b.toNat - 0xC0) 0 0x80 0xBF) := by
  have h₁ : ¬ b < 0x80 := by rw [UInt8.lt_iff_toNat_lt]; simp; omega
  have h₂ : ¬ b < 0xC2 := by rw [UInt8.lt_iff_toNat_lt]; simp; omega
  have h₃ : b < 0xE0 := UInt8.lt_iff_toNat_lt.mpr h'
  rw [lead, if_neg h₁, if_neg h₂, if_pos h₃]

/-- So does the first of three, which restricts the second where an encoding would be too long or a
surrogate. -/
theorem lead_three (h : 0xE0 ≤ b.toNat) (h' : b.toNat < 0xF0) :
    lead b = ([], .some (b.toNat - 0xE0) 1 (if b.toNat = 0xE0 then 0xA0 else 0x80)
      (if b.toNat = 0xED then 0x9F else 0xBF)) := by
  have h₁ : ¬ b < 0x80 := by rw [UInt8.lt_iff_toNat_lt]; simp; omega
  have h₂ : ¬ b < 0xC2 := by rw [UInt8.lt_iff_toNat_lt]; simp; omega
  have h₃ : ¬ b < 0xE0 := by rw [UInt8.lt_iff_toNat_lt]; simp; omega
  have h₄ : b < 0xF0 := UInt8.lt_iff_toNat_lt.mpr h'
  rw [lead, if_neg h₁, if_neg h₂, if_neg h₃, if_pos h₄]
  simp only [← UInt8.toNat_inj]
  rfl

/-- So does the first of four, which restricts the second where an encoding would be too long or
beyond the last code point. -/
theorem lead_four (h : 0xF0 ≤ b.toNat) (h' : b.toNat < 0xF5) :
    lead b = ([], .some (b.toNat - 0xF0) 2 (if b.toNat = 0xF0 then 0x90 else 0x80)
      (if b.toNat = 0xF4 then 0x8F else 0xBF)) := by
  have h₁ : ¬ b < 0x80 := by rw [UInt8.lt_iff_toNat_lt]; simp; omega
  have h₂ : ¬ b < 0xC2 := by rw [UInt8.lt_iff_toNat_lt]; simp; omega
  have h₃ : ¬ b < 0xE0 := by rw [UInt8.lt_iff_toNat_lt]; simp; omega
  have h₄ : ¬ b < 0xF0 := by rw [UInt8.lt_iff_toNat_lt]; simp; omega
  have h₅ : b < 0xF5 := UInt8.lt_iff_toNat_lt.mpr h'
  rw [lead, if_neg h₁, if_neg h₂, if_neg h₃, if_neg h₄, if_pos h₅]
  simp only [← UInt8.toNat_inj]
  rfl

/-- A byte in range goes on with a character. -/
theorem step_in_range {bits due : Nat} {low high : UInt8} (h : low.toNat ≤ b.toNat)
    (h' : b.toNat ≤ high.toNat) :
    step (.some bits due low high) b =
      match due with
      | 0 => ([Char.ofNat (bits * 64 + (b.toNat - 0x80))], .none)
      | due + 1 => ([], .some (bits * 64 + (b.toNat - 0x80)) due 0x80 0xBF) := by
  have hrange : (decide (low ≤ b) && decide (b ≤ high)) = true := by
    simp [UInt8.le_iff_toNat_le, h, h']
  cases due <;> exact if_pos hrange

/-- A byte gives the characters it completes, and the decoder goes on from where it is then. -/
theorem decodeFrom_cons (pending : Pending) (b : UInt8) (bs : List UInt8) :
    decodeFrom pending (b :: bs) = (step pending b).1 ++ decodeFrom (step pending b).2 bs := by
  cases pending <;> rfl

/-! ## One character

The four lengths that a character can be encoded with, and what the decoder makes of each. -/

variable {c : Char}

/-- Characters up to `7F` have one byte. -/
theorem encodeChar_one (h : c.toNat ≤ 0x7F) :
    String.utf8EncodeChar c = [UInt8.ofNat c.toNat] := if_pos h

/-- Characters up to `7FF` have two, of five and six bits. -/
theorem encodeChar_two (h : 0x7F < c.toNat) (h' : c.toNat ≤ 0x7FF) :
    String.utf8EncodeChar c =
      [UInt8.ofNat (c.toNat / 64 % 0x20 + 0xC0), UInt8.ofNat (c.toNat % 0x40 + 0x80)] :=
  (if_neg (Nat.not_le.mpr h)).trans (if_pos h')

/-- Characters up to `FFFF` have three, of four, six and six bits. -/
theorem encodeChar_three (h : 0x7FF < c.toNat) (h' : c.toNat ≤ 0xFFFF) :
    String.utf8EncodeChar c =
      [UInt8.ofNat (c.toNat / 4096 % 0x10 + 0xE0), UInt8.ofNat (c.toNat / 64 % 0x40 + 0x80),
        UInt8.ofNat (c.toNat % 0x40 + 0x80)] := by
  have h₁ : ¬ c.toNat ≤ 0x7F := by omega
  exact (if_neg h₁).trans ((if_neg (Nat.not_le.mpr h)).trans (if_pos h'))

/-- All others have four, of three bits and three times six. -/
theorem encodeChar_four (h : 0xFFFF < c.toNat) :
    String.utf8EncodeChar c =
      [UInt8.ofNat (c.toNat / 262144 % 0x08 + 0xF0), UInt8.ofNat (c.toNat / 4096 % 0x40 + 0x80),
        UInt8.ofNat (c.toNat / 64 % 0x40 + 0x80), UInt8.ofNat (c.toNat % 0x40 + 0x80)] := by
  have h₁ : ¬ c.toNat ≤ 0x7F := by omega
  have h₂ : ¬ c.toNat ≤ 0x7FF := by omega
  exact (if_neg h₁).trans ((if_neg h₂).trans (if_neg (Nat.not_le.mpr h)))

/-- The number of a byte that is given by a number. -/
theorem toNat_byte {n : Nat} (h : n < 256) : (UInt8.ofNat n).toNat = n := by
  simp [Nat.mod_eq_of_lt h]

/-- The last byte of a character completes it. -/
theorem decodeFrom_last {bits : Nat} {low high b : UInt8} (bs : List UInt8)
    (h : low.toNat ≤ b.toNat) (h' : b.toNat ≤ high.toNat)
    (hc : bits * 64 + (b.toNat - 0x80) = c.toNat) :
    decodeFrom (.some bits 0 low high) (b :: bs) = c :: decodeFrom .none bs := by
  rw [decodeFrom_cons, step_in_range h h', hc, Char.ofNat_toNat]
  rfl

/-- A byte before the last one adds its bits. -/
theorem decodeFrom_more {bits due : Nat} {low high b : UInt8} (bs : List UInt8)
    (h : low.toNat ≤ b.toNat) (h' : b.toNat ≤ high.toNat) :
    decodeFrom (.some bits (due + 1) low high) (b :: bs) =
      decodeFrom (.some (bits * 64 + (b.toNat - 0x80)) due 0x80 0xBF) bs := by
  rw [decodeFrom_cons, step_in_range h h']
  rfl

/-- The encoding of a character is decoded to that character. -/
theorem decodeFrom_encodeChar (c : Char) (bs : List UInt8) :
    decodeFrom .none (String.utf8EncodeChar c ++ bs) = c :: decodeFrom .none bs := by
  have hvalid : c.toNat < 0xD800 ∨ (0xDFFF < c.toNat ∧ c.toNat < 0x110000) := c.valid
  have hlast : (UInt8.ofNat (c.toNat % 0x40 + 0x80)).toNat = c.toNat % 0x40 + 0x80 :=
    toNat_byte (by omega)
  have hmiddle : (UInt8.ofNat (c.toNat / 64 % 0x40 + 0x80)).toNat = c.toNat / 64 % 0x40 + 0x80 :=
    toNat_byte (by omega)
  have h80 : (0x80 : UInt8).toNat = 0x80 := rfl
  have hBF : (0xBF : UInt8).toNat = 0xBF := rfl
  rcases Nat.lt_or_ge 0x7F c.toNat with h₁ | h₁
  · rcases Nat.lt_or_ge 0x7FF c.toNat with h₂ | h₂
    · rcases Nat.lt_or_ge 0xFFFF c.toNat with h₃ | h₃
      · have hfirst : (UInt8.ofNat (c.toNat / 262144 % 0x08 + 0xF0)).toNat =
            c.toNat / 262144 % 0x08 + 0xF0 := toNat_byte (by omega)
        have hsecond : (UInt8.ofNat (c.toNat / 4096 % 0x40 + 0x80)).toNat =
            c.toNat / 4096 % 0x40 + 0x80 := toNat_byte (by omega)
        rw [encodeChar_four h₃]
        simp only [List.cons_append, List.nil_append]
        rw [decodeFrom_cons, step, lead_four (by omega) (by omega), hfirst, List.nil_append,
          decodeFrom_more _ ?_ ?_, decodeFrom_more _ (by omega) (by omega)]
        · exact decodeFrom_last bs (by omega) (by omega) (by omega)
        · split
          · have h90 : (0x90 : UInt8).toNat = 0x90 := rfl
            omega
          · omega
        · split
          · have h8F : (0x8F : UInt8).toNat = 0x8F := rfl
            omega
          · omega
      · have hfirst : (UInt8.ofNat (c.toNat / 4096 % 0x10 + 0xE0)).toNat =
            c.toNat / 4096 % 0x10 + 0xE0 := toNat_byte (by omega)
        rw [encodeChar_three h₂ h₃]
        simp only [List.cons_append, List.nil_append]
        rw [decodeFrom_cons, step, lead_three (by omega) (by omega), hfirst, List.nil_append,
          decodeFrom_more _ ?_ ?_]
        · exact decodeFrom_last bs (by omega) (by omega) (by omega)
        · split
          · have hA0 : (0xA0 : UInt8).toNat = 0xA0 := rfl
            omega
          · omega
        · split
          · have h9F : (0x9F : UInt8).toNat = 0x9F := rfl
            omega
          · omega
    · have hfirst : (UInt8.ofNat (c.toNat / 64 % 0x20 + 0xC0)).toNat =
          c.toNat / 64 % 0x20 + 0xC0 := toNat_byte (by omega)
      rw [encodeChar_two h₁ h₂]
      simp only [List.cons_append, List.nil_append]
      rw [decodeFrom_cons, step, lead_two (by omega) (by omega), hfirst]
      exact decodeFrom_last bs (by omega) (by omega) (by omega)
  · have hb : (UInt8.ofNat c.toNat).toNat = c.toNat := toNat_byte (by omega)
    rw [encodeChar_one h₁, List.singleton_append, decodeFrom_cons, step, lead_ascii (by omega),
      hb, Char.ofNat_toNat]
    rfl

/-- Encoded text is decoded to itself. -/
theorem decode_encode (cs : List Char) : decode (encode cs) = cs := by
  rw [decode]
  induction cs with
  | nil => rfl
  | cons c cs ih =>
    show decodeFrom .none (String.utf8EncodeChar c ++ encode cs) = c :: cs
    rw [decodeFrom_encodeChar, ih]

/-! ## Quotes -/

/-- Bytes beyond the first half are not the byte of a quote. -/
theorem ne_quote_of_le {n : Nat} (h : 0x80 ≤ n) (h' : n < 256) : UInt8.ofNat n ≠ Byte.quote := by
  intro heq
  have hn := toNat_byte h'
  rw [heq] at hn
  have hq : Byte.quote.toNat = 0x22 := rfl
  omega

/-- Only a quote is encoded with the byte of a quote. -/
theorem quote_not_mem_encodeChar (h : c ≠ '"') : Byte.quote ∉ String.utf8EncodeChar c := by
  rcases Nat.lt_or_ge 0x7F c.toNat with h₁ | h₁
  · rcases Nat.lt_or_ge 0x7FF c.toNat with h₂ | h₂
    · rcases Nat.lt_or_ge 0xFFFF c.toNat with h₃ | h₃
      · rw [encodeChar_four h₃]
        simp only [List.mem_cons, List.not_mem_nil, or_false, not_or]
        exact ⟨(ne_quote_of_le (by omega) (by omega)).symm,
          (ne_quote_of_le (by omega) (by omega)).symm,
          (ne_quote_of_le (by omega) (by omega)).symm,
          (ne_quote_of_le (by omega) (by omega)).symm⟩
      · rw [encodeChar_three h₂ h₃]
        simp only [List.mem_cons, List.not_mem_nil, or_false, not_or]
        exact ⟨(ne_quote_of_le (by omega) (by omega)).symm,
          (ne_quote_of_le (by omega) (by omega)).symm,
          (ne_quote_of_le (by omega) (by omega)).symm⟩
    · rw [encodeChar_two h₁ h₂]
      simp only [List.mem_cons, List.not_mem_nil, or_false, not_or]
      exact ⟨(ne_quote_of_le (by omega) (by omega)).symm,
        (ne_quote_of_le (by omega) (by omega)).symm⟩
  · rw [encodeChar_one h₁, List.mem_singleton]
    intro heq
    have hn := toNat_byte (n := c.toNat) (by omega)
    rw [← heq] at hn
    apply h
    rw [← Char.ofNat_toNat c, ← hn]
    rfl

/-- Text without a quote is encoded without one. -/
theorem quote_not_mem_encode {cs : List Char} (h : '"' ∉ cs) : Byte.quote ∉ encode cs := by
  intro hmem
  obtain ⟨c, hc, hb⟩ := List.mem_flatMap.mp hmem
  refine quote_not_mem_encodeChar ?_ hb
  rintro rfl
  exact h hc

/-- The least number that bits can come to if those of `due` further bytes are appended. -/
def least (bits : Nat) : Nat → Nat
  | 0 => bits
  | due + 1 => least (bits * 64) due

/-- More bits make a greater number, whatever follows. -/
theorem least_mono {bits bits' : Nat} (h : bits ≤ bits') (due : Nat) :
    least bits due ≤ least bits' due := by
  induction due generalizing bits bits' with
  | zero => exact h
  | succ due ih => exact ih (Nat.mul_le_mul_right 64 h)

/-- A character that has been begun will not be one of the first half. -/
def Pending.Beyond : Pending → Prop
  | .none => True
  | .some bits due low _ =>
    0x80 ≤ low.toNat ∧ 0x80 ≤ least (bits * 64 + (low.toNat - 0x80)) due

/-- The character for what cannot be read is no quote. -/
theorem replacement_ne_quote : replacement ≠ '"' := by decide

/-- Only its own number gives a quote. -/
theorem ofNat_ne_quote {n : Nat} (h : n ≠ 0x22) : Char.ofNat n ≠ '"' := by
  intro heq
  by_cases hvalid : n.isValidChar
  · have hn : (Char.ofNat n).toNat = n := by
      rw [Char.ofNat, dif_pos hvalid]
      rfl
    exact h (by rw [← hn, heq]; rfl)
  · rw [Char.ofNat, dif_neg hvalid] at heq
    exact absurd heq (by decide)

/-- A byte that begins a character does not give a quote, unless it is one. -/
theorem lead_beyond (h : b ≠ Byte.quote) : '"' ∉ (lead b).1 ∧ (lead b).2.Beyond := by
  have hne : b.toNat ≠ 0x22 := fun heq => h (UInt8.toNat_inj.mp heq)
  have h80 : (0x80 : UInt8).toNat = 0x80 := rfl
  rcases Nat.lt_or_ge b.toNat 0xC2 with hC2 | hC2
  · rw [lead]
    split
    · exact ⟨by simpa using (ofNat_ne_quote hne).symm, trivial⟩
    · rw [if_pos (UInt8.lt_iff_toNat_lt.mpr hC2)]
      exact ⟨by simpa using replacement_ne_quote.symm, trivial⟩
  · rcases Nat.lt_or_ge b.toNat 0xE0 with hE0 | hE0
    · rw [lead_two hC2 hE0]
      refine ⟨List.not_mem_nil, by omega, ?_⟩
      rw [least]
      omega
    · rcases Nat.lt_or_ge b.toNat 0xF0 with hF0 | hF0
      · rw [lead_three hE0 hF0]
        have hA0 : (0xA0 : UInt8).toNat = 0xA0 := rfl
        refine ⟨List.not_mem_nil, by split <;> omega, ?_⟩
        rw [least, least]
        split <;> omega
      · rcases Nat.lt_or_ge b.toNat 0xF5 with hF5 | hF5
        · rw [lead_four hF0 hF5]
          have h90 : (0x90 : UInt8).toNat = 0x90 := rfl
          refine ⟨List.not_mem_nil, by split <;> omega, ?_⟩
          rw [least, least, least]
          split <;> omega
        · have hnot : ∀ n : UInt8, n.toNat ≤ 0xF5 → ¬ b < n := by
            intro n hn hlt
            have := UInt8.lt_iff_toNat_lt.mp hlt
            omega
          rw [lead, if_neg (hnot _ (by decide)), if_neg (hnot _ (by decide)),
            if_neg (hnot _ (by decide)), if_neg (hnot _ (by decide)), if_neg (hnot _ (by decide))]
          exact ⟨by simpa using replacement_ne_quote.symm, trivial⟩

/-- A byte does not give a quote, unless it is one. -/
theorem step_beyond {pending : Pending} (hp : pending.Beyond) (h : b ≠ Byte.quote) :
    '"' ∉ (step pending b).1 ∧ (step pending b).2.Beyond := by
  cases pending with
  | none => exact lead_beyond h
  | some bits due low high =>
    obtain ⟨hlow, hbits⟩ := hp
    rw [step]
    split
    · rename_i hrange
      have hlb : low.toNat ≤ b.toNat := by
        simp only [Bool.and_eq_true, decide_eq_true_eq, UInt8.le_iff_toNat_le] at hrange
        exact hrange.1
      have h80 : (0x80 : UInt8).toNat = 0x80 := rfl
      have hmono : bits * 64 + (low.toNat - 0x80) ≤ bits * 64 + (b.toNat - 0x80) := by omega
      cases due with
      | zero =>
        rw [least] at hbits
        refine ⟨?_, trivial⟩
        rw [List.mem_singleton]
        exact (ofNat_ne_quote (by omega)).symm
      | succ due =>
        have hnext := Nat.le_trans hbits (least_mono hmono (due + 1))
        refine ⟨List.not_mem_nil, Nat.le_refl _, ?_⟩
        simpa only [least, h80, Nat.sub_self, Nat.add_zero] using hnext
    · obtain ⟨hq, hb⟩ := lead_beyond h
      refine ⟨?_, hb⟩
      simp only [List.mem_cons, not_or]
      exact ⟨replacement_ne_quote.symm, hq⟩

/-- Bytes without a quote are decoded to text without one. -/
theorem quote_not_mem_decodeFrom {pending : Pending} {bs : List UInt8} (hp : pending.Beyond)
    (h : Byte.quote ∉ bs) : '"' ∉ decodeFrom pending bs := by
  induction bs generalizing pending with
  | nil => cases pending <;> simp [decodeFrom, replacement]
  | cons b bs ih =>
    rw [List.mem_cons, not_or] at h
    obtain ⟨hq, hb⟩ := step_beyond hp (Ne.symm h.1)
    rw [decodeFrom_cons, List.mem_append, not_or]
    exact ⟨hq, ih hb h.2⟩

/-- Bytes without a quote are read as characters without one. -/
theorem quote_not_mem_decode {bs : List UInt8} (h : Byte.quote ∉ bs) : '"' ∉ decode bs :=
  quote_not_mem_decodeFrom trivial h

end Midl.Utf8
