import Mathlib.Data.List.DropRight
import Midl.Integer

/-!
# Writing integers and reading them back

The decimal digits of an integer are read as that integer, the letters after a literal make no
difference to it, and a text with a space in it is no literal.
-/

namespace Midl.Integer

/-! ## The letters after a literal -/

/-- The letters are taken away from the end. -/
theorem stem_eq_rdropWhile (cs : List Char) : stem cs = cs.rdropWhile isSuffix := rfl

/-- A literal that has none of these letters is its own stem. -/
theorem stem_of_no_suffix {cs : List Char} (h : ∀ c ∈ cs, isSuffix c = false) : stem cs = cs := by
  rw [stem_eq_rdropWhile, List.rdropWhile_eq_self_iff]
  intro hne
  simp [h _ (List.getLast_mem hne)]

/-- Nothing is left to be taken away where the letters are gone. -/
theorem stem_stem (cs : List Char) : stem (stem cs) = stem cs := by
  rw [stem_eq_rdropWhile, stem_eq_rdropWhile, List.rdropWhile_idempotent]

/-- The letters after a literal do not count. -/
theorem read_stemText (literal : String) : read (stemText literal) = read literal := by
  unfold read stemText
  rw [String.toList_ofList, stem_stem]

/-- What is left of a literal is part of it. -/
theorem mem_of_mem_stem {cs : List Char} {c : Char} (h : c ∈ stem cs) : c ∈ cs := by
  rw [stem, List.mem_reverse] at h
  exact List.mem_reverse.mp ((List.dropWhile_sublist isSuffix).subset h)

/-! ## Digits -/

/-- Digits lie between zero and nine. -/
theorem bounds_of_isDigit {c : Char} (h : c.isDigit = true) : '0' ≤ c ∧ c ≤ '9' := by
  simp only [Char.isDigit, Bool.and_eq_true, decide_eq_true_eq] at h
  exact h

/-- Decimal digits are worth what they spell. -/
theorem digit?_of_isDigit {c : Char} (h : c.isDigit = true) :
    digit? 10 c = some (c.toNat - '0'.toNat) := by
  obtain ⟨hlow, hhigh⟩ := bounds_of_isDigit h
  have hnat : c.toNat ≤ 57 := hhigh
  have hsmall : c.toNat - 48 < 10 := by omega
  simp [digit?, hlow, hhigh, Option.filter, hsmall]

/-- Digits spell the number they spell in the library. -/
theorem digitsFrom?_of_isDigit {cs : List Char} (value : Nat) (h : ∀ c ∈ cs, c.isDigit = true) :
    digitsFrom? 10 value cs = some (Nat.ofDigitChars 10 cs value) := by
  induction cs generalizing value with
  | nil => rfl
  | cons c cs ih =>
    have hc := digit?_of_isDigit (h c List.mem_cons_self)
    rw [digitsFrom?, hc, Nat.ofDigitChars_cons, Nat.mul_comm 10 value]
    exact ih _ fun c hc => h c (List.mem_cons_of_mem _ hc)

/-- What is left of a literal, if it is made of decimal digits. -/
theorem magnitude?_of_isDigit {cs : List Char} (hne : cs ≠ []) (h : ∀ c ∈ cs, c.isDigit = true) :
    magnitude? cs = narrow? (Nat.ofDigitChars 10 cs 0) := by
  have hmem : ∀ {c : Char}, c.isDigit = false → c ∉ cs := by
    intro c hc hmem
    rw [h c hmem] at hc
    cases hc
  have hdigits : digits? 10 cs = some (Nat.ofDigitChars 10 cs 0) := by
    rw [digits?, if_neg (by simpa using hne), digitsFrom?_of_isDigit 0 h]
  unfold magnitude?
  split
  · exact absurd (by simp) (@hmem 'x' (by decide))
  · exact absurd (by simp) (@hmem 'X' (by decide))
  · unfold signed?
    split
    · exact absurd (by simp) (@hmem '-' (by decide))
    · unfold unsigned?
      split
      · exact absurd (by simp) (@hmem '+' (by decide))
      · rw [hdigits]
        rfl

/-! ## Integers as they are written -/

/-- A number is written as its digits, with a dash if it is negative. -/
theorem toList_toString (n : Int) :
    (toString n).toList =
      if 0 ≤ n then Nat.toDigits 10 n.toNat else '-' :: Nat.toDigits 10 (-n).toNat := by
  rw [Int.toString_eq_repr, Int.repr_eq_if]
  split
  · exact Nat.toList_repr
  · rw [String.toList_append, Nat.toList_repr]
    rfl

/-- An integer is written with digits and perhaps a dash. -/
theorem mem_toString {n : Int} {c : Char} (h : c ∈ (toString n).toList) :
    c = '-' ∨ c.isDigit = true := by
  have hdigit : ∀ {m : Nat}, c ∈ Nat.toDigits 10 m → c.isDigit = true :=
    Nat.isDigit_of_mem_toDigits (by decide) (by decide)
  rw [toList_toString] at h
  split at h
  · exact .inr (hdigit h)
  · rcases List.mem_cons.mp h with rfl | h
    · exact .inl rfl
    · exact .inr (hdigit h)

/-- There are no letters after an integer as it is written. -/
theorem stem_toString (n : Int) : stem (toString n).toList = (toString n).toList := by
  apply stem_of_no_suffix
  intro c hc
  rcases mem_toString hc with rfl | hdigit
  · decide
  · obtain ⟨-, hhigh⟩ := bounds_of_isDigit hdigit
    have hne : ∀ x : Char, '9' < x → c ≠ x := by
      rintro x hx rfl
      exact absurd hhigh (Char.not_le.mpr hx)
    simp [isSuffix, hne]

/-- A 64-bit integer fits in 64 bits. -/
theorem narrow?_toInt (n : Int64) : narrow? n.toInt = some n := by
  have hlow := n.le_toInt
  have hhigh := n.toInt_lt
  have hmin : Int64.minValue.toInt = -2 ^ 63 := by decide
  have hmax : Int64.maxValue.toInt = 2 ^ 63 - 1 := by decide
  have hfits : (decide (Int64.minValue.toInt ≤ n.toInt) &&
      decide (n.toInt ≤ Int64.maxValue.toInt)) = true := by
    rw [hmin, hmax, Bool.and_eq_true, decide_eq_true_eq, decide_eq_true_eq]
    omega
  rw [narrow?, if_pos hfits, Int64.ofInt_toInt]

/-- The digits of a number are read as the number, if it fits. -/
theorem magnitude?_toDigits (n : Nat) : magnitude? (Nat.toDigits 10 n) = narrow? n := by
  rw [magnitude?_of_isDigit Nat.toDigits_ne_nil, Nat.ofDigitChars_ten_toDigits]
  intro c hc
  exact Nat.isDigit_of_mem_toDigits (by decide) (by decide) hc

/-- An integer is read as it is written, unless it is the least. -/
theorem read_toString {n : Int64} (h : n ≠ Int64.minValue) :
    read (toString n.toInt) = .ok (some n) := by
  unfold read
  rw [stem_toString, toList_toString]
  by_cases hn : 0 ≤ n.toInt
  · rw [if_pos hn]
    split
    · rename_i cs hcs
      have hdash : '-' ∈ Nat.toDigits 10 n.toInt.toNat := by
        rw [hcs]
        exact List.mem_cons_self
      exact absurd (Nat.isDigit_of_mem_toDigits (by decide) (by decide) hdash) (by decide)
    · rw [magnitude?_toDigits, Int.toNat_of_nonneg hn, narrow?_toInt]
  · rw [if_neg hn]
    have hneg : (-n.toInt) = (-n).toInt := by
      have hmin : n.toInt ≠ -2 ^ 63 := fun heq => h (Int64.toInt_inj.mp (heq.trans (by decide)))
      have hlow := n.le_toInt
      rw [Int64.toInt_neg, Int.bmod_eq_of_le (by omega) (by omega)]
    have hnat : ((-n.toInt).toNat : Int) = (-n).toInt := by
      rw [Int.toNat_of_nonneg (by omega), hneg]
    have hne : -n ≠ Int64.minValue := by
      intro heq
      have : n.toInt = 2 ^ 63 := by
        have := congrArg Int64.toInt heq
        rw [← hneg] at this
        have hmin : Int64.minValue.toInt = -2 ^ 63 := by decide
        omega
      have := n.toInt_lt
      omega
    simp only
    rw [magnitude?_toDigits, hnat, narrow?_toInt]
    show (some <$> negate (-n)) = _
    rw [negate, if_neg hne, Int64.neg_neg]
    rfl

/-! ## What is no literal -/

section Space

variable {cs : List Char} (h : ' ' ∈ cs)

include h

/-- A space stays when the letters are taken away. -/
theorem mem_stem_of_space : ' ' ∈ stem cs := by
  rw [stem, List.mem_reverse]
  have hmem : ' ' ∈ cs.reverse.takeWhile isSuffix ++ cs.reverse.dropWhile isSuffix := by
    rw [List.takeWhile_append_dropWhile]
    exact List.mem_reverse.mpr h
  rcases List.mem_append.mp hmem with hmem | hmem
  · exact absurd (List.all_eq_true.mp List.all_takeWhile _ hmem) (by decide)
  · exact hmem

/-- Digits with a space among them spell no number. -/
theorem digits?_of_space (base : Nat) : digits? base cs = none := by
  have hfrom : ∀ value, digitsFrom? base value cs = none := by
    intro value
    induction cs generalizing value with
    | nil => cases h
    | cons c cs ih =>
      rw [digitsFrom?]
      rcases List.mem_cons.mp h with rfl | h
      · rfl
      · cases digit? base c with
        | none => rfl
        | some d => exact ih h _
  unfold digits?
  split
  · rfl
  · exact hfrom 0

/-- Nor do they with a plus before them. -/
theorem unsigned?_of_space (base : Nat) : unsigned? base cs = none := by
  unfold unsigned?
  split
  · exact digits?_of_space (by simpa using h) base
  · exact digits?_of_space h base

/-- Nor do they with any sign. -/
theorem signed?_of_space (base : Nat) : signed? base cs = none := by
  unfold signed?
  split
  · rw [digits?_of_space (by simpa using h) base]
    rfl
  · rw [unsigned?_of_space h base]
    rfl

/-- Nor do hexadecimal digits. -/
theorem hex?_of_space : hex? cs = none := by
  rw [hex?, unsigned?_of_space h 16, signed?_of_space h 16]
  rfl

/-- So a text with a space is no literal. -/
theorem magnitude?_of_space : magnitude? cs = none := by
  unfold magnitude?
  split
  · exact hex?_of_space (by simpa using h)
  · exact hex?_of_space (by simpa using h)
  · rw [signed?_of_space h 10]
    rfl

end Space

/-- A text with a space in it is no literal. -/
theorem read_of_space {literal : String} (h : ' ' ∈ literal.toList) : read literal = .ok none := by
  have hstem := mem_stem_of_space h
  unfold read
  split
  · rename_i cs hcs
    rw [hcs] at hstem
    rw [magnitude?_of_space (by simpa using hstem)]
    rfl
  · rw [magnitude?_of_space hstem]

end Midl.Integer
