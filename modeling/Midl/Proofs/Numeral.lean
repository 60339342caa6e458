import Mathlib.Data.List.Forall2
import Mathlib.Data.Nat.Digits.Defs
import Mathlib.Tactic.Ring
import Midl.Proofs.Literal

/-!
# What integer literals mean

The meaning of a literal, said without regard to how it is read. A numeral is a sequence of digits
and means the number with these digits; signs may come before it, and the mark of a hexadecimal
number between two of them. `Magnitude` collects which numbers are meant by what is left of a
literal once the letters after it and one dash before it are gone, and where the limits are: a
pattern of 32 bits, and 64 bits with a sign. Each part of the reader is shown to find exactly the
numbers that its part of the grammar gives (`magnitude?_eq_some_iff`), and from this it follows what
is made of any text (`read_exact`).
-/

namespace Midl.Integer

/-! ## Digits -/

/-- A character is the digit of a value in a base. Letters count in either case. -/
def IsDigit (base : Nat) (c : Char) (d : Nat) : Prop :=
  d < base ∧ (c = Nat.digitChar d ∨ c = (Nat.digitChar d).toUpper)

instance (base : Nat) (c : Char) (d : Nat) : Decidable (IsDigit base c d) :=
  inferInstanceAs (Decidable (_ ∧ _))

/-- Digits, the highest first and at least one of them, that spell a number. -/
def Numeral (base : Nat) (cs : List Char) (n : Nat) : Prop :=
  cs ≠ [] ∧ ∃ ds, List.Forall₂ (IsDigit base) cs ds ∧ Nat.ofDigits base ds.reverse = n

variable {base : Nat} {c : Char} {cs : List Char}

/-- The digits of a base are the first of the sixteen. -/
theorem digit?_eq_filter (hbase : base ≤ 16) (c : Char) :
    digit? base c = (digit? 16 c).filter (· < base) := by
  have hboth : (fun d => decide (d < 16) && decide (d < base)) = fun d => decide (d < base) := by
    funext d
    by_cases hd : d < base
    · have hd' : d < 16 := by omega
      simp [hd, hd']
    · simp [hd]
  unfold digit?
  rw [Option.filter_filter, hboth]

/-- Only the characters of ASCII are digits. -/
theorem toNat_lt_of_digit? {d : Nat} (h : digit? base c = some d) : c.toNat < 128 := by
  have hle : ∀ low high : Char, (decide (low ≤ c) && decide (c ≤ high)) = true →
      high.toNat < 128 → c.toNat < 128 := by
    intro low high hrange hhigh
    obtain ⟨-, hc⟩ := Bool.and_eq_true_iff.mp hrange
    have hc' : c.toNat ≤ high.toNat := of_decide_eq_true hc
    omega
  unfold digit? at h
  obtain ⟨hvalue, -⟩ := Option.filter_eq_some_iff.mp h
  split at hvalue
  · exact hle '0' '9' ‹_› (by decide)
  · split at hvalue
    · exact hle 'a' 'f' ‹_› (by decide)
    · split at hvalue
      · exact hle 'A' 'F' ‹_› (by decide)
      · cases hvalue

/-- A character has a value as a digit exactly if it is one. -/
theorem digit?_eq_some_iff (hbase : base ≤ 16) {d : Nat} :
    digit? base c = some d ↔ IsDigit base c d := by
  have hread : ∀ d < 16, digit? 16 (Nat.digitChar d) = some d ∧
      digit? 16 (Nat.digitChar d).toUpper = some d := by decide
  have hspelled : ∀ n < 128, ∀ d ∈ digit? 16 (Char.ofNat n), IsDigit 16 (Char.ofNat n) d := by
    decide
  rw [digit?_eq_filter hbase, Option.filter_eq_some_iff, decide_eq_true_eq]
  constructor
  · rintro ⟨hd, hlt⟩
    have hspelled := hspelled c.toNat (toNat_lt_of_digit? hd)
    rw [Char.ofNat_toNat] at hspelled
    exact ⟨hlt, (hspelled d hd).2⟩
  · rintro ⟨hlt, hc⟩
    obtain ⟨hlower, hupper⟩ := hread d (by omega)
    refine ⟨?_, hlt⟩
    rcases hc with rfl | rfl
    · exact hlower
    · exact hupper

/-- Digits after others are worth what the others are worth with these digits after them. -/
theorem digitsFrom?_eq_some_iff (hbase : base ≤ 16) {value n : Nat} :
    digitsFrom? base value cs = some n ↔
      ∃ ds, List.Forall₂ (IsDigit base) cs ds ∧ Nat.ofDigits base (ds.reverse ++ [value]) = n := by
  induction cs generalizing value with
  | nil => simp [digitsFrom?]
  | cons c cs ih =>
    have hstep : ∀ (ds : List Nat) (d : Nat),
        Nat.ofDigits base (ds.reverse ++ [value * base + d]) =
          Nat.ofDigits base ((d :: ds).reverse ++ [value]) := by
      intro ds d
      simp only [List.reverse_cons, Nat.ofDigits_append, Nat.ofDigits_singleton, List.length_append,
        List.length_reverse, List.length_singleton]
      ring
    rw [digitsFrom?]
    constructor
    · intro h
      obtain ⟨d, hd, h⟩ := Option.bind_eq_some_iff.mp h
      obtain ⟨ds, hds, hn⟩ := ih.mp h
      exact ⟨d :: ds, .cons ((digit?_eq_some_iff hbase).mp hd) hds, by rw [← hstep, hn]⟩
    · rintro ⟨_, hds, hn⟩
      obtain ⟨d, ds, hd, hrest, rfl⟩ := List.forall₂_cons_left_iff.mp hds
      exact Option.bind_eq_some_iff.mpr
        ⟨d, (digit?_eq_some_iff hbase).mpr hd, ih.mpr ⟨ds, hrest, by rw [hstep, hn]⟩⟩

/-- Digits have a value exactly if they are a numeral of it. -/
theorem digits?_eq_some_iff (hbase : base ≤ 16) {n : Nat} :
    digits? base cs = some n ↔ Numeral base cs n := by
  unfold digits? Numeral
  split
  · rename_i hempty
    simp_all
  · rename_i hempty
    simp only [digitsFrom?_eq_some_iff hbase, Nat.ofDigits_append_zero]
    simp_all

/-- Only digits are in a numeral. -/
theorem Numeral.not_mem {n : Nat} (h : Numeral base cs n) (hbase : base ≤ 16) {x : Char}
    (hx : digit? 16 x = none) : x ∉ cs := by
  obtain ⟨-, ds, hds, -⟩ := h
  induction hds with
  | nil => exact List.not_mem_nil
  | cons hc _ ih =>
    intro hmem
    rcases List.mem_cons.mp hmem with rfl | hmem
    · rw [← digit?_eq_some_iff hbase, digit?_eq_filter hbase, hx] at hc
      cases hc
    · exact ih hmem

/-- A numeral begins with a digit. -/
theorem Numeral.head_ne {n : Nat} (hbase : base ≤ 16) {x : Char} (hx : digit? 16 x = none) :
    ¬Numeral base (x :: cs) n :=
  fun h => h.not_mem hbase hx List.mem_cons_self

/-- The digits of a number are a numeral for it. -/
theorem numeral_toDigits (hbase : 1 < base) (n : Nat) : Numeral base (Nat.toDigits base n) n := by
  induction n using Nat.strongRecOn with
  | ind n ih =>
    rw [Nat.toDigits_eq_if hbase]
    split
    · rename_i hn
      exact ⟨by simp, [n], .cons ⟨hn, .inl rfl⟩ .nil, by simp⟩
    · rename_i hn
      obtain ⟨-, ds, hds, hvalue⟩ := ih (n / base) (Nat.div_lt_self (by omega) hbase)
      have hlast : IsDigit base (Nat.digitChar (n % base)) (n % base) :=
        ⟨Nat.mod_lt n (by omega), .inl rfl⟩
      refine ⟨by simp, ds ++ [n % base], List.rel_append hds (.cons hlast .nil), ?_⟩
      rw [List.reverse_append, List.reverse_singleton, List.singleton_append, Nat.ofDigits_cons,
        hvalue, Nat.mod_add_div]

/-! ## Signs -/

/-- A numeral with an optional plus before it. -/
inductive Unsigned (base : Nat) : List Char → Nat → Prop
  | bare {cs : List Char} {n : Nat} (h : Numeral base cs n) : Unsigned base cs n
  | plus {cs : List Char} {n : Nat} (h : Numeral base cs n) : Unsigned base ('+' :: cs) n

/-- A numeral with an optional sign before it. -/
inductive Signed (base : Nat) : List Char → Int → Prop
  | unsigned {cs : List Char} {n : Nat} (h : Unsigned base cs n) : Signed base cs n
  | minus {cs : List Char} {n : Nat} (h : Numeral base cs n) : Signed base ('-' :: cs) (-n)

/-- So they do with an optional plus. -/
theorem unsigned?_eq_some_iff (hbase : base ≤ 16) {n : Nat} :
    unsigned? base cs = some n ↔ Unsigned base cs n := by
  unfold unsigned?
  split
  · rw [digits?_eq_some_iff hbase]
    constructor
    · exact .plus
    · rintro (h | h)
      · exact absurd h (Numeral.head_ne hbase (by decide))
      · exact h
  · rename_i hplus
    rw [digits?_eq_some_iff hbase]
    constructor
    · exact .bare
    · rintro (h | h)
      · exact h
      · exact absurd rfl (hplus _)

/-- A dash makes a number negative. -/
theorem signed?_minus (base : Nat) (cs : List Char) :
    signed? base ('-' :: cs) = (digits? base cs).map fun n : Nat => -(n : Int) := by
  rw [signed?]
  cases digits? base cs <;> rfl

/-- Without a dash a number is unsigned. -/
theorem signed?_of_head_ne (base : Nat) (h : ∀ rest, cs ≠ '-' :: rest) :
    signed? base cs = (unsigned? base cs).map fun n : Nat => (n : Int) := by
  unfold signed?
  split
  · exact absurd rfl (h _)
  · cases unsigned? base cs <;> rfl

/-- Digits with an optional sign have the value they denote. -/
theorem signed?_eq_some_iff (hbase : base ≤ 16) {n : Int} :
    signed? base cs = some n ↔ Signed base cs n := by
  by_cases hminus : ∃ rest, cs = '-' :: rest
  · obtain ⟨rest, rfl⟩ := hminus
    rw [signed?_minus, Option.map_eq_some_iff]
    constructor
    · rintro ⟨m, hm, rfl⟩
      exact .minus ((digits?_eq_some_iff hbase).mp hm)
    · intro h
      cases h with
      | unsigned h =>
        rcases h with h | h
        exact absurd h (Numeral.head_ne hbase (by decide))
      | minus h => exact ⟨_, (digits?_eq_some_iff hbase).mpr h, rfl⟩
  · rw [not_exists] at hminus
    rw [signed?_of_head_ne base hminus, Option.map_eq_some_iff]
    constructor
    · rintro ⟨m, hm, rfl⟩
      exact .unsigned ((unsigned?_eq_some_iff hbase).mp hm)
    · intro h
      cases h with
      | unsigned h => exact ⟨_, (unsigned?_eq_some_iff hbase).mpr h, rfl⟩
      | minus h => exact absurd rfl (hminus _)

/-! ## Limits -/

/-- What hexadecimal digits mean, with their sign. A number of 32 bits without a minus is a pattern,
of which the highest bit is the sign. -/
inductive HexValue (cs : List Char) : Int → Prop
  | low {m : Nat} (h : Unsigned 16 cs m) (hlow : m < 0x80000000) : HexValue cs m
  | high {m : Nat} (h : Unsigned 16 cs m) (hlow : 0x80000000 ≤ m) (hhigh : m < 0x100000000) :
      HexValue cs (m - 0x100000000)
  | wide {n : Int} (h : Signed 16 cs n) (hwide : ∀ m, Unsigned 16 cs m → 0x100000000 ≤ m)
      (hlow : -0x8000000000000000 ≤ n) (hhigh : n < 0x8000000000000000) : HexValue cs n

/-- What comes after the mark of a hexadecimal number. -/
inductive HexMarked : List Char → List Char → Prop
  | lower (cs : List Char) : HexMarked ('0' :: 'x' :: cs) cs
  | upper (cs : List Char) : HexMarked ('0' :: 'X' :: cs) cs

/-- What is left of a literal, without the letters after it and a dash before it, means a
number. -/
inductive Magnitude (d : List Char) : Int → Prop
  | hexadecimal {cs : List Char} {n : Int} (hmark : HexMarked d cs) (h : HexValue cs n) :
      Magnitude d n
  | decimal {n : Int} (hmark : ∀ cs, ¬HexMarked d cs) (h : Signed 10 d n)
      (hlow : -0x8000000000000000 ≤ n) (hhigh : n < 0x8000000000000000) : Magnitude d n

/-- An integer fits in 64 bits exactly if it is the value of some pattern. -/
theorem narrow?_eq_some_iff {n : Int} {v : Int64} : narrow? n = some v ↔ v.toInt = n := by
  constructor
  · intro h
    unfold narrow? at h
    split at h
    · rename_i hfits
      obtain rfl := Option.some.inj h
      obtain ⟨hlow, hhigh⟩ := Bool.and_eq_true_iff.mp hfits
      have hmin : Int64.minValue.toInt = -0x8000000000000000 := by decide
      have hmax : Int64.maxValue.toInt = 0x7FFFFFFFFFFFFFFF := by decide
      rw [decide_eq_true_eq, hmin] at hlow
      rw [decide_eq_true_eq, hmax] at hhigh
      exact Int64.toInt_ofInt_of_le hlow (by omega)
    · cases h
  · rintro rfl
    exact narrow?_toInt v

/-- The highest bit of a pattern is its sign. -/
theorem toInt_ofPattern {m : Nat} (h : m < 0x100000000) :
    (ofPattern m).toInt = if m < 0x80000000 then (m : Int) else m - 0x100000000 := by
  rw [ofPattern, Int32.toInt_toInt64, Int32.toInt_ofNat']
  show (m : Int).bmod 0x100000000 = _
  rw [Int.bmod_def]
  split <;> split <;> omega

/-- Hexadecimal digits of up to 32 bits are a pattern. -/
theorem hex?_of_pattern {m : Nat} (h : Unsigned 16 cs m) (hm : m < 0x100000000) :
    hex? cs = some (ofPattern m) := by
  unfold hex?
  rw [(unsigned?_eq_some_iff (Nat.le_refl _)).mpr h]
  exact if_pos hm

/-- All others are read as a signed number. -/
theorem hex?_of_wide (hwide : ∀ m, Unsigned 16 cs m → 0x100000000 ≤ m) :
    hex? cs = (signed? 16 cs).bind narrow? := by
  unfold hex?
  cases hread : unsigned? 16 cs with
  | none => rfl
  | some m =>
    have hm := (unsigned?_eq_some_iff (Nat.le_refl _)).mp hread
    rw [(signed?_eq_some_iff (Nat.le_refl _)).mpr (.unsigned hm)]
    exact if_neg (Nat.not_lt.mpr (hwide m hm))

/-- Digits denote one number only. -/
theorem Unsigned.unique {m m' : Nat} (hbase : base ≤ 16) (h : Unsigned base cs m)
    (h' : Unsigned base cs m') : m = m' := by
  rw [← unsigned?_eq_some_iff hbase] at h h'
  exact Option.some.inj (h.symm.trans h')

/-- A signed number has a value in 64 bits exactly if it fits. -/
theorem bind_narrow?_eq_some_iff (hbase : base ≤ 16) {v : Int64} :
    (signed? base cs).bind narrow? = some v ↔ Signed base cs v.toInt := by
  rw [Option.bind_eq_some_iff]
  constructor
  · rintro ⟨n, hn, hv⟩
    rw [narrow?_eq_some_iff.mp hv]
    exact (signed?_eq_some_iff hbase).mp hn
  · intro h
    exact ⟨v.toInt, (signed?_eq_some_iff hbase).mpr h, narrow?_toInt v⟩

/-- Hexadecimal digits have the value they denote. -/
theorem hex?_eq_some_iff {v : Int64} : hex? cs = some v ↔ HexValue cs v.toInt := by
  by_cases hpattern : ∃ m, Unsigned 16 cs m ∧ m < 0x100000000
  · obtain ⟨m, h, hm⟩ := hpattern
    rw [hex?_of_pattern h hm, Option.some_inj, ← Int64.toInt_inj, toInt_ofPattern hm]
    constructor
    · intro hv
      rw [← hv]
      split
      · exact .low h ‹_›
      · exact .high h (by omega) hm
    · intro hvalue
      generalize v.toInt = n at hvalue
      cases hvalue with
      | low h' hlow =>
        obtain rfl := h.unique (Nat.le_refl _) h'
        rw [if_pos hlow]
      | high h' hlow =>
        obtain rfl := h.unique (Nat.le_refl _) h'
        rw [if_neg (by omega)]
      | wide _ hwide => exact absurd (hwide m h) (by omega)
  · have hwide : ∀ m, Unsigned 16 cs m → 0x100000000 ≤ m := by
      intro m h
      by_contra hm
      exact hpattern ⟨m, h, by omega⟩
    rw [hex?_of_wide hwide, bind_narrow?_eq_some_iff (Nat.le_refl _)]
    constructor
    · exact fun h => .wide h hwide v.le_toInt v.toInt_lt
    · intro hvalue
      generalize v.toInt = n at hvalue
      cases hvalue with
      | low h hlow => exact absurd ⟨_, h, by omega⟩ hpattern
      | high h _ hhigh => exact absurd ⟨_, h, hhigh⟩ hpattern
      | wide h => exact h

/-- After its mark a literal is hexadecimal. -/
theorem HexMarked.magnitude?_eq {d : List Char} (h : HexMarked d cs) : magnitude? d = hex? cs := by
  cases h <;> rfl

/-- Without the mark it is decimal. -/
theorem magnitude?_of_not_hexMarked {d : List Char} (h : ∀ cs, ¬HexMarked d cs) :
    magnitude? d = (signed? 10 d).bind narrow? := by
  unfold magnitude?
  split
  · exact absurd (.lower _) (h _)
  · exact absurd (.upper _) (h _)
  · rfl

/-- A magnitude has the value it denotes. -/
theorem magnitude?_eq_some_iff {d : List Char} {v : Int64} :
    magnitude? d = some v ↔ Magnitude d v.toInt := by
  by_cases hmark : ∃ cs, HexMarked d cs
  · obtain ⟨cs, hmark⟩ := hmark
    rw [hmark.magnitude?_eq, hex?_eq_some_iff]
    constructor
    · exact .hexadecimal hmark
    · intro h
      cases h with
      | hexadecimal hmark' h =>
        have hcs := hmark.magnitude?_eq.symm.trans hmark'.magnitude?_eq
        rwa [← hex?_eq_some_iff, hcs, hex?_eq_some_iff]
      | decimal hmark' => exact absurd hmark (hmark' cs)
  · rw [not_exists] at hmark
    rw [magnitude?_of_not_hexMarked hmark, bind_narrow?_eq_some_iff (by decide)]
    constructor
    · exact fun h => .decimal hmark h v.le_toInt v.toInt_lt
    · intro h
      cases h with
      | hexadecimal hmark' => exact absurd hmark' (hmark _)
      | decimal _ h => exact h

/-- A number that is meant is one of 64 bits. -/
theorem Magnitude.exists_toInt {d : List Char} {n : Int} (h : Magnitude d n) :
    ∃ v : Int64, v.toInt = n := by
  have hbounds : -0x8000000000000000 ≤ n ∧ n < 0x8000000000000000 := by
    cases h with
    | hexadecimal _ h =>
      cases h with
      | low _ hlow => omega
      | high _ hlow hhigh => omega
      | wide _ _ hlow hhigh => exact ⟨hlow, hhigh⟩
    | decimal _ _ hlow hhigh => exact ⟨hlow, hhigh⟩
  exact ⟨Int64.ofInt n, Int64.toInt_ofInt_of_le hbounds.1 hbounds.2⟩

/-! ## Leading zeros -/

/-- A digit below ten is written in one way. -/
theorem eq_digitChar_of_isDigit {d : Nat} (h : IsDigit base c d) (hd : d < 10) :
    c = Nat.digitChar d := by
  have hupper : ∀ d < 10, (Nat.digitChar d).toUpper = Nat.digitChar d := by decide
  rcases h.2 with rfl | rfl
  · rfl
  · exact hupper d hd

/-- So are digits that are all below ten. -/
theorem eq_map_digitChar {ds : List Nat} (h : List.Forall₂ (IsDigit base) cs ds)
    (hds : ∀ d ∈ ds, d < 10) : cs = ds.map Nat.digitChar := by
  induction h with
  | nil => rfl
  | cons hc _ ih =>
    obtain ⟨hd, hds⟩ := List.forall_mem_cons.mp hds
    rw [List.map_cons, ← eq_digitChar_of_isDigit hc hd, ← ih hds]

/-- Digits are below the base. -/
theorem lt_of_isDigits {ds : List Nat} (h : List.Forall₂ (IsDigit base) cs ds) :
    ∀ d ∈ ds, d < base := by
  induction h with
  | nil => simp
  | cons hc _ ih => exact List.forall_mem_cons.mpr ⟨hc.1, ih⟩

/-- Numbers below the base are written as digits. -/
theorem isDigits_map_digitChar {ds : List Nat} (h : ∀ d ∈ ds, d < base) :
    List.Forall₂ (IsDigit base) (ds.map Nat.digitChar) ds := by
  rw [List.forall₂_map_left_iff, List.forall₂_same]
  exact fun d hd => ⟨h d hd, .inl rfl⟩

/-- Below the zeros that a numeral begins with, there are the digits of the number. -/
theorem exists_zeros {ds : List Nat} (hbase : 1 < base) (h : List.Forall₂ (IsDigit base) cs ds)
    (hpos : 0 < Nat.ofDigits base ds.reverse) :
    ∃ zeros rest, cs = List.replicate zeros '0' ++ rest ∧ List.Forall₂ (IsDigit base) rest
      (Nat.digits base (Nat.ofDigits base ds.reverse)).reverse := by
  induction h with
  | nil => simp at hpos
  | @cons c d cs ds hc h ih =>
    by_cases hd : d = 0
    · subst hd
      rw [Nat.ofDigits_reverse_zero_cons] at hpos ⊢
      obtain ⟨zeros, rest, rfl, hrest⟩ := ih hpos
      refine ⟨zeros + 1, rest, ?_, hrest⟩
      rw [eq_digitChar_of_isDigit hc (by decide)]
      rfl
    · refine ⟨0, c :: cs, rfl, ?_⟩
      have hlt : ∀ x ∈ (d :: ds).reverse, x < base := by
        simpa only [List.mem_reverse] using lt_of_isDigits (.cons hc h)
      rw [Nat.digits_ofDigits base hbase _ hlt (by simpa using hd), List.reverse_reverse]
      exact .cons hc h

/-- A numeral without letters is the digits of the number with zeros before them. -/
theorem numeral_iff_zeros {n : Nat} (hbase : 1 < base) (hn : 0 < n)
    (hdigits : ∀ d ∈ Nat.digits base n, d < 10) :
    Numeral base cs n ↔ ∃ zeros, cs = List.replicate zeros '0' ++
      (Nat.digits base n).reverse.map Nat.digitChar := by
  constructor
  · rintro ⟨-, ds, hds, rfl⟩
    obtain ⟨zeros, rest, rfl, hrest⟩ := exists_zeros hbase hds hn
    exact ⟨zeros, by rw [eq_map_digitChar hrest (by simpa using hdigits)]⟩
  · rintro ⟨zeros, rfl⟩
    have hlt : ∀ d ∈ List.replicate zeros 0 ++ (Nat.digits base n).reverse, d < base := by
      intro d hd
      rcases List.mem_append.mp hd with hd | hd
      · rw [List.eq_of_mem_replicate hd]
        omega
      · exact Nat.digits_lt_base hbase (List.mem_reverse.mp hd)
    have hdigits := isDigits_map_digitChar hlt
    rw [List.map_append, List.map_replicate] at hdigits
    refine ⟨?_, _, hdigits, ?_⟩
    · simp [Nat.digits_ne_nil_iff_ne_zero, Nat.ne_of_gt hn]
    · rw [List.reverse_append, List.reverse_replicate, List.reverse_reverse,
        Nat.ofDigits_append_replicate_zero, Nat.ofDigits_digits]

/-- Texts of the least integer of 64 bits, which has no negative. -/
inductive Least : List Char → Prop
  | decimal (zeros : Nat) :
      Least ('-' :: (List.replicate zeros '0' ++ "9223372036854775808".toList))
  | hexadecimal {d : List Char} (zeros : Nat) (hmark : HexMarked d
      ('-' :: (List.replicate zeros '0' ++ "8000000000000000".toList))) : Least d

/-- The least integer is spelled in decimal digits in one way, but for zeros. -/
theorem numeral_ten_least {cs : List Char} : Numeral 10 cs 0x8000000000000000 ↔
    ∃ zeros, cs = List.replicate zeros '0' ++ "9223372036854775808".toList := by
  rw [numeral_iff_zeros (by decide) (by decide) (by decide +kernel)]
  rfl

/-- It is spelled in hexadecimal digits in one way, but for zeros. -/
theorem numeral_sixteen_least {cs : List Char} : Numeral 16 cs 0x8000000000000000 ↔
    ∃ zeros, cs = List.replicate zeros '0' ++ "8000000000000000".toList := by
  rw [numeral_iff_zeros (by decide) (by decide) (by decide +kernel)]
  rfl

/-- Only a minus makes a number negative. -/
theorem Signed.exists_minus {n : Int} (h : Signed base cs n) (hn : n < 0) :
    ∃ rest m, cs = '-' :: rest ∧ Numeral base rest m ∧ n = -m := by
  cases h with
  | unsigned h => omega
  | @minus rest m h => exact ⟨rest, m, rfl, h, rfl⟩

/-- So these are the literals whose magnitude is the least integer. -/
theorem magnitude_least_iff {d : List Char} : Magnitude d (-0x8000000000000000) ↔ Least d := by
  constructor
  · intro h
    generalize hn : (-0x8000000000000000 : Int) = n at h
    have hneg : n < 0 := by omega
    cases h with
    | hexadecimal hmark h =>
      cases h with
      | low _ _ => omega
      | high _ _ _ => omega
      | wide h =>
        obtain ⟨rest, m, rfl, hm, rfl⟩ := h.exists_minus hneg
        obtain rfl : m = 0x8000000000000000 := by omega
        obtain ⟨zeros, rfl⟩ := numeral_sixteen_least.mp hm
        exact .hexadecimal zeros hmark
    | decimal _ h =>
      obtain ⟨rest, m, rfl, hm, rfl⟩ := h.exists_minus hneg
      obtain rfl : m = 0x8000000000000000 := by omega
      obtain ⟨zeros, rfl⟩ := numeral_ten_least.mp hm
      exact .decimal zeros
  · intro h
    cases h with
    | decimal zeros =>
      exact .decimal nofun (.minus (numeral_ten_least.mpr ⟨zeros, rfl⟩)) (by decide) (by decide)
    | hexadecimal zeros hmark =>
      refine .hexadecimal hmark (.wide (.minus (numeral_sixteen_least.mpr ⟨zeros, rfl⟩)) ?_
        (by decide) (by decide))
      rintro m (h | h)
      exact absurd h (Numeral.head_ne (Nat.le_refl _) (by decide))

/-! ## Whole literals -/

/-- A dash, if there is one, and what comes after it. -/
def dashed (negative : Bool) (d : List Char) : List Char := if negative then '-' :: d else d

/-- A literal consists of a dash, if it is `negative`, of `d`, and of letters. The letters are as
many as there are, and `d` has a dash of its own only after the first. -/
structure Parted (literal : String) (negative : Bool) (d : List Char) : Prop where
  text : ∃ suffix, literal.toList = dashed negative d ++ suffix ∧
    ∀ c ∈ suffix, c ∈ ['l', 'L', 'u', 'U']
  trimmed : ∀ c ∈ (dashed negative d).getLast?, c ∉ ['l', 'L', 'u', 'U']
  undashed : negative = false → d.head? ≠ some '-'

/-- The letters that may follow a literal. -/
theorem isSuffix_iff : isSuffix c = true ↔ c ∈ ['l', 'L', 'u', 'U'] := by
  simp [isSuffix, or_assoc]

/-- Any number of these letters may follow. -/
theorem stem_append {suffix : List Char} (h : ∀ c ∈ suffix, c ∈ ['l', 'L', 'u', 'U']) :
    stem (cs ++ suffix) = stem cs := by
  rw [stem, List.reverse_append, List.dropWhile_append_of_pos, stem]
  intro c hc
  exact isSuffix_iff.mpr (h c (List.mem_reverse.mp hc))

/-- A literal is its stem and some of these letters. -/
theorem exists_stem_append (cs : List Char) :
    ∃ suffix, cs = stem cs ++ suffix ∧ ∀ c ∈ suffix, c ∈ ['l', 'L', 'u', 'U'] := by
  refine ⟨cs.rtakeWhile isSuffix, ?_, fun c hc => isSuffix_iff.mp (List.mem_rtakeWhile_imp hc)⟩
  rw [stem_eq_rdropWhile, List.rdropWhile_append_rtakeWhile]

/-- Every literal can be parted. -/
theorem exists_parted (literal : String) : ∃ negative d, Parted literal negative d := by
  have htext := exists_stem_append literal.toList
  have htrimmed : ∀ c ∈ (stem literal.toList).getLast?, c ∉ ['l', 'L', 'u', 'U'] := by
    intro c hc hmem
    obtain ⟨hne, rfl⟩ := List.mem_getLast?_eq_getLast hc
    exact List.rdropWhile_last_not isSuffix literal.toList hne (isSuffix_iff.mpr hmem)
  by_cases hdash : ∃ d, stem literal.toList = '-' :: d
  · obtain ⟨d, hd⟩ := hdash
    rw [hd] at htext htrimmed
    exact ⟨true, d, htext, htrimmed, nofun⟩
  · refine ⟨false, stem literal.toList, htext, htrimmed, fun _ hhead => ?_⟩
    exact hdash ⟨_, List.eq_cons_of_mem_head? hhead⟩

/-- The parts of a literal make its stem. -/
theorem Parted.stem_eq {literal : String} {negative : Bool} {d : List Char}
    (h : Parted literal negative d) : stem literal.toList = dashed negative d := by
  obtain ⟨suffix, htext, hsuffix⟩ := h.text
  rw [htext, stem_append hsuffix, stem_eq_rdropWhile, List.rdropWhile_eq_self_iff]
  intro hne hlast
  exact h.trimmed _ (List.getLast?_eq_some_getLast hne) (isSuffix_iff.mp hlast)

/-- The letters do not matter, and the dash negates what comes after it. -/
theorem Parted.read_eq {literal : String} {negative : Bool} {d : List Char}
    (h : Parted literal negative d) :
    read literal = if negative then (magnitude? d).mapM negate else .ok (magnitude? d) := by
  unfold read
  rw [h.stem_eq]
  cases negative with
  | true => rfl
  | false =>
    simp only [dashed, Bool.false_eq_true, if_false]
    split
    · exact absurd rfl (h.undashed rfl)
    · rfl

/-- Every integer but the least can be negated. -/
theorem exists_negate {v : Int64} (h : v.toInt ≠ -0x8000000000000000) :
    ∃ w : Int64, negate v = .ok w ∧ w.toInt = -v.toInt := by
  have hne : v ≠ Int64.minValue := by
    rintro rfl
    exact h (by decide)
  have hlow := v.le_toInt
  have hhigh := v.toInt_lt
  refine ⟨-v, if_neg hne, ?_⟩
  rw [Int64.toInt_neg, Int.bmod_eq_of_le (by omega) (by omega)]

section Parted

variable {literal : String} {negative : Bool} {d : List Char}

/-- A literal has the value of its magnitude, negated after a dash. -/
theorem Parted.read_of_magnitude (h : Parted literal negative d) {n : Int} (hn : Magnitude d n)
    (hleast : ¬(negative = true ∧ n = -0x8000000000000000)) :
    ∃ v : Int64, read literal = .ok (some v) ∧ v.toInt = if negative then -n else n := by
  obtain ⟨v, rfl⟩ := hn.exists_toInt
  rw [h.read_eq, magnitude?_eq_some_iff.mpr hn]
  cases negative with
  | false => exact ⟨v, rfl, rfl⟩
  | true =>
    obtain ⟨w, hw, hvalue⟩ := exists_negate fun hv => hleast ⟨rfl, hv⟩
    refine ⟨w, ?_, hvalue⟩
    show (some <$> negate v) = _
    rw [hw]
    rfl

/-- After a dash the least integer is a fault. -/
theorem Parted.read_of_least (h : Parted literal true d)
    (hn : Magnitude d (-0x8000000000000000)) : read literal = .error .negation := by
  have hmin : Int64.minValue.toInt = -0x8000000000000000 := by decide
  rw [h.read_eq, magnitude?_eq_some_iff.mpr (hmin ▸ hn)]
  rfl

/-- A literal without a magnitude has no value. -/
theorem Parted.read_of_none (h : Parted literal negative d) (hn : ∀ n, ¬Magnitude d n) :
    read literal = .ok none := by
  have hnone : magnitude? d = none := by
    rw [Option.eq_none_iff_forall_ne_some]
    exact fun v hv => hn v.toInt (magnitude?_eq_some_iff.mp hv)
  rw [h.read_eq, hnone]
  cases negative <;> rfl

/-- What is read is the number that is meant, or its negative after a dash. -/
theorem Parted.magnitude_of_read (h : Parted literal negative d) {v : Int64}
    (hread : read literal = .ok (some v)) :
    ∃ n, Magnitude d n ∧ v.toInt = if negative then -n else n := by
  by_cases hn : ∃ n, Magnitude d n
  · obtain ⟨n, hn⟩ := hn
    by_cases hleast : negative = true ∧ n = -0x8000000000000000
    · obtain ⟨rfl, rfl⟩ := hleast
      rw [h.read_of_least hn] at hread
      cases hread
    · obtain ⟨w, hw, hvalue⟩ := h.read_of_magnitude hn hleast
      obtain rfl : w = v := Option.some.inj (Except.ok.inj (hw.symm.trans hread))
      exact ⟨n, hn, hvalue⟩
  · rw [h.read_of_none (not_exists.mp hn)] at hread
    cases hread

/-- Reading is given up only where the least number was to be negated. -/
theorem Parted.read_eq_error_iff (h : Parted literal negative d) (fault : Fault) :
    read literal = .error fault ↔
      fault = .negation ∧ negative = true ∧ Magnitude d (-0x8000000000000000) := by
  constructor
  · intro herror
    by_cases hn : ∃ n, Magnitude d n
    · obtain ⟨n, hn⟩ := hn
      by_cases hleast : negative = true ∧ n = -0x8000000000000000
      · obtain ⟨rfl, rfl⟩ := hleast
        rw [h.read_of_least hn] at herror
        exact ⟨(Except.error.inj herror).symm, rfl, hn⟩
      · obtain ⟨v, hv, -⟩ := h.read_of_magnitude hn hleast
        rw [hv] at herror
        cases herror
    · rw [h.read_of_none (not_exists.mp hn)] at herror
      cases herror
  · rintro ⟨rfl, rfl, hn⟩
    exact h.read_of_least hn

end Parted

/-- What is made of any text, and that integers are read as they are written. A text whose number
could not be negated is the only one that is given up. -/
theorem read_exact :
    (∀ literal : String, ∃ negative d, Parted literal negative d ∧
      (∀ n, Magnitude d n → ¬(negative = true ∧ n = -0x8000000000000000) →
        ∃ v : Int64, read literal = .ok (some v) ∧ v.toInt = if negative then -n else n) ∧
      ((∀ n, ¬Magnitude d n) → read literal = .ok none) ∧
      (∀ fault, read literal = .error fault ↔
        fault = .negation ∧ negative = true ∧ Magnitude d (-0x8000000000000000)) ∧
      (Magnitude d (-0x8000000000000000) ↔ Least d)) ∧
    ∀ (n : Int) (suffix : String), -0x8000000000000000 < n → n < 0x8000000000000000 →
      (∀ c ∈ suffix.toList, c ∈ ['l', 'L', 'u', 'U']) →
      ∃ v : Int64, read (toString n ++ suffix) = .ok (some v) ∧ v.toInt = n := by
  refine ⟨fun literal => ?_, fun n suffix hlow hhigh hsuffix => ?_⟩
  · obtain ⟨negative, d, h⟩ := exists_parted literal
    exact ⟨negative, d, h, fun n => h.read_of_magnitude, h.read_of_none, h.read_eq_error_iff,
      magnitude_least_iff⟩
  · have hvalue : (Int64.ofInt n).toInt = n := Int64.toInt_ofInt_of_le (by omega) hhigh
    have hne : Int64.ofInt n ≠ Int64.minValue := by
      intro heq
      rw [heq, show Int64.minValue.toInt = -0x8000000000000000 by decide] at hvalue
      omega
    have hread := read_toString hne
    rw [hvalue] at hread
    refine ⟨Int64.ofInt n, ?_, hvalue⟩
    rw [← hread]
    unfold read
    rw [String.toList_append, stem_append hsuffix]

end Midl.Integer
