import Midl.Proofs.Expression
import Midl.Proofs.Numeral

/-!
# What the written operands denote

The operands of enumerations are written with the letters they were found with, and judged by the
value they were read as. The language of the output is stricter about literals than the one they
come from: a literal is decimal or, after `0x`, hexadecimal, has no sign of its own, and lies in the
range of its type. `denoted?` is the value that it gives to a written operand, if it gives one.

An operand is written faithfully if it is left out exactly when its value does not fit in 32 bits,
and otherwise denotes that value (`Faithful`). Most literals are, but not all: `Misspelled` lists
those that are not, and `memberOperand_faithful_iff` says that the list is complete.
-/

namespace Midl.Output

open Integer

/-! ## The value of a written operand -/

/-- The number that a literal of the output stands for. -/
def number? : List Char → Option Nat
  | '0' :: 'x' :: cs => digits? 16 cs
  | cs => digits? 10 cs

/-- The value of a literal of 32 bits with a sign, with any number of minuses before it. The least
number is only written as a minus before a literal, and has no negative. -/
def signedValue? : List Char → Option (BitVec 32)
  | '-' :: cs =>
    match number? cs with
    | some m => if m ≤ 0x80000000 then some (-BitVec.ofNat 32 m) else none
    | none => (signedValue? cs).bind fun x => if x = BitVec.intMin 32 then none else some (-x)
  | cs => (number? cs).bind fun m => if m < 0x80000000 then some (BitVec.ofNat 32 m) else none

/-- The value of a literal of 32 bits without a sign. -/
def unsignedValue? (cs : List Char) : Option (BitVec 32) :=
  (number? cs).bind fun m => if m < 0x100000000 then some (BitVec.ofNat 32 m) else none

/-- The value of a written operand. -/
def denoted? (text : String) : Option (BitVec 32) :=
  match Expression.unconverted? text.toList with
  | some literal => unsignedValue? literal
  | none => signedValue? text.toList

/-- A number fits in 32 bits, with or without a sign. -/
def Fits (n : Int) : Prop := -0x80000000 ≤ n ∧ n < 0x100000000

/-- What is written for an operand of value `v` is faithful: nothing, if the value does not fit, and
otherwise something that denotes it. -/
structure Faithful (written : Option String) (v : Int64) : Prop where
  none_iff : written = none ↔ ¬Fits v.toInt
  denoted : ∀ text ∈ written, denoted? text = some (word v)

/-- The literals of value `v` that are not written faithfully, without the letters after them. -/
inductive Misspelled (v : Int) : List Char → Prop
  /-- A sign after the mark stays there. -/
  | markedSign {s cs : List Char} (h : HexMarked s ('-' :: cs)) : Misspelled v s
  /-- So it does with a minus before the mark. -/
  | dashedMarkedSign {s cs : List Char} (h : HexMarked s ('-' :: cs)) (hfits : Fits v) :
      Misspelled v ('-' :: s)
  /-- A mark of upper case stays so. -/
  | upperMark {cs : List Char} (negative : Bool) (hfits : Fits v) :
      Misspelled v (dashed negative ('0' :: 'X' :: cs))
  /-- The literal of a negative pattern is out of range with a minus before it. -/
  | dashedPattern {cs : List Char} (hpos : 0 < v) (hfits : Fits v) :
      Misspelled v ('-' :: '0' :: 'x' :: cs)
  /-- After a minus there is no conversion, and what would need it is left out. -/
  | dashedUnsigned {cs : List Char} (hlow : 0x80000000 ≤ v) (hfits : Fits v) :
      Misspelled v ('-' :: cs)

variable {cs d : List Char} {m : Nat} {v : Int64} {text : String} {written : Option String}

/-! ## Literals -/

/-- A dash begins no number. -/
theorem number?_dash (cs : List Char) : number? ('-' :: cs) = none := rfl

/-- Neither does it after the mark of a hexadecimal one. -/
theorem number?_lowerMark_dash (cs : List Char) : number? ('0' :: 'x' :: '-' :: cs) = none := rfl

/-- The mark in upper case begins no number at all. -/
theorem number?_upperMark (cs : List Char) : number? ('0' :: 'X' :: cs) = none := rfl

/-- Hexadecimal digits after their mark are a number. -/
theorem number?_lowerMark (h : Numeral 16 cs m) : number? ('0' :: 'x' :: cs) = some m :=
  (digits?_eq_some_iff (Nat.le_refl _)).mpr h

/-- The mark of a hexadecimal number is no part of a decimal one. -/
theorem not_hexMarked_of_numeral (h : Numeral 10 d m) (cs : List Char) : ¬HexMarked d cs := by
  have hdigits := (digits?_eq_some_iff (by decide)).mpr h
  intro hmark
  cases hmark with
  | lower => cases hdigits
  | upper => cases hdigits

/-- Decimal digits are a number. -/
theorem number?_decimal (h : Numeral 10 d m) : number? d = some m := by
  unfold number?
  split
  · exact absurd (.lower _) (not_hexMarked_of_numeral h _)
  · exact (digits?_eq_some_iff (by decide)).mpr h

/-- A number of up to 31 bits has its own value. -/
theorem signedValue?_of_number (h : number? cs = some m) (hm : m < 0x80000000) :
    signedValue? cs = some (BitVec.ofNat 32 m) := by
  unfold signedValue?
  split
  · cases h
  · rw [h, Option.bind_some, if_pos hm]

/-- With a dash it has the negative of it, and the least value is among these. -/
theorem signedValue?_dash (h : number? cs = some m) (hm : m ≤ 0x80000000) :
    signedValue? ('-' :: cs) = some (-BitVec.ofNat 32 m) := by
  rw [signedValue?, h]
  exact if_pos hm

/-- Two dashes cancel out. -/
theorem signedValue?_dash_dash (h : number? cs = some m) (hm : m < 0x80000000) :
    signedValue? ('-' :: '-' :: cs) = some (BitVec.ofNat 32 m) := by
  have hne : -BitVec.ofNat 32 m ≠ BitVec.intMin 32 := by
    intro heq
    have htoNat := congrArg BitVec.toNat heq
    rw [BitVec.toNat_neg, BitVec.toNat_ofNat, BitVec.toNat_intMin] at htoNat
    omega
  rw [signedValue?, number?_dash, signedValue?_dash h (Nat.le_of_lt hm), Option.bind_some,
    if_neg hne, BitVec.neg_neg]

/-- Where no number stands, no minus gives a value. -/
theorem signedValue?_dashed (hdash : d.head? ≠ some '-') (h : number? d = none) (negative : Bool) :
    signedValue? (dashed negative d) = none := by
  have hbare : signedValue? d = none := by
    unfold signedValue?
    split
    · exact absurd rfl hdash
    · rw [h, Option.bind_none]
  cases negative with
  | false => exact hbare
  | true => rw [dashed, if_pos rfl, signedValue?, h, hbare, Option.bind_none]

/-- A plain text denotes a signed value. -/
theorem denoted?_plain (h : Expression.Plain text) : denoted? text = signedValue? text.toList := by
  rw [denoted?, h.unconverted?]

/-- A converted one denotes an unsigned value. -/
theorem denoted?_converted (literal : String) :
    denoted? (converted literal) = unsignedValue? literal.toList := by
  rw [denoted?, Expression.unconverted?_converted]

/-- A number of up to 32 bits is an unsigned value. -/
theorem unsignedValue?_of_number (h : number? cs = some m) (hm : m < 0x100000000) :
    unsignedValue? cs = some (BitVec.ofNat 32 m) := by
  rw [unsignedValue?, h, Option.bind_some, if_pos hm]

/-! ## Words -/

/-- The bits of a value that is a number. -/
theorem word_of_nat (h : v.toInt = m) : word v = BitVec.ofNat 32 m := by
  rw [word, h, BitVec.ofInt_natCast]

/-- The bits of one that is the negative of a number. -/
theorem word_of_neg (h : v.toInt = -m) : word v = -BitVec.ofNat 32 m := by
  rw [word, h, BitVec.ofInt_neg, BitVec.ofInt_natCast]

/-- The bits of one that was read as a pattern. -/
theorem word_of_pattern (h : v.toInt = m - 0x100000000) : word v = BitVec.ofNat 32 m := by
  rw [word, h, ← BitVec.ofInt_natCast]
  apply BitVec.eq_of_toInt_eq
  rw [BitVec.toInt_ofInt, BitVec.toInt_ofInt]
  exact Int.sub_bmod_right ..

/-! ## What is written -/

/-- A number fits in 32 bits with a sign if it is within the bounds. -/
theorem isSigned32_iff : isSigned32 v = true ↔ -0x80000000 ≤ v.toInt ∧ v.toInt < 0x80000000 := by
  have hmin : minSigned.toInt = -0x80000000 := by decide
  have hmax : maxSigned.toInt = 0x7FFFFFFF := by decide
  rw [isSigned32, Bool.and_eq_true, decide_eq_true_eq, decide_eq_true_eq, Int64.le_iff_toInt_le,
    Int64.le_iff_toInt_le, hmin, hmax]
  omega

/-- After a minus a literal is kept or left out. -/
theorem literalText?_dash (htext : text.toList = '-' :: cs) :
    literalText? text v =
      if -0x80000000 ≤ v.toInt ∧ v.toInt < 0x80000000 then some text else none := by
  unfold literalText?
  rw [htext]
  simp only [isSigned32_iff]

/-- Without a minus a literal is kept, converted, or left out. -/
theorem literalText?_of_head_ne (hdash : text.toList.head? ≠ some '-')
    (hneg : v.toInt < 0 → ∃ cs, HexMarked text.toList cs) :
    literalText? text v =
      if 0 ≤ v.toInt ∧ v.toInt < 0x80000000 then some text
      else if v.toInt < 0x100000000 then some (converted text) else none := by
  have hmax : maxSigned.toInt = 0x7FFFFFFF := by decide
  have hunsigned : maxUnsigned.toInt = 0xFFFFFFFF := by decide
  have hrange : (decide (maxSigned < v) && decide (v ≤ maxUnsigned)) = true ↔
      0x80000000 ≤ v.toInt ∧ v.toInt < 0x100000000 := by
    rw [Bool.and_eq_true, decide_eq_true_eq, decide_eq_true_eq, Int64.lt_iff_toInt_lt,
      Int64.le_iff_toInt_le, hmax, hunsigned]
    omega
  have hnegative : decide (v < 0) = true ↔ v.toInt < 0 := by
    rw [decide_eq_true_eq, Int64.lt_iff_toInt_lt]
    rfl
  have hmarked : ∀ isHex : Bool, (v.toInt < 0 → isHex = true) →
      (if (isHex && decide (v < 0) || decide (maxSigned < v) && decide (v ≤ maxUnsigned)) = true
        then some (converted text) else if isSigned32 v = true then some text else none) =
      if 0 ≤ v.toInt ∧ v.toInt < 0x80000000 then some text
      else if v.toInt < 0x100000000 then some (converted text) else none := by
    intro isHex hisHex
    simp only [Bool.or_eq_true, hrange, Bool.and_eq_true, hnegative, isSigned32_iff,
      and_iff_right_of_imp hisHex]
    by_cases hplain : 0 ≤ v.toInt ∧ v.toInt < 0x80000000
    · rw [if_neg (by omega), if_pos (by omega), if_pos hplain]
    · rw [if_neg hplain]
      by_cases hhigh : v.toInt < 0x100000000
      · rw [if_pos (by omega), if_pos hhigh]
      · rw [if_neg (by omega), if_neg (by omega), if_neg hhigh]
  unfold literalText?
  split
  · simp_all
  · apply hmarked
    intro hlt
    obtain ⟨cs, hmark⟩ := hneg hlt
    generalize text.toList = s at hmark
    cases hmark <;> rfl

/-! ## Faithful operands -/

/-- Writing nothing is right for what does not fit. -/
theorem faithful_none_iff : Faithful none v ↔ ¬Fits v.toInt :=
  ⟨fun h => h.none_iff.mp rfl, fun h => ⟨iff_of_true rfl h, nofun⟩⟩

/-- Writing a text is right for what fits and is denoted by it. -/
theorem faithful_some_iff :
    Faithful (some text) v ↔ Fits v.toInt ∧ denoted? text = some (word v) := by
  constructor
  · intro h
    refine ⟨?_, h.denoted text rfl⟩
    by_contra hfits
    cases h.none_iff.mpr hfits
  · rintro ⟨hfits, hdenoted⟩
    refine ⟨iff_of_false nofun (not_not_intro hfits), ?_⟩
    rintro _ ⟨⟩
    exact hdenoted

section Written

variable (hplain : Expression.Plain text)
include hplain

/-- A number without a minus is written faithfully, and so is a negative pattern. -/
theorem faithful_of_number (hdash : text.toList.head? ≠ some '-')
    (hneg : v.toInt < 0 → ∃ cs, HexMarked text.toList cs) (h : number? text.toList = some m)
    (hv : v.toInt = m ∨ 0x80000000 ≤ m ∧ m < 0x100000000 ∧ v.toInt = m - 0x100000000) :
    Faithful (literalText? text v) v := by
  have hword : word v = BitVec.ofNat 32 m := by
    rcases hv with hv | ⟨-, -, hv⟩
    · exact word_of_nat hv
    · exact word_of_pattern hv
  rw [literalText?_of_head_ne hdash hneg]
  split_ifs with hsigned hunsigned
  · refine faithful_some_iff.mpr ⟨⟨by omega, by omega⟩, ?_⟩
    rw [denoted?_plain hplain, signedValue?_of_number h (by omega), hword]
  · refine faithful_some_iff.mpr ⟨⟨by omega, by omega⟩, ?_⟩
    rw [denoted?_converted, unsignedValue?_of_number h (by omega), hword]
  · exact faithful_none_iff.mpr fun hfits => hunsigned hfits.2

/-- A number that a minus negates is written faithfully. -/
theorem faithful_of_dash (htext : text.toList = '-' :: cs) (h : number? cs = some m)
    (hv : v.toInt = -m) : Faithful (literalText? text v) v := by
  rw [literalText?_dash htext]
  split_ifs with hsigned
  · refine faithful_some_iff.mpr ⟨⟨by omega, by omega⟩, ?_⟩
    rw [denoted?_plain hplain, htext, signedValue?_dash h (by omega), word_of_neg hv]
  · refine faithful_none_iff.mpr fun hfits => hsigned ?_
    exact ⟨hfits.1, by omega⟩

/-- With two minuses before it, a number is written faithfully unless it takes all 32 bits. -/
theorem faithful_dash_dash_iff (htext : text.toList = '-' :: '-' :: cs) (h : number? cs = some m)
    (hv : v.toInt = m) :
    Faithful (literalText? text v) v ↔ ¬(0x80000000 ≤ v.toInt ∧ Fits v.toInt) := by
  rw [literalText?_dash htext]
  split_ifs with hsigned
  · refine iff_of_true (faithful_some_iff.mpr ⟨⟨by omega, by omega⟩, ?_⟩) (by omega)
    rw [denoted?_plain hplain, htext, signedValue?_dash_dash h (by omega), word_of_nat hv]
  · rw [faithful_none_iff, Fits]
    omega

/-- A negative pattern with a minus before it is not written faithfully. -/
theorem not_faithful_of_dash_pattern (htext : text.toList = '-' :: cs) (h : number? cs = some m)
    (hm : 0x80000000 ≤ m) (hv : v.toInt = 0x100000000 - m) (hpos : 0 < v.toInt) :
    ¬Faithful (literalText? text v) v := by
  have hfits : Fits v.toInt := ⟨by omega, by omega⟩
  rw [literalText?_dash htext]
  split_ifs with hsigned
  · rw [faithful_some_iff, denoted?_plain hplain, htext, signedValue?, h]
    simp only
    rw [if_neg (by omega)]
    exact fun hfaithful => by cases hfaithful.2
  · exact fun hfaithful => faithful_none_iff.mp hfaithful hfits

/-- Where no number stands, nothing that is written denotes anything. -/
theorem not_faithful_of_malformed {negative : Bool} (htext : text.toList = dashed negative d)
    (hdash : d.head? ≠ some '-') (hnumber : number? d = none)
    (hwritten : Fits v.toInt ∨ literalText? text v ≠ none) :
    ¬Faithful (literalText? text v) v := by
  have hsigned : signedValue? text.toList = none := htext ▸ signedValue?_dashed hdash hnumber _
  have hunsigned : unsignedValue? text.toList = none := by
    rw [unsignedValue?, htext]
    cases negative with
    | false => rw [dashed, if_neg Bool.false_ne_true, hnumber, Option.bind_none]
    | true => rw [dashed, if_pos rfl, number?_dash, Option.bind_none]
  cases hliteral : literalText? text v with
  | none =>
    rw [faithful_none_iff, not_not]
    exact hwritten.resolve_right (not_not_intro hliteral)
  | some written =>
    rw [faithful_some_iff]
    rintro ⟨-, hdenoted⟩
    rcases Expression.literalText?_cases hliteral with rfl | rfl
    · rw [denoted?_plain hplain, hsigned] at hdenoted
      cases hdenoted
    · rw [denoted?_converted, hunsigned] at hdenoted
      cases hdenoted

end Written

/-! ## Misspelled literals -/

/-- What does not fit is left out, unless it is a sign after the mark that makes it negative. -/
theorem misspelled_iff_of_not_fits {n : Int} (hfits : ¬Fits n) :
    Misspelled n d ↔ ∃ cs, HexMarked d ('-' :: cs) := by
  constructor
  · intro h
    cases h with
    | markedSign h => exact ⟨_, h⟩
    | dashedMarkedSign _ h => exact absurd h hfits
    | upperMark _ h => exact absurd h hfits
    | dashedPattern _ h => exact absurd h hfits
    | dashedUnsigned _ h => exact absurd h hfits
  · rintro ⟨cs, h⟩
    exact .markedSign h

/-- A mark with a sign after it is not followed by a number. -/
theorem number?_of_markedSign (h : HexMarked d ('-' :: cs)) : number? d = none := by
  cases h with
  | lower => exact number?_lowerMark_dash _
  | upper => exact number?_upperMark _

/-- A number without a dash is spelled well. -/
theorem not_misspelled_of_number {n : Int} (hdash : d.head? ≠ some '-')
    (h : number? d = some m) : ¬Misspelled n d := by
  intro hmisspelled
  cases hmisspelled with
  | markedSign hmark =>
    rw [number?_of_markedSign hmark] at h
    cases h
  | upperMark negative =>
    cases negative with
    | false => cases h
    | true => exact hdash rfl
  | _ => exact hdash rfl

/-- So is one with a dash, if it is not positive. -/
theorem not_misspelled_of_dash {n : Int} (h : number? d = some m) (hn : n ≤ 0) :
    ¬Misspelled n ('-' :: d) := by
  intro hmisspelled
  generalize hs : '-' :: d = s at hmisspelled
  cases hmisspelled with
  | markedSign hmark =>
    subst hs
    cases hmark
  | dashedMarkedSign hmark =>
    obtain ⟨-, rfl⟩ := List.cons.inj hs
    rw [number?_of_markedSign hmark] at h
    cases h
  | upperMark negative =>
    cases negative with
    | false => cases (List.cons.inj hs).1
    | true =>
      obtain ⟨-, rfl⟩ := List.cons.inj hs
      cases h
  | dashedPattern hpos => omega
  | dashedUnsigned hlow => omega

/-- Two dashes misspell what needs all 32 bits. -/
theorem misspelled_dash_dash_iff {n : Int} :
    Misspelled n ('-' :: '-' :: cs) ↔ 0x80000000 ≤ n ∧ Fits n := by
  constructor
  · intro h
    generalize hs : '-' :: '-' :: cs = s at h
    cases h with
    | markedSign hmark =>
      subst hs
      cases hmark
    | dashedMarkedSign hmark =>
      obtain ⟨-, rfl⟩ := List.cons.inj hs
      cases hmark
    | upperMark negative => cases negative <;> cases hs
    | dashedPattern => cases hs
    | dashedUnsigned hlow hfits => exact ⟨hlow, hfits⟩
  · rintro ⟨hlow, hfits⟩
    exact .dashedUnsigned hlow hfits

/-! ## The spellings of a number -/

/-- What is left of a literal without a plus, when the letters after it and a dash before it are
gone, and the number it means. -/
inductive Spelled (d : List Char) : Int → Prop
  | decimal {m : Nat} (h : Numeral 10 d m) : Spelled d m
  | minus {cs : List Char} {m : Nat} (hd : d = '-' :: cs) (h : Numeral 10 cs m) : Spelled d (-m)
  | marked {cs : List Char} {m : Nat} (hmark : HexMarked d cs) (h : Numeral 16 cs m)
      (hm : ¬(0x80000000 ≤ m ∧ m < 0x100000000)) : Spelled d m
  | pattern {cs : List Char} {m : Nat} (hmark : HexMarked d cs) (h : Numeral 16 cs m)
      (hlow : 0x80000000 ≤ m) (hhigh : m < 0x100000000) : Spelled d (m - 0x100000000)
  | markedMinus {cs : List Char} {m : Nat} (hmark : HexMarked d ('-' :: cs))
      (h : Numeral 16 cs m) : Spelled d (-m)

/-- An unsigned number without a plus is a numeral. -/
theorem numeral_of_unsigned {base : Nat} (hplus : '+' ∉ cs) (h : Unsigned base cs m) :
    Numeral base cs m := by
  cases h with
  | bare h => exact h
  | plus h => exact absurd List.mem_cons_self hplus

/-- The digits after the mark are part of the literal. -/
theorem mem_of_hexMarked {c : Char} (hmark : HexMarked d cs) (hc : c ∈ cs) : c ∈ d := by
  cases hmark <;> exact List.mem_cons_of_mem _ (List.mem_cons_of_mem _ hc)

/-- A magnitude without a plus is spelled in one of the ways considered. -/
theorem spelled_of_magnitude {n : Int} (hplus : '+' ∉ d) (h : Magnitude d n) : Spelled d n := by
  cases h with
  | @hexadecimal cs _ hmark h =>
    have hplus' : '+' ∉ cs := fun hmem => hplus (mem_of_hexMarked hmark hmem)
    cases h with
    | low h hlow => exact .marked hmark (numeral_of_unsigned hplus' h) (by omega)
    | high h hlow hhigh => exact .pattern hmark (numeral_of_unsigned hplus' h) hlow hhigh
    | wide h hwide =>
      cases h with
      | unsigned h =>
        have hle := hwide _ h
        exact .marked hmark (numeral_of_unsigned hplus' h) (by omega)
      | minus h => exact .markedMinus hmark h
  | decimal _ h =>
    cases h with
    | unsigned h => exact .decimal (numeral_of_unsigned hplus h)
    | minus h => exact .minus rfl h

/-- A numeral begins with no minus. -/
theorem head?_ne_of_numeral {base : Nat} (hbase : base ≤ 16) (h : Numeral base d m) :
    d.head? ≠ some '-' := by
  intro hhead
  obtain ⟨rest, rfl⟩ := List.head?_eq_some_iff.mp hhead
  exact Numeral.head_ne hbase (by decide) h

/-- A hexadecimal literal does not begin with a dash. -/
theorem head?_ne_of_hexMarked (h : HexMarked d cs) : d.head? ≠ some '-' := by
  cases h <;> simp

/-- What does not fit is left out, unless it is negative without a minus before it. -/
theorem literalText?_of_not_fits {negative : Bool} (htext : text.toList = dashed negative d)
    (hdash : d.head? ≠ some '-') (hfits : ¬Fits v.toInt)
    (hv : negative = false → 0 ≤ v.toInt) : literalText? text v = none := by
  unfold Fits at hfits
  cases negative with
  | true => rw [literalText?_dash htext, if_neg (by omega)]
  | false =>
    have hnonneg := hv rfl
    rw [literalText?_of_head_ne (htext ▸ hdash) (by omega), if_neg (by omega), if_neg (by omega)]

section Settled

variable (hplain : Expression.Plain text)
include hplain

/-- Where no number stands, what is written is faithful only if nothing is. -/
theorem faithful_iff_of_malformed {negative : Bool} (htext : text.toList = dashed negative d)
    (hdash : d.head? ≠ some '-') (hnumber : number? d = none)
    (hmisspelled : Fits v.toInt → Misspelled v.toInt text.toList)
    (hunmarked : ∀ cs, ¬HexMarked text.toList ('-' :: cs))
    (hv : ¬Fits v.toInt → negative = false → 0 ≤ v.toInt) :
    Faithful (literalText? text v) v ↔ ¬Misspelled v.toInt text.toList := by
  by_cases hfits : Fits v.toInt
  · exact iff_of_false (not_faithful_of_malformed hplain htext hdash hnumber (.inl hfits))
      (not_not_intro (hmisspelled hfits))
  · rw [literalText?_of_not_fits htext hdash hfits (hv hfits), faithful_none_iff,
      misspelled_iff_of_not_fits hfits, not_exists]
    exact iff_of_true hfits hunmarked

/-- A hexadecimal number after a mark of upper case is faithful only if it is left out. -/
theorem faithful_upperMark_iff {negative : Bool}
    (htext : text.toList = dashed negative ('0' :: 'X' :: cs)) (h : Numeral 16 cs m)
    (hv : ¬Fits v.toInt → negative = false → 0 ≤ v.toInt) :
    Faithful (literalText? text v) v ↔ ¬Misspelled v.toInt text.toList := by
  refine faithful_iff_of_malformed hplain htext (by simp) (number?_upperMark cs)
    (fun hfits => htext ▸ .upperMark negative hfits) ?_ hv
  rw [htext]
  intro rest hmark
  cases negative with
  | false =>
    cases hmark
    exact Numeral.head_ne (Nat.le_refl _) (by decide) h
  | true => cases hmark

/-- A sign after the mark is faithful only if the number is left out, which it is not without a
minus before it. -/
theorem faithful_markedSign_iff {negative : Bool} (htext : text.toList = dashed negative d)
    (hmark : HexMarked d ('-' :: cs)) (hv : v.toInt = if negative then (m : Int) else -m) :
    Faithful (literalText? text v) v ↔ ¬Misspelled v.toInt text.toList := by
  have hdash := head?_ne_of_hexMarked hmark
  have hnumber := number?_of_markedSign hmark
  cases negative with
  | true =>
    refine faithful_iff_of_malformed hplain htext hdash hnumber
      (fun hfits => htext ▸ .dashedMarkedSign hmark hfits) ?_ nofun
    rw [htext]
    exact nofun
  | false =>
    have hbare : text.toList = d := htext
    replace hv : v.toInt = -m := hv
    have hwritten : literalText? text v ≠ none := by
      rw [literalText?_of_head_ne (hbare ▸ hdash) fun _ => ⟨_, hbare ▸ hmark⟩,
        if_pos (by omega : v.toInt < 0x100000000)]
      split_ifs <;> nofun
    refine iff_of_false (not_faithful_of_malformed hplain htext hdash hnumber (.inr hwritten))
      (not_not_intro ?_)
    rw [hbare]
    exact .markedSign hmark

/-- A number with at most one minus before it is written faithfully. -/
theorem faithful_number_iff {negative : Bool} (htext : text.toList = dashed negative d)
    (hdash : d.head? ≠ some '-') (hnumber : number? d = some m)
    (hv : v.toInt = if negative then -(m : Int) else m) :
    Faithful (literalText? text v) v ↔ ¬Misspelled v.toInt text.toList := by
  cases negative with
  | true =>
    replace hv : v.toInt = -m := hv
    refine iff_of_true (faithful_of_dash hplain htext hnumber hv) ?_
    rw [htext]
    exact not_misspelled_of_dash hnumber (by omega)
  | false =>
    replace htext : text.toList = d := htext
    replace hv : v.toInt = m := hv
    rw [← htext] at hdash hnumber
    exact iff_of_true (faithful_of_number hplain hdash (by omega) hnumber (.inl hv))
      (not_misspelled_of_number hdash hnumber)

/-- A negative pattern is written faithfully, unless there is a minus before it. -/
theorem faithful_pattern_iff {negative : Bool}
    (htext : text.toList = dashed negative ('0' :: 'x' :: cs)) (h : Numeral 16 cs m)
    (hlow : 0x80000000 ≤ m) (hhigh : m < 0x100000000)
    (hv : v.toInt = if negative then -(m - 0x100000000 : Int) else m - 0x100000000) :
    Faithful (literalText? text v) v ↔ ¬Misspelled v.toInt text.toList := by
  have hnumber := number?_lowerMark h
  cases negative with
  | true =>
    replace hv : v.toInt = -(m - 0x100000000 : Int) := hv
    have hpos : 0 < v.toInt := by omega
    refine iff_of_false
      (not_faithful_of_dash_pattern hplain htext hnumber hlow (by omega) hpos) (not_not_intro ?_)
    rw [htext]
    exact .dashedPattern hpos ⟨by omega, by omega⟩
  | false =>
    replace htext : text.toList = '0' :: 'x' :: cs := htext
    have hdash : text.toList.head? ≠ some '-' := by simp [htext]
    rw [← htext] at hnumber
    exact iff_of_true
      (faithful_of_number hplain hdash (fun _ => ⟨cs, htext ▸ .lower cs⟩) hnumber
        (.inr ⟨hlow, hhigh, hv⟩))
      (not_misspelled_of_number hdash hnumber)

/-- A literal is written faithfully exactly if it is not one of those listed. -/
theorem faithful_literalText?_iff {negative : Bool} {n : Int}
    (htext : text.toList = dashed negative d) (hundashed : negative = false → d.head? ≠ some '-')
    (hspelled : Spelled d n) (hv : v.toInt = if negative then -n else n) :
    Faithful (literalText? text v) v ↔ ¬Misspelled v.toInt text.toList := by
  cases hspelled with
  | decimal h =>
    exact faithful_number_iff hplain htext (head?_ne_of_numeral (by decide) h)
      (number?_decimal h) hv
  | minus hd h =>
    subst hd
    cases negative with
    | false => exact absurd rfl (hundashed rfl)
    | true =>
      replace htext : text.toList = '-' :: '-' :: _ := htext
      have hv' : v.toInt = _ := hv.trans (neg_neg _)
      rw [faithful_dash_dash_iff hplain htext (number?_decimal h) hv', htext,
        misspelled_dash_dash_iff]
  | marked hmark h hm =>
    cases hmark with
    | lower => exact faithful_number_iff hplain htext (by simp) (number?_lowerMark h) hv
    | upper =>
      refine faithful_upperMark_iff hplain htext h fun _ hnegative => ?_
      subst hnegative
      exact hv.symm ▸ Int.natCast_nonneg _
  | pattern hmark h hlow hhigh =>
    cases hmark with
    | lower => exact faithful_pattern_iff hplain htext h hlow hhigh hv
    | upper =>
      refine faithful_upperMark_iff hplain htext h fun hfits => ?_
      refine absurd ⟨?_, ?_⟩ hfits <;> rw [hv] <;> split_ifs <;> omega
  | markedMinus hmark h => exact faithful_markedSign_iff hplain htext hmark (by simpa using hv)

end Settled

/-! ## Operands -/

/-- No plus is part of an operand. -/
theorem plus_not_mem_of_isOperand {operand : String} (h : IsOperand TokenKind.Lexed operand) :
    '+' ∉ operand.toList := by
  have hliteral : ∀ b : UInt8, Byte.isLiteral b = true → '+' ≠ Byte.toChar b :=
    Byte.forall_of_forall_lt (by decide +kernel)
  have hkind : ∀ {bytes : List UInt8} {k : TokenKind}, Run.kindOf? bytes = some k →
      '+' ∉ k.text.toList := by
    intro bytes k hk hmem
    obtain ⟨b, hb, hc⟩ := Run.isLiteral_of_mem_text hk hmem
    exact hliteral b hb hc
  rcases h with ⟨bytes, hbytes⟩ | ⟨bytes, hbytes⟩
  · exact hkind hbytes
  · exact hkind hbytes

/-- An operand of an enumeration that is a literal is left out exactly if its value does not fit in
32 bits, and denotes that value otherwise, unless the literal is one of the misspelled. -/
theorem memberOperand_faithful_iff {operand : String} {v : Int64}
    (hoperand : IsOperand TokenKind.Lexed operand)
    (hread : Integer.read operand = .ok (some v)) :
    (fitsIn32 v = true ↔ Fits v.toInt) ∧ ∃ written, memberOperand operand = .ok written ∧
      (Faithful written v ↔ ¬Misspelled v.toInt (stem operand.toList)) := by
  obtain ⟨negative, d, hparted⟩ := exists_parted operand
  obtain ⟨n, hn, hv⟩ := hparted.magnitude_of_read hread
  have hplus : '+' ∉ d := by
    obtain ⟨suffix, htext, -⟩ := hparted.text
    intro hmem
    apply plus_not_mem_of_isOperand hoperand
    rw [htext]
    cases negative <;> simp [dashed, hmem]
  have htext : (stemText operand).toList = stem operand.toList := String.toList_ofList
  have hplain : Expression.Plain (stemText operand) :=
    Expression.plain_stemText (Expression.plain_of_isOperand hoperand)
  refine ⟨Expression.fitsIn32_iff, literalText? (stemText operand) v, ?_, ?_⟩
  · rw [memberOperand, hread]
    rfl
  · rw [← htext]
    exact faithful_literalText?_iff hplain (htext.trans hparted.stem_eq) hparted.undashed
      (spelled_of_magnitude hplus hn) hv

/-- All bits set, read as a negative number. -/
theorem memberOperand_faithful_iff_pattern :
    IsOperand TokenKind.Lexed "0xFFFFFFFFu" ∧ Integer.read "0xFFFFFFFFu" = .ok (some (-1)) ∧
      (fitsIn32 (-1) = true ↔ Fits (-1 : Int64).toInt) ∧
      ∃ written, memberOperand "0xFFFFFFFFu" = .ok written ∧
        (Faithful written (-1) ↔ ¬Misspelled (-1 : Int64).toInt (stem "0xFFFFFFFFu".toList)) := by
  have hoperand : IsOperand TokenKind.Lexed "0xFFFFFFFFu" :=
    .inl ⟨"0xFFFFFFFFu".toList.map Char.toUInt8, by decide +kernel⟩
  have hread : Integer.read "0xFFFFFFFFu" = .ok (some (-1)) := by decide +kernel
  exact ⟨hoperand, hread, memberOperand_faithful_iff hoperand hread⟩

/-- Literals that fit and are not written faithfully: one whose mark stays of upper case, one that
is left out, one that is out of range, and one that keeps a sign after its mark. -/
theorem memberOperand_misspelled :
    (IsOperand TokenKind.Lexed "0X1F" ∧ Integer.read "0X1F" = .ok (some 31) ∧
      memberOperand "0X1F" = .ok (some "0X1F") ∧ denoted? "0X1F" = none) ∧
    (IsOperand TokenKind.Lexed "--2147483648" ∧
      Integer.read "--2147483648" = .ok (some 2147483648) ∧ fitsIn32 2147483648 = true ∧
      memberOperand "--2147483648" = .ok none) ∧
    (IsOperand TokenKind.Lexed "-0xFFFFFFFF" ∧ Integer.read "-0xFFFFFFFF" = .ok (some 1) ∧
      memberOperand "-0xFFFFFFFF" = .ok (some "-0xFFFFFFFF") ∧ denoted? "-0xFFFFFFFF" = none) ∧
    (IsOperand TokenKind.Lexed "0x-5" ∧ Integer.read "0x-5" = .ok (some (-5)) ∧
      memberOperand "0x-5" = .ok (some "(0x-5u32 as i32)") ∧
      denoted? "(0x-5u32 as i32)" = none) := by
  refine ⟨⟨.inr ⟨"0X1F".toList.map Char.toUInt8, by decide +kernel⟩, ?_⟩,
    ⟨.inl ⟨"--2147483648".toList.map Char.toUInt8, by decide +kernel⟩, ?_⟩,
    ⟨.inl ⟨"-0xFFFFFFFF".toList.map Char.toUInt8, by decide +kernel⟩, ?_⟩,
    ⟨.inl ⟨"0x-5".toList.map Char.toUInt8, by decide +kernel⟩, ?_⟩⟩ <;> decide +kernel

end Midl.Output
