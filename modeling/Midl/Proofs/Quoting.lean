import Midl.Output.Item
import Midl.Proofs.Numeral

/-!
# Quoted strings read back

How a string literal is read, said without regard to how strings are quoted. A literal is read one
character at a time (`readNext`): it begins and ends with a quote, a backslash begins an escape, and
an escape is one letter or a number in braces. What is written for a string is such a literal. It
stands on one line, no quote in it can be taken for the closing one, and it is read as the string
that it was written for, whatever characters the string has (`text_constant_reads_back`).
-/

namespace Midl.Text

open Integer (digit? digits? Numeral)

/-! ## Reading a literal -/

/-- Where the next character of a literal stands. -/
inductive Place where
  /-- Before the opening quote. -/
  | front
  /-- Between the quotes. -/
  | inside
  /-- After a backslash. -/
  | escape
  /-- After a backslash and the letter that announces a number. -/
  | brace
  /-- In the braces, after some digits. -/
  | number (digits : List Char)
  /-- After the closing quote. -/
  | back
deriving DecidableEq

/-- A literal as far as it has been read. -/
structure Reading where
  /-- Where the next character stands. -/
  place : Place := .front
  /-- The characters that were read so far. -/
  text : List Char := []

/-- The character that a letter after a backslash stands for. -/
def unescape? (letter : Char) : Option Char :=
  match letter with
  | '0' => some '\x00'
  | 't' => some '\t'
  | 'r' => some '\r'
  | 'n' => some '\n'
  | '\x27' => some '\x27'
  | '\x22' => some '\x22'
  | '\x5c' => some '\x5c'
  | _ => none

/-- The character with a number of at most six digits, if there is one. -/
def charNumbered? (digits : List Char) : Option Char := do
  let n ← digits? 16 digits
  if digits.length ≤ 6 ∧ n.isValidChar then some (Char.ofNat n) else none

/-- Goes on between the quotes with one more character read. -/
def Reading.push (r : Reading) (c : Char) : Reading := ⟨.inside, r.text ++ [c]⟩

/-- Reads one character. There is nothing to read after the closing quote. -/
def readNext (r : Reading) (c : Char) : Option Reading :=
  match r.place with
  | .front => if c = '\x22' then some { r with place := .inside } else none
  | .inside =>
    if c = '\x22' then some { r with place := .back }
    else if c = '\x5c' then some { r with place := .escape }
    else if c = '\r' then none
    else some (r.push c)
  | .escape =>
    if c = 'u' then some { r with place := .brace } else (unescape? c).map r.push
  | .brace => if c = '\x7b' then some { r with place := .number [] } else none
  | .number digits =>
    if c = '\x7d' then (charNumbered? digits).map r.push
    else some { r with place := .number (digits ++ [c]) }
  | .back => none

/-- The string that a literal stands for. -/
def unquote? (literal : String) : Option String := do
  let r ← literal.toList.foldlM readNext {}
  if r.place = .back then some (String.ofList r.text) else none

-- A quote inside, a backslash before the closing quote, and numbers that no character has.
example : unquote? "\"a\"b\"" = none ∧ unquote? "\"a\\\"" = none ∧
    unquote? "\"\\u\x7bd800\x7d\"" = none ∧ unquote? "\"\\u\x7b\x7d\"" = none := by
  decide +kernel

/-- Between the quotes of a literal, each quote has a backslash before it that begins an escape, and
each backslash that begins an escape has a character after it. -/
inductive Sealed : List Char → Prop
  | nil : Sealed []
  | plain {c : Char} {rest : List Char} (hquote : c ≠ '\x22') (hslash : c ≠ '\x5c')
      (h : Sealed rest) : Sealed (c :: rest)
  | escape (c : Char) {rest : List Char} (h : Sealed rest) : Sealed ('\x5c' :: c :: rest)

/-- Characters that are neither quotes nor backslashes may stand before what is sealed. -/
theorem Sealed.append {cs rest : List Char} (hquote : '\x22' ∉ cs) (hslash : '\x5c' ∉ cs)
    (h : Sealed rest) : Sealed (cs ++ rest) := by
  induction cs with
  | nil => exact h
  | cons c cs ih =>
    have hcs := ih (List.not_mem_of_not_mem_cons hquote) (List.not_mem_of_not_mem_cons hslash)
    exact .plain (List.ne_of_not_mem_cons hquote).symm (List.ne_of_not_mem_cons hslash).symm hcs

/-! ## What is written for a character -/

/-- A letter that escapes a character is read back as that character. -/
theorem unescape?_of_letterEscape? {c letter : Char} (h : letterEscape? c = some letter) :
    unescape? letter = some c := by
  unfold letterEscape? at h
  split at h <;> cases h <;> rfl

/-- A character without an escape of its own ends neither a literal nor a line. -/
theorem ne_of_letterEscape?_eq_none {c : Char} (h : letterEscape? c = none) :
    c ≠ '\x22' ∧ c ≠ '\x5c' ∧ c ≠ '\n' ∧ c ≠ '\r' := by
  refine ⟨?_, ?_, ?_, ?_⟩ <;> rintro rfl <;> cases h

/-- Every character has a number of at most six digits. -/
theorem charNumbered?_toDigits (c : Char) : charNumbered? (Nat.toDigits 16 c.toNat) = some c := by
  have hvalid : c.toNat.isValidChar := c.valid
  have hlength : (Nat.toDigits 16 c.toNat).length ≤ 6 := by
    refine (Nat.length_toDigits_le_iff (by decide) (by decide)).mpr ?_
    rcases hvalid with h | ⟨-, h⟩ <;> omega
  have hdigits : digits? 16 (Nat.toDigits 16 c.toNat) = some c.toNat :=
    (Integer.digits?_eq_some_iff (by decide)).mpr (Integer.numeral_toDigits (by decide) _)
  simp [charNumbered?, hdigits, hlength, hvalid]

/-- What is written for a character is a letter after a backslash, or the digits of its number in
braces, or the character itself. -/
theorem quoteChar_cases (c : Char) :
    (∃ letter, unescape? letter = some c ∧ quoteChar c = ['\x5c', letter]) ∨
    (∃ digits n, Numeral 16 digits n ∧ charNumbered? digits = some c ∧
      quoteChar c = ['\x5c', 'u', '\x7b'] ++ digits ++ ['\x7d']) ∨
    ((c ≠ '\x22' ∧ c ≠ '\x5c' ∧ c ≠ '\n' ∧ c ≠ '\r') ∧ quoteChar c = [c]) := by
  unfold quoteChar
  cases h : letterEscape? c with
  | some letter => exact .inl ⟨letter, unescape?_of_letterEscape? h, rfl⟩
  | none =>
    by_cases hnumbered : isNumbered c
    · refine .inr (.inl ⟨_, c.toNat, Integer.numeral_toDigits (by decide) _,
        charNumbered?_toDigits c, ?_⟩)
      simp [hnumbered]
    · refine .inr (.inr ⟨ne_of_letterEscape?_eq_none h, ?_⟩)
      simp [hnumbered]

/-- A character as it is written does not end the string. -/
theorem sealed_quoteChar (c : Char) {rest : List Char} (h : Sealed rest) :
    Sealed (quoteChar c ++ rest) := by
  obtain ⟨letter, -, hc⟩ | ⟨digits, n, hdigits, -, hc⟩ | ⟨⟨hquote, hslash, -⟩, hc⟩ :=
    quoteChar_cases c
  · rw [hc]
    exact .escape letter h
  · have hquote : '\x22' ∉ digits := hdigits.not_mem (by decide) (by decide)
    have hslash : '\x5c' ∉ digits := hdigits.not_mem (by decide) (by decide)
    have hnumber : Sealed (digits ++ '\x7d' :: rest) :=
      .append hquote hslash (.plain (by decide) (by decide) h)
    rw [hc, List.append_assoc, List.append_assoc]
    exact .escape 'u' (.plain (by decide) (by decide) hnumber)
  · rw [hc]
    exact .plain hquote hslash h

/-- What is written for a character stands on one line. -/
theorem not_mem_quoteChar (c : Char) : '\n' ∉ quoteChar c ∧ '\r' ∉ quoteChar c := by
  obtain ⟨letter, hletter, hc⟩ | ⟨digits, n, hdigits, -, hc⟩ | ⟨⟨-, -, hfeed, hreturn⟩, hc⟩ :=
    quoteChar_cases c
  · have hne : letter ≠ '\n' ∧ letter ≠ '\r' := by
      refine ⟨?_, ?_⟩ <;> rintro rfl <;> cases hletter
    simp [hc, hne.1.symm, hne.2.symm]
  · have hfeed : '\n' ∉ digits := hdigits.not_mem (by decide) (by decide)
    have hreturn : '\r' ∉ digits := hdigits.not_mem (by decide) (by decide)
    simp [hc, hfeed, hreturn]
  · simp [hc, hfeed.symm, hreturn.symm]

/-! ## Reading what is written -/

/-- Everything up to the closing brace is read as digits. -/
theorem readNext_digits (text digits : List Char) {cs : List Char} (h : '\x7d' ∉ cs) :
    cs.foldlM readNext ⟨.number digits, text⟩ = some ⟨.number (digits ++ cs), text⟩ := by
  induction cs generalizing digits with
  | nil => simp
  | cons c cs ih =>
    have hstep : readNext ⟨.number digits, text⟩ c = some ⟨.number (digits ++ [c]), text⟩ :=
      if_neg (List.ne_of_not_mem_cons h).symm
    rw [List.foldlM_cons, hstep, Option.bind_eq_bind, Option.bind_some,
      ih _ (List.not_mem_of_not_mem_cons h)]
    simp

/-- Between the quotes, what is written for a character is read as that character. -/
theorem readNext_quoteChar (text : List Char) (c : Char) :
    (quoteChar c).foldlM readNext ⟨.inside, text⟩ = some ⟨.inside, text ++ [c]⟩ := by
  obtain ⟨letter, hletter, hc⟩ | ⟨digits, n, hdigits, hnumber, hc⟩ |
    ⟨⟨hquote, hslash, -, hreturn⟩, hc⟩ := quoteChar_cases c
  · have hne : letter ≠ 'u' := by
      rintro rfl
      cases hletter
    simp [hc, readNext, hne, hletter, Reading.push]
  · have hopen : ['\x5c', 'u', '\x7b'].foldlM readNext ⟨.inside, text⟩ =
        some ⟨.number [], text⟩ := rfl
    have hclose : '\x7d' ∉ digits := hdigits.not_mem (by decide) (by decide)
    rw [hc, List.foldlM_append, List.foldlM_append, hopen]
    simp [readNext_digits text [] hclose, readNext, hnumber, Reading.push]
  · simp [hc, readNext, hquote, hslash, hreturn, Reading.push]

/-- Between the quotes, what is written for characters is read as these characters. -/
theorem readNext_flatMap_quoteChar (text cs : List Char) :
    (cs.flatMap quoteChar).foldlM readNext ⟨.inside, text⟩ = some ⟨.inside, text ++ cs⟩ := by
  induction cs generalizing text with
  | nil => simp
  | cons c cs ih =>
    rw [List.flatMap_cons, List.foldlM_append, readNext_quoteChar, Option.bind_eq_bind,
      Option.bind_some, ih]
    simp

/-- Neither do characters as they are written. -/
theorem sealed_flatMap_quoteChar (cs : List Char) : Sealed (cs.flatMap quoteChar) := by
  induction cs with
  | nil => exact .nil
  | cons c cs ih => exact sealed_quoteChar c ih

/-- A string in quotes is read back as it was. -/
theorem unquote?_quoted (s : String) : unquote? (quoted s) = some s := by
  have hopen : ['\x22'].foldlM readNext {} = some ⟨.inside, []⟩ := rfl
  have hread : (quoted s).toList.foldlM readNext {} = some ⟨.back, s.toList⟩ := by
    rw [quoted, String.toList_ofList, List.foldlM_append, List.foldlM_append, hopen]
    simp [readNext_flatMap_quoteChar, readNext]
  simp [unquote?, hread]

end Midl.Text

namespace Midl.Output

/-- A constant with a text is written on a line of its own, after a blank one, and its value there
is a literal for the text: between two quotes there is neither an end of a line nor a quote or a
backslash that does not belong to an escape, and what is read is the text. -/
theorem text_constant_reads_back (c : Constant) (s : String) (d : Draft) :
    constant { c with value := .text s } d = .ok () { d with
      out := d.out ++ "\n" ++ (String.ofList (List.replicate (d.level * d.indent) ' ') ++
        ("pub const " ++ identifier c.name ++ ": &str = " ++ Text.quoted s ++ ";") ++ "\n") } ∧
    Text.unquote? (Text.quoted s) = some s ∧
    ∃ body, (Text.quoted s).toList = '\x22' :: (body ++ ['\x22']) ∧ Text.Sealed body ∧
      '\n' ∉ body ∧ '\r' ∉ body := by
  refine ⟨rfl, Text.unquote?_quoted s, s.toList.flatMap Text.quoteChar, ?_,
    Text.sealed_flatMap_quoteChar s.toList, ?_, ?_⟩
  · rw [Text.quoted, String.toList_ofList]
    rfl
  · simp [List.mem_flatMap, (Text.not_mem_quoteChar _).1]
  · simp [List.mem_flatMap, (Text.not_mem_quoteChar _).2]

end Midl.Output
