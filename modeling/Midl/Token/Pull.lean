import Midl.Reader
import Midl.Token.Stream

/-!
# Pulling tokens from a reader

Tokens are found by looking at one byte at a time and taking it away. Trivia is skipped first; the
byte after it decides what follows, and a literal run or a string is taken byte by byte.

Every loop here takes away a byte each time around, so that it ends where the reader has no more of
them. `Reader.lex` finds the tokens that `Source.tokens` finds in what the reader hands out.
-/

namespace Midl.Reader

variable {ρ : Type} [Reader ρ]

/-! ## Trivia -/

/-- Skips blanks. Source: `skip_whitespace`. -/
def skipWhitespace (r : ρ) (pos : Position) : Except LexError (ρ × Position) :=
  match _ : peek r with
  | .byte b r' =>
    if Byte.isBlank b then skipWhitespace (bump r') (pos.after b) else .ok (r', pos)
  | .finished r' => .ok (r', pos)
  | .failed message => .error (.readFailure message)
termination_by size r
decreasing_by exact size_bump_lt ‹_›

/-- Skips to just past the next line feed, or to the end of the input. Source: `skip_line`. -/
def skipLine (r : ρ) (pos : Position) : Except LexError (ρ × Position) :=
  match _ : peek r with
  | .byte b r' =>
    if b = '\n'.toUInt8 then .ok (bump r', pos.after b) else skipLine (bump r') (pos.after b)
  | .finished r' => .ok (r', pos)
  | .failed message => .error (.readFailure message)
termination_by size r
decreasing_by exact size_bump_lt ‹_›

/-- Skips a comment, whose first slash has been looked at. A lone slash is an error.
Source: `skip_comment`. -/
def skipComment (r : ρ) (pos : Position) : Except LexError (ρ × Position) :=
  let slash := '/'.toUInt8
  match peek (bump r) with
  | .byte b r' =>
    if b = slash then skipLine r' (pos.after slash) else .error (.malformedComment pos)
  | .finished _ => .error (.malformedComment pos)
  | .failed message => .error (.readFailure message)

section Size

variable {r r' : ρ} {pos pos' : Position} {b : UInt8}

/-- Skipping blanks leaves no more than there was. -/
theorem size_skipWhitespace_le (h : skipWhitespace r pos = .ok (r', pos')) : size r' ≤ size r := by
  fun_induction skipWhitespace r pos with
  | case1 r pos b r₁ hpeek hblank ih =>
    exact Nat.le_of_lt (Nat.lt_of_le_of_lt (ih h) (size_bump_lt hpeek))
  | case2 r pos b r₁ hpeek hblank =>
    cases h
    exact Nat.le_of_eq (size_of_byte hpeek)
  | case3 r pos r₁ hpeek =>
    cases h
    rw [size, (unread_of_finished hpeek).2]
    exact Nat.zero_le _
  | case4 => cases h

/-- Skipping a line leaves no more than there was. -/
theorem size_skipLine_le (h : skipLine r pos = .ok (r', pos')) : size r' ≤ size r := by
  fun_induction skipLine r pos with
  | case1 r pos r₁ hpeek =>
    cases h
    exact Nat.le_of_lt (size_bump_lt hpeek)
  | case2 r pos b r₁ hpeek hfeed ih =>
    exact Nat.le_of_lt (Nat.lt_of_le_of_lt (ih h) (size_bump_lt hpeek))
  | case3 r pos r₁ hpeek =>
    cases h
    rw [size, (unread_of_finished hpeek).2]
    exact Nat.zero_le _
  | case4 => cases h

/-- Skipping a line of which a byte has been looked at leaves less. -/
theorem size_skipLine_lt (hpeek : peek r = .byte b r') {r'' : ρ}
    (h : skipLine r' pos = .ok (r'', pos')) : size r'' < size r := by
  obtain ⟨more, hnext, hsame, -⟩ := unread_of_byte hpeek
  rw [← size_of_byte hpeek]
  rw [← hsame] at hnext
  fun_cases skipLine r' pos with
  | case1 r₁ hbyte =>
    rw [skipLine, hbyte] at h
    cases h
    exact size_bump_lt hbyte
  | case2 b r₁ hbyte hfeed =>
    rw [skipLine, hbyte] at h
    simp only [hfeed, if_false] at h
    exact Nat.lt_of_le_of_lt (size_skipLine_le h) (size_bump_lt hbyte)
  | case3 r₁ hend =>
    rw [(unread_of_finished hend).1] at hnext
    cases hnext
  | case4 message hfailed =>
    rw [unread_of_failed hfailed] at hnext
    cases hnext

/-- Skipping a comment leaves less. -/
theorem size_skipComment_lt (hpeek : peek r = .byte b r') {r'' : ρ}
    (h : skipComment r' pos = .ok (r'', pos')) : size r'' < size r := by
  unfold skipComment at h
  cases hsecond : peek (bump r') with
  | byte c r₁ =>
    simp only [hsecond] at h
    split at h
    · exact Nat.lt_trans (size_skipLine_lt hsecond h) (size_bump_lt hpeek)
    · cases h
  | finished r₁ =>
    rw [hsecond] at h
    cases h
  | failed message =>
    rw [hsecond] at h
    cases h

end Size

/-- Skips blanks, comments and preprocessor lines. The first byte after them has been looked at, if
there is one. Source: `skip_trivia`. -/
def skipTrivia (r : ρ) (pos : Position) : Except LexError (Option UInt8 × ρ × Position) :=
  match _ : skipWhitespace r pos with
  | .error error => .error error
  | .ok (r₁, pos₁) =>
    match _ : peek r₁ with
    | .byte b r₂ =>
      if b = '/'.toUInt8 then
        match _ : skipComment r₂ pos₁ with
        | .error error => .error error
        | .ok (r₃, pos₃) => skipTrivia r₃ pos₃
      else if b = '#'.toUInt8 then
        match _ : skipLine r₂ pos₁ with
        | .error error => .error error
        | .ok (r₃, pos₃) => skipTrivia r₃ pos₃
      else .ok (some b, r₂, pos₁)
    | .finished r₂ => .ok (none, r₂, pos₁)
    | .failed message => .error (.readFailure message)
termination_by size r
decreasing_by
  · exact Nat.lt_of_lt_of_le (size_skipComment_lt ‹peek r₁ = _› ‹_›) (size_skipWhitespace_le ‹_›)
  · exact Nat.lt_of_lt_of_le (size_skipLine_lt ‹peek r₁ = _› ‹_›) (size_skipWhitespace_le ‹_›)

/-! ## Literal runs and strings -/

/-- Takes the bytes that belong to a run, after those that were taken before.
Source: `take_literal`. -/
def takeRun (r : ρ) (pos : Position) (run : Run) (lexeme : Array UInt8) :
    Except LexError (TokenKind × ρ × Position) :=
  match _ : peek r with
  | .byte b r' =>
    match run.next? b with
    | some run => takeRun (bump r') (pos.after b) run (lexeme.push b)
    | none => .ok (run.kind (Byte.text lexeme.toList), r', pos)
  | .finished r' => .ok (run.kind (Byte.text lexeme.toList), r', pos)
  | .failed message => .error (.readFailure message)
termination_by size r
decreasing_by exact size_bump_lt ‹_›

/-- Takes the literal run that begins with a byte that has been looked at.
Source: `take_literal`. -/
def takeLiteral (r : ρ) (pos : Position) (first : UInt8) :
    Except LexError (TokenKind × ρ × Position) :=
  takeRun (bump r) (pos.after first) (.ofByte first) #[first]

/-- Takes the bytes up to the next quote, after those that were taken before, for a string that
begins at `start`. Source: `take_string`. -/
def takeContent (start : Position) (r : ρ) (pos : Position) (content : Array UInt8) :
    Except LexError (TokenKind × ρ × Position) :=
  match _ : peek r with
  | .byte b r' =>
    if b = Byte.quote then .ok (.string (Utf8.text content.toList), bump r', pos.after b)
    else takeContent start (bump r') (pos.after b) (content.push b)
  | .finished _ => .error (.unterminatedString start)
  | .failed message => .error (.readFailure message)
termination_by size r
decreasing_by exact size_bump_lt ‹_›

/-- Takes the string whose opening quote has been looked at. Source: `take_string`. -/
def takeString (r : ρ) (start : Position) : Except LexError (TokenKind × ρ × Position) :=
  takeContent start (bump r) (start.after Byte.quote) #[]

/-! ## Tokens -/

/-- The outcome of looking for a token. -/
inductive Scanned (ρ : Type) where
  /-- A token, the reader after it, and the position of the next byte. -/
  | token (token : Token) (r : ρ) (pos : Position)
  /-- The input is over; the position is that of its end. -/
  | finished (pos : Position)
  /-- No token can be read. -/
  | failed (error : LexError)

/-- Takes what begins with a byte that has been looked at. Source: `scan_token`. -/
def takeToken (r : ρ) (start : Position) (b : UInt8) : Except LexError (TokenKind × ρ × Position) :=
  if Byte.isLiteral b then takeLiteral r start b
  else if b = Byte.quote then takeString r start
  else match Mark.ofByte? b with
    | some mark => .ok (.mark mark, bump r, start.after b)
    | none => .error (.unexpectedChar (Byte.toChar b) start)

/-- Takes one token. Source: `scan_token`. -/
def scanToken (r : ρ) (pos : Position) : Scanned ρ :=
  match skipTrivia r pos with
  | .error error => .failed error
  | .ok (none, _, start) => .finished start
  | .ok (some b, r, start) =>
    match takeToken r start b with
    | .ok (kind, r, pos) => .token ⟨kind, start⟩ r pos
    | .error error => .failed error

section Size

variable {r r' : ρ} {pos pos' start : Position} {b : UInt8} {kind : TokenKind}

/-- The byte after trivia has been looked at. -/
theorem peek_of_skipTrivia (h : skipTrivia r pos = .ok (some b, r', pos')) :
    ∃ r₁, peek r₁ = .byte b r' ∧ size r₁ ≤ size r := by
  fun_induction skipTrivia r pos with
  | case3 r pos r₁ pos₁ hwhite r₂ r₃ pos₃ hcomment hbyte ih =>
    obtain ⟨r₄, hpeek, hle⟩ := ih h
    have hlt := size_skipComment_lt hbyte hcomment
    exact ⟨r₄, hpeek, by have := size_skipWhitespace_le hwhite; omega⟩
  | case5 r pos r₁ pos₁ hwhite r₂ r₃ pos₃ hline hbyte _ ih =>
    obtain ⟨r₄, hpeek, hle⟩ := ih h
    have hlt := size_skipLine_lt hbyte hline
    exact ⟨r₄, hpeek, by have := size_skipWhitespace_le hwhite; omega⟩
  | case6 r pos r₁ pos₁ hwhite b r₂ hbyte =>
    cases h
    exact ⟨r₁, hbyte, size_skipWhitespace_le hwhite⟩
  | _ => cases h

/-- Taking a run leaves no more than there was. -/
theorem size_takeRun_le {run : Run} {lexeme : Array UInt8}
    (h : takeRun r pos run lexeme = .ok (kind, r', pos')) : size r' ≤ size r := by
  fun_induction takeRun r pos run lexeme with
  | case1 r pos run lexeme b r₁ hpeek run' hnext ih =>
    exact Nat.le_of_lt (Nat.lt_of_le_of_lt (ih h) (size_bump_lt hpeek))
  | case2 r pos run lexeme b r₁ hpeek hnext =>
    cases h
    exact Nat.le_of_eq (size_of_byte hpeek)
  | case3 r pos run lexeme r₁ hpeek =>
    cases h
    rw [size, (unread_of_finished hpeek).2]
    exact Nat.zero_le _
  | case4 => cases h

/-- Taking a string leaves no more than there was. -/
theorem size_takeContent_le {content : Array UInt8}
    (h : takeContent start r pos content = .ok (kind, r', pos')) : size r' ≤ size r := by
  fun_induction takeContent start r pos content with
  | case1 r pos content r₁ hpeek =>
    cases h
    exact Nat.le_of_lt (size_bump_lt hpeek)
  | case2 r pos content b r₁ hpeek hquote ih =>
    exact Nat.le_of_lt (Nat.lt_of_le_of_lt (ih h) (size_bump_lt hpeek))
  | _ => cases h

/-- A token takes away the byte that has been looked at. -/
theorem size_takeToken_lt (hpeek : peek r = .byte b r') {r'' : ρ}
    (h : takeToken r' start b = .ok (kind, r'', pos')) : size r'' < size r := by
  unfold takeToken at h
  split at h
  · exact Nat.lt_of_le_of_lt (size_takeRun_le h) (size_bump_lt hpeek)
  · split at h
    · exact Nat.lt_of_le_of_lt (size_takeContent_le h) (size_bump_lt hpeek)
    · split at h
      · cases h
        exact size_bump_lt hpeek
      · cases h

/-- After a token there is less to read, so that reading tokens comes to an end. -/
theorem size_scanToken_lt {t : Token} (h : scanToken r pos = .token t r' pos') :
    size r' < size r := by
  unfold scanToken at h
  split at h
  · cases h
  · cases h
  · next b r₁ start htrivia =>
    obtain ⟨r₂, hpeek, hle⟩ := peek_of_skipTrivia htrivia
    split at h
    · next kind r₃ pos₃ htoken =>
      cases h
      exact Nat.lt_of_lt_of_le (size_takeToken_lt hpeek htoken) hle
    · cases h

end Size

/-- All tokens from a position on. Source: `advance`. -/
def lexFrom (r : ρ) (pos : Position) : TokenStream :=
  match _ : scanToken r pos with
  | .token t r' pos' =>
    let later := lexFrom r' pos'
    ⟨t :: later.tokens, later.stop⟩
  | .finished pos => ⟨[], .finished pos⟩
  | .failed error => ⟨[], .failed error⟩
termination_by size r
decreasing_by exact size_scanToken_lt ‹_›

/-- All tokens that can be pulled from a reader. -/
def lex (r : ρ) : TokenStream := lexFrom r .start

end Midl.Reader
