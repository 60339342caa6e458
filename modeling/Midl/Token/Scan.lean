import Midl.Error
import Midl.Source
import Midl.Token.Run

/-!
# Finding the next token

`scan` reads one token off the front of what is left of a source. It first skips *trivia*: blanks,
comments from `//` to the end of the line, and preprocessor lines from `#` to the end of the line.
The byte after the trivia decides what follows.

No more than one byte beyond a token is ever looked at, and that only after a literal run, whose
end cannot be known otherwise. Where a source ends in a failure, looking at the missing byte gives
the failure instead of a token.
-/

namespace Midl

/-- What is left of a source, and where it begins. Source: `Cursor`. -/
structure Cursor where
  /-- The position of the first byte that is left. -/
  pos : Position
  /-- The bytes that are left. -/
  rest : List UInt8
deriving DecidableEq

namespace Cursor

/-- The cursor at the beginning of a stretch of bytes. -/
def start (bytes : List UInt8) : Cursor := ⟨.start, bytes⟩

/-- Skips trivia. `inLine` tells that a comment or a preprocessor line has begun, in which case
everything up to and including the next line feed is skipped. A slash is left alone unless another
slash follows. Source: `skip_trivia`. -/
def dropTrivia (inLine : Bool) (pos : Position) : List UInt8 → Cursor
  | [] => ⟨pos, []⟩
  | b :: bs =>
    if inLine then dropTrivia (b ≠ '\n'.toUInt8) (pos.after b) bs
    else if Byte.isBlank b then dropTrivia false (pos.after b) bs
    else if b = '#'.toUInt8 || (b = '/'.toUInt8 && bs.head? = some '/'.toUInt8) then
      dropTrivia true (pos.after b) bs
    else ⟨pos, b :: bs⟩

/-- Skipping trivia leaves no more than there was. -/
theorem dropTrivia_length_le (inLine : Bool) (pos : Position) (bs : List UInt8) :
    (dropTrivia inLine pos bs).rest.length ≤ bs.length := by
  induction bs generalizing inLine pos with
  | nil => simp [dropTrivia]
  | cons b bs ih =>
    unfold dropTrivia
    split
    · exact Nat.le_succ_of_le (ih ..)
    · split
      · exact Nat.le_succ_of_le (ih ..)
      · split
        · exact Nat.le_succ_of_le (ih ..)
        · simp

end Cursor

/-- The outcome of looking for a token. -/
inductive Step where
  /-- A token, and what is left after it. -/
  | token (token : Token) (rest : Cursor)
  /-- The source is over; the position is that of its end. -/
  | finished (pos : Position)
  /-- No token can be read. -/
  | failed (error : LexError)
deriving DecidableEq

namespace Ending

/-- What becomes of a step that had to look beyond the last byte: the failure if reading on
fails, and otherwise `atEnd`. -/
def orFailure (ending : Ending) (atEnd : Step) : Step :=
  match ending with
  | .eof => atEnd
  | .failure message => .failed (.readFailure message)

/-- A step that had to look at one byte beyond `rest`'s beginning, which is there or is not. -/
def lookAt (ending : Ending) (rest : List UInt8) (step : Step) : Step :=
  match rest with
  | [] => ending.orFailure step
  | _ :: _ => step

end Ending

/-- Reads the literal run that begins with `b`. Source: `take_literal`. -/
def scanRun (ending : Ending) (pos : Position) (b : UInt8) (bs : List UInt8) : Step :=
  let extent := (Run.ofByte b).follow bs
  let lexeme := b :: extent.taken
  ending.lookAt extent.rest
    (.token ⟨extent.run.kind (Byte.text lexeme), pos⟩ ⟨pos.advance lexeme, extent.rest⟩)

/-- Reads the string whose opening quote stands at `pos` and is followed by `bs`. Source:
`take_string`. -/
def scanString (ending : Ending) (pos : Position) (bs : List UInt8) : Step :=
  let content := bs.takeWhile (· ≠ Byte.quote)
  match bs.dropWhile (· ≠ Byte.quote) with
  | [] => ending.orFailure (.failed (.unterminatedString pos))
  | close :: rest =>
    .token ⟨.string (Utf8.text content), pos⟩
      ⟨pos.advance (Byte.quote :: content ++ [close]), rest⟩

/-- Reads one token. Source: `scan_token`. -/
def scan (ending : Ending) (cursor : Cursor) : Step :=
  let ⟨pos, rest⟩ := Cursor.dropTrivia false cursor.pos cursor.rest
  match rest with
  | [] => ending.orFailure (.finished pos)
  | b :: bs =>
    if b = '/'.toUInt8 then ending.lookAt bs (.failed (.malformedComment pos))
    else if Byte.isLiteral b then scanRun ending pos b bs
    else if b = Byte.quote then scanString ending pos bs
    else match Mark.ofByte? b with
      | some mark => .token ⟨.mark mark, pos⟩ ⟨pos.after b, bs⟩
      | none => .failed (.unexpectedChar (Byte.toChar b) pos)

namespace Ending

/-- A token does not come from looking beyond the last byte. -/
theorem orFailure_eq_token {ending : Ending} {step : Step} {t : Token} {c : Cursor}
    (h : ending.orFailure step = .token t c) : step = .token t c := by
  cases ending with
  | eof => exact h
  | failure _ => simp [orFailure] at h

/-- If a step gives a token although it had to look at one more byte, then that byte made no
difference. -/
theorem lookAt_eq_token {ending : Ending} {rest : List UInt8} {step : Step} {t : Token}
    {c : Cursor} (h : ending.lookAt rest step = .token t c) : step = .token t c := by
  cases rest with
  | nil => exact orFailure_eq_token h
  | cons _ _ => exact h

end Ending

/-- A run takes at least the byte it begins with. -/
theorem scanRun_length_lt {ending : Ending} {pos : Position} {b : UInt8} {bs : List UInt8}
    {t : Token} {c : Cursor} (h : scanRun ending pos b bs = .token t c) :
    c.rest.length < (b :: bs).length := by
  have hc := Ending.lookAt_eq_token h
  injection hc with _ hc
  have := congrArg List.length ((Run.ofByte b).follow_append bs)
  simp only [List.length_append] at this
  subst hc
  simp only [List.length_cons]
  omega

/-- A string takes at least the quote that closes it. -/
theorem scanString_length_lt {ending : Ending} {pos : Position} {bs : List UInt8}
    {t : Token} {c : Cursor} (h : scanString ending pos bs = .token t c) :
    c.rest.length < bs.length := by
  unfold scanString at h
  split at h
  · exact absurd (Ending.orFailure_eq_token h) (by simp)
  · next close rest hd =>
    injection h with _ hc
    subst hc
    have := congrArg List.length (List.takeWhile_append_dropWhile (p := (· ≠ Byte.quote)) (l := bs))
    simp only [hd, List.length_append, List.length_cons] at this
    show rest.length < bs.length
    omega

/-- A token takes at least one byte, so that reading tokens comes to an end. -/
theorem scan_length_lt {ending : Ending} {cursor : Cursor} {t : Token} {c : Cursor}
    (h : scan ending cursor = .token t c) : c.rest.length < cursor.rest.length := by
  have hle := Cursor.dropTrivia_length_le false cursor.pos cursor.rest
  unfold scan at h
  generalize Cursor.dropTrivia false cursor.pos cursor.rest = after at h hle
  obtain ⟨pos, rest⟩ := after
  cases rest with
  | nil => exact absurd (Ending.orFailure_eq_token h) (by simp)
  | cons b bs =>
    simp only [List.length_cons] at hle
    simp only at h
    split at h
    · exact absurd (Ending.lookAt_eq_token h) (by simp)
    · split at h
      · exact Nat.lt_of_lt_of_le (scanRun_length_lt h) (by simpa using hle)
      · split at h
        · have := scanString_length_lt h
          omega
        · split at h
          · injection h with _ hc
            subst hc
            show bs.length < cursor.rest.length
            omega
          · simp at h

end Midl
