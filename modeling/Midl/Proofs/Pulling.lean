import Midl.Proofs.Lexing
import Midl.Token.Pull

/-!
# Pulling tokens finds the tokens of a source

A reader hands out its bytes in pieces, and reads can be interrupted. Nothing of that is left in the
tokens: pulling tokens from a reader gives the tokens of the source that the reader has not handed
out yet (`lex_eq`). So two readers with the same source give the same tokens.

Each function that pulls is matched with what it finds in the bytes. Where it ends well, the bytes
and the position it has come to are told; where it ends in an error, that error is the outcome of
`scan`.
-/

namespace Midl.Reader

variable {ρ : Type} [Reader ρ] {r r' r'' : ρ} {pos pos' : Position} {b : UInt8} {error : LexError}

open Cursor (dropTrivia)

/-! ## Trivia -/

/-- A blank is skipped. -/
theorem dropTrivia_blank (h : Byte.isBlank b = true) (bs : List UInt8) :
    dropTrivia false pos (b :: bs) = dropTrivia false (pos.after b) bs := by
  simp [dropTrivia, h]

/-- In a line that is skipped, a byte is skipped, and a line feed ends the line. -/
theorem dropTrivia_line (bs : List UInt8) :
    dropTrivia true pos (b :: bs) = dropTrivia (b ≠ '\n'.toUInt8) (pos.after b) bs := by
  rw [dropTrivia, if_pos rfl]

/-- A number sign begins a line that is skipped. -/
theorem dropTrivia_hash (bs : List UInt8) :
    dropTrivia false pos ('#'.toUInt8 :: bs) = dropTrivia true pos ('#'.toUInt8 :: bs) := by
  have hblank : Byte.isBlank '#'.toUInt8 = false := by decide
  have hfeed : '#'.toUInt8 ≠ '\n'.toUInt8 := by decide
  simp [dropTrivia, hblank, hfeed]

/-- Two slashes begin a line that is skipped. -/
theorem dropTrivia_comment (bs : List UInt8) :
    dropTrivia false pos ('/'.toUInt8 :: '/'.toUInt8 :: bs) =
      dropTrivia true (pos.after '/'.toUInt8) ('/'.toUInt8 :: bs) := by
  have hblank : Byte.isBlank '/'.toUInt8 = false := by decide
  rw [dropTrivia]
  simp [hblank]

/-- A lone slash is an error, unless the byte after it cannot be read. -/
theorem scan_slash {ending : Ending} {bs : List UInt8} (h : bs.head? ≠ some '/'.toUInt8) :
    scan ending ⟨pos, '/'.toUInt8 :: bs⟩ = ending.lookAt bs (.failed (.malformedComment pos)) := by
  have hblank : Byte.isBlank '/'.toUInt8 = false := by decide
  have hhash : '/'.toUInt8 ≠ '#'.toUInt8 := by decide
  have hdrop : dropTrivia false pos ('/'.toUInt8 :: bs) = ⟨pos, '/'.toUInt8 :: bs⟩ := by
    rw [dropTrivia]
    simp [hblank, hhash, h]
  rw [scan, hdrop]
  exact if_pos rfl

/-- Any other byte is none of trivia. -/
theorem dropTrivia_significant (hblank : Byte.isBlank b = false) (hhash : b ≠ '#'.toUInt8)
    (hslash : b ≠ '/'.toUInt8) (bs : List UInt8) :
    dropTrivia false pos (b :: bs) = ⟨pos, b :: bs⟩ := by
  simp [dropTrivia, hblank, hhash, hslash]

/-- What is scanned is what comes after trivia. -/
theorem scan_congr {bs bs' : List UInt8}
    (h : dropTrivia false pos bs = dropTrivia false pos' bs') (ending : Ending) :
    scan ending ⟨pos, bs⟩ = scan ending ⟨pos', bs'⟩ := by
  rw [scan, scan, h]

/-- Where nothing but trivia is left, a failure to read is met. -/
theorem scan_of_dropTrivia_nil {message : String} {cursor : Cursor}
    (h : (dropTrivia false cursor.pos cursor.rest).rest = []) :
    scan (.failure message) cursor = .failed (.readFailure message) := by
  unfold scan
  generalize dropTrivia false cursor.pos cursor.rest = after at h
  obtain ⟨pos, rest⟩ := after
  obtain rfl : rest = [] := h
  rfl

/-- Skipping blanks comes to a byte that is not one, or to the end. -/
theorem skipWhitespace_ok (h : skipWhitespace r pos = .ok (r', pos')) :
    dropTrivia false pos (unread r).bytes = dropTrivia false pos' (unread r').bytes ∧
    (unread r').ending = (unread r).ending ∧
    ∀ c more, (unread r').bytes = c :: more → Byte.isBlank c = false := by
  fun_induction skipWhitespace r pos with
  | case1 r pos b r₁ hpeek hblank ih =>
    obtain ⟨more, hnext, -, hbump⟩ := unread_of_byte hpeek
    obtain ⟨hdrop, hending, hblanks⟩ := ih h
    rw [hbump] at hdrop hending
    rw [hnext, dropTrivia_blank hblank]
    exact ⟨hdrop, hending, hblanks⟩
  | case2 r pos b r₁ hpeek hblank =>
    cases h
    obtain ⟨more, hnext, hsame, -⟩ := unread_of_byte hpeek
    rw [hsame, hnext]
    refine ⟨rfl, rfl, fun c more' hbytes => ?_⟩
    obtain ⟨rfl, -⟩ := List.cons.inj hbytes
    simpa using hblank
  | case3 r pos r₁ hpeek =>
    cases h
    obtain ⟨hend, hend'⟩ := unread_of_finished hpeek
    rw [hend, hend']
    exact ⟨rfl, rfl, fun c more hbytes => by cases hbytes⟩
  | case4 => cases h

/-- Blanks cannot be skipped where nothing but blanks is left and reading fails. -/
theorem skipWhitespace_error (h : skipWhitespace r pos = .error error) :
    ∃ message, error = .readFailure message ∧ (unread r).ending = .failure message ∧
      (dropTrivia false pos (unread r).bytes).rest = [] := by
  fun_induction skipWhitespace r pos with
  | case1 r pos b r₁ hpeek hblank ih =>
    obtain ⟨more, hnext, -, hbump⟩ := unread_of_byte hpeek
    obtain ⟨message, herror, hending, hrest⟩ := ih h
    rw [hbump] at hending hrest
    rw [hnext, dropTrivia_blank hblank]
    exact ⟨message, herror, hending, hrest⟩
  | case4 r pos message hpeek =>
    cases h
    rw [unread_of_failed hpeek]
    exact ⟨message, rfl, rfl, rfl⟩
  | _ => cases h

/-- Skipping a line comes to the next one, or to the end. -/
theorem skipLine_ok (h : skipLine r pos = .ok (r', pos')) :
    dropTrivia true pos (unread r).bytes = dropTrivia false pos' (unread r').bytes ∧
    (unread r').ending = (unread r).ending := by
  fun_induction skipLine r pos with
  | case1 r pos r₁ hpeek =>
    cases h
    obtain ⟨more, hnext, -, hbump⟩ := unread_of_byte hpeek
    rw [hbump, hnext, dropTrivia_line]
    exact ⟨rfl, rfl⟩
  | case2 r pos b r₁ hpeek hfeed ih =>
    obtain ⟨more, hnext, -, hbump⟩ := unread_of_byte hpeek
    have hrest := ih h
    rw [hbump] at hrest
    rw [hnext, dropTrivia_line]
    simpa [hfeed] using hrest
  | case3 r pos r₁ hpeek =>
    cases h
    obtain ⟨hend, hend'⟩ := unread_of_finished hpeek
    rw [hend, hend']
    exact ⟨rfl, rfl⟩
  | case4 => cases h

/-- A line cannot be skipped where it does not end and reading fails. -/
theorem skipLine_error (h : skipLine r pos = .error error) :
    ∃ message, error = .readFailure message ∧ (unread r).ending = .failure message ∧
      (dropTrivia true pos (unread r).bytes).rest = [] := by
  fun_induction skipLine r pos with
  | case2 r pos b r₁ hpeek hfeed ih =>
    obtain ⟨more, hnext, -, hbump⟩ := unread_of_byte hpeek
    have hrest := ih h
    rw [hbump] at hrest
    rw [hnext, dropTrivia_line]
    simpa [hfeed] using hrest
  | case4 r pos message hpeek =>
    cases h
    rw [unread_of_failed hpeek]
    exact ⟨message, rfl, rfl, rfl⟩
  | _ => cases h

/-- Skipping a comment, like skipping a preprocessor line, comes to the next line. -/
theorem skipComment_ok (hpeek : peek r = .byte '/'.toUInt8 r')
    (h : skipComment r' pos = .ok (r'', pos')) :
    dropTrivia false pos (unread r).bytes = dropTrivia false pos' (unread r'').bytes ∧
    (unread r'').ending = (unread r).ending := by
  obtain ⟨more, hnext, -, hbump⟩ := unread_of_byte hpeek
  unfold skipComment at h
  cases hsecond : peek (bump r') with
  | byte c r₁ =>
    simp only [hsecond] at h
    split at h
    · next hslash =>
      obtain ⟨later, hnext', hsame, -⟩ := unread_of_byte hsecond
      obtain ⟨hdrop, hending⟩ := skipLine_ok h
      rw [hsame, hbump] at hdrop hending
      rw [hbump] at hnext'
      obtain ⟨rfl, -⟩ := Source.mk.inj hnext'
      subst hslash
      rw [hnext, dropTrivia_comment]
      exact ⟨hdrop, hending⟩
    · cases h
  | finished r₁ =>
    rw [hsecond] at h
    cases h
  | failed message =>
    rw [hsecond] at h
    cases h

/-- A comment that cannot be skipped is what is found. -/
theorem skipComment_error (hpeek : peek r = .byte '/'.toUInt8 r')
    (h : skipComment r' pos = .error error) :
    scan (unread r).ending ⟨pos, (unread r).bytes⟩ = .failed error := by
  obtain ⟨more, hnext, -, hbump⟩ := unread_of_byte hpeek
  unfold skipComment at h
  cases hsecond : peek (bump r') with
  | byte c r₁ =>
    simp only [hsecond] at h
    obtain ⟨later, hnext', hsame, -⟩ := unread_of_byte hsecond
    rw [hbump] at hnext' hsame
    obtain ⟨rfl, -⟩ := Source.mk.inj hnext'
    split at h
    · next hslash =>
      obtain ⟨message, rfl, hending, hrest⟩ := skipLine_error h
      rw [hsame] at hending hrest
      subst hslash
      rw [show (unread r).ending = .failure message from hending]
      refine scan_of_dropTrivia_nil ?_
      rw [hnext, dropTrivia_comment]
      exact hrest
    · next hslash =>
      obtain rfl := Except.error.inj h
      rw [hnext, scan_slash (by simpa using hslash)]
      rfl
  | finished r₁ =>
    rw [hsecond] at h
    obtain rfl := Except.error.inj h
    obtain ⟨hend, -⟩ := unread_of_finished hsecond
    obtain ⟨rfl, hending⟩ := Source.mk.inj (hbump.symm.trans hend)
    rw [hnext, scan_slash (by simp), hending]
    rfl
  | failed message =>
    rw [hsecond] at h
    obtain rfl := Except.error.inj h
    obtain ⟨rfl, hending⟩ := Source.mk.inj (hbump.symm.trans (unread_of_failed hsecond))
    rw [hnext, scan_slash (by simp), hending]
    rfl

/-- Skipping a preprocessor line comes to the next line. -/
theorem skipHash_ok (hpeek : peek r = .byte '#'.toUInt8 r')
    (h : skipLine r' pos = .ok (r'', pos')) :
    dropTrivia false pos (unread r).bytes = dropTrivia false pos' (unread r'').bytes ∧
    (unread r'').ending = (unread r).ending := by
  obtain ⟨more, hnext, hsame, -⟩ := unread_of_byte hpeek
  obtain ⟨hline, hending⟩ := skipLine_ok h
  rw [hsame] at hline hending
  refine ⟨?_, hending⟩
  rw [← hline, hnext]
  exact dropTrivia_hash more

/-- A preprocessor line cannot be skipped where it does not end and reading fails. -/
theorem skipHash_error (hpeek : peek r = .byte '#'.toUInt8 r')
    (h : skipLine r' pos = .error error) :
    scan (unread r).ending ⟨pos, (unread r).bytes⟩ = .failed error := by
  obtain ⟨more, hnext, hsame, -⟩ := unread_of_byte hpeek
  obtain ⟨message, rfl, hending, hrest⟩ := skipLine_error h
  rw [hsame] at hending hrest
  rw [hending]
  refine scan_of_dropTrivia_nil ?_
  rw [hnext] at hrest ⊢
  rw [dropTrivia_hash]
  exact hrest

/-- After trivia there is a byte that begins no trivia, and it can be taken away. -/
theorem skipTrivia_some (h : skipTrivia r pos = .ok (some b, r', pos')) :
    ∃ more, dropTrivia false pos (unread r).bytes = ⟨pos', b :: more⟩ ∧ b ≠ '/'.toUInt8 ∧
      unread (bump r') = ⟨more, (unread r).ending⟩ := by
  fun_induction skipTrivia r pos with
  | case3 r pos r₁ pos₁ hwhite r₂ r₃ pos₃ hcomment hbyte ih =>
    obtain ⟨hblanks, hending, -⟩ := skipWhitespace_ok hwhite
    obtain ⟨hline, hending'⟩ := skipComment_ok hbyte hcomment
    rw [hblanks, hline, ← hending, ← hending']
    exact ih h
  | case5 r pos r₁ pos₁ hwhite r₂ r₃ pos₃ hskip hbyte _ ih =>
    obtain ⟨hblanks, hending, -⟩ := skipWhitespace_ok hwhite
    obtain ⟨hline, hending'⟩ := skipHash_ok hbyte hskip
    rw [hblanks, hline, ← hending, ← hending']
    exact ih h
  | case6 r pos r₁ pos₁ hwhite b r₂ hbyte hslash hhash =>
    cases h
    obtain ⟨hblanks, hending, hblank⟩ := skipWhitespace_ok hwhite
    obtain ⟨more, hnext, hsame, hbump⟩ := unread_of_byte hbyte
    have hsignificant := hblank b more (congrArg Source.bytes hnext)
    refine ⟨more, ?_, hslash, hbump.trans (by rw [hending])⟩
    rw [hblanks, hnext]
    exact dropTrivia_significant hsignificant hhash hslash more
  | _ => cases h

/-- If there is no byte after trivia, then the input is over. -/
theorem skipTrivia_none (h : skipTrivia r pos = .ok (none, r', pos')) :
    dropTrivia false pos (unread r).bytes = ⟨pos', []⟩ ∧ (unread r).ending = .eof := by
  fun_induction skipTrivia r pos with
  | case3 r pos r₁ pos₁ hwhite r₂ r₃ pos₃ hcomment hbyte ih =>
    obtain ⟨hblanks, hending, -⟩ := skipWhitespace_ok hwhite
    obtain ⟨hline, hending'⟩ := skipComment_ok hbyte hcomment
    rw [hblanks, hline, ← hending, ← hending']
    exact ih h
  | case5 r pos r₁ pos₁ hwhite r₂ r₃ pos₃ hskip hbyte _ ih =>
    obtain ⟨hblanks, hending, -⟩ := skipWhitespace_ok hwhite
    obtain ⟨hline, hending'⟩ := skipHash_ok hbyte hskip
    rw [hblanks, hline, ← hending, ← hending']
    exact ih h
  | case7 r pos r₁ pos₁ hwhite r₂ hend =>
    cases h
    obtain ⟨hblanks, hending, -⟩ := skipWhitespace_ok hwhite
    rw [hblanks, ← hending, (unread_of_finished hend).1]
    exact ⟨rfl, rfl⟩
  | _ => cases h

/-- Trivia that cannot be skipped are what is found. -/
theorem skipTrivia_error (h : skipTrivia r pos = .error error) :
    scan (unread r).ending ⟨pos, (unread r).bytes⟩ = .failed error := by
  fun_induction skipTrivia r pos with
  | case1 r pos error' hwhite =>
    cases h
    obtain ⟨message, rfl, hending, hrest⟩ := skipWhitespace_error hwhite
    rw [hending]
    exact scan_of_dropTrivia_nil hrest
  | case2 r pos r₁ pos₁ hwhite r₂ error' hcomment hbyte =>
    cases h
    obtain ⟨hblanks, hending, -⟩ := skipWhitespace_ok hwhite
    rw [← hending, scan_congr hblanks]
    exact skipComment_error hbyte hcomment
  | case3 r pos r₁ pos₁ hwhite r₂ r₃ pos₃ hcomment hbyte ih =>
    obtain ⟨hblanks, hending, -⟩ := skipWhitespace_ok hwhite
    obtain ⟨hline, hending'⟩ := skipComment_ok hbyte hcomment
    rw [← hending, ← hending', scan_congr (hblanks.trans hline)]
    exact ih h
  | case4 r pos r₁ pos₁ hwhite r₂ error' hskip hbyte =>
    cases h
    obtain ⟨hblanks, hending, -⟩ := skipWhitespace_ok hwhite
    rw [← hending, scan_congr hblanks]
    exact skipHash_error hbyte hskip
  | case5 r pos r₁ pos₁ hwhite r₂ r₃ pos₃ hskip hbyte _ ih =>
    obtain ⟨hblanks, hending, -⟩ := skipWhitespace_ok hwhite
    obtain ⟨hline, hending'⟩ := skipHash_ok hbyte hskip
    rw [← hending, ← hending', scan_congr (hblanks.trans hline)]
    exact ih h
  | case8 r pos r₁ pos₁ hwhite message hfailed =>
    cases h
    obtain ⟨hblanks, hending, -⟩ := skipWhitespace_ok hwhite
    rw [← hending, scan_congr hblanks, unread_of_failed hfailed]
    rfl
  | _ => cases h

/-! ## Literal runs and strings -/

/-- Taking a run goes as far as the run does. -/
theorem takeRun_ok {run : Run} {lexeme : Array UInt8} {kind : TokenKind}
    (h : takeRun r pos run lexeme = .ok (kind, r', pos')) :
    kind = (run.follow (unread r).bytes).run.kind
      (Byte.text (lexeme.toList ++ (run.follow (unread r).bytes).taken)) ∧
    unread r' = ⟨(run.follow (unread r).bytes).rest, (unread r).ending⟩ ∧
    pos' = pos.advance (run.follow (unread r).bytes).taken ∧
    ((run.follow (unread r).bytes).rest = [] → (unread r).ending = .eof) := by
  fun_induction takeRun r pos run lexeme with
  | case1 r pos run lexeme b r₁ hpeek run' hnext ih =>
    obtain ⟨more, hunread, -, hbump⟩ := unread_of_byte hpeek
    have hfollow : run.follow (b :: more) =
        ⟨(run'.follow more).run, b :: (run'.follow more).taken, (run'.follow more).rest⟩ := by
      rw [Run.follow, hnext]
    have hrest := ih h
    rw [hbump] at hrest
    rw [hunread, hfollow]
    simpa using hrest
  | case2 r pos run lexeme b r₁ hpeek hnext =>
    cases h
    obtain ⟨more, hunread, hsame, -⟩ := unread_of_byte hpeek
    have hfollow : run.follow (b :: more) = ⟨run, [], b :: more⟩ := by
      rw [Run.follow, hnext]
    rw [hsame, hunread, hfollow]
    simp
  | case3 r pos run lexeme r₁ hpeek =>
    cases h
    obtain ⟨hend, hend'⟩ := unread_of_finished hpeek
    rw [hend, hend']
    simp [Run.follow]
  | case4 => cases h

/-- A run cannot be taken where reading fails before it ends. -/
theorem takeRun_error {run : Run} {lexeme : Array UInt8}
    (h : takeRun r pos run lexeme = .error error) :
    ∃ message, error = .readFailure message ∧ (unread r).ending = .failure message ∧
      (run.follow (unread r).bytes).rest = [] := by
  fun_induction takeRun r pos run lexeme with
  | case1 r pos run lexeme b r₁ hpeek run' hnext ih =>
    obtain ⟨more, hunread, -, hbump⟩ := unread_of_byte hpeek
    have hrest := ih h
    rw [hbump] at hrest
    rw [hunread, Run.follow, hnext]
    exact hrest
  | case4 r pos run lexeme message hpeek =>
    cases h
    rw [unread_of_failed hpeek]
    exact ⟨message, rfl, rfl, rfl⟩
  | _ => cases h

/-- Taking a string goes as far as the next quote. -/
theorem takeContent_ok {start : Position} {content : Array UInt8} {kind : TokenKind}
    (h : takeContent start r pos content = .ok (kind, r', pos')) :
    ∃ rest, (unread r).bytes.dropWhile (· ≠ Byte.quote) = Byte.quote :: rest ∧
      kind = .string (Utf8.text
        (content.toList ++ (unread r).bytes.takeWhile (· ≠ Byte.quote))) ∧
      unread r' = ⟨rest, (unread r).ending⟩ ∧
      pos' = pos.advance ((unread r).bytes.takeWhile (· ≠ Byte.quote) ++ [Byte.quote]) := by
  fun_induction takeContent start r pos content with
  | case1 r pos content r₁ hpeek =>
    cases h
    obtain ⟨more, hunread, -, hbump⟩ := unread_of_byte hpeek
    rw [hunread, hbump]
    exact ⟨more, by simp⟩
  | case2 r pos content b r₁ hpeek hquote ih =>
    obtain ⟨more, hunread, -, hbump⟩ := unread_of_byte hpeek
    obtain ⟨rest, hdrop, hkind, hunread', hpos⟩ := ih h
    rw [hbump] at hdrop hkind hunread' hpos
    rw [hunread]
    refine ⟨rest, ?_, ?_, hunread', ?_⟩
    · simpa [hquote] using hdrop
    · simpa [hquote] using hkind
    · simpa [hquote] using hpos
  | _ => cases h

/-- A string cannot be taken where there is no further quote. -/
theorem takeContent_error {start : Position} {content : Array UInt8}
    (h : takeContent start r pos content = .error error) :
    (unread r).bytes.dropWhile (· ≠ Byte.quote) = [] ∧
      (unread r).ending.orFailure (.failed (.unterminatedString start)) = .failed error := by
  fun_induction takeContent start r pos content with
  | case1 => cases h
  | case2 r pos content b r₁ hpeek hquote ih =>
    obtain ⟨more, hunread, -, hbump⟩ := unread_of_byte hpeek
    obtain ⟨hdrop, hfailed⟩ := ih h
    rw [hbump] at hdrop hfailed
    rw [hunread]
    exact ⟨by simpa [hquote] using hdrop, hfailed⟩
  | case3 r pos content r₁ hpeek =>
    cases h
    rw [(unread_of_finished hpeek).1]
    exact ⟨rfl, rfl⟩
  | case4 r pos content message hpeek =>
    cases h
    rw [unread_of_failed hpeek]
    exact ⟨rfl, rfl⟩

/-! ## Tokens -/

section Tokens

variable {more : List UInt8} {ending : Ending} {kind : TokenKind} {start : Position}

/-- What begins with a byte after trivia is found by taking it. -/
theorem takeToken_ok (hdrop : dropTrivia false pos (unread r).bytes = ⟨start, b :: more⟩)
    (hslash : b ≠ '/'.toUInt8) (hbump : unread (bump r') = ⟨more, (unread r).ending⟩)
    (h : takeToken r' start b = .ok (kind, r'', pos')) :
    scan (unread r).ending ⟨pos, (unread r).bytes⟩ =
      .token ⟨kind, start⟩ ⟨pos', (unread r'').bytes⟩ ∧
    (unread r'').ending = (unread r).ending := by
  rw [scan, hdrop]
  simp only [hslash, if_false]
  unfold takeToken at h
  split at h
  · next hliteral =>
    obtain ⟨hkind, hunread, hpos, hending⟩ := takeRun_ok h
    rw [hbump] at hkind hunread hpos hending
    rw [if_pos hliteral, scanRun, hunread, hkind, hpos]
    refine ⟨?_, rfl⟩
    cases hrest : ((Run.ofByte b).follow more).rest with
    | nil =>
      rw [hending hrest]
      simp [Ending.lookAt, Ending.orFailure]
    | cons c rest => simp [Ending.lookAt]
  · next hliteral =>
    rw [if_neg hliteral]
    split at h
    · next hquote =>
      obtain ⟨rest, hcontent, hkind, hunread, hpos⟩ := takeContent_ok h
      rw [hbump] at hcontent hkind hunread hpos
      rw [if_pos hquote, scanString, hcontent, hunread, hkind, hpos]
      exact ⟨by simp, rfl⟩
    · next hquote =>
      rw [if_neg hquote]
      cases hmark : Mark.ofByte? b with
      | none => simp [hmark] at h
      | some mark =>
        simp only [hmark] at h
        cases h
        rw [hbump]
        exact ⟨rfl, rfl⟩

/-- What cannot be taken is an error. -/
theorem takeToken_error (hdrop : dropTrivia false pos (unread r).bytes = ⟨start, b :: more⟩)
    (hslash : b ≠ '/'.toUInt8) (hbump : unread (bump r') = ⟨more, (unread r).ending⟩)
    (h : takeToken r' start b = .error error) :
    scan (unread r).ending ⟨pos, (unread r).bytes⟩ = .failed error := by
  rw [scan, hdrop]
  simp only [hslash, if_false]
  unfold takeToken at h
  split at h
  · next hliteral =>
    obtain ⟨message, rfl, hending, hrest⟩ := takeRun_error h
    rw [hbump] at hending hrest
    rw [if_pos hliteral, scanRun, hrest, show (unread r).ending = .failure message from hending]
    rfl
  · next hliteral =>
    rw [if_neg hliteral]
    split at h
    · next hquote =>
      obtain ⟨hcontent, hfailed⟩ := takeContent_error h
      rw [hbump] at hcontent hfailed
      rw [if_pos hquote, scanString, hcontent]
      exact hfailed
    · next hquote =>
      rw [if_neg hquote]
      cases hmark : Mark.ofByte? b with
      | none =>
        simp only [hmark] at h
        rw [Except.error.inj h]
      | some mark => simp [hmark] at h

end Tokens

/-- Taking a token from a reader finds the token at the front of what it has not handed out. -/
theorem scanToken_token {t : Token} (h : scanToken r pos = .token t r' pos') :
    scan (unread r).ending ⟨pos, (unread r).bytes⟩ = .token t ⟨pos', (unread r').bytes⟩ ∧
    (unread r').ending = (unread r).ending := by
  unfold scanToken at h
  split at h
  · cases h
  · cases h
  · next b r₁ start htrivia =>
    obtain ⟨more, hdrop, hslash, hbump⟩ := skipTrivia_some htrivia
    split at h
    · next kind r₂ pos₂ htoken =>
      cases h
      exact takeToken_ok hdrop hslash hbump htoken
    · cases h

/-- It comes to the end where the source does. -/
theorem scanToken_finished (h : scanToken r pos = .finished pos') :
    scan (unread r).ending ⟨pos, (unread r).bytes⟩ = .finished pos' := by
  unfold scanToken at h
  split at h
  · cases h
  · next r₁ start htrivia =>
    cases h
    obtain ⟨hdrop, hending⟩ := skipTrivia_none htrivia
    rw [scan, hdrop, hending]
    rfl
  · split at h
    · cases h
    · cases h

/-- It fails where no token is found, with the same error. -/
theorem scanToken_failed (h : scanToken r pos = .failed error) :
    scan (unread r).ending ⟨pos, (unread r).bytes⟩ = .failed error := by
  unfold scanToken at h
  split at h
  · next error' htrivia =>
    cases h
    exact skipTrivia_error htrivia
  · cases h
  · next b r₁ start htrivia =>
    obtain ⟨more, hdrop, hslash, hbump⟩ := skipTrivia_some htrivia
    split at h
    · cases h
    · next error' htoken =>
      cases h
      exact takeToken_error hdrop hslash hbump htoken

/-- Pulling tokens from a position on finds those of what the reader has not handed out. -/
theorem lexFrom_eq (r : ρ) (pos : Position) :
    lexFrom r pos = Cursor.tokens (unread r).ending ⟨pos, (unread r).bytes⟩ := by
  fun_induction lexFrom r pos with
  | case1 r pos t r₁ pos₁ htoken later ih =>
    obtain ⟨hscan, hending⟩ := scanToken_token htoken
    rw [Cursor.tokens_of_token hscan, ← hending, ← ih]
  | case2 r pos pos₁ hfinished => rw [Cursor.tokens_of_finished (scanToken_finished hfinished)]
  | case3 r pos error hfailed => rw [Cursor.tokens_of_failed (scanToken_failed hfailed)]

/-- The tokens that can be pulled from a reader are those of the source that it hands out. How the
bytes are parted, and how often reads are interrupted, leaves no trace. -/
theorem lex_eq (r : ρ) : lex r = (unread r).tokens := lexFrom_eq r .start

end Midl.Reader
