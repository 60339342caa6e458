import Mathlib.Data.List.Forall2
import Midl.Proofs.Online
import Midl.Proofs.Spelling

/-!
# Sources that go on

What has been read of a source is read the same way however the source goes on. A token that ended
at the last byte of a source needs something after it that parts it from what comes next; a token
that was read from a source whose reading failed did not end at the last byte, and needs nothing.

* `scan_append`, `scan_append_of_failed`: one step, with more bytes after it.
* `Cursor.tokens_failure`: the tokens of a source whose reading failed are the first of any source
  that goes on, and if an error was met before the failure, then they are all.
* `Cursor.tokens_newline`: after a line feed tokens are read as at the beginning of a source.
-/

namespace Midl

/-! ## One step -/

/-- Trivia that are over stay as they are. A slash alone at the end could still begin a comment. -/
theorem Cursor.dropTrivia_append {inLine : Bool} {pos pos' : Position} {b : UInt8}
    {bs rest : List UInt8} (h : dropTrivia inLine pos bs = ⟨pos', b :: rest⟩)
    (hslash : b = '/'.toUInt8 → rest ≠ []) (more : List UInt8) :
    dropTrivia inLine pos (bs ++ more) = ⟨pos', b :: rest ++ more⟩ := by
  induction bs generalizing inLine pos with
  | nil => simp [dropTrivia] at h
  | cons c cs ih =>
    rw [dropTrivia] at h
    rw [List.cons_append, dropTrivia]
    by_cases hline : inLine
    · rw [if_pos hline] at h ⊢
      exact ih h
    rw [if_neg hline] at h ⊢
    by_cases hblank : Byte.isBlank c
    · rw [if_pos hblank] at h ⊢
      exact ih h
    rw [if_neg hblank] at h ⊢
    -- only a byte that is missing could make a difference to whether a line is skipped
    by_cases hopens : (c = '#'.toUInt8 || (c = '/'.toUInt8 && cs.head? = some '/'.toUInt8)) = true
    · rw [if_pos hopens] at h
      rw [if_pos (by cases cs <;> simp_all)]
      exact ih h
    · rw [if_neg hopens] at h
      obtain ⟨rfl, hbytes⟩ := Cursor.mk.inj h
      obtain ⟨rfl, rfl⟩ := List.cons.inj hbytes
      rw [if_neg (by cases cs <;> simp_all)]
      rfl

/-- A line feed ends whatever was being skipped. -/
theorem Cursor.dropTrivia_newline {inLine : Bool} {pos pos' : Position} {bs : List UInt8}
    (h : dropTrivia inLine pos bs = ⟨pos', []⟩) (more : List UInt8) :
    dropTrivia inLine pos (bs ++ '\n'.toUInt8 :: more) =
      dropTrivia false (pos'.after '\n'.toUInt8) more := by
  induction bs generalizing inLine pos with
  | nil =>
    obtain ⟨rfl, -⟩ := Cursor.mk.inj h
    cases inLine with
    | true => rfl
    | false => rfl
  | cons c cs ih =>
    rw [dropTrivia] at h
    rw [List.cons_append, dropTrivia]
    by_cases hline : inLine
    · rw [if_pos hline] at h ⊢
      exact ih h
    rw [if_neg hline] at h ⊢
    by_cases hblank : Byte.isBlank c
    · rw [if_pos hblank] at h ⊢
      exact ih h
    rw [if_neg hblank] at h ⊢
    by_cases hopens : (c = '#'.toUInt8 || (c = '/'.toUInt8 && cs.head? = some '/'.toUInt8)) = true
    · rw [if_pos hopens] at h
      rw [if_pos (by cases cs <;> simp_all)]
      exact ih h
    · rw [if_neg hopens] at h
      cases h

/-- A run goes up to a byte that cannot belong to it. -/
theorem Run.parts_follow (run : Run) (bs : List UInt8) : Parts (run.follow bs).rest := by
  induction bs generalizing run with
  | nil => simp [follow, Parts]
  | cons b bs ih =>
    rw [follow]
    cases hnext : run.next? b with
    | some next => exact ih next
    | none =>
      intro c hc
      obtain rfl := Option.some.inj hc
      cases hliteral : Byte.isLiteral b with
      | false => rfl
      | true =>
        obtain ⟨next, hsome⟩ := run.exists_next? hliteral
        rw [hnext] at hsome
        cases hsome

/-- A run that was parted from what followed is not made longer by more bytes. -/
theorem Run.follow_append_more (run : Run) {bs more : List UInt8}
    (h : Parts ((run.follow bs).rest ++ more)) :
    run.follow (bs ++ more) =
      ⟨(run.follow bs).run, (run.follow bs).taken, (run.follow bs).rest ++ more⟩ := by
  conv_lhs => rw [← run.follow_append bs, List.append_assoc]
  exact follow_append_of_foldlM (run.foldlM_taken bs) h

/-- A token that ended at the last byte ended there because the source did. -/
theorem Ending.eof_of_lookAt {ending : Ending} {step : Step} {t : Token} {c : Cursor}
    (h : ending.lookAt [] step = .token t c) : ending = .eof := by
  cases ending with
  | eof => rfl
  | failure message => cases h

/-- At the end of the input there is nothing more to look at. -/
theorem Ending.lookAt_eof (rest : List UInt8) (step : Step) :
    Ending.eof.lookAt rest step = step := by
  cases rest with
  | nil => rfl
  | cons _ _ => rfl

/-- A run stays as it is if more bytes follow that are no part of it. -/
theorem scanRun_append {ending : Ending} {pos : Position} {b : UInt8} {bs more : List UInt8}
    {t : Token} {c : Cursor} (h : scanRun ending pos b bs = .token t c)
    (hmore : ending = .eof → Parts more) :
    scanRun .eof pos b (bs ++ more) = .token t ⟨c.pos, c.rest ++ more⟩ := by
  have hparts : Parts (((Run.ofByte b).follow bs).rest ++ more) := by
    cases hrest : ((Run.ofByte b).follow bs).rest with
    | cons d ds =>
      have hparts := (Run.ofByte b).parts_follow bs
      rw [hrest] at hparts
      exact hparts
    | nil =>
      simp only [scanRun, hrest] at h
      exact hmore (Ending.eof_of_lookAt h)
  obtain ⟨rfl, rfl⟩ := Step.token.inj (Ending.lookAt_eq_token h)
  unfold scanRun
  rw [(Run.ofByte b).follow_append_more hparts]
  exact Ending.lookAt_eof _ _

/-- A string stays as it is whatever follows. -/
theorem scanString_append {ending : Ending} {pos : Position} {bs : List UInt8} {t : Token}
    {c : Cursor} (h : scanString ending pos bs = .token t c) (more : List UInt8) :
    scanString .eof pos (bs ++ more) = .token t ⟨c.pos, c.rest ++ more⟩ := by
  unfold scanString at h
  split at h
  · exact absurd (Ending.orFailure_eq_token h) (by simp)
  · rename_i close rest hdrop
    obtain ⟨rfl, rfl⟩ := Step.token.inj h
    have hdrop' : (bs ++ more).dropWhile (· ≠ Byte.quote) = close :: (rest ++ more) := by
      rw [List.dropWhile_append, hdrop]
      rfl
    have htake : (bs ++ more).takeWhile (· ≠ Byte.quote) = bs.takeWhile (· ≠ Byte.quote) := by
      have hlength := congrArg List.length
        (List.takeWhile_append_dropWhile (p := (· ≠ Byte.quote)) (l := bs))
      rw [hdrop, List.length_append, List.length_cons] at hlength
      rw [List.takeWhile_append, if_neg (by omega)]
    simp only [scanString, hdrop', htake]

/-- A token is read the same way if the source goes on. -/
theorem scan_append {ending : Ending} {pos : Position} {bs more : List UInt8} {t : Token}
    {c : Cursor} (h : scan ending ⟨pos, bs⟩ = .token t c) (hmore : ending = .eof → Parts more) :
    scan .eof ⟨pos, bs ++ more⟩ = .token t ⟨c.pos, c.rest ++ more⟩ := by
  unfold scan at h
  generalize hdrop : Cursor.dropTrivia false pos bs = after at h
  obtain ⟨pos', rest⟩ := after
  cases rest with
  | nil => exact absurd (Ending.orFailure_eq_token h) (by simp)
  | cons b rest =>
    dsimp only at h
    by_cases hslash : b = '/'.toUInt8
    · rw [if_pos hslash] at h
      exact absurd (Ending.lookAt_eq_token h) (by simp)
    rw [if_neg hslash] at h
    have hdrop' := Cursor.dropTrivia_append hdrop (fun hb => absurd hb hslash) more
    unfold scan
    rw [hdrop']
    dsimp only [List.cons_append]
    rw [if_neg hslash]
    by_cases hliteral : Byte.isLiteral b
    · rw [if_pos hliteral] at h ⊢
      exact scanRun_append h hmore
    rw [if_neg hliteral] at h ⊢
    by_cases hquote : b = Byte.quote
    · rw [if_pos hquote] at h ⊢
      exact scanString_append h more
    rw [if_neg hquote] at h ⊢
    cases hmark : Mark.ofByte? b with
    | none =>
      rw [hmark] at h
      cases h
    | some mark =>
      rw [hmark] at h
      obtain ⟨rfl, rfl⟩ := Step.token.inj h
      rfl

/-- A run can only fail because reading on does. -/
theorem scanRun_failure {message : String} {pos : Position} {b : UInt8} {bs : List UInt8}
    {error : LexError} (h : scanRun (.failure message) pos b bs = .failed error) :
    error = .readFailure message := by
  unfold scanRun at h
  generalize (Run.ofByte b).follow bs = extent at h
  obtain ⟨run, taken, rest⟩ := extent
  cases rest with
  | nil => exact (Step.failed.inj h).symm
  | cons _ _ => cases h

/-- So can a string in a source that breaks off. -/
theorem scanString_failure {message : String} {pos : Position} {bs : List UInt8}
    {error : LexError} (h : scanString (.failure message) pos bs = .failed error) :
    error = .readFailure message := by
  unfold scanString at h
  split at h
  · exact (Step.failed.inj h).symm
  · cases h

/-- An error that was met before reading failed is met if the source goes on as well. -/
theorem scan_append_of_failed {message : String} {pos : Position} {bs : List UInt8}
    {error : LexError} (h : scan (.failure message) ⟨pos, bs⟩ = .failed error)
    (herror : error ≠ .readFailure message) (more : List UInt8) :
    scan .eof ⟨pos, bs ++ more⟩ = .failed error := by
  unfold scan at h
  generalize hdrop : Cursor.dropTrivia false pos bs = after at h
  obtain ⟨pos', rest⟩ := after
  cases rest with
  | nil => exact absurd (Step.failed.inj h).symm herror
  | cons b rest =>
    dsimp only at h
    unfold scan
    by_cases hslash : b = '/'.toUInt8
    · rw [if_pos hslash] at h
      cases rest with
      | nil => exact absurd (Step.failed.inj h).symm herror
      | cons d ds =>
        rw [Cursor.dropTrivia_append hdrop (fun _ => List.cons_ne_nil d ds) more]
        dsimp only [List.cons_append]
        rw [if_pos hslash]
        exact h
    rw [if_neg hslash] at h
    rw [Cursor.dropTrivia_append hdrop (fun hb => absurd hb hslash) more]
    dsimp only [List.cons_append]
    rw [if_neg hslash]
    by_cases hliteral : Byte.isLiteral b
    · rw [if_pos hliteral] at h
      exact absurd (scanRun_failure h) herror
    rw [if_neg hliteral] at h ⊢
    by_cases hquote : b = Byte.quote
    · rw [if_pos hquote] at h
      exact absurd (scanString_failure h) herror
    rw [if_neg hquote] at h ⊢
    cases hmark : Mark.ofByte? b with
    | none =>
      rw [hmark] at h
      exact h
    | some mark =>
      rw [hmark] at h
      cases h

/-- A source whose reading fails is never over. -/
theorem scan_failure_ne_finished (message : String) (cursor : Cursor) (pos : Position) :
    scan (.failure message) cursor ≠ .finished pos := by
  intro h
  unfold scan at h
  generalize Cursor.dropTrivia false cursor.pos cursor.rest = after at h
  obtain ⟨pos', rest⟩ := after
  cases rest with
  | nil => cases h
  | cons b rest =>
    unfold scanRun scanString Ending.lookAt Ending.orFailure at h
    grind

/-- A source that is over goes on after a line feed. -/
theorem scan_newline {pos pos' : Position} {bs : List UInt8}
    (h : scan .eof ⟨pos, bs⟩ = .finished pos') (ending : Ending) (more : List UInt8) :
    scan ending ⟨pos, bs ++ '\n'.toUInt8 :: more⟩ =
      scan ending ⟨pos'.after '\n'.toUInt8, more⟩ := by
  have hdrop : Cursor.dropTrivia false pos bs = ⟨pos', []⟩ := by
    unfold scan at h
    generalize Cursor.dropTrivia false pos bs = after at h ⊢
    obtain ⟨pos'', rest⟩ := after
    cases rest with
    | nil =>
      obtain rfl := Step.finished.inj h
      rfl
    | cons b rest =>
      unfold scanRun scanString at h
      grind [Ending.lookAt_eof, Ending.orFailure]
  unfold scan
  rw [Cursor.dropTrivia_newline hdrop]

/-! ## All tokens -/

/-- The first step decides which tokens follow. -/
theorem Cursor.tokens_congr {ending : Ending} {cursor cursor' : Cursor}
    (h : scan ending cursor = scan ending cursor') :
    cursor.tokens ending = cursor'.tokens ending := by
  rw [Cursor.tokens, Cursor.tokens, h]

/-- The tokens that were read before reading failed are the first of any source that goes on. If it
was an error that kept further tokens from being read, and not the failure, then the source that
goes on has no others and the same error. -/
theorem Cursor.tokens_failure (message : String) (cursor : Cursor) (more : List UInt8) :
    ∃ error, (cursor.tokens (.failure message)).stop = .failed error ∧
      (cursor.tokens (.failure message)).tokens <+:
        ((Cursor.mk cursor.pos (cursor.rest ++ more)).tokens .eof).tokens ∧
      (error ≠ .readFailure message → (Cursor.mk cursor.pos (cursor.rest ++ more)).tokens .eof =
        cursor.tokens (.failure message)) := by
  induction cursor using Cursor.tokens.induct (.failure message) with
  | case1 cursor t rest hscan ih =>
    have hmore : scan .eof ⟨cursor.pos, cursor.rest ++ more⟩ =
        .token t ⟨rest.pos, rest.rest ++ more⟩ := scan_append hscan (by simp)
    obtain ⟨error, hstop, hprefix, hsame⟩ := ih
    rw [Cursor.tokens_of_token hscan, Cursor.tokens_of_token hmore]
    refine ⟨error, hstop, ?_, fun herror => ?_⟩
    · exact List.cons_prefix_cons.mpr ⟨rfl, hprefix⟩
    · rw [hsame herror]
  | case2 cursor pos hscan => exact absurd hscan (scan_failure_ne_finished message cursor pos)
  | case3 cursor error hscan =>
    rw [Cursor.tokens_of_failed hscan]
    refine ⟨error, rfl, List.nil_prefix, fun herror => ?_⟩
    exact Cursor.tokens_of_failed (scan_append_of_failed hscan herror more)

/-- Past the end of a source and a line feed, tokens are read as if nothing came before. -/
theorem Cursor.tokens_newline {cursor : Cursor} {pos : Position}
    (h : (cursor.tokens .eof).stop = .finished pos) (more : List UInt8) :
    (Cursor.mk cursor.pos (cursor.rest ++ '\n'.toUInt8 :: more)).tokens .eof =
      ⟨(cursor.tokens .eof).tokens ++
          ((Cursor.mk (pos.after '\n'.toUInt8) more).tokens .eof).tokens,
        ((Cursor.mk (pos.after '\n'.toUInt8) more).tokens .eof).stop⟩ := by
  induction cursor using Cursor.tokens.induct .eof with
  | case1 cursor t rest hscan ih =>
    have hparts : Parts ('\n'.toUInt8 :: more) := by
      intro b hb
      obtain rfl := Option.some.inj hb
      decide
    rw [Cursor.tokens_of_token hscan] at h ⊢
    rw [Cursor.tokens_of_token (scan_append hscan fun _ => hparts), ih h]
    rfl
  | case2 cursor pos' hscan =>
    rw [Cursor.tokens_of_finished hscan] at h ⊢
    obtain rfl := Stop.finished.inj h
    rw [Cursor.tokens_congr (scan_newline hscan .eof more)]
    rfl
  | case3 cursor error hscan =>
    rw [Cursor.tokens_of_failed hscan] at h
    cases h

/-! ## Elsewhere

Where the bytes stand makes no difference to what they are read as, but for positions. -/

/-- Which bytes are trivia does not depend on where they stand. -/
theorem Cursor.rest_dropTrivia (inLine : Bool) (pos pos' : Position) (bs : List UInt8) :
    (dropTrivia inLine pos bs).rest = (dropTrivia inLine pos' bs).rest := by
  induction bs generalizing inLine pos pos' with
  | nil => rfl
  | cons b bs ih =>
    rw [dropTrivia, dropTrivia]
    split
    · exact ih ..
    split
    · exact ih ..
    split
    · exact ih ..
    · rfl

/-- The same step, but for positions. -/
inductive Step.Alike : Step → Step → Prop
  | token {t t' : Token} {c c' : Cursor} (hkind : t.kind = t'.kind) (hrest : c.rest = c'.rest) :
      Alike (.token t c) (.token t' c')
  | finished (pos pos' : Position) : Alike (.finished pos) (.finished pos')
  | failed (error error' : LexError) : Alike (.failed error) (.failed error')

/-- Steps stay alike if they have to look beyond the last byte. -/
theorem Step.Alike.orFailure {step step' : Step} (h : step.Alike step') (ending : Ending) :
    (ending.orFailure step).Alike (ending.orFailure step') := by
  cases ending with
  | eof => exact h
  | failure message => exact .failed _ _

/-- They stay alike if they have to look at one byte. -/
theorem Step.Alike.lookAt {step step' : Step} (h : step.Alike step') (ending : Ending)
    (rest : List UInt8) : (ending.lookAt rest step).Alike (ending.lookAt rest step') := by
  cases rest with
  | nil => exact h.orFailure ending
  | cons _ _ => exact h

/-- The token found does not depend on where the bytes stand. -/
theorem scan_alike (ending : Ending) {cursor cursor' : Cursor} (h : cursor.rest = cursor'.rest) :
    (scan ending cursor).Alike (scan ending cursor') := by
  obtain ⟨pos, bs⟩ := cursor
  obtain ⟨pos', _⟩ := cursor'
  obtain rfl : bs = _ := h
  have hrest := Cursor.rest_dropTrivia false pos pos' bs
  unfold scan
  generalize Cursor.dropTrivia false pos bs = after at hrest ⊢
  generalize Cursor.dropTrivia false pos' bs = after' at hrest ⊢
  obtain ⟨pos, rest⟩ := after
  obtain ⟨pos', _⟩ := after'
  obtain rfl : rest = _ := hrest
  cases rest with
  | nil => exact Step.Alike.orFailure (.finished pos pos') ending
  | cons b rest =>
    dsimp only
    split
    · exact Step.Alike.lookAt (.failed _ _) ending rest
    split
    · unfold scanRun
      refine Step.Alike.lookAt ?_ ending _
      exact .token rfl rfl
    split
    · unfold scanString
      split
      · exact Step.Alike.orFailure (.failed _ _) ending
      · exact .token rfl rfl
    split
    · exact .token rfl rfl
    · exact .failed _ _

/-- Neither do all tokens. -/
theorem Cursor.tokens_alike (ending : Ending) (cursor cursor' : Cursor)
    (h : cursor.rest = cursor'.rest) :
    List.Forall₂ (Token.Alike fun _ _ => True) (cursor.tokens ending).tokens
        (cursor'.tokens ending).tokens ∧
      ∀ pos, (cursor.tokens ending).stop = .finished pos →
        ∃ pos', (cursor'.tokens ending).stop = .finished pos' := by
  induction cursor using Cursor.tokens.induct ending generalizing cursor' with
  | case1 cursor t rest hscan ih =>
    have halike := scan_alike ending h
    generalize hscan' : scan ending cursor' = step' at halike
    rw [hscan] at halike
    cases halike with
    | token hkind hrest =>
      rw [Cursor.tokens_of_token hscan, Cursor.tokens_of_token hscan']
      obtain ⟨htokens, hstop⟩ := ih _ hrest
      exact ⟨.cons ⟨hkind, trivial⟩ htokens, hstop⟩
  | case2 cursor pos hscan =>
    have halike := scan_alike ending h
    generalize hscan' : scan ending cursor' = step' at halike
    rw [hscan] at halike
    cases halike with
    | finished _ pos' =>
      rw [Cursor.tokens_of_finished hscan, Cursor.tokens_of_finished hscan']
      exact ⟨.nil, fun _ _ => ⟨pos', rfl⟩⟩
  | case3 cursor error hscan =>
    have halike := scan_alike ending h
    generalize hscan' : scan ending cursor' = step' at halike
    rw [hscan] at halike
    cases halike with
    | failed _ error' =>
      rw [Cursor.tokens_of_failed hscan, Cursor.tokens_of_failed hscan']
      exact ⟨.nil, by simp⟩

end Midl
