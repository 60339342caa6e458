import Midl.Proofs.Run
import Midl.Proofs.Utf8
import Midl.Token.Stream

/-!
# The tokens that are found in sources

`Lexed` says of a kind of token what holds of every token that is found in a source: names,
numbers and reserved words are literal runs, and strings hold no quote.
-/

namespace Midl

/-- What holds of a token that is found in a source. -/
def TokenKind.Lexed : TokenKind → Prop
  | string s => '"' ∉ s.toList
  | mark _ => True
  | eof => False
  | k => ∃ bytes, Run.kindOf? bytes = some k

/-- What a literal run is read as is found in a source. -/
theorem TokenKind.lexed_of_kindOf? {bytes : List UInt8} {k : TokenKind}
    (h : Run.kindOf? bytes = some k) : k.Lexed := by
  obtain ⟨run, -, hk⟩ := Option.map_eq_some_iff.mp h
  obtain ⟨heof, hstring⟩ := run.kind_ne (Byte.text bytes)
  rw [hk] at heof hstring
  cases k with
  | string s => exact absurd rfl (hstring s)
  | eof => exact absurd rfl heof
  | mark m => trivial
  | keyword k => exact ⟨bytes, h⟩
  | attributeName k => exact ⟨bytes, h⟩
  | identifier s => exact ⟨bytes, h⟩
  | number s => exact ⟨bytes, h⟩

/-- Skipping trivia leaves an end of what there was. -/
theorem Cursor.dropTrivia_suffix (inLine : Bool) (pos : Position) (bs : List UInt8) :
    (dropTrivia inLine pos bs).rest <:+ bs := by
  induction bs generalizing inLine pos with
  | nil => exact List.suffix_rfl
  | cons b bs ih =>
    unfold dropTrivia
    split
    · exact (ih _ _).trans (List.suffix_cons b bs)
    · split
      · exact (ih _ _).trans (List.suffix_cons b bs)
      · split
        · exact (ih _ _).trans (List.suffix_cons b bs)
        · exact List.suffix_rfl

/-- The token at the beginning of a literal run. -/
theorem scanRun_token {ending : Ending} {pos : Position} {b : UInt8} {bs : List UInt8}
    {t : Token} {c : Cursor} (hb : Byte.isLiteral b = true)
    (h : scanRun ending pos b bs = .token t c) :
    ∃ lexeme, lexeme <:+: b :: bs ∧ Run.kindOf? lexeme = some t.kind := by
  have ht := Ending.lookAt_eq_token h
  injection ht with ht _
  subst ht
  refine ⟨b :: ((Run.ofByte b).follow bs).taken, ?_, ?_⟩
  · refine ⟨[], ((Run.ofByte b).follow bs).rest, ?_⟩
    rw [List.nil_append, List.cons_append, Run.follow_append]
  · rw [Run.kindOf?, Run.ofBytes?, if_pos hb, Run.foldlM_taken]
    rfl

/-- The token at the beginning of a string. -/
theorem scanString_token {ending : Ending} {pos : Position} {bs : List UInt8}
    {t : Token} {c : Cursor} (h : scanString ending pos bs = .token t c) :
    ∃ s, t.kind = .string s ∧ '"' ∉ s.toList := by
  unfold scanString at h
  split at h
  · exact absurd (Ending.orFailure_eq_token h) (by simp)
  · injection h with ht _
    subst ht
    refine ⟨_, rfl, ?_⟩
    rw [Utf8.text, String.toList_ofList]
    apply Utf8.quote_not_mem_decode
    intro hmem
    simpa using List.all_eq_true.mp List.all_takeWhile _ hmem

/-- A token is a literal run, a string without a quote in it, or a mark. -/
theorem scan_cases {ending : Ending} {cursor : Cursor} {t : Token} {c : Cursor}
    (h : scan ending cursor = .token t c) :
    (∃ lexeme, lexeme <:+: cursor.rest ∧ Run.kindOf? lexeme = some t.kind) ∨
    (∃ s, t.kind = .string s ∧ '"' ∉ s.toList) ∨ ∃ m, t.kind = .mark m := by
  have hsuffix := Cursor.dropTrivia_suffix false cursor.pos cursor.rest
  unfold scan at h
  generalize Cursor.dropTrivia false cursor.pos cursor.rest = after at h hsuffix
  obtain ⟨pos, rest⟩ := after
  cases rest with
  | nil => exact absurd (Ending.orFailure_eq_token h) (by simp)
  | cons b bs =>
    simp only at h
    split at h
    · exact absurd (Ending.lookAt_eq_token h) (by simp)
    · split at h
      · obtain ⟨lexeme, hin, hkind⟩ := scanRun_token ‹_› h
        exact .inl ⟨lexeme, hin.trans hsuffix.isInfix, hkind⟩
      · split at h
        · exact .inr (.inl (scanString_token h))
        · split at h
          · rename_i m _
            injection h with ht _
            subst ht
            exact .inr (.inr ⟨m, rfl⟩)
          · simp at h

/-- Every token that is found is of a kind that the lexer gives. -/
theorem lexed_of_scan {ending : Ending} {cursor : Cursor} {t : Token} {c : Cursor}
    (h : scan ending cursor = .token t c) : t.kind.Lexed := by
  rcases scan_cases h with ⟨lexeme, -, hkind⟩ | ⟨s, hkind, hs⟩ | ⟨m, hkind⟩
  · exact TokenKind.lexed_of_kindOf? hkind
  · rw [hkind]
    exact hs
  · rw [hkind]
    trivial

/-- The tokens from a cursor on, when there is one. -/
theorem Cursor.tokens_of_token {ending : Ending} {cursor rest : Cursor} {t : Token}
    (h : scan ending cursor = .token t rest) :
    cursor.tokens ending = ⟨t :: (rest.tokens ending).tokens, (rest.tokens ending).stop⟩ := by
  rw [Cursor.tokens]
  split <;> simp_all

/-- There are no tokens where the input is over. -/
theorem Cursor.tokens_of_finished {ending : Ending} {cursor : Cursor} {pos : Position}
    (h : scan ending cursor = .finished pos) : cursor.tokens ending = ⟨[], .finished pos⟩ := by
  rw [Cursor.tokens]
  split <;> simp_all

/-- There are no tokens where none can be read. -/
theorem Cursor.tokens_of_failed {ending : Ending} {cursor : Cursor} {error : LexError}
    (h : scan ending cursor = .failed error) : cursor.tokens ending = ⟨[], .failed error⟩ := by
  rw [Cursor.tokens]
  split <;> simp_all

/-- Every token of a source is one that is found in sources. -/
theorem Cursor.lexed_of_mem_tokens {ending : Ending} {cursor : Cursor} {t : Token}
    (h : t ∈ (cursor.tokens ending).tokens) : t.kind.Lexed := by
  induction cursor using Cursor.tokens.induct ending with
  | case1 cursor t' rest hscan ih =>
    rw [Cursor.tokens_of_token hscan] at h
    rcases List.mem_cons.mp h with rfl | h
    · exact lexed_of_scan hscan
    · exact ih h
  | case2 cursor pos hscan => simp [Cursor.tokens_of_finished hscan] at h
  | case3 cursor error hscan => simp [Cursor.tokens_of_failed hscan] at h

end Midl
