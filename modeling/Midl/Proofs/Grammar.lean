import Mathlib.Data.List.Forall2
import Mathlib.Data.List.TakeWhile
import Midl.Proofs.Spelling

/-!
# The lexical grammar

What a source consists of, said without regard to how it is read. Tokens are written as *lexemes*:
a mark, a string in quotes, or a longest run of literal bytes. Between lexemes there are *trivia*.
A factorization takes trivia and lexemes in turn, as much trivia as there are each time, for as
long as a lexeme follows.

Any bytes have exactly one factorization. The tokens of a source are read off its lexemes one by
one, and what is left after the last trivia tells how the reading ends (`lexical_grammar_exact`).
-/

namespace Midl.Lexical

/-! ## Trivia -/

/-- What a comment or a preprocessor line begins with. -/
def OpensLine (opening : List UInt8) : Prop :=
  opening = ['#'.toUInt8] ∨ opening = ['/'.toUInt8, '/'.toUInt8]

/-- Bytes that mean nothing where they stand: blanks, and comments and preprocessor lines up to
and including a line feed. The last line of a source needs none, so what comes after matters. -/
inductive Trivia : List UInt8 → List UInt8 → Prop
  | nil {rest : List UInt8} : Trivia [] rest
  | blank {b : UInt8} {gap rest : List UInt8} (hblank : Byte.isBlank b = true)
      (hgap : Trivia gap rest) : Trivia (b :: gap) rest
  | line {opening body gap rest : List UInt8} (hopening : OpensLine opening)
      (hbody : '\n'.toUInt8 ∉ body) (hgap : Trivia gap rest) :
      Trivia (opening ++ (body ++ '\n'.toUInt8 :: gap)) rest
  | lastLine {opening body : List UInt8} (hopening : OpensLine opening)
      (hbody : '\n'.toUInt8 ∉ body) : Trivia (opening ++ body) []

/-- Trivia that cannot be had longer. -/
structure MaximalTrivia (gap rest : List UInt8) : Prop where
  trivia : Trivia gap rest
  longest : ∀ gap' rest', gap' ++ rest' = gap ++ rest → Trivia gap' rest' →
    gap'.length ≤ gap.length

/-- Inside a line everything up to the line feed is skipped. -/
theorem dropTrivia_body {body : List UInt8} (h : '\n'.toUInt8 ∉ body) (pos : Position)
    (bs : List UInt8) :
    Cursor.dropTrivia true pos (body ++ bs) = Cursor.dropTrivia true (pos.advance body) bs := by
  induction body generalizing pos with
  | nil => rfl
  | cons b body ih =>
    obtain ⟨hb, hbody⟩ := List.ne_and_not_mem_of_not_mem_cons h
    have hline : decide (b ≠ '\n'.toUInt8) = true := decide_eq_true hb.symm
    rw [List.cons_append, Cursor.dropTrivia, if_pos rfl, hline, ih hbody]
    rfl

/-- What begins a line of trivia is skipped up to the end of the line. -/
theorem dropTrivia_opening {opening : List UInt8} (h : OpensLine opening) (pos : Position)
    (bs : List UInt8) :
    Cursor.dropTrivia false pos (opening ++ bs) =
      Cursor.dropTrivia true (pos.advance opening) bs := by
  rcases h with rfl | rfl
  · rfl
  · rfl

/-- Trivia are skipped. -/
theorem Trivia.dropTrivia {gap rest : List UInt8} (h : Trivia gap rest) (pos : Position) :
    Cursor.dropTrivia false pos (gap ++ rest) =
      Cursor.dropTrivia false (pos.advance gap) rest := by
  induction h generalizing pos with
  | nil => rfl
  | blank hblank hgap ih =>
    rw [List.cons_append, Cursor.dropTrivia, if_neg (by simp), if_pos hblank, ih]
    rfl
  | @line opening body gap rest hopening hbody hgap ih =>
    rw [List.append_assoc, dropTrivia_opening hopening, List.append_assoc, dropTrivia_body hbody,
      List.cons_append]
    show Cursor.dropTrivia false _ (gap ++ rest) = _
    rw [ih, Position.advance_append, Position.advance_append]
    rfl
  | @lastLine opening body hopening hbody =>
    rw [List.append_nil, dropTrivia_opening hopening, ← List.append_nil body,
      dropTrivia_body hbody, List.append_nil, Position.advance_append]
    rfl

/-- Neither a blank nor a line that is skipped begins here. -/
structure BeginsNoTrivia (rest : List UInt8) : Prop where
  blank : ∀ b ∈ rest.head?, Byte.isBlank b = false
  line : ∀ opening, OpensLine opening → ¬ opening <+: rest

/-- Where no trivia begins, nothing is skipped. -/
theorem BeginsNoTrivia.dropTrivia {rest : List UInt8} (h : BeginsNoTrivia rest) (pos : Position) :
    Cursor.dropTrivia false pos rest = ⟨pos, rest⟩ := by
  cases rest with
  | nil => rfl
  | cons b bs =>
    have hblank := h.blank b rfl
    have hhash : b ≠ '#'.toUInt8 := by
      rintro rfl
      exact h.line _ (.inl rfl) ⟨bs, rfl⟩
    have hslash : b = '/'.toUInt8 → bs.head? ≠ some '/'.toUInt8 := by
      rintro rfl hhead
      obtain ⟨bs, rfl⟩ := List.head?_eq_some_iff.mp hhead
      exact h.line _ (.inr rfl) ⟨bs, rfl⟩
    rw [Cursor.dropTrivia, if_neg (by simp), if_neg (by simp [hblank]), if_neg]
    simpa [hhash] using hslash

/-- Any bytes begin with trivia, after which none begin. There may be no bytes among them. -/
theorem exists_trivia (bytes : List UInt8) :
    ∃ gap rest, bytes = gap ++ rest ∧ Trivia gap rest ∧ BeginsNoTrivia rest := by
  induction hn : bytes.length using Nat.strongRecOn generalizing bytes with
  | ind n ih =>
    by_cases hblank : ∃ b bs, bytes = b :: bs ∧ Byte.isBlank b = true
    · obtain ⟨b, bs, rfl, hb⟩ := hblank
      obtain ⟨gap, rest, rfl, hgap, hrest⟩ := ih bs.length (by simp at hn; omega) bs rfl
      exact ⟨b :: gap, rest, rfl, .blank hb hgap, hrest⟩
    · by_cases hline : ∃ opening bs, bytes = opening ++ bs ∧ OpensLine opening
      · obtain ⟨opening, bs, rfl, hopening⟩ := hline
        by_cases hfeed : '\n'.toUInt8 ∈ bs
        · obtain ⟨body, bs, rfl, hbody⟩ := List.eq_append_cons_of_mem hfeed
          have hlt : bs.length < n := by simp at hn; omega
          obtain ⟨gap, rest, rfl, hgap, hrest⟩ := ih bs.length hlt bs rfl
          exact ⟨_, rest, by simp, .line hopening hbody hgap, hrest⟩
        · refine ⟨opening ++ bs, [], by simp, .lastLine hopening hfeed, by simp, ?_⟩
          rintro _ (rfl | rfl) <;> simp
      · refine ⟨[], bytes, rfl, .nil, ?_, ?_⟩
        · intro b hb
          obtain ⟨bs, rfl⟩ := List.head?_eq_some_iff.mp hb
          exact Bool.eq_false_iff.mpr fun h => hblank ⟨b, bs, rfl, h⟩
        · rintro opening hopening ⟨bs, rfl⟩
          exact hline ⟨opening, bs, rfl, hopening⟩

/-- Trivia are the longest there are if no more of them follow. -/
theorem MaximalTrivia.of_beginsNoTrivia {gap rest : List UInt8} (hgap : Trivia gap rest)
    (hrest : BeginsNoTrivia rest) : MaximalTrivia gap rest := by
  refine ⟨hgap, ?_⟩
  intro gap' rest' heq hgap'
  -- Whatever else is skipped, skipping comes to its end at `rest`.
  have hdrop : Cursor.dropTrivia false (Position.start.advance gap') rest' =
      ⟨Position.start.advance gap, rest⟩ := by
    rw [← hgap'.dropTrivia, heq, hgap.dropTrivia, hrest.dropTrivia]
  have hsuffix := Cursor.dropTrivia_suffix false (Position.start.advance gap') rest'
  rw [hdrop] at hsuffix
  have hle := hsuffix.length_le
  have hlength := congrArg List.length heq
  simp only [List.length_append] at hlength hle
  omega

/-- The longest trivia that some bytes begin with are determined. -/
theorem MaximalTrivia.unique {gap rest gap' rest' : List UInt8} (h : MaximalTrivia gap rest)
    (h' : MaximalTrivia gap' rest') (heq : gap ++ rest = gap' ++ rest') :
    gap = gap' ∧ rest = rest' := by
  have hle := h'.longest gap rest heq h.trivia
  have hge := h.longest gap' rest' heq.symm h'.trivia
  exact List.append_inj heq (Nat.le_antisymm hle hge)

/-- Trivia that goes as far as it can is followed by none. -/
theorem MaximalTrivia.beginsNoTrivia {gap rest : List UInt8} (h : MaximalTrivia gap rest) :
    BeginsNoTrivia rest := by
  obtain ⟨gap', rest', heq, hgap', hrest'⟩ := exists_trivia (gap ++ rest)
  obtain ⟨-, rfl⟩ := h.unique (.of_beginsNoTrivia hgap' hrest') heq
  exact hrest'

/-! ## Lexemes -/

/-- The bytes that are tokens by themselves. -/
def punctuation : List UInt8 :=
  ['(', ')', '[', ']', '\x7b', '\x7d', ',', ':', ';', '*', '=', '|'].map Char.toUInt8

/-- The bytes of one token, where `after` comes after them. -/
inductive IsLexeme (after : List UInt8) : List UInt8 → Prop
  | mark {b : UInt8} (hb : b ∈ punctuation) : IsLexeme after [b]
  | string {content : List UInt8} (hcontent : Byte.quote ∉ content) :
      IsLexeme after (Byte.quote :: content ++ [Byte.quote])
  | run {bytes : List UInt8} (hne : bytes ≠ []) (hliteral : ∀ b ∈ bytes, Byte.isLiteral b = true)
      (hafter : Parts after) : IsLexeme after bytes

/-- The kind of token that a lexeme is read as: what a run is found to be, the text between the
quotes of a string, or a mark. -/
def ReadAs (lexeme : List UInt8) (kind : TokenKind) : Prop :=
  Run.kindOf? lexeme = some kind ∨
  (∃ content, Byte.quote ∉ content ∧ lexeme = Byte.quote :: content ++ [Byte.quote] ∧
    kind = .string (Utf8.text content)) ∨
  ∃ b m, lexeme = [b] ∧ Mark.ofByte? b = some m ∧ kind = .mark m

/-- Trivia before a token only moves the token. -/
theorem scan_trivia {gap rest : List UInt8} (h : Trivia gap rest) (pos : Position) :
    scan .eof ⟨pos, gap ++ rest⟩ = scan .eof ⟨pos.advance gap, rest⟩ := by
  unfold scan
  rw [h.dropTrivia]

/-- A punctuation mark is a token by itself. -/
theorem scan_punctuation {b : UInt8} (hb : b ∈ punctuation) (pos : Position)
    (rest : List UInt8) :
    ∃ m, Mark.ofByte? b = some m ∧
      scan .eof ⟨pos, b :: rest⟩ = .token ⟨.mark m, pos⟩ ⟨pos.after b, rest⟩ := by
  simp only [punctuation, List.map_cons, List.map_nil, List.mem_cons, List.not_mem_nil,
    or_false] at hb
  rcases hb with rfl | rfl | rfl | rfl | rfl | rfl | rfl | rfl | rfl | rfl | rfl | rfl <;>
    exact ⟨_, rfl, rfl⟩

/-- A lexeme is read as one token. -/
theorem IsLexeme.scan {after lexeme : List UInt8} (h : IsLexeme after lexeme) (pos : Position) :
    ∃ kind, ReadAs lexeme kind ∧ Midl.scan .eof ⟨pos, lexeme ++ after⟩ =
      .token ⟨kind, pos⟩ ⟨pos.advance lexeme, after⟩ := by
  cases h with
  | @mark b hb =>
    obtain ⟨m, hm, hscan⟩ := scan_punctuation hb pos after
    exact ⟨.mark m, .inr (.inr ⟨b, m, rfl, hm, rfl⟩), hscan⟩
  | @string content hcontent =>
    refine ⟨_, .inr (.inl ⟨content, hcontent, rfl, rfl⟩), ?_⟩
    rw [List.append_assoc]
    exact scan_string hcontent pos after
  | run hne hliteral hafter =>
    obtain ⟨kind, hkind⟩ := Run.exists_kindOf? hne hliteral
    exact ⟨kind, .inl hkind, scan_run hkind pos hafter⟩

/-- The lexeme that some bytes begin with is determined. -/
theorem IsLexeme.unique {after lexeme after' lexeme' : List UInt8} (h : IsLexeme after lexeme)
    (h' : IsLexeme after' lexeme') (heq : lexeme ++ after = lexeme' ++ after') :
    lexeme = lexeme' ∧ after = after' := by
  obtain ⟨kind, -, hscan⟩ := h.scan .start
  obtain ⟨kind', -, hscan'⟩ := h'.scan .start
  rw [heq, hscan'] at hscan
  injection hscan with _ hcursor
  injection hcursor with _ hafter
  subst hafter
  exact ⟨List.append_cancel_right heq, rfl⟩

/-- A lexeme has at least one byte. -/
theorem IsLexeme.length_pos {after lexeme : List UInt8} (h : IsLexeme after lexeme) :
    0 < lexeme.length := by
  cases h with
  | mark hb => simp
  | string hcontent => simp
  | run hne hliteral hafter => exact List.length_pos_iff.mpr hne

/-! ## Where no token can be read -/

/-- No lexeme begins here. -/
def BeginsNoLexeme (rest : List UInt8) : Prop :=
  ∀ lexeme after, rest = lexeme ++ after → ¬ IsLexeme after lexeme

/-- A byte that neither trivia nor lexemes begin with. -/
structure Foreign (b : UInt8) : Prop where
  blank : Byte.isBlank b = false
  hash : b ≠ '#'.toUInt8
  slash : b ≠ '/'.toUInt8
  literal : Byte.isLiteral b = false
  quote : b ≠ Byte.quote
  mark : b ∉ punctuation

/-- How the reading of tokens ends at `pos`, with these bytes left. -/
inductive StopsAt (pos : Position) : List UInt8 → Stop → Prop
  | finished : StopsAt pos [] (.finished pos)
  | malformedComment {bs : List UInt8} (h : bs.head? ≠ some '/'.toUInt8) :
      StopsAt pos ('/'.toUInt8 :: bs) (.failed (.malformedComment pos))
  | unterminatedString {bs : List UInt8} (h : Byte.quote ∉ bs) :
      StopsAt pos (Byte.quote :: bs) (.failed (.unterminatedString pos))
  | unexpectedChar {b : UInt8} {bs : List UInt8} (h : Foreign b) :
      StopsAt pos (b :: bs) (.failed (.unexpectedChar (Byte.toChar b) pos))

/-- No other byte is a mark. -/
theorem ofByte?_eq_none : ∀ b : UInt8, b ∉ punctuation → Mark.ofByte? b = none :=
  Byte.forall_of_forall_lt (by decide +kernel)

/-- A literal byte begins the longest run that it is in. -/
theorem exists_run {b : UInt8} (hb : Byte.isLiteral b = true) (bs : List UInt8) :
    ∃ lexeme after, b :: bs = lexeme ++ after ∧ IsLexeme after lexeme := by
  refine ⟨b :: bs.takeWhile Byte.isLiteral, bs.dropWhile Byte.isLiteral, ?_, .run (by simp) ?_ ?_⟩
  · rw [List.cons_append, List.takeWhile_append_dropWhile]
  · intro x hx
    rcases List.mem_cons.mp hx with rfl | hx
    · exact hb
    · exact List.all_eq_true.mp List.all_takeWhile x hx
  · exact parts_dropWhile bs

/-- Where neither trivia nor a lexeme begins, the reading of tokens ends. -/
theorem tokens_stopsAt {rest : List UInt8} (htrivia : BeginsNoTrivia rest)
    (hlexeme : BeginsNoLexeme rest) (pos : Position) :
    ∃ stop, StopsAt pos rest stop ∧ (Cursor.mk pos rest).tokens .eof = ⟨[], stop⟩ := by
  have hdrop := htrivia.dropTrivia pos
  cases rest with
  | nil => exact ⟨_, .finished, Cursor.tokens_of_finished rfl⟩
  | cons b bs =>
    have hliteral : Byte.isLiteral b = false := by
      refine Bool.eq_false_iff.mpr fun hb => ?_
      obtain ⟨lexeme, after, heq, hrun⟩ := exists_run hb bs
      exact hlexeme lexeme after heq hrun
    have hmark : b ∉ punctuation := fun hb => hlexeme [b] bs rfl (.mark hb)
    by_cases hslash : b = '/'.toUInt8
    · subst hslash
      have hhead : bs.head? ≠ some '/'.toUInt8 := by
        intro hhead
        obtain ⟨bs, rfl⟩ := List.head?_eq_some_iff.mp hhead
        exact htrivia.line _ (.inr rfl) ⟨bs, rfl⟩
      refine ⟨_, .malformedComment hhead, Cursor.tokens_of_failed ?_⟩
      unfold scan
      rw [hdrop]
      cases bs <;> rfl
    · by_cases hquote : b = Byte.quote
      · subst hquote
        have hopen : Byte.quote ∉ bs := by
          intro hmem
          obtain ⟨content, after, rfl, hcontent⟩ := List.eq_append_cons_of_mem hmem
          exact hlexeme _ after (by simp) (.string hcontent)
        refine ⟨_, .unterminatedString hopen, Cursor.tokens_of_failed ?_⟩
        have hclose : bs.dropWhile (· ≠ Byte.quote) = [] := by
          rw [List.dropWhile_eq_nil_iff]
          rintro x hx
          simp only [decide_eq_true_eq]
          rintro rfl
          exact hopen hx
        unfold scan
        rw [hdrop]
        show scanString .eof pos bs = _
        unfold scanString
        rw [hclose]
        rfl
      · have hforeign : Foreign b := by
          refine ⟨htrivia.blank b rfl, ?_, hslash, hliteral, hquote, hmark⟩
          rintro rfl
          exact htrivia.line _ (.inl rfl) ⟨bs, rfl⟩
        refine ⟨_, .unexpectedChar hforeign, Cursor.tokens_of_failed ?_⟩
        unfold scan
        rw [hdrop]
        simp only [hslash, hliteral, hquote, ofByte?_eq_none b hmark, if_false]
        rfl

/-! ## Factorizations -/

/-- Bytes taken apart. -/
structure Factorization where
  /-- The lexemes, each with the trivia before it. -/
  pieces : List (List UInt8 × List UInt8)
  /-- The trivia after the last lexeme. -/
  trailing : List UInt8
  /-- What is left over. -/
  rest : List UInt8

namespace Factorization

/-- The lexemes alone. -/
def lexemes (f : Factorization) : List (List UInt8) := f.pieces.map Prod.snd

/-- Everything that comes before what is left over. -/
def before (f : Factorization) : List UInt8 :=
  f.pieces.flatMap (fun piece => piece.1 ++ piece.2) ++ f.trailing

/-- The factorization with one more lexeme in front. -/
def cons (gap lexeme : List UInt8) (f : Factorization) : Factorization :=
  { f with pieces := (gap, lexeme) :: f.pieces }

/-- What is taken by a factorization is its trivia and lexemes, one after the other. -/
theorem before_cons (gap lexeme : List UInt8) (f : Factorization) :
    (f.cons gap lexeme).before = gap ++ (lexeme ++ f.before) := by
  simp [before, cons]

/-- A factorization of bytes: longest trivia and lexemes in turn, until no lexeme follows. -/
inductive Of : List UInt8 → Factorization → Prop
  | stop {gap rest : List UInt8} (hgap : MaximalTrivia gap rest) (hrest : BeginsNoLexeme rest) :
      Of (gap ++ rest) ⟨[], gap, rest⟩
  | more {gap lexeme after : List UInt8} {f : Factorization}
      (hgap : MaximalTrivia gap (lexeme ++ after)) (hlexeme : IsLexeme after lexeme)
      (hafter : Of after f) : Of (gap ++ (lexeme ++ after)) (f.cons gap lexeme)

/-- No byte is lost. -/
theorem Of.bytes_eq {bytes : List UInt8} {f : Factorization} (h : Of bytes f) :
    bytes = f.before ++ f.rest := by
  induction h with
  | stop hgap hrest => rfl
  | @more gap lexeme after f hgap hlexeme hafter ih =>
    calc gap ++ (lexeme ++ after)
        = gap ++ (lexeme ++ (f.before ++ f.rest)) := by rw [← ih]
      _ = (f.cons gap lexeme).before ++ f.rest := by simp [before_cons]

/-- Any bytes can be taken apart. -/
theorem exists_of (bytes : List UInt8) : ∃ f, Of bytes f := by
  induction hn : bytes.length using Nat.strongRecOn generalizing bytes with
  | ind n ih =>
    obtain ⟨gap, rest, rfl, hgap, hrest⟩ := exists_trivia bytes
    have hmaximal := MaximalTrivia.of_beginsNoTrivia hgap hrest
    by_cases hlexeme : ∃ lexeme after, rest = lexeme ++ after ∧ IsLexeme after lexeme
    · obtain ⟨lexeme, after, rfl, hlexeme⟩ := hlexeme
      have hlt : after.length < n := by
        have := hlexeme.length_pos
        simp only [List.length_append] at hn
        omega
      obtain ⟨f, hf⟩ := ih after.length hlt after rfl
      exact ⟨f.cons gap lexeme, .more hmaximal hlexeme hf⟩
    · refine ⟨⟨[], gap, rest⟩, .stop hmaximal ?_⟩
      intro lexeme after heq h
      exact hlexeme ⟨lexeme, after, heq, h⟩

/-- There is only one way to take bytes apart. -/
theorem Of.unique {bytes bytes' : List UInt8} {f g : Factorization} (hf : Of bytes f)
    (hg : Of bytes' g) (heq : bytes = bytes') : f = g := by
  induction hf generalizing bytes' g with
  | stop hgap hrest =>
    cases hg with
    | stop hgap' hrest' =>
      obtain ⟨rfl, rfl⟩ := hgap.unique hgap' heq
      rfl
    | more hgap' hlexeme' hafter' =>
      obtain ⟨rfl, rfl⟩ := hgap.unique hgap' heq
      exact absurd hlexeme' (hrest _ _ rfl)
  | more hgap hlexeme hafter ih =>
    cases hg with
    | stop hgap' hrest' =>
      obtain ⟨rfl, rfl⟩ := hgap.unique hgap' heq
      exact absurd hlexeme (hrest' _ _ rfl)
    | more hgap' hlexeme' hafter' =>
      obtain ⟨rfl, hrest⟩ := hgap.unique hgap' heq
      obtain ⟨rfl, rfl⟩ := hlexeme.unique hlexeme' hrest
      rw [ih hafter' rfl]

/-- Tokens are read off the lexemes, and what is left over tells how the reading ends. -/
theorem Of.tokens {bytes : List UInt8} {f : Factorization} (h : Of bytes f) (pos : Position) :
    ∃ ts stop, (Cursor.mk pos bytes).tokens .eof = ⟨ts, stop⟩ ∧
      List.Forall₂ (fun t lexeme => ReadAs lexeme t.kind) ts f.lexemes ∧
      StopsAt (pos.advance f.before) f.rest stop := by
  induction h generalizing pos with
  | @stop gap rest hgap hrest =>
    obtain ⟨stop, hstop, htokens⟩ := tokens_stopsAt hgap.beginsNoTrivia hrest (pos.advance gap)
    refine ⟨[], stop, ?_, .nil, hstop⟩
    rw [← htokens, Cursor.tokens, Cursor.tokens, scan_trivia hgap.trivia]
  | @more gap lexeme after f hgap hlexeme hafter ih =>
    obtain ⟨kind, hkind, hscan⟩ := hlexeme.scan (pos.advance gap)
    obtain ⟨ts, stop, htokens, hread, hstop⟩ := ih ((pos.advance gap).advance lexeme)
    rw [← scan_trivia hgap.trivia] at hscan
    refine ⟨⟨kind, pos.advance gap⟩ :: ts, stop, ?_, .cons hkind hread, ?_⟩
    · rw [Cursor.tokens_of_token hscan, htokens]
    · rw [before_cons, Position.advance_append, Position.advance_append]
      exact hstop

end Factorization

/-! ## What a factorization tells -/

/-- A token that is not a string is spelled like its lexeme; a string has for its value what
stands between the quotes. No lexeme is the end of the input. -/
def Spelled (lexeme : List UInt8) : TokenKind → Prop
  | .string text => ∃ content, Byte.quote ∉ content ∧
      lexeme = Byte.quote :: content ++ [Byte.quote] ∧ text = Utf8.text content
  | .eof => False
  | kind => lexeme.head? ≠ some Byte.quote ∧ kind.text = Byte.text lexeme

/-- What is spelled as a token of some kind, if that is neither a string nor the end. -/
theorem spelled_of_text {lexeme : List UInt8} {kind : TokenKind}
    (hhead : lexeme.head? ≠ some Byte.quote) (htext : kind.text = Byte.text lexeme)
    (heof : kind ≠ .eof) (hstring : ∀ s, kind ≠ .string s) : Spelled lexeme kind := by
  cases kind with
  | string s => exact absurd rfl (hstring s)
  | eof => exact absurd rfl heof
  | keyword k => exact ⟨hhead, htext⟩
  | attributeName a => exact ⟨hhead, htext⟩
  | mark m => exact ⟨hhead, htext⟩
  | identifier s => exact ⟨hhead, htext⟩
  | number s => exact ⟨hhead, htext⟩

/-- A quote is no literal byte. -/
theorem isLiteral_quote : Byte.isLiteral Byte.quote = false := by decide

/-- A mark stands for the byte that it is written with. -/
theorem text_mark {b : UInt8} {m : Mark} (h : Mark.ofByte? b = some m) :
    b ≠ Byte.quote ∧ (TokenKind.mark m).text = Byte.text [b] := by
  have hb : m.char.toUInt8 = b := by simpa using List.find?_some h
  subst hb
  cases m <;> decide

/-- A lexeme spells the token it is read as. -/
theorem ReadAs.spelled {lexeme : List UInt8} {kind : TokenKind} (h : ReadAs lexeme kind) :
    Spelled lexeme kind := by
  rcases h with h | ⟨content, hcontent, rfl, rfl⟩ | ⟨b, m, rfl, hm, rfl⟩
  · have hhead : lexeme.head? ≠ some Byte.quote := by
      intro hhead
      have hliteral := Run.isLiteral_of_kindOf? h _ (List.mem_of_head? hhead)
      rw [isLiteral_quote] at hliteral
      cases hliteral
    obtain ⟨run, -, hkind⟩ := Option.map_eq_some_iff.mp h
    obtain ⟨heof, hstring⟩ := run.kind_ne (Byte.text lexeme)
    rw [hkind] at heof hstring
    exact spelled_of_text hhead (Run.text_of_kindOf? h) heof hstring
  · exact ⟨content, hcontent, rfl, rfl⟩
  · obtain ⟨hb, htext⟩ := text_mark hm
    exact ⟨by simpa using hb, htext⟩

/-- A quote is no slash. -/
theorem quote_ne_slash : Byte.quote ≠ '/'.toUInt8 := by decide

section StopsAt

variable {pos : Position} {rest : List UInt8} {stop : Stop}

/-- Reading ends well exactly if no bytes are left. -/
theorem StopsAt.finished_iff (h : StopsAt pos rest stop) :
    (∃ p, stop = .finished p) ↔ rest = [] := by
  cases h <;> simp

/-- Reading ends at a slash that another slash does not follow. -/
theorem StopsAt.malformedComment_iff (h : StopsAt pos rest stop) (p : Position) :
    stop = .failed (.malformedComment p) ↔
      p = pos ∧ ∃ bs, rest = '/'.toUInt8 :: bs ∧ bs.head? ≠ some '/'.toUInt8 := by
  cases h with
  | finished => simp
  | malformedComment h => simp [eq_comm, h]
  | unterminatedString h => simp [quote_ne_slash]
  | unexpectedChar h => simp [h.slash]

/-- Reading ends at a quote that is never closed. -/
theorem StopsAt.unterminatedString_iff (h : StopsAt pos rest stop) (p : Position) :
    stop = .failed (.unterminatedString p) ↔
      p = pos ∧ ∃ bs, rest = Byte.quote :: bs ∧ Byte.quote ∉ bs := by
  cases h with
  | finished => simp
  | malformedComment h => simp [quote_ne_slash.symm]
  | unterminatedString h => simp [eq_comm, h]
  | unexpectedChar h => simp [h.quote]

/-- Reading ends at a byte that begins no token. -/
theorem StopsAt.unexpectedChar_iff (h : StopsAt pos rest stop) (c : Char) (p : Position) :
    stop = .failed (.unexpectedChar c p) ↔
      p = pos ∧ ∃ b bs, rest = b :: bs ∧ Foreign b ∧ c = Byte.toChar b := by
  cases h with
  | finished => simp
  | malformedComment h =>
    have hslash : ¬ Foreign '/'.toUInt8 := fun hforeign => hforeign.slash rfl
    simp [hslash]
  | unterminatedString h =>
    have hquote : ¬ Foreign Byte.quote := fun hforeign => hforeign.quote rfl
    simp [hquote]
  | unexpectedChar h => simp [h, eq_comm, and_comm]

/-- Reading bytes that are there does not fail. -/
theorem StopsAt.ne_readFailure (h : StopsAt pos rest stop) (message : String) :
    stop ≠ .failed (.readFailure message) := by
  cases h <;> simp

end StopsAt

/-- A stream has no error if it ends well. -/
theorem error?_eq_none_iff {stream : TokenStream} :
    stream.error? = none ↔ ∃ p, stream.stop = .finished p := by
  unfold TokenStream.error?
  cases stream.stop <;> simp

/-- Its error is what it ends with. -/
theorem error?_eq_some_iff {stream : TokenStream} {error : LexError} :
    stream.error? = some error ↔ stream.stop = .failed error := by
  unfold TokenStream.error?
  cases stream.stop <;> simp

/-- Bytes are taken apart in exactly one way, by the lexical grammar. Their tokens are read off the
lexemes, and there is an error exactly if something is left over, which says what the error is. -/
theorem lexical_grammar_exact (bytes : List UInt8) :
    ∃ f, Factorization.Of bytes f ∧ (∀ g, Factorization.Of bytes g → g = f) ∧
      bytes = f.before ++ f.rest ∧
      List.Forall₂ (fun t lexeme => Spelled lexeme t.kind)
        (Source.ofBytes bytes).tokens.tokens f.lexemes ∧
      ((Source.ofBytes bytes).tokens.error? = none ↔ f.rest = []) ∧
      (∀ pos, (Source.ofBytes bytes).tokens.error? = some (.malformedComment pos) ↔
        pos = Position.start.advance f.before ∧
          ∃ bs, f.rest = '/'.toUInt8 :: bs ∧ bs.head? ≠ some '/'.toUInt8) ∧
      (∀ pos, (Source.ofBytes bytes).tokens.error? = some (.unterminatedString pos) ↔
        pos = Position.start.advance f.before ∧
          ∃ bs, f.rest = Byte.quote :: bs ∧ Byte.quote ∉ bs) ∧
      (∀ c pos, (Source.ofBytes bytes).tokens.error? = some (.unexpectedChar c pos) ↔
        pos = Position.start.advance f.before ∧
          ∃ b bs, f.rest = b :: bs ∧ Foreign b ∧ c = Byte.toChar b) ∧
      ∀ message, (Source.ofBytes bytes).tokens.error? ≠ some (.readFailure message) := by
  obtain ⟨f, hf⟩ := Factorization.exists_of bytes
  obtain ⟨ts, stop, htokens, hread, hstop⟩ := hf.tokens .start
  have hsource : (Source.ofBytes bytes).tokens = ⟨ts, stop⟩ := htokens
  refine ⟨f, hf, fun g hg => hg.unique hf rfl, hf.bytes_eq, ?_⟩
  simp only [error?_eq_none_iff, error?_eq_some_iff, Ne, hsource]
  exact ⟨hread.imp fun _ _ h => h.spelled, hstop.finished_iff, hstop.malformedComment_iff,
    hstop.unterminatedString_iff, hstop.unexpectedChar_iff, hstop.ne_readFailure⟩

end Midl.Lexical
