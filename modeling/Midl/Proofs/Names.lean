import Midl.Proofs.Grammar
import Midl.Proofs.Parsed

/-!
# Names and where they stand

A name is a literal run that is neither a reserved word nor a number nor the dash, and it stands
in its source as a longest such run. `TokenKind.FoundIn` is the vocabulary that a source has by
its bytes, and the declarations that a source is read as are well formed in terms of it.
-/

namespace Midl

/-! ## Runs that are no names -/

/-- Decimal digits, or a zero, the mark `x` and any number of hexadecimal digits. -/
def Run.IsNumeral (bytes : List UInt8) : Prop :=
  (bytes ≠ [] ∧ ∀ b ∈ bytes, Byte.isDigit b = true) ∨
  ∃ x digits, bytes = '0'.toUInt8 :: x :: digits ∧ (x = 'x'.toUInt8 ∨ x = 'X'.toUInt8) ∧
    ∀ b ∈ digits, Byte.isHexDigit b = true

/-- A word that is a keyword or names an attribute. -/
def IsReserved (text : String) : Prop :=
  (∃ k : Keyword, k.text = text) ∨ ∃ a : AttributeKind, a.keyword = text

namespace Run

/-- Hexadecimal digits are literal bytes. -/
theorem isLiteral_of_isHexDigit : ∀ b : UInt8, Byte.isHexDigit b = true → Byte.isLiteral b = true :=
  Byte.forall_of_forall_lt (by decide +kernel)

/-- Decimal digits are hexadecimal ones. -/
theorem isHexDigit_of_isDigit {b : UInt8} (h : Byte.isDigit b = true) :
    Byte.isHexDigit b = true := by
  simp [Byte.isHexDigit, h]

/-- Decimal digits leave a decimal number one. -/
theorem foldlM_decimal {bs : List UInt8} (h : ∀ b ∈ bs, Byte.isDigit b = true) :
    bs.foldlM next? decimal = some decimal := by
  induction bs with
  | nil => rfl
  | cons b bs ih =>
    obtain ⟨hb, hbs⟩ := List.forall_mem_cons.mp h
    have hnext : decimal.next? b = some decimal := by
      simp [next?, isLiteral_of_isHexDigit b (isHexDigit_of_isDigit hb), hb]
    rw [List.foldlM_cons, hnext]
    exact ih hbs

/-- Hexadecimal digits leave a hexadecimal number one. -/
theorem foldlM_hex {bs : List UInt8} (h : ∀ b ∈ bs, Byte.isHexDigit b = true) :
    bs.foldlM next? hex = some hex := by
  induction bs with
  | nil => rfl
  | cons b bs ih =>
    obtain ⟨hb, hbs⟩ := List.forall_mem_cons.mp h
    have hnext : hex.next? b = some hex := by
      simp [next?, isLiteral_of_isHexDigit b hb, hb]
    rw [List.foldlM_cons, hnext]
    exact ih hbs

/-- A numeral is read as a number. -/
theorem IsNumeral.ofBytes? {bytes : List UInt8} (h : IsNumeral bytes) :
    ∃ run, Run.ofBytes? bytes = some run ∧ run.isNumber = true := by
  rcases h with ⟨hne, hdigits⟩ | ⟨x, digits, rfl, hx, hdigits⟩
  · cases bytes with
    | nil => exact absurd rfl hne
    | cons b bs =>
      obtain ⟨hb, hbs⟩ := List.forall_mem_cons.mp hdigits
      rw [Run.ofBytes?, if_pos (isLiteral_of_isHexDigit b (isHexDigit_of_isDigit hb))]
      unfold ofByte
      by_cases hzero : b = '0'.toUInt8
      · rw [if_pos hzero]
        cases bs with
        | nil => exact ⟨zero, rfl, rfl⟩
        | cons c cs =>
          obtain ⟨hc, hcs⟩ := List.forall_mem_cons.mp hbs
          have hnext : zero.next? c = some decimal := by
            simp [next?, isLiteral_of_isHexDigit c (isHexDigit_of_isDigit hc), hc]
          rw [List.foldlM_cons, hnext]
          exact ⟨decimal, foldlM_decimal hcs, rfl⟩
      · rw [if_neg hzero, if_pos hb]
        exact ⟨decimal, foldlM_decimal hbs, rfl⟩
  · have hnext : zero.next? x = some hex := by
      rcases hx with rfl | rfl <;> rfl
    refine ⟨hex, ?_, rfl⟩
    show (x :: digits).foldlM next? zero = some hex
    rw [List.foldlM_cons, hnext]
    exact foldlM_hex hdigits

end Run

/-- The character of a byte has the number of the byte. -/
theorem Byte.toNat_toChar : ∀ b : UInt8, (toChar b).toNat = b.toNat :=
  Byte.forall_of_forall_lt (by decide +kernel)

/-- Bytes are known from the text that they are read as. -/
theorem Byte.text_injective {bs cs : List UInt8} (h : Byte.text bs = Byte.text cs) : bs = cs := by
  have hmap : bs.map Byte.toChar = cs.map Byte.toChar := String.ofList_injective h
  refine List.map_injective_iff.mpr ?_ hmap
  intro b c hbc
  rw [← UInt8.toNat_inj, ← Byte.toNat_toChar, ← Byte.toNat_toChar, hbc]

/-- A run that is read as a name is not spelled like a run that is read as something else. -/
theorem Run.eq_of_text_eq {bytes other : List UInt8} {k l : TokenKind} (h : kindOf? bytes = some k)
    (hother : kindOf? other = some l) (htext : k.text = l.text) : k = l := by
  rw [text_of_kindOf? h, text_of_kindOf? hother] at htext
  rw [Byte.text_injective htext, hother] at h
  exact (Option.some.inj h).symm

/-- What is read as a name is no reserved word, no number and not the dash. -/
theorem Run.not_reserved_of_kindOf? {bytes : List UInt8} {text : String}
    (h : kindOf? bytes = some (.identifier text)) :
    ¬ IsReserved text ∧ ¬ IsNumeral bytes ∧ text ≠ "-" := by
  refine ⟨?_, ?_, ?_⟩
  · rintro (⟨k, rfl⟩ | ⟨a, rfl⟩)
    · cases eq_of_text_eq h (kindOf?_keyword k) rfl
    · cases eq_of_text_eq h (kindOf?_attributeName a) rfl
  · intro hnumeral
    obtain ⟨run, hrun, hnumber⟩ := hnumeral.ofBytes?
    rw [kindOf?, hrun] at h
    cases run <;> cases hnumber <;> cases h
  · rintro rfl
    have hdash : kindOf? ['-'.toUInt8] = some (.mark .dash) := by decide
    cases eq_of_text_eq h hdash rfl

/-! ## Runs in a source -/

/-- Literal bytes that stand in a source with no literal byte before or after them. -/
structure IsRunIn (bytes run : List UInt8) : Prop where
  ne_nil : run ≠ []
  literal : ∀ b ∈ run, Byte.isLiteral b = true
  stands : ∃ before after, bytes = before ++ (run ++ after) ∧
    (∀ b ∈ before.getLast?, Byte.isLiteral b = false) ∧
    ∀ b ∈ after.head?, Byte.isLiteral b = false

namespace Lexical

/-- Blanks part literal runs. -/
theorem isLiteral_of_isBlank : ∀ b : UInt8, Byte.isBlank b = true → Byte.isLiteral b = false :=
  Byte.forall_of_forall_lt (by decide +kernel)

/-- So do punctuation marks. -/
theorem isLiteral_of_mem_punctuation : ∀ b : UInt8, b ∈ punctuation → Byte.isLiteral b = false :=
  Byte.forall_of_forall_lt (by decide +kernel)

/-- Bytes do not end in a literal one if neither their first nor the last of the others is one. -/
theorem isLiteral_getLast_cons {b : UInt8} {bs : List UInt8} (hb : Byte.isLiteral b = false)
    (hbs : ∀ c ∈ bs.getLast?, Byte.isLiteral c = false) :
    ∀ c ∈ (b :: bs).getLast?, Byte.isLiteral c = false := by
  intro c hc
  rw [List.getLast?_cons] at hc
  obtain rfl : bs.getLast?.getD b = c := Option.some.inj hc
  cases hlast : bs.getLast? with
  | none => exact hb
  | some d => exact hbs d hlast

/-- Trivia that something follows do not end with a literal byte. -/
theorem Trivia.getLast {gap rest : List UInt8} (h : Trivia gap rest) (hrest : rest ≠ []) :
    ∀ b ∈ gap.getLast?, Byte.isLiteral b = false := by
  induction h with
  | nil => simp
  | @blank b gap rest hblank hgap ih =>
    exact isLiteral_getLast_cons (isLiteral_of_isBlank b hblank) (ih hrest)
  | @line opening body gap rest hopening hbody hgap ih =>
    rw [← List.append_assoc, List.getLast?_append_of_ne_nil _ (by simp)]
    exact isLiteral_getLast_cons (by decide) (ih hrest)
  | lastLine => exact absurd rfl hrest

/-- A lexeme does not end with a literal byte if one comes after it. -/
theorem IsLexeme.getLast {after lexeme : List UInt8} (h : IsLexeme after lexeme)
    (hafter : ¬ Parts after) : ∀ b ∈ lexeme.getLast?, Byte.isLiteral b = false := by
  cases h with
  | @mark b hb => simpa using isLiteral_of_mem_punctuation b hb
  | string hcontent =>
    rw [List.getLast?_append_of_ne_nil _ (by simp)]
    simpa using isLiteral_quote
  | run hne hliteral hparts => exact absurd hparts hafter

/-- A lexeme of literal bytes is a run that nothing literal comes after. -/
theorem IsLexeme.parts {after lexeme : List UInt8} (h : IsLexeme after lexeme)
    (hliteral : ∀ b ∈ lexeme, Byte.isLiteral b = true) : Parts after := by
  cases h with
  | @mark b hb =>
    have hb' := hliteral b (by simp)
    rw [isLiteral_of_mem_punctuation b hb] at hb'
    cases hb'
  | string hcontent =>
    have hquote := hliteral Byte.quote (by simp)
    rw [isLiteral_quote] at hquote
    cases hquote
  | run hne _ hparts => exact hparts

/-- A lexeme of literal bytes is a longest run. -/
theorem Factorization.Of.isRunIn {bytes run : List UInt8} {f : Factorization} (h : Of bytes f)
    (hmem : run ∈ f.lexemes) (hliteral : ∀ b ∈ run, Byte.isLiteral b = true) :
    IsRunIn bytes run := by
  induction h with
  | stop => simp [lexemes] at hmem
  | @more gap lexeme after f hgap hlexeme hafter ih =>
    have hne : lexeme ≠ [] := List.length_pos_iff.mp hlexeme.length_pos
    rcases List.mem_cons.mp hmem with rfl | hmem
    · refine ⟨hne, hliteral, gap, after, rfl, ?_, hlexeme.parts hliteral⟩
      exact hgap.trivia.getLast (by simp [hne])
    · obtain ⟨hrun, -, before, rest, rfl, hbefore, hrest⟩ := ih hmem
      refine ⟨hrun, hliteral, gap ++ (lexeme ++ before), rest, by simp, ?_, hrest⟩
      cases before with
      | nil =>
        -- The run would have been part of the lexeme before it.
        have hparts : ¬ Parts ([] ++ (run ++ rest)) := by
          intro hparts
          obtain ⟨b, bs, rfl⟩ := List.exists_cons_of_ne_nil hrun
          have hb := hparts b rfl
          rw [hliteral b List.mem_cons_self] at hb
          cases hb
        rw [List.append_nil, List.getLast?_append_of_ne_nil _ hne]
        exact hlexeme.getLast hparts
      | cons b bs =>
        rw [← List.append_assoc, List.getLast?_append_of_ne_nil _ (by simp)]
        exact hbefore

/-- Every token is read off a lexeme. -/
theorem Factorization.Of.exists_lexeme {bytes : List UInt8} {f : Factorization} (h : Of bytes f)
    {t : Token} (ht : t ∈ (Source.ofBytes bytes).tokens.tokens) :
    ∃ lexeme ∈ f.lexemes, ReadAs lexeme t.kind := by
  obtain ⟨ts, stop, htokens, hread, -⟩ := h.tokens .start
  have hsource : (Source.ofBytes bytes).tokens = ⟨ts, stop⟩ := htokens
  rw [hsource] at ht
  generalize f.lexemes = lexemes at hread
  clear htokens hsource
  induction hread with
  | nil => simp at ht
  | @cons u lexeme us lexemes hkind hread ih =>
    rcases List.mem_cons.mp ht with rfl | ht
    · exact ⟨lexeme, List.mem_cons_self, hkind⟩
    · obtain ⟨other, hother, hread⟩ := ih ht
      exact ⟨other, List.mem_cons_of_mem _ hother, hread⟩

end Lexical

/-! ## The vocabulary of a source -/

/-- A kind of token that a source has. -/
def Occurs (bytes : List UInt8) (kind : TokenKind) : Prop :=
  ∃ t ∈ (Source.ofBytes bytes).tokens.tokens, t.kind = kind

/-- A name that stands in a source: a longest literal run that is neither a number nor reserved
nor the dash. -/
structure IsNameIn (bytes : List UInt8) (text : String) : Prop where
  run : ∃ run, IsRunIn bytes run ∧ text = Byte.text run ∧ ¬ Run.IsNumeral run
  unreserved : ¬ IsReserved text
  not_dash : text ≠ "-"

/-- The vocabulary of a source. Arguments of attributes become strings however they were written,
so of strings it is only asked that they hold no quote. -/
def TokenKind.FoundIn (bytes : List UInt8) : TokenKind → Prop
  | .identifier text => Occurs bytes (.identifier text) ∧ IsNameIn bytes text
  | .string text => '"' ∉ text.toList
  | kind => Occurs bytes kind

/-- A kind that occurs in a source is one that the lexer gives. -/
theorem Occurs.lexed {bytes : List UInt8} {kind : TokenKind} (h : Occurs bytes kind) :
    kind.Lexed := by
  obtain ⟨t, ht, rfl⟩ := h
  exact Cursor.lexed_of_mem_tokens ht

/-- A name among the tokens of a source stands in it. -/
theorem Occurs.isNameIn {bytes : List UInt8} {text : String}
    (h : Occurs bytes (.identifier text)) : IsNameIn bytes text := by
  obtain ⟨t, ht, hkind⟩ := h
  obtain ⟨f, hf⟩ := Lexical.Factorization.exists_of bytes
  obtain ⟨lexeme, hmem, hread⟩ := hf.exists_lexeme ht
  rw [hkind] at hread
  rcases hread with hrun | ⟨content, -, -, hstring⟩ | ⟨b, m, -, -, hmark⟩
  · obtain ⟨hreserved, hnumeral, hdash⟩ := Run.not_reserved_of_kindOf? hrun
    have hstands := hf.isRunIn hmem (Run.isLiteral_of_kindOf? hrun)
    exact ⟨⟨lexeme, hstands, Run.text_of_kindOf? hrun, hnumeral⟩, hreserved, hdash⟩
  · cases hstring
  · cases hmark

/-- It is in the vocabulary of the source. -/
theorem Occurs.foundIn {bytes : List UInt8} {kind : TokenKind} (h : Occurs bytes kind) :
    kind.FoundIn bytes := by
  cases kind with
  | identifier text => exact ⟨h, h.isNameIn⟩
  | string text => exact h.lexed
  | _ => exact h

/-- The vocabulary of a source is one. -/
theorem vocabulary_foundIn (bytes : List UInt8) : Vocabulary (TokenKind.FoundIn bytes) where
  lexed := by
    intro kind h
    cases kind with
    | identifier text => exact h.1.lexed
    | string text => exact h
    | _ => exact Occurs.lexed h
  string := id

/-- The declarations that bytes are read as are well formed, at every depth, and what they name
and mention stands in the bytes. -/
theorem Source.wellFormed_of_parse_bytes {bytes : List UInt8} {ds : List Declaration}
    (h : (Source.ofBytes bytes).parse = .ok ds) :
    Declaration.AllWellFormed (TokenKind.FoundIn bytes) false ds :=
  Source.allWellFormed_of_tokens (vocabulary_foundIn bytes)
    (fun t ht => Occurs.foundIn ⟨t, ht, rfl⟩) h

/-- A source with declarations inside a library, and names of several shapes. -/
def shelf : List UInt8 :=
  Utf8.encode ("import \"unknwn.idl\"; // é\n[version(1.0)] library Shelf \x7b " ++
    "importlib(\"std.tlb\"); module M \x7b const unsigned long**Max-1 = 0x|5a|-7; \x7d" ++
    "coclass C \x7b [default] interface I; \x7d \x7d").toList

/-- A library with a module and a component class in it. -/
theorem Source.wellFormed_of_parse_bytes_shelf :
    ∃ ds, (Source.ofBytes shelf).parse = .ok ds ∧
      (Declaration.preorder ds).map Declaration.kindWord =
        ["import", "library", "importlib", "module", "const", "coclass"] ∧
      Declaration.AllWellFormed (TokenKind.FoundIn shelf) false ds := by
  have hkinds : (Source.ofBytes shelf).parse.toOption.map
      (fun ds => (Declaration.preorder ds).map Declaration.kindWord) =
      some ["import", "library", "importlib", "module", "const", "coclass"] := by
    decide +kernel
  obtain ⟨ds, hparse, hwords⟩ := Declaration.exists_of_kindWords hkinds
  exact ⟨ds, hparse, hwords, wellFormed_of_parse_bytes hparse⟩

end Midl
