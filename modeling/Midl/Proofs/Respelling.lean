import Midl.Proofs.Provenance
import Midl.Proofs.Spelling

/-!
# Tokens are read back from their texts

The texts of the tokens of a source, with single spaces between them, are read as the same tokens.
This is so for every token that can be written (`TokenKind.Writable`), and all tokens that are found
in sources can be, but for names that are not ASCII: a byte of a name stands for the character of
that number, which is written as two bytes if it is not ASCII.

What is kept of a pragma is such a text, so its tokens can be told from it.
-/

namespace Midl

/-- An ASCII character is written as the byte that it was read from. -/
theorem Byte.encodeChar_toChar : ∀ b : UInt8, (toChar b).toNat < 128 →
    String.utf8EncodeChar (toChar b) = [b] :=
  Byte.forall_of_forall_lt (by decide +kernel)

/-- The encoding of a text of ASCII characters is the bytes it was read from. -/
theorem encode_text {bytes : List UInt8} (h : ∀ c ∈ (Byte.text bytes).toList, c.toNat < 128) :
    Utf8.encode (Byte.text bytes).toList = bytes := by
  rw [Byte.text, String.toList_ofList] at h ⊢
  induction bytes with
  | nil => rfl
  | cons b bytes ih =>
    obtain ⟨hb, hbytes⟩ := List.forall_mem_cons.mp h
    rw [Utf8.encode] at ih ⊢
    rw [List.map_cons, List.flatMap_cons, Byte.encodeChar_toChar b hb, ih hbytes]
    rfl

/-- A literal run of ASCII characters is read back from its text. -/
theorem kindsOf_text {bytes : List UInt8} {k : TokenKind} (h : Run.kindOf? bytes = some k)
    (hascii : ∀ c ∈ (Byte.text bytes).toList, c.toNat < 128) : kindsOf (Byte.text bytes) = [k] := by
  have hend : Parts [] := by simp [Parts]
  have hscan := scan_run h .start hend
  rw [List.append_nil] at hscan
  have hholds : (Source.ofBytes bytes).tokens.Holds [k] := (TokenStream.Holds.nil _).token hscan
  rw [kindsOf, Source.ofText, encode_text hascii]
  exact hholds.kinds

/-- What is found in a source can be written, if it is not a name with other characters than
ASCII. -/
theorem TokenKind.Lexed.writable {k : TokenKind} (h : k.Lexed)
    (hascii : ∀ name, k = .identifier name → ∀ c ∈ name.toList, c.toNat < 128) : k.Writable := by
  cases k with
  | identifier name =>
    obtain ⟨bytes, hbytes⟩ := h
    obtain rfl : name = Byte.text bytes := Run.text_of_kindOf? hbytes
    exact ⟨hascii _ rfl, kindsOf_text hbytes (hascii _ rfl)⟩
  | number text =>
    obtain ⟨bytes, hbytes⟩ := h
    obtain rfl : text = Byte.text bytes := Run.text_of_kindOf? hbytes
    exact kindsOf_text hbytes (lt_of_mem_text (Run.lt_of_kindOf?_number hbytes))
  | string text => exact h
  | eof => exact h.elim
  | _ => trivial

/-- Each of the stretches is one of the whole. -/
theorem Stretches.isInfix {blocks : List (List TokenKind)} {kinds : List TokenKind}
    (h : Stretches blocks kinds) : ∀ block ∈ blocks, block <:+: kinds := by
  induction h with
  | nil gap => simp
  | cons gap block _ ih =>
    intro other hother
    rcases List.mem_cons.mp hother with rfl | hother
    · exact ⟨gap, _, List.append_assoc ..⟩
    · exact ((ih other hother).trans (List.suffix_append _ _).isInfix).trans
        (List.suffix_append _ _).isInfix

namespace Source

/-- The texts of the tokens of a source are read as its tokens. So is the text that is kept of each
of its pragmas: it is read as tokens that stand in the source, next to the keyword, a pragma's after
those of the one before it. -/
theorem tokens_spell {source : Source}
    (hascii : ∀ name, .identifier name ∈ source.tokens.tokens.map Token.kind →
      ∀ c ∈ name.toList, c.toNat < 128) :
    let kinds := source.tokens.tokens.map Token.kind
    (ofText (TokenKind.spell kinds)).tokens.Holds kinds ∧
    ∀ ds, source.parse = .ok ds → ∃ blocks : List (List TokenKind),
      Stretches (blocks.map (.keyword .midlPragma :: ·)) kinds ∧
      Declaration.pragmas ds = blocks.map TokenKind.spell ∧
      ∀ block ∈ blocks, IsPragma block ∧ (ofText (TokenKind.spell block)).tokens.Holds block := by
  intro kinds
  have hwritable : ∀ k ∈ kinds, k.Writable := by
    intro k hk
    obtain ⟨t, ht, rfl⟩ := List.mem_map.mp hk
    exact (Cursor.lexed_of_mem_tokens ht).writable fun name hname => hascii name (hname ▸ hk)
  refine ⟨(spells_intercalate hwritable).holds, fun ds h => ?_⟩
  obtain ⟨blocks, hblocks, hstretches, hpragmas⟩ := pragmasFrom_of_parse h
  refine ⟨blocks, hstretches, hpragmas, fun block hblock => ⟨hblocks block hblock, ?_⟩⟩
  have hinfix := hstretches.isInfix _ (List.mem_map_of_mem hblock)
  refine (spells_intercalate fun k hk => hwritable k ?_).holds
  exact hinfix.subset (List.mem_cons_of_mem _ hk)

/-- A pragma, without a space where none is needed. -/
def compressed : Source := ofText "midl_pragma w(d:0x4 \"é\");"

/-- Tokens written without a blank between them are read as they were. -/
theorem tokens_spell_compressed :
    let kinds : List TokenKind := [.keyword .midlPragma, .identifier "w", .mark .openParen,
      .identifier "d", .mark .colon, .number "0x4", .string "é", .mark .closeParen,
      .mark .semicolon]
    compressed.tokens.tokens.map Token.kind = kinds ∧
    (∀ name, .identifier name ∈ kinds → ∀ c ∈ name.toList, c.toNat < 128) ∧
    (ofText (TokenKind.spell kinds)).tokens.Holds kinds ∧
    ∃ ds block, compressed.parse = .ok ds ∧
      Declaration.pragmas ds = ["w ( d : 0x4 \"é\" )"] ∧ IsPragma block ∧
      (ofText "w ( d : 0x4 \"é\" )").tokens.Holds block := by
  intro kinds
  have hkinds : compressed.tokens.tokens.map Token.kind = kinds := by decide +kernel
  have hascii : ∀ name, .identifier name ∈ kinds → ∀ c ∈ name.toList, c.toNat < 128 := by
    have hwritable : ∀ k ∈ kinds, k.Writable := by decide +kernel
    exact fun name hname => (hwritable _ hname).1
  have hpragmas : compressed.parse.toOption.map Declaration.pragmas =
      some ["w ( d : 0x4 \"é\" )"] := by
    decide +kernel
  obtain ⟨hspelled, hall⟩ := tokens_spell (fun name => hkinds ▸ hascii name)
  obtain ⟨ds, hok, hds⟩ := Declaration.exists_of_map_toOption hpragmas
  obtain ⟨blocks, -, htexts, hblocks⟩ := hall ds hok
  rw [hds] at htexts
  obtain ⟨block, rfl, htext⟩ := List.map_eq_singleton_iff.mp htexts.symm
  obtain ⟨hpragma, hholds⟩ := hblocks block List.mem_cons_self
  rw [htext] at hholds
  exact ⟨hkinds, hascii, hkinds ▸ hspelled, ds, block, hok, hds, hpragma, hholds⟩

-- A name that is not ASCII is not read back: its byte is a character that takes two bytes.
example : (ofBytes [0xe9]).tokens.tokens.map Token.kind = [.identifier "é"] ∧
    kindsOf "é" ≠ [.identifier "é"] := by
  decide +kernel

end Source

end Midl
