import Midl.Proofs.Lexing

/-!
# Spelling tokens

`Spells` says that a text is read as certain tokens, whatever follows it, as long as that cannot
be taken for more of the last one. Every token that can be written is spelled by its own text, and
so are tokens with spaces between them.
-/

namespace Midl

/-- The kinds of tokens that a text is read as. -/
def kindsOf (text : String) : List TokenKind := (Source.ofText text).tokens.tokens.map Token.kind

/-- A stream holds tokens of these kinds, and the input is over after them. -/
structure TokenStream.Holds (stream : TokenStream) (kinds : List TokenKind) : Prop where
  kinds : stream.tokens.map Token.kind = kinds
  finished : ∃ pos, stream.stop = .finished pos

/-- Nothing is read as no tokens. -/
theorem TokenStream.Holds.nil (pos : Position) : ((Cursor.mk pos []).tokens .eof).Holds [] := by
  rw [Cursor.tokens_of_finished rfl]
  exact ⟨rfl, pos, rfl⟩

/-- A token that is found comes before those of the rest. -/
theorem TokenStream.Holds.token {cursor rest : Cursor} {t : Token}
    {ks : List TokenKind} (h : (rest.tokens .eof).Holds ks)
    (hscan : scan .eof cursor = .token t rest) :
    (cursor.tokens .eof).Holds (t.kind :: ks) := by
  rw [Cursor.tokens_of_token hscan]
  exact ⟨congrArg (t.kind :: ·) h.kinds, h.finished⟩

/-- A token can be written: as a name or a number it is read as itself, as a string it holds no
quote. -/
def TokenKind.Writable : TokenKind → Prop
  | identifier s => (∀ c ∈ s.toList, c.toNat < 128) ∧ kindsOf s = [.identifier s]
  | number s => kindsOf s = [.number s]
  | string s => '"' ∉ s.toList
  | eof => False
  | _ => True

instance : DecidablePred TokenKind.Writable
  | .identifier s =>
    -- The characters of the name are gone through, not all characters there are.
    have : Decidable (∀ c ∈ s.toList, c.toNat < 128) := List.decidableBAll _ _
    inferInstanceAs (Decidable ((∀ c ∈ s.toList, c.toNat < 128) ∧ kindsOf s = [.identifier s]))
  | .number s => inferInstanceAs (Decidable (kindsOf s = [.number s]))
  | .string s => inferInstanceAs (Decidable ('"' ∉ s.toList))
  | .eof => .isFalse id
  | .keyword _ | .attributeName _ | .mark _ => .isTrue trivial

/-- A byte that cannot be taken for more of a literal run, or nothing at all. -/
def Parts (rest : List UInt8) : Prop := ∀ b ∈ rest.head?, Byte.isLiteral b = false

/-- Nothing literal comes right after the longest literal run. -/
theorem parts_dropWhile (bs : List UInt8) : Parts (bs.dropWhile Byte.isLiteral) := by
  intro b hb
  have hhead := List.head?_dropWhile_not Byte.isLiteral bs
  rw [hb] at hhead
  exact hhead

/-- A text is read as tokens of these kinds, whatever is parted from it by what follows. -/
def Spells (text : String) (kinds : List TokenKind) : Prop :=
  ∀ (pos : Position) (rest : List UInt8), Parts rest →
    ∃ (ts : List Token) (pos' : Position), ts.map Token.kind = kinds ∧
      (Cursor.mk pos (Utf8.encode text.toList ++ rest)).tokens .eof =
        ⟨ts ++ ((Cursor.mk pos' rest).tokens .eof).tokens,
          ((Cursor.mk pos' rest).tokens .eof).stop⟩

/-! ## One token -/

/-- Literal bytes begin no trivia. -/
theorem Byte.not_trivia_of_isLiteral : ∀ b : UInt8, isLiteral b = true →
    isBlank b = false ∧ b ≠ '#'.toUInt8 ∧ b ≠ '/'.toUInt8 :=
  Byte.forall_of_forall_lt (by decide +kernel)

/-- Nothing is skipped where no trivia begin. -/
theorem dropTrivia_of_not_trivia {b : UInt8} (pos : Position) (bs : List UInt8)
    (hblank : Byte.isBlank b = false) (hhash : b ≠ '#'.toUInt8) (hslash : b ≠ '/'.toUInt8) :
    Cursor.dropTrivia false pos (b :: bs) = ⟨pos, b :: bs⟩ := by
  simp [Cursor.dropTrivia, hblank, hhash, hslash]

/-- Where a literal byte stands, a run is read. -/
theorem scan_literal {b : UInt8} (hb : Byte.isLiteral b = true) (ending : Ending) (pos : Position)
    (bs : List UInt8) : scan ending ⟨pos, b :: bs⟩ = scanRun ending pos b bs := by
  obtain ⟨hblank, hhash, hslash⟩ := Byte.not_trivia_of_isLiteral b hb
  unfold scan
  rw [dropTrivia_of_not_trivia pos _ hblank hhash hslash]
  simp only [hslash, hb, if_false, if_true]

/-- A run is read up to the first byte that parts it from what follows, which is looked at. -/
theorem scanRun_of_kindOf? {b : UInt8} {bs rest : List UInt8} {k : TokenKind}
    (h : Run.kindOf? (b :: bs) = some k) (hrest : Parts rest) (ending : Ending) (pos : Position) :
    scanRun ending pos b (bs ++ rest) =
      ending.lookAt rest (.token ⟨k, pos⟩ ⟨pos.advance (b :: bs), rest⟩) := by
  obtain ⟨run, hrun, rfl⟩ := Option.map_eq_some_iff.mp h
  rw [Run.ofBytes?] at hrun
  split at hrun
  · unfold scanRun
    rw [Run.follow_append_of_foldlM hrun hrest]
  · cases hrun

/-- A literal run that is parted from what follows is one token. -/
theorem scan_run {bytes : List UInt8} {k : TokenKind} (h : Run.kindOf? bytes = some k)
    (pos : Position) {rest : List UInt8} (hrest : Parts rest) :
    scan .eof ⟨pos, bytes ++ rest⟩ = .token ⟨k, pos⟩ ⟨pos.advance bytes, rest⟩ := by
  cases bytes with
  | nil => cases h
  | cons b bs =>
    have hb := Run.isLiteral_of_kindOf? h b List.mem_cons_self
    rw [List.cons_append, scan_literal hb, scanRun_of_kindOf? h hrest]
    cases rest with
    | nil => rfl
    | cons c cs => rfl

/-- A string whose content holds no quote is one token. -/
theorem scan_string {bytes : List UInt8} (h : Byte.quote ∉ bytes) (pos : Position)
    (rest : List UInt8) :
    scan .eof ⟨pos, Byte.quote :: bytes ++ Byte.quote :: rest⟩ =
      .token ⟨.string (Utf8.text bytes), pos⟩
        ⟨pos.advance (Byte.quote :: bytes ++ [Byte.quote]), rest⟩ := by
  have hne : ∀ b ∈ bytes, decide (b ≠ Byte.quote) = true := by
    intro b hb
    simp only [decide_eq_true_eq]
    rintro rfl
    exact h hb
  have htake : (bytes ++ Byte.quote :: rest).takeWhile (· ≠ Byte.quote) = bytes := by
    rw [List.takeWhile_append_of_pos hne]
    simp
  have hdrop : (bytes ++ Byte.quote :: rest).dropWhile (· ≠ Byte.quote) = Byte.quote :: rest := by
    rw [List.dropWhile_append_of_pos hne]
    simp
  unfold scan
  rw [List.cons_append, dropTrivia_of_not_trivia pos _ (by decide) (by decide) (by decide)]
  show scanString .eof pos (bytes ++ Byte.quote :: rest) = _
  unfold scanString
  rw [htake, hdrop]

/-- A mark that is a token by itself is one. -/
theorem scan_mark {m : Mark} (h : m ≠ .dash) (pos : Position) (rest : List UInt8) :
    scan .eof ⟨pos, m.char.toUInt8 :: rest⟩ =
      .token ⟨.mark m, pos⟩ ⟨pos.after m.char.toUInt8, rest⟩ := by
  cases m with
  | dash => exact absurd rfl h
  | _ => rfl

/-! ## What can be written -/

/-- Characters are encoded one by one. -/
theorem encode_append (xs ys : List Char) :
    Utf8.encode (xs ++ ys) = Utf8.encode xs ++ Utf8.encode ys :=
  List.flatMap_append

/-- An ASCII character is one byte. -/
theorem length_encodeChar_of_ascii {c : Char} (h : c.toNat < 128) :
    (String.utf8EncodeChar c).length = 1 := by
  rw [Utf8.encodeChar_one (by omega)]
  rfl

/-- ASCII characters are a byte each. -/
theorem length_encode_of_ascii {cs : List Char} (h : ∀ c ∈ cs, c.toNat < 128) :
    (Utf8.encode cs).length = cs.length := by
  induction cs with
  | nil => rfl
  | cons c cs ih =>
    have hc := length_encodeChar_of_ascii (h c List.mem_cons_self)
    have hcs := ih fun x hx => h x (List.mem_cons_of_mem _ hx)
    rw [Utf8.encode] at hcs ⊢
    rw [List.flatMap_cons, List.length_append, hc, hcs, List.length_cons, Nat.add_comm]

/-- What is read as a single token begins with it. -/
theorem scan_of_kinds {bytes : List UInt8} {k : TokenKind}
    (h : (Source.ofBytes bytes).tokens.tokens.map Token.kind = [k]) :
    ∃ t c, scan .eof (.start bytes) = .token t c ∧ t.kind = k := by
  change ((Cursor.start bytes).tokens .eof).tokens.map Token.kind = [k] at h
  cases hscan : scan .eof (.start bytes) with
  | token t c =>
    rw [Cursor.tokens_of_token hscan] at h
    exact ⟨t, c, rfl, (List.cons.inj h).1⟩
  | finished pos =>
    rw [Cursor.tokens_of_finished hscan] at h
    cases h
  | failed error =>
    rw [Cursor.tokens_of_failed hscan] at h
    cases h

/-- An ASCII byte is an ASCII character. -/
theorem Byte.toNat_toChar_lt : ∀ b : UInt8, b.toNat < 128 → (toChar b).toNat < 128 :=
  Byte.forall_of_forall_lt (by decide +kernel)

/-- The characters of ASCII bytes are ASCII. -/
theorem lt_of_mem_text {bytes : List UInt8} (h : ∀ b ∈ bytes, b.toNat < 128) :
    ∀ c ∈ (Byte.text bytes).toList, c.toNat < 128 := by
  intro c hc
  rw [Byte.text, String.toList_ofList] at hc
  obtain ⟨b, hb, rfl⟩ := List.mem_map.mp hc
  exact Byte.toNat_toChar_lt b (h b hb)

/-- What is read as a single name or number is a literal run. -/
theorem kindOf?_of_kindsOf {text : String} {k : TokenKind}
    (hk : k = .identifier text ∧ (∀ c ∈ text.toList, c.toNat < 128) ∨ k = .number text)
    (h : kindsOf text = [k]) : Run.kindOf? (Utf8.encode text.toList) = some k := by
  obtain ⟨t, c, hscan, rfl⟩ := scan_of_kinds h
  have htext : t.kind.text = text := by
    rcases hk with ⟨hk, -⟩ | hk
    · rw [hk]
      rfl
    · rw [hk]
      rfl
  rcases scan_cases hscan with ⟨lexeme, hin, hkind⟩ | ⟨s, hs, -⟩ | ⟨m, hm⟩
  · have hlexeme : text = Byte.text lexeme := htext.symm.trans (Run.text_of_kindOf? hkind)
    have hascii : ∀ c ∈ text.toList, c.toNat < 128 := by
      rcases hk with ⟨-, hascii⟩ | hk
      · exact hascii
      · rw [hk] at hkind
        rw [hlexeme]
        exact lt_of_mem_text (Run.lt_of_kindOf?_number hkind)
    -- There are as many bytes as characters, so the run leaves none out.
    have hlength : lexeme.length = (Utf8.encode text.toList).length := by
      rw [length_encode_of_ascii hascii, hlexeme, Byte.text, String.toList_ofList, List.length_map]
    have hall : lexeme = Utf8.encode text.toList := hin.eq_of_length hlength
    rw [← hall]
    exact hkind
  · rcases hk with ⟨hk, -⟩ | hk
    · rw [hk] at hs
      cases hs
    · rw [hk] at hs
      cases hs
  · rcases hk with ⟨hk, -⟩ | hk
    · rw [hk] at hm
      cases hm
    · rw [hk] at hm
      cases hm

/-- The spelling of a keyword is read as the keyword. -/
theorem kindOf?_keyword (k : Keyword) :
    Run.kindOf? (Utf8.encode k.text.toList) = some (.keyword k) := by
  cases k <;> decide

/-- The keyword of an attribute is read as the name of it. -/
theorem kindOf?_attributeName (k : AttributeKind) :
    Run.kindOf? (Utf8.encode k.keyword.toList) = some (.attributeName k) := by
  cases k <;> decide

/-- A token that can be written is read off its text. -/
theorem TokenKind.Writable.scan {k : TokenKind} (h : k.Writable) (pos : Position)
    {rest : List UInt8} (hrest : Parts rest) :
    ∃ pos', Midl.scan .eof ⟨pos, Utf8.encode k.text.toList ++ rest⟩ =
      .token ⟨k, pos⟩ ⟨pos', rest⟩ := by
  cases k with
  | keyword k => exact ⟨_, scan_run (kindOf?_keyword k) pos hrest⟩
  | attributeName k => exact ⟨_, scan_run (kindOf?_attributeName k) pos hrest⟩
  | identifier s => exact ⟨_, scan_run (kindOf?_of_kindsOf (.inl ⟨rfl, h.1⟩) h.2) pos hrest⟩
  | number s => exact ⟨_, scan_run (kindOf?_of_kindsOf (.inr rfl) h) pos hrest⟩
  | string s =>
    have hscan := scan_string (Utf8.quote_not_mem_encode h) pos rest
    have hbytes : Utf8.encode (TokenKind.string s).text.toList ++ rest =
        Byte.quote :: Utf8.encode s.toList ++ Byte.quote :: rest := by
      rw [TokenKind.text, String.toList_append, String.toList_append, encode_append, encode_append,
        List.append_assoc]
      rfl
    have htext : Utf8.text (Utf8.encode s.toList) = s := by
      rw [Utf8.text, Utf8.decode_encode, String.ofList_toList]
    rw [htext] at hscan
    exact ⟨_, by rw [hbytes, hscan]⟩
  | mark m =>
    by_cases hm : m = .dash
    · subst hm
      exact ⟨_, scan_run (by decide) pos hrest⟩
    · have hscan := scan_mark hm pos rest
      refine ⟨pos.after m.char.toUInt8, ?_⟩
      cases m with
      | dash => exact absurd rfl hm
      | _ => exact hscan
  | eof => exact h.elim

/-! ## Several tokens -/

/-- A token that can be written is spelled by its text. -/
theorem TokenKind.Writable.spells {k : TokenKind} (h : k.Writable) : Spells k.text [k] := by
  intro pos rest hrest
  obtain ⟨pos', hscan⟩ := h.scan pos hrest
  exact ⟨[⟨k, pos⟩], pos', rfl, Cursor.tokens_of_token hscan⟩

/-- The empty text spells no tokens. -/
theorem Spells.nil : Spells "" [] := by
  intro pos rest _
  exact ⟨[], pos, rfl, rfl⟩

/-- A text after another spells what comes after, if it parts the two. -/
theorem Spells.append {x y : String} {ks ls : List TokenKind} (hx : Spells x ks)
    (hy : Spells y ls) (hparts : Parts (Utf8.encode y.toList)) : Spells (x ++ y) (ks ++ ls) := by
  intro pos rest hrest
  have hnext : Parts (Utf8.encode y.toList ++ rest) := by
    cases hbytes : Utf8.encode y.toList with
    | nil => exact hrest
    | cons b bs =>
      rw [hbytes] at hparts
      exact hparts
  obtain ⟨ts, pos', hts, htokens⟩ := hx pos _ hnext
  obtain ⟨us, pos'', hus, hrest'⟩ := hy pos' rest hrest
  refine ⟨ts ++ us, pos'', by rw [List.map_append, hts, hus], ?_⟩
  rw [String.toList_append, encode_append, List.append_assoc, htokens, hrest', List.append_assoc]

/-- A blank makes no difference to the tokens after it. -/
theorem tokens_blank {b : UInt8} (h : Byte.isBlank b = true) (pos : Position) (rest : List UInt8) :
    (Cursor.mk pos (b :: rest)).tokens .eof = (Cursor.mk (pos.after b) rest).tokens .eof := by
  have hscan : scan .eof ⟨pos, b :: rest⟩ = scan .eof ⟨pos.after b, rest⟩ := by
    unfold scan
    simp only [Cursor.dropTrivia, h, if_true, Bool.false_eq_true, if_false]
  rw [Cursor.tokens, Cursor.tokens, hscan]

/-- A blank before tokens makes no difference. -/
theorem TokenStream.Holds.blank {b : UInt8} (hb : Byte.isBlank b = true) {pos : Position}
    {bytes : List UInt8} {ks : List TokenKind}
    (h : ((Cursor.mk (pos.after b) bytes).tokens .eof).Holds ks) :
    ((Cursor.mk pos (b :: bytes)).tokens .eof).Holds ks := by
  rw [tokens_blank hb]
  exact h

/-- A text with a space after it is read as its tokens, whatever follows. -/
theorem Spells.tokens_space {text : String} {ks : List TokenKind} (h : Spells text ks)
    (pos : Position) (rest : List UInt8) :
    ∃ (ts : List Token) (pos' : Position), ts.map Token.kind = ks ∧
      (Cursor.mk pos (Utf8.encode (text ++ " ").toList ++ rest)).tokens .eof =
        ⟨ts ++ ((Cursor.mk pos' rest).tokens .eof).tokens,
          ((Cursor.mk pos' rest).tokens .eof).stop⟩ := by
  have hparts : Parts (' '.toUInt8 :: rest) := by
    rintro _ ⟨⟩
    decide
  obtain ⟨ts, pos', hts, htokens⟩ := h pos _ hparts
  refine ⟨ts, pos'.after ' '.toUInt8, hts, ?_⟩
  rw [tokens_blank (by decide)] at htokens
  rw [String.toList_append, encode_append, List.append_assoc, ← htokens]
  rfl

/-- Texts with a space between them are read one after the other. -/
theorem Spells.spaced {x y : String} {ks ls : List TokenKind} (hx : Spells x ks)
    (hy : Spells y ls) : Spells (x ++ " " ++ y) (ks ++ ls) := by
  intro pos rest hrest
  obtain ⟨ts, pos', hts, htokens⟩ := hx.tokens_space pos (Utf8.encode y.toList ++ rest)
  obtain ⟨us, pos'', hus, hrest'⟩ := hy pos' rest hrest
  refine ⟨ts ++ us, pos'', by rw [List.map_append, hts, hus], ?_⟩
  rw [String.toList_append, encode_append, List.append_assoc, htokens, hrest', List.append_assoc]

/-- Tokens with single spaces between them are spelled by their texts. -/
theorem spells_intercalate {ks : List TokenKind} (h : ∀ k ∈ ks, k.Writable) :
    Spells (" ".intercalate (ks.map TokenKind.text)) ks := by
  induction ks with
  | nil => exact Spells.nil
  | cons k ks ih =>
    have hk := (h k List.mem_cons_self).spells
    cases ks with
    | nil => exact hk
    | cons l ls =>
      rw [List.map_cons, List.map_cons, String.intercalate_cons_cons]
      exact hk.spaced (ih fun x hx => h x (List.mem_cons_of_mem _ hx))

/-- Stars are no part of a literal run. -/
theorem parts_stars (n : Nat) :
    Parts (Utf8.encode (String.ofList (List.replicate n '*')).toList) := by
  rw [String.toList_ofList]
  cases n with
  | zero => simp [Parts, Utf8.encode]
  | succ n =>
    rintro _ ⟨⟩
    decide

/-- Stars are spelled by themselves. -/
theorem spells_stars (n : Nat) :
    Spells (String.ofList (List.replicate n '*')) (List.replicate n (.mark .star)) := by
  induction n with
  | zero => exact Spells.nil
  | succ n ih =>
    have hstar : (TokenKind.mark .star).Writable := trivial
    have htext : String.ofList (List.replicate (n + 1) '*') =
        (TokenKind.mark .star).text ++ String.ofList (List.replicate n '*') := by
      rw [← String.toList_inj, String.toList_append, String.toList_ofList, String.toList_ofList]
      rfl
    rw [htext]
    exact hstar.spells.append ih (parts_stars n)

/-- What a text spells is what it is read as. -/
theorem Spells.holds {text : String} {ks : List TokenKind} (h : Spells text ks) :
    (Source.ofText text).tokens.Holds ks := by
  obtain ⟨ts, pos', hts, htokens⟩ := h .start [] (by simp [Parts])
  rw [List.append_nil] at htokens
  obtain ⟨hnil, hfinished⟩ := TokenStream.Holds.nil pos'
  have hsource : (Source.ofText text).tokens = _ := htokens
  rw [hsource]
  exact ⟨by rw [List.map_append, hts, hnil, List.append_nil], hfinished⟩

/-- What a text spells is what it is read as. -/
theorem Spells.kindsOf_eq {text : String} {ks : List TokenKind} (h : Spells text ks) :
    kindsOf text = ks :=
  h.holds.kinds

end Midl
