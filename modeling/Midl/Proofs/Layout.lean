import Midl.Proofs.Printer
import Midl.Proofs.Spelling
import Midl.Proofs.WellFormed

/-!
# The tokens of what is written

What well-formed declarations are written with is read as the tokens that their pieces stand for,
one piece after the other.
-/

namespace Midl

namespace Piece

/-- The tokens that a piece stands for. -/
def kinds : Piece → List TokenKind
  | token kind => [kind]
  | verbatim text => kindsOf text

/-- The tokens that pieces stand for. -/
def kindsAll (pieces : List Piece) : List TokenKind := pieces.flatMap kinds

@[simp] theorem kinds_word (k : Keyword) : (word k).kinds = [.keyword k] := rfl

@[simp] theorem kinds_mark (m : Mark) : (mark m).kinds = [.mark m] := rfl

@[simp] theorem kinds_ident (n : String) : (ident n).kinds = [.identifier n] := rfl

@[simp] theorem kinds_quoted (s : String) : (quoted s).kinds = [.string s] := rfl

@[simp] theorem kinds_verbatim (s : String) : (verbatim s).kinds = kindsOf s := rfl

@[simp] theorem kindsAll_nil : kindsAll [] = [] := rfl

@[simp] theorem kindsAll_cons (p : Piece) (ps : List Piece) :
    kindsAll (p :: ps) = p.kinds ++ kindsAll ps := rfl

@[simp] theorem kindsAll_append (ps qs : List Piece) :
    kindsAll (ps ++ qs) = kindsAll ps ++ kindsAll qs := by
  simp [kindsAll]

@[simp] theorem kindsAll_flatMap (f : α → List Piece) (xs : List α) :
    kindsAll (xs.flatMap f) = xs.flatMap fun x => kindsAll (f x) := by
  simp [kindsAll, List.flatMap_assoc]

@[simp] theorem kindsAll_replicate_mark (n : Nat) (m : Mark) :
    kindsAll (List.replicate n (mark m)) = List.replicate n (.mark m) := by
  induction n with
  | zero => rfl
  | succ n ih => simp [List.replicate_succ, ih]

/-- The tokens of separated pieces, with the separator between them. -/
theorem kindsAll_separated (separator : Mark) (f : α → List Piece) (x : α) (xs : List α) :
    kindsAll (separated separator ((x :: xs).map f)) =
      kindsAll (f x) ++ xs.flatMap fun y => .mark separator :: kindsAll (f y) := by
  simp [separated, List.flatMap_map]

/-- A piece is read as the tokens it stands for. -/
def Spelled (p : Piece) : Prop := Spells p.text p.kinds

/-- A token that can be written is spelled by its text. -/
theorem spelled_of_writable {k : TokenKind} (h : k.Writable) : (token k).Spelled := h.spells

@[simp] theorem spelled_word (k : Keyword) : (word k).Spelled :=
  @spelled_of_writable (.keyword k) trivial

@[simp] theorem spelled_mark (m : Mark) : (mark m).Spelled :=
  @spelled_of_writable (.mark m) trivial

/-- A text is spelled if it spells some tokens. -/
theorem spelled_verbatim {text : String} {ks : List TokenKind} (h : Spells text ks) :
    (verbatim text).Spelled := by
  show Spells text (kindsOf text)
  rw [h.kindsOf_eq]
  exact h

/-- Every piece is read as the tokens it stands for. -/
def AllSpelled (pieces : List Piece) : Prop := ∀ p ∈ pieces, p.Spelled

@[simp] theorem allSpelled_nil : AllSpelled [] := by simp [AllSpelled]

@[simp] theorem allSpelled_cons {p : Piece} {ps : List Piece} :
    AllSpelled (p :: ps) ↔ p.Spelled ∧ AllSpelled ps := by
  simp [AllSpelled]

@[simp] theorem allSpelled_append {ps qs : List Piece} :
    AllSpelled (ps ++ qs) ↔ AllSpelled ps ∧ AllSpelled qs := by
  simp only [AllSpelled, List.forall_mem_append]

@[simp] theorem allSpelled_flatMap {f : α → List Piece} {xs : List α} :
    AllSpelled (xs.flatMap f) ↔ ∀ x ∈ xs, AllSpelled (f x) := by
  simp only [AllSpelled, List.forall_mem_flatMap]

@[simp] theorem allSpelled_replicate_mark (n : Nat) (m : Mark) :
    AllSpelled (List.replicate n (mark m)) := by
  intro p hp
  rw [List.eq_of_mem_replicate hp]
  exact spelled_mark m

/-- Separated pieces are spelled if all of them are. -/
theorem allSpelled_separated {separator : Mark} {f : α → List Piece} {xs : List α}
    (h : ∀ x ∈ xs, AllSpelled (f x)) : AllSpelled (separated separator (xs.map f)) := by
  cases xs with
  | nil => exact allSpelled_nil
  | cons first others =>
    rw [List.map_cons, separated, allSpelled_append, List.flatMap_map, allSpelled_flatMap]
    refine ⟨h first List.mem_cons_self, ?_⟩
    intro x hx
    rw [allSpelled_cons]
    exact ⟨spelled_mark separator, h x (List.mem_cons_of_mem _ hx)⟩

@[simp] theorem allSpelled_braced {ps : List Piece} : AllSpelled (braced ps) ↔ AllSpelled ps := by
  simp [braced]

/-- Pieces are read as the tokens they stand for, one after the other. -/
theorem tokens_layout {pieces : List Piece} (h : AllSpelled pieces) (pos : Position) :
    ∃ (ts : List Token) (pos' : Position), ts.map Token.kind = kindsAll pieces ∧
      (Cursor.mk pos (Utf8.encode (layout pieces).toList)).tokens .eof = ⟨ts, .finished pos'⟩ := by
  induction pieces generalizing pos with
  | nil => exact ⟨[], pos, rfl, Cursor.tokens_of_finished rfl⟩
  | cons p pieces ih =>
    have hp : Spells p.text p.kinds := h p List.mem_cons_self
    obtain ⟨ts, pos', hts, htokens⟩ :=
      hp.tokens_space pos (Utf8.encode (layout pieces).toList)
    obtain ⟨us, pos'', hus, hrest⟩ := ih (fun q hq => h q (List.mem_cons_of_mem _ hq)) pos'
    refine ⟨ts ++ us, pos'', by rw [List.map_append, hts, hus]; rfl, ?_⟩
    have hlayout : layout (p :: pieces) = (p.text ++ " ") ++ layout pieces := by
      rw [layout, List.map_cons, String.join_cons]
      rfl
    rw [hlayout, String.toList_append, encode_append, htokens, hrest]

/-- A text that is laid out as pieces is read to its end. -/
theorem tokens_ofText_layout {pieces : List Piece} (h : AllSpelled pieces) :
    (Source.ofText (layout pieces)).tokens.tokens.map Token.kind = kindsAll pieces ∧
      ∃ pos, (Source.ofText (layout pieces)).tokens.stop = .finished pos := by
  obtain ⟨ts, pos, hts, htokens⟩ := tokens_layout h .start
  have hsource : (Source.ofText (layout pieces)).tokens = ⟨ts, .finished pos⟩ := htokens
  rw [hsource]
  exact ⟨hts, pos, rfl⟩

end Piece

/-! ## Texts that are kept as they are -/

/-- A word is spelled as its token. -/
theorem Parser.Word.text_kind (w : Parser.Word) : w.kind.text = w.text := by
  cases w <;> rfl

/-- Words with spaces between them spell their tokens. -/
theorem spells_words {words : List Parser.Word} (h : ∀ w ∈ words, w.kind.Writable) :
    Spells (" ".intercalate (words.map Parser.Word.text)) (words.map Parser.Word.kind) := by
  have hkinds : ∀ k ∈ words.map Parser.Word.kind, k.Writable := by
    intro k hk
    obtain ⟨w, hw, rfl⟩ := List.mem_map.mp hk
    exact h w hw
  have htexts : words.map Parser.Word.text = (words.map Parser.Word.kind).map TokenKind.text := by
    rw [List.map_map]
    exact List.map_congr_left fun w _ => (Parser.Word.text_kind w).symm
  rw [htexts]
  exact spells_intercalate hkinds

/-- So do words with stars after them. -/
theorem spells_suffixed {words : List Parser.Word} (h : ∀ w ∈ words, w.kind.Writable) (n : Nat) :
    Spells (Parser.TypeRef.suffixed ⟨" ".intercalate (words.map Parser.Word.text), n⟩)
      (words.map Parser.Word.kind ++ List.replicate n (.mark .star)) :=
  (spells_words h).append (spells_stars n) (parts_stars n)

/-- An operand spells a name or a number. -/
theorem spells_operand {text : String} (h : IsOperand TokenKind.Writable text) :
    ∃ k, (k = .identifier text ∨ k = .number text) ∧ Spells text [k] := by
  rcases h with h | h
  · exact ⟨_, .inl rfl, h.spells⟩
  · exact ⟨_, .inr rfl, h.spells⟩

/-- The text of a pragma spells its tokens. -/
theorem spells_pragma {name : String} {inside : List TokenKind}
    (hname : (TokenKind.identifier name).Writable) (hinside : ∀ k ∈ inside, k.Writable) :
    Spells (" ".intercalate (name :: "(" :: inside.map TokenKind.text))
      (.identifier name :: .mark .openParen :: inside) := by
  apply @spells_intercalate (.identifier name :: .mark .openParen :: inside)
  intro k hk
  rcases List.mem_cons.mp hk with rfl | hk
  · exact hname
  · rcases List.mem_cons.mp hk with rfl | hk
    · trivial
    · exact hinside k hk

/-- The text of a type is spelled. -/
theorem spelled_typeText {text : String} (h : IsTypeText TokenKind.Writable text) :
    (Piece.verbatim text).Spelled := by
  obtain ⟨words, hwords, rfl⟩ := h
  exact Piece.spelled_verbatim (spells_words hwords.kinds)

/-- So is that of a type with stars. -/
theorem spelled_pointerText {text : String} (h : IsPointerText TokenKind.Writable text) :
    (Piece.verbatim text).Spelled := by
  obtain ⟨⟨_, n⟩, ⟨words, hwords, rfl⟩, rfl⟩ := h
  exact Piece.spelled_verbatim (spells_suffixed hwords.kinds n)

/-- So is an operand. -/
theorem spelled_operand {text : String} (h : IsOperand TokenKind.Writable text) :
    (Piece.verbatim text).Spelled := by
  obtain ⟨k, -, hspells⟩ := spells_operand h
  exact Piece.spelled_verbatim hspells

/-- So is the text of a pragma. -/
theorem spelled_pragmaText {text : String} (h : IsPragmaText TokenKind.Writable text) :
    (Piece.verbatim text).Spelled := by
  obtain ⟨name, inside, hname, hinside, -, rfl⟩ := h
  exact Piece.spelled_verbatim (spells_pragma hname hinside)

/-! ## Declarations -/

open Piece

/-- So is a string in quotes. -/
theorem spelled_quoted {s : String} (h : (TokenKind.string s).Writable) : (quoted s).Spelled :=
  spelled_of_writable h

/-- So is a name. -/
theorem spelled_ident {n : String} (h : (TokenKind.identifier n).Writable) : (ident n).Spelled :=
  spelled_of_writable h

/-- An attribute is spelled. -/
theorem allSpelled_attribute {a : Attribute} (h : a.WellFormed TokenKind.Writable) :
    AllSpelled a.pieces := by
  unfold Attribute.pieces
  rw [allSpelled_cons]
  refine ⟨@spelled_of_writable (.attributeName a.kind) trivial, ?_⟩
  cases hvalue : a.value with
  | none => exact allSpelled_nil
  | some value => simp [spelled_quoted (h value hvalue)]

/-- So are attributes in brackets. -/
theorem allSpelled_attributePieces {as : List Attribute}
    (h : ∀ a ∈ as, a.WellFormed TokenKind.Writable) : AllSpelled (attributePieces as) := by
  unfold attributePieces
  split
  · exact allSpelled_nil
  · have hlist : AllSpelled (separated .comma (as.map Attribute.pieces)) :=
      allSpelled_separated fun a ha => allSpelled_attribute (h a ha)
    simp [hlist]

/-- So is a name with its type. -/
theorem allSpelled_typedPieces {typeName n : String} (indirection : Nat)
    (htype : IsTypeText TokenKind.Writable typeName) (hn : (TokenKind.identifier n).Writable) :
    AllSpelled (typedPieces typeName indirection n) := by
  simp [typedPieces, spelled_typeText htype, spelled_ident hn]

/-- So is a parameter or a field. -/
theorem allSpelled_variable {v : Variable} (h : v.WellFormed TokenKind.Writable) :
    AllSpelled v.pieces := by
  unfold Variable.pieces
  rw [allSpelled_append, allSpelled_append]
  refine ⟨⟨allSpelled_attributePieces h.attributes,
    allSpelled_typedPieces v.indirection h.typeName h.name⟩, ?_⟩
  split <;> simp

/-- So are operands. -/
theorem allSpelled_operandPieces {operands : List String}
    (h : AreOperands TokenKind.Writable operands) : AllSpelled (operandPieces operands) := by
  apply allSpelled_separated
  intro operand hmem
  simp [spelled_operand (h.operand operand hmem)]

/-- So is a method. -/
theorem allSpelled_method {m : Method} (h : m.WellFormed TokenKind.Writable) :
    AllSpelled m.pieces := by
  have hparams : AllSpelled (separated .comma (m.params.map Variable.pieces)) :=
    allSpelled_separated fun v hv => allSpelled_variable (h.params v hv)
  simp [Method.pieces, allSpelled_attributePieces h.attributes, spelled_pointerText h.returnType,
    spelled_ident h.name, hparams]

/-- So is an interface. -/
theorem allSpelled_interface {i : Interface} (h : i.WellFormed TokenKind.Writable) :
    AllSpelled i.pieces := by
  have hmethods : ∀ m ∈ i.methods, AllSpelled m.pieces := fun m hm =>
    allSpelled_method (h.methods m hm)
  have hparent : AllSpelled (parentPieces i.parent) := by
    cases hi : i.parent with
    | none => exact allSpelled_nil
    | some parent => simp [parentPieces, spelled_ident (h.parent parent hi)]
  simpa [Interface.pieces, allSpelled_attributePieces h.attributes.wellFormed,
    spelled_ident h.name, hparent] using hmethods

/-- So is a mention of one. -/
theorem allSpelled_mention {i : Interface} (h : i.IsMention TokenKind.Writable) :
    AllSpelled i.mentionPieces := by
  simp [Interface.mentionPieces, allSpelled_attributePieces h.attributes, spelled_ident h.name]

/-- So is a member of an enumeration. -/
theorem allSpelled_member {m : Member} (h : m.WellFormed TokenKind.Writable) :
    AllSpelled m.pieces := by
  unfold Member.pieces
  rw [allSpelled_cons]
  refine ⟨spelled_ident h.name, ?_⟩
  cases hvalue : m.value with
  | none => exact allSpelled_nil
  | some operands => simp [allSpelled_operandPieces (h.value operands hvalue)]

/-- So is a declaration with a body, if the body is. -/
theorem allSpelled_bodyPieces {k : Keyword} {n : String} {as : List Attribute}
    {body : List Piece} (hn : (TokenKind.identifier n).Writable)
    (has : ∀ a ∈ as, a.WellFormed TokenKind.Writable) (hbody : AllSpelled body) :
    AllSpelled (bodyPieces k n as body) := by
  unfold bodyPieces
  split
  · simp [spelled_ident hn, hbody]
  · simp [spelled_ident hn, hbody, allSpelled_attributePieces has]

/-- So is an enumeration. -/
theorem allSpelled_enumeration {e : Enumeration} (h : e.WellFormed TokenKind.Writable) :
    AllSpelled e.pieces :=
  allSpelled_bodyPieces h.name h.attributes
    (allSpelled_separated fun m hm => allSpelled_member (h.members m hm))

/-- So is a struct. -/
theorem allSpelled_record {r : Record} (h : r.WellFormed TokenKind.Writable) :
    AllSpelled r.pieces := by
  apply allSpelled_bodyPieces h.name h.attributes
  rw [allSpelled_flatMap]
  intro v hv
  simp [allSpelled_variable (h.fields v hv)]

/-- So is a further name for a type. -/
theorem allSpelled_typedef {t : Typedef} (h : t.WellFormed TokenKind.Writable) :
    AllSpelled t.pieces := by
  simp [Typedef.pieces, allSpelled_attributePieces h.attributes,
    allSpelled_typedPieces t.indirection h.typeName h.name]

/-- So is a component class. -/
theorem allSpelled_coclass {c : CoClass} (h : c.WellFormed TokenKind.Writable) :
    AllSpelled c.pieces := by
  have hmentions : ∀ i ∈ c.interfaces, AllSpelled i.mentionPieces := fun i hi =>
    allSpelled_mention (h.interfaces i hi)
  simpa [CoClass.pieces, allSpelled_attributePieces h.attributes.wellFormed, spelled_ident h.name]
    using hmentions

/-- So is a constant. -/
theorem allSpelled_constant {c : Constant} (h : c.WellFormed TokenKind.Writable) :
    AllSpelled c.pieces := by
  have hvalue : AllSpelled c.value.pieces := by
    have hwf := h.value
    cases hc : c.value with
    | text value =>
      rw [hc] at hwf
      simp [ConstantValue.pieces, spelled_quoted hwf]
    | operands values =>
      rw [hc] at hwf
      exact allSpelled_operandPieces hwf
  simp [Constant.pieces, spelled_pointerText h.typeName, spelled_ident h.name, hvalue]

mutual

/-- What a well-formed declaration is written with is read as the tokens it stands for. -/
theorem Declaration.allSpelled {nested : Bool} {d : Declaration}
    (h : d.WellFormed TokenKind.Writable nested) : AllSpelled d.pieces := by
  cases d with
  | imports files =>
    have hfiles : AllSpelled (separated .comma (files.map fun file => [quoted file])) := by
      apply allSpelled_separated
      intro file hfile
      simp [spelled_quoted (h.2 file hfile)]
    simp [Declaration.pieces, hfiles]
  | interface i => exact allSpelled_interface h
  | enumeration e => exact allSpelled_enumeration h
  | record r => exact allSpelled_record h
  | typedef t => exact allSpelled_typedef h
  | coclass c => exact allSpelled_coclass h
  | group kind name attributes body =>
    obtain ⟨hname, hattributes, hbody⟩ := h
    simp [Declaration.pieces, allSpelled_attributePieces hattributes.wellFormed,
      spelled_ident hname, Declaration.allSpelled_piecesAll hbody]
  | importLibrary file => simp [Declaration.pieces, spelled_quoted h.2]
  | constant c => exact allSpelled_constant h.2
  | directive kind text =>
    cases kind with
    | cppQuote => simp [Declaration.pieces, spelled_quoted h]
    | midlPragma => simp [Declaration.pieces, spelled_pragmaText h]

/-- So are all declarations. -/
theorem Declaration.allSpelled_piecesAll {nested : Bool} {ds : List Declaration}
    (h : Declaration.AllWellFormed TokenKind.Writable nested ds) :
    AllSpelled (Declaration.piecesAll ds) := by
  cases ds with
  | nil => exact allSpelled_nil
  | cons d ds =>
    rw [Declaration.piecesAll, allSpelled_append]
    exact ⟨Declaration.allSpelled h.1, Declaration.allSpelled_piecesAll h.2⟩

end

end Midl
