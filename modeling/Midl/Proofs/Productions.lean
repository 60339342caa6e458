import Midl.Parser.Declaration
import Midl.Proofs.Layout
import Midl.Proofs.Yields

/-!
# Reading what was written

What each production reads is what its kind of declaration is written with, and nothing after it.
-/

namespace Midl

namespace Parser

open Piece

/-- A mark that ends an item of a list, or a list. -/
def Delimits (kind : TokenKind) : Prop :=
  kind ∈ [Mark.comma, .semicolon, .closeParen, .closeBracket, .closeBrace].map TokenKind.mark

instance : DecidablePred Delimits := fun kind =>
  inferInstanceAs (Decidable (kind ∈ List.map TokenKind.mark _))

/-- A delimiter is no token that does not delimit. -/
theorem Delimits.ne {kind other : TokenKind} (h : Delimits kind) (hother : ¬Delimits other) :
    kind ≠ other := by
  rintro rfl
  exact hother h

/-- A mark that ends a typed name. -/
def EndsName (kind : TokenKind) : Prop := ∃ m, kind = .mark m ∧ m ≠ .star

/-- A delimiter ends a name. -/
theorem Delimits.endsName {kind : TokenKind} (h : Delimits kind) : EndsName kind := by
  obtain ⟨m, hm, rfl⟩ := List.mem_map.mp h
  refine ⟨m, rfl, ?_⟩
  rintro rfl
  simp at hm

/-- Items are read from what they are written with, with a mark between any two of them. -/
theorem yields_separated {follow : TokenKind → Prop} {separator : Mark} {item : Parser α}
    {f : α → List Piece} {x : α} {xs : List α} {ks : List TokenKind}
    (hseparator : follow (.mark separator)) (hks : follow (first ks))
    (hne : first ks ≠ .mark separator)
    (hitem : ∀ y ∈ x :: xs, ∀ ls, follow (first ls) → Yields item (kindsAll (f y) ++ ls) y ls) :
    Yields (separated separator item) (kindsAll (Piece.separated separator ((x :: xs).map f)) ++ ks)
      (x :: xs) ks := by
  rw [kindsAll_separated, List.append_assoc]
  exact Yields.separated hseparator hks hne hitem

/-- Separated pieces begin with the first of them. -/
theorem begins_separated {property : TokenKind → Prop} {f : α → List Piece} {x : α}
    (h : Begins property (kindsAll (f x))) (separator : Mark) (xs : List α) :
    Begins property (kindsAll (Piece.separated separator ((x :: xs).map f))) := by
  rw [kindsAll_separated]
  exact h.append _

/-! ## Attributes -/

/-- The argument of an attribute is read off a string. -/
theorem yields_attributeArgument (value : String) (ks : List TokenKind) :
    Yields attributeArgument (.string value :: ks) value ks := by
  refine (Yields.stars 0 (by simp)).bind (Yields.peekBind ?_)
  refine (Yields.pure value).bind ((Yields.advance _).bind ?_)
  have hvalue : String.ofList (List.replicate 0 '*') ++ value = value := by simp
  rw [hvalue]
  exact Yields.pure value

/-- An attribute is read off its pieces. -/
theorem yields_oneAttribute {onParameter : Bool} {a : Attribute} {ks : List TokenKind}
    (ha : (onParameter || !a.kind.isParameter) = true) (hks : Delimits (first ks)) :
    Yields (oneAttribute onParameter) (kindsAll a.pieces ++ ks) a ks := by
  obtain ⟨kind, value⟩ := a
  apply Yields.peekBind
  show Yields (if (onParameter || !kind.isParameter) = true then _ else _) _ _ _
  rw [if_pos ha]
  refine (Yields.pure kind).bind ((Yields.advance _).bind ?_)
  cases value with
  | none =>
    exact (Yields.eat_other (hks.ne (by decide))).bind (Yields.pure _)
  | some value =>
    refine (Yields.eat_self _).bind ((yields_attributeArgument value _).bind ?_)
    exact (Yields.expect _).bind (Yields.pure _)

/-- So is an attribute list. -/
theorem yields_attributeList {onParameter : Bool} {a : Attribute} {as : List Attribute}
    (h : ∀ b ∈ a :: as, (onParameter || !b.kind.isParameter) = true) (ks : List TokenKind) :
    Yields (attributeList onParameter) (kindsAll (attributePieces (a :: as)) ++ ks) (a :: as)
      ks := by
  have hseparated : Yields (separated .comma (oneAttribute onParameter))
      (kindsAll (Piece.separated .comma ((a :: as).map Attribute.pieces)) ++
        .mark .closeBracket :: ks) (a :: as) (.mark .closeBracket :: ks) :=
    yields_separated (by decide) (by rw [first_cons]; decide) (by simp)
      fun b hb ls hls => yields_oneAttribute (h b hb) hls
  have hkinds : kindsAll (attributePieces (a :: as)) ++ ks = .mark .openBracket ::
      (kindsAll (Piece.separated .comma ((a :: as).map Attribute.pieces)) ++
        .mark .closeBracket :: ks) := by
    simp [attributePieces]
  rw [hkinds]
  refine (Yields.expect _).bind (Yields.peekBind ?_)
  have hbegins : Begins (· ≠ .mark .closeBracket)
      (kindsAll (Piece.separated .comma ((a :: as).map Attribute.pieces))) :=
    begins_separated ⟨_, _, rfl, by simp⟩ .comma as
  rw [if_neg (hbegins.append _).first]
  exact hseparated.bind ((Yields.expect _).bind (Yields.pure _))

/-- An attribute list is read where there is one. -/
theorem yields_attributes (as : List Attribute) {ks : List TokenKind}
    (hks : first ks ≠ .mark .openBracket) :
    Yields attributes (kindsAll (attributePieces as) ++ ks) as ks := by
  cases as with
  | nil => exact Yields.ifSees_other [] hks
  | cons a as => exact Yields.ifSees_self (yields_attributeList (by simp) ks)

/-! ## Types and names -/

/-- A word is read off its token. -/
theorem yields_word (w : Word) (ks : List TokenKind) :
    Yields word (w.kind :: ks) (some w) ks := by
  cases w <;> exact Yields.peekBind ((Yields.advance _).bind (Yields.pure _))

/-- So are words up to a mark. -/
theorem yields_words (words : List Word) {m : Mark} {ks : List TokenKind}
    (hks : first ks = .mark m) :
    Yields (many word) (words.map Word.kind ++ ks) words ks := by
  rw [List.map_eq_flatMap]
  apply @Yields.many Word _ words fun _ => True
  · exact fun w _ => ⟨_, _, rfl, trivial⟩
  · trivial
  · apply Yields.peekBind
    rw [hks]
    exact Yields.pure none
  · exact fun w _ ls _ => yields_word w ls

/-- Stars without `const` after them, of which there are none if something else follows. -/
theorem yields_pointer (n : Nat) {ks : List TokenKind} (hstar : first ks ≠ .mark .star)
    (hconst : first ks ≠ .keyword .const) :
    Yields (List.length <$> many do
      if ← eat (.mark .star) then
        discard (eat (.keyword .const))
        return some ()
      else return none) (List.replicate n (.mark .star) ++ ks) n ks := by
  apply @Yields.count (· ≠ .keyword .const)
  · simp
  · exact hconst
  · exact (Yields.eat_other hstar).bind (Yields.pure none)
  · intro ls hls
    refine (Yields.eat_self _).bind ?_
    exact (Yields.eat_other hls).map.bind (Yields.pure (some ()))

/-- The last of several words is the name, if the others make a type. -/
theorem splitName_append {words : List Word} (h : ∃ w ∈ words, w ≠ .const) (ident : String) :
    splitName (words ++ [.name ident]) = (words, some ident) := by
  have hlength : 0 < (words.filter (· ≠ .const)).length := by
    obtain ⟨w, hw, hne⟩ := h
    exact List.length_pos_of_mem (List.mem_filter.mpr ⟨hw, by simpa using hne⟩)
  unfold splitName
  rw [List.getLast?_concat, List.filter_append, List.length_append, List.dropLast_concat]
  dsimp only
  rw [if_pos]
  have hname : ([Word.name ident].filter (· ≠ .const)).length = 1 := rfl
  omega

/-- A name after words is one more of them. -/
theorem map_kind_name (words : List Word) (ident : String) (ks : List TokenKind) :
    words.map Word.kind ++ .identifier ident :: ks =
      (words ++ [Word.name ident]).map Word.kind ++ ks := by
  simp [Word.kind]

/-- Words of a type, stars and a name are told apart. -/
theorem yields_typed {words : List Word} (hwords : ∃ w ∈ words, w ≠ .const) (n : Nat)
    (ident : String) {ks : List TokenKind} (hks : EndsName (first ks)) :
    Yields typed
      (words.map Word.kind ++ (List.replicate n (.mark .star) ++ .identifier ident :: ks))
      (⟨" ".intercalate (words.map Word.text), n⟩, some ident) ks := by
  obtain ⟨m, hm, hstar⟩ := hks
  have hrest : Yields (do
      if words.all (· = .const) then unexpected "a type name"
      return (⟨" ".intercalate (words.map Word.text), n⟩, some ident)) ks
      ((⟨" ".intercalate (words.map Word.text), n⟩ : TypeRef), some ident) ks := by
    rw [if_neg (by simpa using hwords)]
    exact Yields.pure _
  cases n with
  | zero =>
    -- Nothing parts the name from the words, so it is read as one of them and split off after.
    rw [List.replicate_zero, List.nil_append, map_kind_name]
    refine (yields_words _ hm).bind ?_
    refine (yields_pointer 0 (by simp [hm, hstar]) (by simp [hm])).bind ?_
    rw [if_pos rfl, splitName_append hwords]
    exact (Yields.pure _).bind hrest
  | succ n =>
    refine (yields_words words rfl).bind ?_
    refine (yields_pointer (n + 1) (by simp) (by simp)).bind ?_
    rw [if_neg (Nat.succ_ne_zero n)]
    exact (Yields.identifier _ ident).bind ((Yields.pure _).bind hrest)

/-- A type with a name is read where there has to be a name. -/
theorem yields_named (expected : String) {ident : String} {type : TypeRef} {ks ls : List TokenKind}
    (h : Yields typed ks (type, some ident) ls) : Yields (named expected) ks (type, ident) ls :=
  h.bind (Yields.pure _)

/-- A type with its stars and its name is read off its pieces. -/
theorem yields_typedPieces {typeName : String} (h : IsTypeText TokenKind.Writable typeName)
    (n : Nat) (ident : String) {ks : List TokenKind} (hks : EndsName (first ks)) :
    Yields typed (kindsAll (typedPieces typeName n ident) ++ ks) (⟨typeName, n⟩, some ident)
      ks := by
  obtain ⟨words, hwords, rfl⟩ := h
  have hkinds := (spells_words hwords.kinds).kindsOf_eq
  simpa [typedPieces, hkinds] using yields_typed hwords.type n ident hks

/-- The text of a type with stars is read as a type with that text. -/
theorem yields_pointerText {text : String} (h : IsPointerText TokenKind.Writable text) :
    ∃ type : TypeRef, type.suffixed = text ∧ ∀ ident ks, EndsName (first ks) →
      Yields typed (kindsOf text ++ .identifier ident :: ks) (type, some ident) ks := by
  obtain ⟨⟨_, n⟩, ⟨words, hwords, rfl⟩, rfl⟩ := h
  refine ⟨_, rfl, ?_⟩
  intro ident ks hks
  rw [(spells_suffixed hwords.kinds n).kindsOf_eq, List.append_assoc]
  exact yields_typed hwords.type n ident hks

/-- A token that is a word of a type. -/
def IsWord (kind : TokenKind) : Prop := ∃ w : Word, kind = w.kind

/-- A word is no mark. -/
theorem IsWord.ne_mark {kind : TokenKind} (h : IsWord kind) (m : Mark) : kind ≠ .mark m := by
  obtain ⟨w, rfl⟩ := h
  cases w <;> simp [Word.kind]

/-- A type begins with a word. -/
theorem begins_words {words : List Word} (h : ∃ w ∈ words, w ≠ .const) :
    Begins IsWord (words.map Word.kind) := by
  cases words with
  | nil => simp at h
  | cons w words => exact ⟨w.kind, words.map Word.kind, rfl, w, rfl⟩

/-- The text of a type begins with a word. -/
theorem begins_typeText {text : String} (h : IsTypeText TokenKind.Writable text) :
    Begins IsWord (kindsOf text) := by
  obtain ⟨words, hwords, rfl⟩ := h
  rw [(spells_words hwords.kinds).kindsOf_eq]
  exact begins_words hwords.type

/-- So does that of a type with stars. -/
theorem begins_pointerText {text : String} (h : IsPointerText TokenKind.Writable text) :
    Begins IsWord (kindsOf text) := by
  obtain ⟨⟨_, n⟩, ⟨words, hwords, rfl⟩, rfl⟩ := h
  rw [(spells_suffixed hwords.kinds n).kindsOf_eq]
  exact (begins_words hwords.type).append _

/-- Whether there is an array is read off its brackets. -/
theorem yields_arraySuffix (isArray : Bool) {ks : List TokenKind}
    (hks : first ks ≠ .mark .openBracket) :
    Yields arraySuffix
      (kindsAll (if isArray then [mark .openBracket, mark .closeBracket] else []) ++ ks)
      isArray ks := by
  cases isArray with
  | true => exact (Yields.eat_self _).bind ((Yields.expect _).bind (Yields.pure true))
  | false => exact (Yields.eat_other hks).bind (Yields.pure false)

/-! ## Operands -/

/-- An operand is read off its text. -/
theorem yields_operand {text : String} (h : IsOperand TokenKind.Writable text)
    (ks : List TokenKind) : Yields operand (kindsOf text ++ ks) text ks := by
  obtain ⟨k, hk, hspells⟩ := spells_operand h
  rw [hspells.kindsOf_eq]
  rcases hk with rfl | rfl
  · exact Yields.peekBind ((Yields.advance _).bind (Yields.pure text))
  · exact Yields.peekBind ((Yields.advance _).bind (Yields.pure text))

/-- So are operands. -/
theorem yields_operands {values : List String} (h : AreOperands TokenKind.Writable values)
    {ks : List TokenKind} (hks : first ks ≠ .mark .pipe) :
    Yields operands (kindsAll (operandPieces values) ++ ks) values ks := by
  cases values with
  | nil => exact absurd rfl h.ne_nil
  | cons value values =>
    apply @yields_separated _ fun _ => True
    · trivial
    · trivial
    · exact hks
    · intro y hy ls _
      simpa using yields_operand (h.operand y hy) ls

/-- Operands begin with a name or a number. -/
theorem begins_operands {values : List String} (h : AreOperands TokenKind.Writable values) :
    Begins (fun k => ∃ text, k = .identifier text ∨ k = .number text)
      (kindsAll (operandPieces values)) := by
  cases values with
  | nil => exact absurd rfl h.ne_nil
  | cons value values =>
    obtain ⟨k, hk, hspells⟩ := spells_operand (h.operand value List.mem_cons_self)
    apply begins_separated
    exact ⟨k, [], by simp [hspells.kindsOf_eq], value, hk⟩

/-! ## Interfaces -/

/-- What has attributes begins with a bracket, or with what comes after them. -/
theorem begins_attributePieces (as : List Attribute) {property : TokenKind → Prop}
    {ks : List TokenKind} (hbracket : property (.mark .openBracket)) (hks : Begins property ks) :
    Begins property (kindsAll (attributePieces as) ++ ks) := by
  cases as with
  | nil => exact hks
  | cons a as => exact ⟨_, _, rfl, hbracket⟩

/-- A parameter or field begins with no mark but that of its attributes. -/
theorem begins_variable {v : Variable} (h : v.WellFormed TokenKind.Writable) {m : Mark}
    (hm : m ≠ .openBracket) : Begins (· ≠ .mark m) (kindsAll v.pieces) := by
  simp only [Variable.pieces, typedPieces, kindsAll_append, kindsAll_cons, List.append_assoc]
  apply begins_attributePieces _ (by simpa using hm.symm)
  exact ((begins_typeText h.typeName).mono fun k hk => hk.ne_mark m).append _

/-- What a variable is read from, for the parsers that give it its place. -/
theorem yields_variable {v : Variable} (h : v.WellFormed TokenKind.Writable)
    {ks : List TokenKind} (hks : Delimits (first ks)) :
    ∃ ls ms, Yields attributes (kindsAll v.pieces ++ ks) v.attributes ls ∧
      Yields typed ls (⟨v.typeName, v.indirection⟩, some v.name) ms ∧
      Yields arraySuffix ms v.isArray ks := by
  let ms := kindsAll (if v.isArray then [mark .openBracket, mark .closeBracket] else []) ++ ks
  have hms : EndsName (first ms) := by
    unfold ms
    split
    · exact ⟨.openBracket, rfl, by simp⟩
    · exact hks.endsName
  have hbegins : Begins (· ≠ .mark .openBracket)
      (kindsAll (typedPieces v.typeName v.indirection v.name) ++ ms) := by
    simp only [typedPieces, kindsAll_append, kindsAll_cons, List.append_assoc]
    exact ((begins_typeText h.typeName).mono fun k hk => hk.ne_mark _).append _
  refine ⟨_, ms, ?_, yields_typedPieces h.typeName _ _ hms,
    yields_arraySuffix _ (hks.ne (by decide))⟩
  simpa only [Variable.pieces, kindsAll_append, List.append_assoc] using
    yields_attributes v.attributes hbegins.first

/-- A parameter is read off its pieces, also if it stands alone. -/
theorem yields_parameter (alone : Bool) {v : Variable} (h : v.WellFormed TokenKind.Writable)
    {ks : List TokenKind} (hks : Delimits (first ks)) :
    Yields (parameter alone) (kindsAll v.pieces ++ ks) (some v) ks := by
  obtain ⟨ls, ms, hattributes, htyped, harray⟩ := yields_variable h hks
  exact hattributes.bind (htyped.bind (harray.bind (Yields.pure _)))

/-- So are parameters in parentheses. -/
theorem yields_parameters {params : List Variable}
    (h : ∀ v ∈ params, v.WellFormed TokenKind.Writable) (ks : List TokenKind) :
    Yields parameters (.mark .openParen ::
      (kindsAll (Piece.separated .comma (params.map Variable.pieces)) ++ .mark .closeParen :: ks))
      params ks := by
  refine (Yields.expect _).bind (Yields.peekBind ?_)
  cases params with
  | nil => exact (Yields.pure []).bind ((Yields.expect _).bind (Yields.pure []))
  | cons v params =>
    obtain ⟨hv, hparams⟩ := List.forall_mem_cons.mp h
    have hbegins := begins_separated (begins_variable hv (m := .closeParen) (by simp)) .comma params
    have hclose : Delimits (first (.mark .closeParen :: ks)) := by rw [first_cons]; decide
    rw [if_neg (hbegins.append _).first, kindsAll_separated, List.append_assoc]
    refine (yields_parameter true hv (follow_separator (by decide) hclose)).bind ?_
    refine (Yields.manyAfter (by decide) hclose (by simp)
      fun w hw ls hls => yields_parameter false (hparams w hw) hls).bind ?_
    exact (Yields.pure _).bind ((Yields.expect _).bind (Yields.pure _))

/-- So is a method. -/
theorem yields_method {m : Method} (h : m.WellFormed TokenKind.Writable) (ks : List TokenKind) :
    Yields method (kindsAll m.pieces ++ ks) m ks := by
  obtain ⟨ident, returnType, params, as⟩ := m
  obtain ⟨type, rfl, htyped⟩ := yields_pointerText h.returnType
  simp only [Method.pieces, kindsAll_append, kindsAll_cons, kindsAll_nil, kinds_verbatim,
    kinds_ident, kinds_mark, List.append_assoc, List.cons_append, List.nil_append]
  have hbegins := (begins_pointerText h.returnType).mono fun k hk => hk.ne_mark .openBracket
  refine (yields_attributes as (hbegins.append _).first).bind ?_
  refine (yields_named _ (htyped ident _ ⟨.openParen, rfl, by simp⟩)).bind ?_
  exact (yields_parameters h.params _).bind ((Yields.expect _).bind (Yields.pure _))

/-- A method does not begin with a closing brace. -/
theorem begins_method {m : Method} (h : m.WellFormed TokenKind.Writable) :
    Begins (· ≠ .mark .closeBrace) (kindsAll m.pieces) := by
  simp only [Method.pieces, kindsAll_append, kindsAll_cons, List.append_assoc]
  apply begins_attributePieces _ (by simp)
  exact ((begins_pointerText h.returnType).mono fun k hk => hk.ne_mark _).append _

/-- What stands in braces is read by a parser that goes up to the closing one. -/
theorem yields_braced {item : Parser α} {f : α → List Piece} {xs : List α}
    (hbegins : ∀ x ∈ xs, Begins (· ≠ .mark .closeBrace) (kindsAll (f x)))
    (hitem : ∀ x ∈ xs, ∀ ks, Yields item (kindsAll (f x) ++ ks) x ks) (ks : List TokenKind)
    {next : List α → Parser β} {b : β} {ls : List TokenKind} (hnext : Yields (next xs) ks b ls) :
    Yields (do
      expect (.mark .openBrace)
      let xs ← manyUntil (.mark .closeBrace) item
      expect (.mark .closeBrace)
      next xs) (kindsAll (braced (xs.flatMap f)) ++ ks) b ls := by
  simp only [braced, kindsAll_cons, kindsAll_append, kindsAll_flatMap, kinds_mark, kindsAll_nil,
    List.append_assoc, List.cons_append, List.nil_append]
  refine (Yields.expect _).bind ((Yields.manyUntil hbegins rfl hitem).bind ?_)
  exact (Yields.expect _).bind hnext

/-- An interface is read off its pieces. -/
theorem yields_interface {i : Interface} (h : i.WellFormed TokenKind.Writable)
    (ks : List TokenKind) :
    Yields (interface i.attributes) (.keyword .interface :: .identifier i.name ::
      (kindsAll (parentPieces i.parent) ++
        (kindsAll (braced (i.methods.flatMap Method.pieces)) ++ .mark .semicolon :: ks)))
      (.interface i) ks := by
  obtain ⟨ident, parent, as, methods⟩ := i
  refine (Yields.advance _).bind ((Yields.identifier _ ident).bind ?_)
  have hrest : Yields (do
      expect (.mark .openBrace)
      let methods ← manyUntil (.mark .closeBrace) method
      expect (.mark .closeBrace)
      discard (eat (.mark .semicolon))
      return Declaration.interface ⟨ident, parent, as, methods⟩)
      (kindsAll (braced (methods.flatMap Method.pieces)) ++ .mark .semicolon :: ks)
      (.interface ⟨ident, parent, as, methods⟩) ks := by
    apply yields_braced (fun m hm => begins_method (h.methods m hm))
      (fun m hm => yields_method (h.methods m hm))
    exact (Yields.discardEat_self _).bind (Yields.pure _)
  cases parent with
  | none =>
    refine (Yields.eat_other (by simp [parentPieces, braced])).bind ?_
    exact (Yields.pure none).bind hrest
  | some parent =>
    refine (Yields.eat_self _).bind ?_
    exact (Yields.identifier _ parent).map.bind hrest

/-! ## Enumerations and structs -/

/-- So is a member of an enumeration. -/
theorem yields_member {m : Member} (h : m.WellFormed TokenKind.Writable) {ks : List TokenKind}
    (hks : Delimits (first ks)) : Yields member (kindsAll m.pieces ++ ks) m ks := by
  obtain ⟨ident, value⟩ := m
  refine (Yields.identifier _ ident).bind ?_
  cases value with
  | none =>
    refine (Yields.eat_other (hks.ne (by decide))).bind ?_
    exact (Yields.pure none).bind (Yields.pure _)
  | some values =>
    refine (Yields.eat_self _).bind ?_
    exact (yields_operands (h.value values rfl) (hks.ne (by decide))).map.bind (Yields.pure _)

/-- So are all members in braces. -/
theorem yields_members {ms : List Member} (h : ∀ m ∈ ms, m.WellFormed TokenKind.Writable)
    (ks : List TokenKind) :
    Yields members (kindsAll (braced (Piece.separated .comma (ms.map Member.pieces))) ++ ks) ms
      ks := by
  simp only [braced, kindsAll_cons, kindsAll_append, kinds_mark, kindsAll_nil, List.append_assoc,
    List.cons_append, List.nil_append]
  refine (Yields.expect _).bind (Yields.peekBind ?_)
  cases ms with
  | nil => exact (Yields.pure []).bind ((Yields.expect _).bind (Yields.pure []))
  | cons m ms =>
    obtain ⟨hm, hms⟩ := List.forall_mem_cons.mp h
    have hclose : Delimits (first (.mark .closeBrace :: ks)) := by rw [first_cons]; decide
    have hnext : ∀ n ∈ ms, ∀ ls, Delimits (first ls) → Yields (do
        if (← peek) = .mark .closeBrace then return none
        else some <$> member) (kindsAll n.pieces ++ ls) (some n) ls := by
      intro n hn ls hls
      apply Yields.peekBind
      rw [if_neg (by simp [Member.pieces])]
      exact (yields_member (hms n hn) hls).map
    rw [kindsAll_separated, List.append_assoc, if_neg (by simp [Member.pieces])]
    refine (yields_member hm (follow_separator (by decide) hclose)).bind ?_
    refine (Yields.manyAfter (by decide) hclose (by simp) hnext).bind ?_
    exact (Yields.pure _).bind ((Yields.expect _).bind (Yields.pure _))

/-- So is a field of a struct. -/
theorem yields_field {v : Variable} (h : v.WellFormed TokenKind.Writable) (ks : List TokenKind) :
    Yields field (kindsAll (v.pieces ++ [mark .semicolon]) ++ ks) v ks := by
  have hsemicolon : Delimits (first (.mark .semicolon :: ks)) := by rw [first_cons]; decide
  obtain ⟨ls, ms, hattributes, htyped, harray⟩ := yields_variable h hsemicolon
  rw [kindsAll_append, List.append_assoc]
  refine hattributes.bind ((yields_named _ htyped).bind (harray.bind ?_))
  exact (Yields.expect _).bind (Yields.pure _)

/-- So are all fields in braces. -/
theorem yields_fields {vs : List Variable} (h : ∀ v ∈ vs, v.WellFormed TokenKind.Writable)
    (ks : List TokenKind) :
    Yields fields
      (kindsAll (braced (vs.flatMap fun v => v.pieces ++ [mark .semicolon])) ++ ks) vs ks := by
  refine yields_braced ?_ (fun v hv => yields_field (h v hv)) ks (Yields.pure vs)
  intro v hv
  rw [kindsAll_append]
  exact (begins_variable (h v hv) (by simp)).append _

/-- So is an enumeration. -/
theorem yields_enumeration {e : Enumeration} (h : e.WellFormed TokenKind.Writable)
    (ks : List TokenKind) :
    Yields (enumeration e.attributes) (.keyword .enum :: .identifier e.name ::
      (kindsAll (braced (Piece.separated .comma (e.members.map Member.pieces))) ++
        .mark .semicolon :: ks)) (.enumeration e) ks := by
  refine (Yields.advance _).bind ((Yields.identifier _ e.name).bind ?_)
  refine (yields_members h.members _).bind ?_
  exact (Yields.discardEat_self _).bind (Yields.pure _)

/-- So is a struct. -/
theorem yields_record {r : Record} (h : r.WellFormed TokenKind.Writable)
    (ks : List TokenKind) :
    Yields (record r.attributes) (.keyword .struct :: .identifier r.name ::
      (kindsAll (braced (r.fields.flatMap fun v => v.pieces ++ [mark .semicolon])) ++
        .mark .semicolon :: ks)) (.record r) ks := by
  refine (Yields.advance _).bind ((Yields.identifier _ r.name).bind ?_)
  refine (yields_fields h.fields _).bind ?_
  exact (Yields.discardEat_self _).bind (Yields.pure _)

/-! ## Names for types -/

/-- A body, with or without a tag, is read with the name it is given. -/
theorem yields_tagged {as : List Attribute} {ofBody : Parser (String → Declaration)}
    {make : String → Declaration} {ident : String} {ks ls : List TokenKind} (k : Keyword)
    (tag : Option String)
    (h : Yields ofBody (.mark .openBrace :: ks) make (.identifier ident :: ls)) :
    Yields (tagged as ofBody)
      (.keyword k :: (tag.toList.map .identifier ++ .mark .openBrace :: ks)) (make ident, ident)
      ls := by
  have hbody : Yields (do
      let make ← ofBody
      let ident ← identifier "typedef name"
      return (make ident, ident)) (.mark .openBrace :: ks) (make ident, ident) ls :=
    h.bind ((Yields.identifier _ ident).bind (Yields.pure _))
  refine (Yields.advance _).bind (Yields.peekBind ?_)
  cases tag with
  | none => exact (Yields.pure none).bind (Yields.peekBind hbody)
  | some tag =>
    exact (Yields.advance _).bind ((Yields.pure (some tag)).bind (Yields.peekBind hbody))

/-- A statement that gives one name ends after it. -/
theorem yields_noMoreNames (d : Declaration) (as : List Attribute) (typeName : String)
    (ks : List TokenKind) :
    Yields (do
      let others ← many do
        if ← eat (.mark .comma) then some <$> typedefOf typeName as
        else return none
      expect (.mark .semicolon)
      return d :: others) (.mark .semicolon :: ks) [d] ks := by
  refine (Yields.many_nil ((Yields.eat_other (by simp)).bind (Yields.pure none))).bind ?_
  exact (Yields.expect _).bind (Yields.pure _)

/-- An enumeration whose name comes last is read off its pieces. -/
theorem yields_typedefs_enumeration {e : Enumeration} (h : e.WellFormed TokenKind.Writable)
    (ks : List TokenKind) :
    Yields typedefs (.keyword .typedef :: (kindsAll (attributePieces e.attributes) ++
      .keyword .enum ::
        (kindsAll (braced (Piece.separated .comma (e.members.map Member.pieces))) ++
          .identifier e.name :: .mark .semicolon :: ks))) [.enumeration e] ks := by
  have hbody : ∀ ls, Yields (do
      let members ← members
      return fun ident => Declaration.enumeration ⟨ident, e.attributes, members⟩)
      (kindsAll (braced (Piece.separated .comma (e.members.map Member.pieces))) ++ ls)
      (fun ident => .enumeration ⟨ident, e.attributes, e.members⟩) ls :=
    fun ls => (yields_members h.members ls).bind (Yields.pure _)
  refine (Yields.advance _).bind ((yields_attributes e.attributes (by simp)).bind ?_)
  refine Yields.peekBind ((yields_tagged .enum none (hbody _)).bind ?_)
  exact yields_noMoreNames (.enumeration e) e.attributes e.name ks

/-- So is such a struct. -/
theorem yields_typedefs_record {r : Record} (h : r.WellFormed TokenKind.Writable)
    (ks : List TokenKind) :
    Yields typedefs (.keyword .typedef :: (kindsAll (attributePieces r.attributes) ++
      .keyword .struct ::
        (kindsAll (braced (r.fields.flatMap fun v => v.pieces ++ [mark .semicolon])) ++
          .identifier r.name :: .mark .semicolon :: ks))) [.record r] ks := by
  have hbody : ∀ ls, Yields (do
      let fields ← fields
      return fun ident => Declaration.record ⟨ident, r.attributes, fields⟩)
      (kindsAll (braced (r.fields.flatMap fun v => v.pieces ++ [mark .semicolon])) ++ ls)
      (fun ident => .record ⟨ident, r.attributes, r.fields⟩) ls :=
    fun ls => (yields_fields h.fields ls).bind (Yields.pure _)
  refine (Yields.advance _).bind ((yields_attributes r.attributes (by simp)).bind ?_)
  refine Yields.peekBind ((yields_tagged .struct none (hbody _)).bind ?_)
  exact yields_noMoreNames (.record r) r.attributes r.name ks

/-- So is a further name for a type. -/
theorem yields_typedefs_typedef {t : Typedef} (h : t.WellFormed TokenKind.Writable)
    (ks : List TokenKind) :
    Yields typedefs (kindsAll t.pieces ++ ks) [.typedef t] ks := by
  simp only [Typedef.pieces, kindsAll_cons, kindsAll_append, kindsAll_nil, kinds_word, kinds_mark,
    List.append_assoc, List.cons_append, List.nil_append]
  have hbegins : Begins IsWord
      (kindsAll (typedPieces t.typeName t.indirection t.name) ++ .mark .semicolon :: ks) := by
    simp only [typedPieces, kindsAll_append, kindsAll_cons, List.append_assoc]
    exact (begins_typeText h.typeName).append _
  refine (Yields.advance _).bind ?_
  refine (yields_attributes t.attributes (hbegins.first.ne_mark _)).bind (Yields.peekBind ?_)
  have hnamed := yields_named "typedef name"
    (yields_typedPieces h.typeName t.indirection t.name ⟨.semicolon, first_cons _ ks, by simp⟩)
  -- No type begins with the keywords that introduce a body.
  obtain ⟨w, hw⟩ := hbegins.first
  rw [hw]
  cases w <;> exact hnamed.bind
    ((Yields.pure _).bind (yields_noMoreNames (.typedef t) t.attributes t.typeName ks))

/-! ## Component classes, constants and directives -/

/-- So is a mention of an interface. -/
theorem yields_implemented {i : Interface} (h : i.IsMention TokenKind.Writable)
    (ks : List TokenKind) : Yields implemented (kindsAll i.mentionPieces ++ ks) i ks := by
  obtain ⟨ident, parent, as, methods⟩ := i
  obtain ⟨-, -, rfl, rfl⟩ := h
  simp only [Interface.mentionPieces, kindsAll_cons, kindsAll_append, kindsAll_nil, kinds_word,
    kinds_ident, kinds_mark, List.append_assoc, List.cons_append, List.nil_append]
  refine (yields_attributes as (by simp)).bind ((Yields.expect _).bind ?_)
  exact (Yields.identifier _ ident).bind ((Yields.expect _).bind (Yields.pure _))

/-- So is a component class. -/
theorem yields_coclass {c : CoClass} (h : c.WellFormed TokenKind.Writable)
    (ks : List TokenKind) :
    Yields (coclass c.attributes) (.keyword .coclass :: .identifier c.name ::
      (kindsAll (braced (c.interfaces.flatMap Interface.mentionPieces)) ++ .mark .semicolon :: ks))
      (.coclass c) ks := by
  refine (Yields.advance _).bind ((Yields.identifier _ c.name).bind ?_)
  refine yields_braced ?_ (fun i hi => yields_implemented (h.interfaces i hi)) _
    ((Yields.discardEat_self _).bind (Yields.pure _))
  intro i _
  rw [Interface.mentionPieces, kindsAll_append]
  exact begins_attributePieces i.attributes (by simp) ⟨_, _, rfl, by simp⟩

/-- So is an import statement. -/
theorem yields_importFiles {files : List String} (h : files ≠ []) (ks : List TokenKind) :
    Yields importFiles (.keyword .importFiles ::
      (kindsAll (Piece.separated .comma (files.map fun file => [quoted file])) ++
        .mark .semicolon :: ks)) (.imports files) ks := by
  cases files with
  | nil => exact absurd rfl h
  | cons file files =>
    have hfiles : Yields (separated .comma (string "an import file name"))
        (kindsAll (Piece.separated .comma ((file :: files).map fun file => [quoted file])) ++
          .mark .semicolon :: ks) (file :: files) (.mark .semicolon :: ks) := by
      apply @yields_separated _ fun _ => True
      · trivial
      · trivial
      · simp
      · exact fun _ _ _ _ => Yields.string _ _
    refine Yields.currentBind fun _ => (Yields.advance _).bind (Yields.peekBind ?_)
    exact hfiles.bind ((Yields.expect _).bind (Yields.pure _))

/-- So is a reference to a type library. -/
theorem yields_importLibrary (file : String) (ks : List TokenKind) :
    Yields importLibrary (.keyword .importLibrary :: .mark .openParen :: .string file ::
      .mark .closeParen :: .mark .semicolon :: ks) (.importLibrary file) ks := by
  refine (Yields.advance _).bind ((Yields.eat_self _).bind ?_)
  refine (Yields.string _ file).bind ((Yields.expect _).bind ((Yields.pure file).bind ?_))
  exact (Yields.expect _).bind (Yields.pure _)

/-- So is a quoted text. -/
theorem yields_cppQuote (text : String) (ks : List TokenKind) :
    Yields cppQuote (.keyword .cppQuote :: .mark .openParen :: .string text ::
      .mark .closeParen :: .mark .semicolon :: ks) (.directive .cppQuote text) ks := by
  refine (Yields.advance _).bind ((Yields.expect _).bind ((Yields.string _ text).bind ?_))
  exact (Yields.expect _).bind ((Yields.discardEat_self _).bind (Yields.pure _))

/-- So is a constant. -/
theorem yields_constant {c : Constant} (h : c.WellFormed TokenKind.Writable)
    (ks : List TokenKind) : Yields constant (kindsAll c.pieces ++ ks) (.constant c) ks := by
  obtain ⟨ident, typeName, value⟩ := c
  obtain ⟨type, rfl, htyped⟩ := yields_pointerText h.typeName
  simp only [Constant.pieces, kindsAll_cons, kindsAll_append, kindsAll_nil, kinds_word,
    kinds_verbatim, kinds_ident, kinds_mark, List.append_assoc, List.cons_append, List.nil_append]
  refine (Yields.advance _).bind ?_
  refine (yields_named _ (htyped ident _ ⟨.assign, rfl, by simp⟩)).bind ((Yields.expect _).bind ?_)
  have hrest : ∀ value, Yields (do
      expect (.mark .semicolon)
      return Declaration.constant ⟨ident, type.suffixed, value⟩) (.mark .semicolon :: ks)
      (.constant ⟨ident, type.suffixed, value⟩) ks :=
    fun value => (Yields.expect _).bind (Yields.pure _)
  cases value with
  | text value =>
    exact Yields.peekBind ((Yields.advance _).bind ((Yields.pure _).bind (hrest _)))
  | operands values =>
    have hoperands : Yields (ConstantValue.operands <$> operands)
        (kindsAll (operandPieces values) ++ .mark .semicolon :: ks) (.operands values)
        (.mark .semicolon :: ks) :=
      (yields_operands h.value (by simp)).map
    -- An operand is no string, so the value is not taken for a text.
    obtain ⟨text, hfirst⟩ := ((begins_operands h.value).append (.mark .semicolon :: ks)).first
    apply Yields.peekBind
    unfold ConstantValue.pieces
    rcases hfirst with hfirst | hfirst
    · rw [hfirst]
      exact hoperands.bind (hrest _)
    · rw [hfirst]
      exact hoperands.bind (hrest _)

/-- A token in the group of a pragma is read as its text, and may change how many parentheses are
open. -/
theorem yields_pragmaToken (depth : Nat) {k : TokenKind} (hk : k ≠ .eof) (ks : List TokenKind) :
    Yields (pragmaToken (depth + 1)) (k :: ks) (some (k.text, k.openAfter (depth + 1))) ks := by
  unfold pragmaToken
  rw [if_neg (Nat.succ_ne_zero depth)]
  apply Yields.peekBind
  have hrest : ∀ after : Nat, Yields (do
      advance
      return some (k.text, after)) (k :: ks) (some (k.text, after)) ks :=
    fun after => (Yields.advance k).bind (Yields.pure _)
  cases k with
  | mark m => cases m <;> exact (Yields.pure _).bind (hrest _)
  | eof => exact absurd rfl hk
  | _ => exact (Yields.pure _).bind (hrest _)

/-- Tokens that close a group are all read, and nothing after them is. -/
theorem yields_pragmaTokens {inside : List TokenKind} (hne : ∀ k ∈ inside, k ≠ .eof)
    {depth : Nat} (h : TokenKind.closes depth inside = true) (ks : List TokenKind) :
    Yields (manyFrom pragmaToken depth) (inside ++ ks) (inside.map TokenKind.text) ks := by
  induction inside generalizing depth with
  | nil =>
    cases depth with
    | zero => exact Yields.manyFrom_nil (Yields.pure none)
    | succ depth => cases h
  | cons k inside ih =>
    obtain ⟨hk, hinside⟩ := List.forall_mem_cons.mp hne
    cases depth with
    | zero => cases h
    | succ depth =>
      exact Yields.manyFrom_cons (yields_pragmaToken depth hk _) (by simp) (ih hinside h)

/-- A pragma is read off its text. -/
theorem yields_pragma {text : String} (h : IsPragmaText TokenKind.Writable text)
    (ks : List TokenKind) :
    Yields pragma (.keyword .midlPragma :: (kindsOf text ++ .mark .semicolon :: ks))
      (.directive .midlPragma text) ks := by
  obtain ⟨ident, inside, hident, hinside, hcloses, rfl⟩ := h
  have hne : ∀ k ∈ inside, k ≠ .eof := by
    rintro k hk rfl
    exact hinside _ hk
  rw [(spells_pragma hident hinside).kindsOf_eq]
  refine (Yields.advance _).bind ((Yields.identifier _ ident).bind (Yields.peekBind ?_))
  rw [if_neg (by simp)]
  refine (Yields.advance _).bind ((yields_pragmaTokens hne hcloses _).bind ?_)
  exact (Yields.discardEat_self _).bind (Yields.pure _)

end Parser

end Midl
