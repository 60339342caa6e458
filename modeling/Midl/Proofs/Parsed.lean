import Midl.Parser.Declaration
import Midl.Proofs.Ensures
import Midl.Proofs.Lexing
import Midl.Proofs.WellFormed

/-!
# What is parsed is well formed

Every declaration that is read off a source is well formed, in terms of any vocabulary that the
tokens of the source are of. Each parser is shown to ensure what `WellFormed` asks of the part it
reads; the declarations in libraries and modules are dealt with by induction on the depth of
nesting.
-/

namespace Midl

/-- A vocabulary of tokens that are found in sources. Arguments of attributes are kept without
their quotes, if they had any, so it has to have every string that can stand in quotes. -/
structure Vocabulary (ok : TokenKind → Prop) : Prop where
  lexed : ∀ {k : TokenKind}, ok k → k.Lexed
  string : ∀ {s : String}, (TokenKind.string s).Lexed → ok (.string s)

/-- The text of a name or number that is found in a source can stand in quotes. -/
theorem TokenKind.lexed_string_of_kindOf? {bytes : List UInt8} {k : TokenKind}
    (h : Run.kindOf? bytes = some k) : (TokenKind.string k.text).Lexed := by
  intro hmem
  obtain ⟨b, hb, hc⟩ := Run.isLiteral_of_mem_text h hmem
  exact (Byte.toChar_ne_of_isLiteral b hb).1 hc.symm

namespace Parser

/-! ## Attributes -/

/-- Stars before a text that can stand in quotes can stand there with it. -/
theorem lexed_string_stars (depth : Nat) {text : String} (h : (TokenKind.string text).Lexed) :
    (TokenKind.string (String.ofList (List.replicate depth '*') ++ text)).Lexed := by
  intro hmem
  rw [String.toList_append, String.toList_ofList] at hmem
  rcases List.mem_append.mp hmem with hmem | hmem
  · have := List.eq_of_mem_replicate hmem
    exact absurd this (by decide)
  · exact h hmem

/-- The keyword of an attribute can stand in quotes. -/
theorem lexed_string_keyword (kind : AttributeKind) : (TokenKind.string kind.keyword).Lexed := by
  show '"' ∉ kind.keyword.toList
  cases kind <;> decide

variable {ok : TokenKind → Prop}

/-- Nothing is asked of stars. -/
theorem ensures_stars : Ensures ok stars fun _ => True :=
  Ensures.count ((Ensures.eat _).seq fun _ =>
    Ensures.ite (fun _ => Ensures.pure trivial) fun _ => Ensures.pure trivial)

/-- The argument of an attribute is a string of the vocabulary. -/
theorem ensures_attributeArgument (hok : Vocabulary ok) :
    Ensures ok attributeArgument fun value => ok (.string value) := by
  apply ensures_stars.seq
  intro depth
  apply Ensures.peek.bind
  intro kind hkind
  have hrest : ∀ word, (TokenKind.string word).Lexed →
      Ensures ok (do advance; return String.ofList (List.replicate depth '*') ++ word)
        fun value => ok (.string value) :=
    fun word hword => Ensures.advance.seq fun _ =>
      Ensures.pure (hok.string (lexed_string_stars depth hword))
  have hlexed : kind ≠ .eof → kind.Lexed := fun hne => hok.lexed (hkind.resolve_right hne)
  cases kind with
  | identifier text =>
    obtain ⟨bytes, hbytes⟩ := hlexed (by simp)
    exact Ensures.pureBind (hrest text (TokenKind.lexed_string_of_kindOf? hbytes))
  | number text =>
    obtain ⟨bytes, hbytes⟩ := hlexed (by simp)
    exact Ensures.pureBind (hrest text (TokenKind.lexed_string_of_kindOf? hbytes))
  | string text => exact Ensures.pureBind (hrest text (hlexed (by simp)))
  | attributeName kind => exact Ensures.pureBind (hrest _ (lexed_string_keyword kind))
  | _ => exact Ensures.unexpectedBind _

/-- An attribute is well-formed, and not about parameters unless that is allowed. -/
theorem ensures_oneAttribute (hok : Vocabulary ok) (onParameter : Bool) :
    Ensures ok (oneAttribute onParameter) fun a =>
      a.WellFormed ok ∧ (onParameter = false → a.kind.isParameter = false) := by
  apply Ensures.peek.seq
  intro kind
  have hrest : ∀ kind : AttributeKind, (onParameter = false → kind.isParameter = false) →
      Ensures ok (do
        advance
        if ← eat (.mark .openParen) then
          let value ← attributeArgument
          expect (.mark .closeParen)
          return ⟨kind, some value⟩
        else
          return ⟨kind, none⟩) fun a : Attribute =>
      a.WellFormed ok ∧ (onParameter = false → a.kind.isParameter = false) := by
    intro kind hkind
    refine Ensures.advance.seq fun _ => (Ensures.eat _).seq fun _ => ?_
    refine Ensures.ite (fun _ => ?_) fun _ => ?_
    · apply (ensures_attributeArgument hok).bind
      intro value hvalue
      refine (Ensures.expect _).seq fun _ => Ensures.pure ⟨?_, hkind⟩
      rintro _ ⟨⟩
      exact hvalue
    · refine Ensures.pure ⟨?_, hkind⟩
      rintro _ ⟨⟩
  cases kind with
  | attributeName kind =>
    refine Ensures.ite (fun hc => ?_) fun _ => Ensures.unexpectedBind _
    refine Ensures.pureBind (hrest kind ?_)
    rintro rfl
    simpa using hc
  | _ => exact Ensures.unexpectedBind _

/-- What is ensured of a list still is after the token that has to follow it. -/
theorem ensures_thenExpect {as : List α} {post : List α → Prop} (kind : TokenKind) (h : post as) :
    Ensures ok (do expect kind; return as) post :=
  (Ensures.expect kind).seq fun _ => Ensures.pure h

/-- So are all attributes of a list. -/
theorem ensures_attributeList (hok : Vocabulary ok) (onParameter : Bool) :
    Ensures ok (attributeList onParameter) fun as => ∀ a ∈ as,
      a.WellFormed ok ∧ (onParameter = false → a.kind.isParameter = false) := by
  refine (Ensures.expect _).seq fun _ => Ensures.peek.seq fun _ => ?_
  refine Ensures.ite (fun _ => ?_) fun _ => ?_
  · exact Ensures.pureBind (ensures_thenExpect _ (by simp))
  · apply (Ensures.separated .comma (ensures_oneAttribute hok onParameter)).bind
    intro as has
    exact ensures_thenExpect _ has.2

/-- Attributes of any kind are well-formed. -/
theorem ensures_attributes (hok : Vocabulary ok) :
    Ensures ok attributes fun as => ∀ a ∈ as, a.WellFormed ok :=
  Ensures.ifSees _ ((ensures_attributeList hok true).mono fun _ h a ha => (h a ha).1) (by simp)

/-! ## Types and names -/

/-- A word of a type is of the vocabulary. -/
theorem ensures_word : Ensures ok word fun found => ∀ w ∈ found, ok w.kind := by
  apply Ensures.peek.bind
  intro kind hkind
  have hwithin : kind ≠ .eof → ok kind := fun hne => hkind.resolve_right hne
  have hsome : ∀ w : Word, ok w.kind →
      Ensures ok (do advance; return some w) fun found => ∀ w ∈ found, ok w.kind :=
    fun w hw => Ensures.advance.seq fun _ => Ensures.pure (by simpa using hw)
  cases kind with
  | identifier text => exact hsome (.name text) (hwithin (by simp))
  | keyword k =>
    cases k with
    | long => exact hsome .long (hwithin (by simp))
    | const => exact hsome .const (hwithin (by simp))
    | _ => exact Ensures.pure (by simp)
  | _ => exact Ensures.pure (by simp)

/-- Parting a name from words gives nothing but those words. -/
theorem splitName_kinds {words : List Word} (h : ∀ w ∈ words, ok w.kind) :
    (∀ w ∈ (splitName words).1, ok w.kind) ∧
      ∀ name ∈ (splitName words).2, ok (.identifier name) := by
  unfold splitName
  split
  · rename_i text hlast
    split
    · refine ⟨fun w hw => h w ((List.dropLast_sublist words).subset hw), ?_⟩
      rintro _ ⟨⟩
      exact h _ (List.mem_of_getLast? hlast)
    · exact ⟨h, by simp⟩
  · exact ⟨h, by simp⟩

/-- What holds of a type and the name after it. -/
def IsTyped (ok : TokenKind → Prop) (found : TypeRef × Option String) : Prop :=
  IsTypeText ok found.1.typeName ∧
    ∀ name ∈ found.2, ok (.identifier name)

/-- A type and the name after it are well-formed. -/
theorem ensures_typed : Ensures ok typed (IsTyped ok) := by
  apply (Ensures.many ensures_word).bind
  intro words hwords
  have hstar : Ensures ok (do
      if ← eat (.mark .star) then
        discard (eat (.keyword .const))
        return some ()
      else return none) fun _ => True :=
    (Ensures.eat _).seq fun _ => Ensures.ite
      (fun _ => (Ensures.discardEat _).seq fun _ => Ensures.pure trivial)
      fun _ => Ensures.pure trivial
  apply (Ensures.count hstar).seq
  intro depth
  have hrest : ∀ (words : List Word) (name : Option String), (∀ w ∈ words, ok w.kind) →
      (∀ text ∈ name, ok (.identifier text)) →
      Ensures ok (do
        if words.all (· = .const) then unexpected "a type name"
        return (⟨" ".intercalate (words.map Word.text), depth⟩, name)) (IsTyped ok) := by
    intro words name hwords hname
    refine Ensures.ite (fun _ => Ensures.unexpectedBind _) fun hall => ?_
    refine Ensures.pure ⟨⟨words, ⟨hwords, ?_⟩, rfl⟩, hname⟩
    simpa using hall
  refine Ensures.ite (fun _ => ?_) fun _ => ?_
  · obtain ⟨hfirst, hname⟩ := splitName_kinds hwords
    exact Ensures.pureBind (hrest _ _ hfirst hname)
  · apply (Ensures.identifier _).bind
    intro name hname
    exact Ensures.pureBind (hrest _ _ hwords (by simpa using hname))

/-- So they are where there has to be a name. -/
theorem ensures_named (expected : String) :
    Ensures ok (named expected) fun found => IsTypeText ok found.1.typeName ∧
      ok (.identifier found.2) := by
  apply ensures_typed.bind
  intro found hfound
  obtain ⟨type, name⟩ := found
  cases name with
  | some name => exact Ensures.pure ⟨hfound.1, hfound.2 name rfl⟩
  | none => exact Ensures.unexpected _

theorem ensures_arraySuffix : Ensures ok arraySuffix fun _ => True :=
  (Ensures.eat _).seq fun _ => Ensures.ite
    (fun _ => (Ensures.expect _).seq fun _ => Ensures.pure trivial) fun _ => Ensures.pure trivial

/-- An operand is a name or a number of the vocabulary. -/
theorem ensures_operand : Ensures ok operand (IsOperand ok) := by
  apply Ensures.peek.bind
  intro kind hkind
  have hwithin : kind ≠ .eof → ok kind := fun hne => hkind.resolve_right hne
  cases kind with
  | identifier text =>
    exact Ensures.advance.seq fun _ => Ensures.pure (.inl (hwithin (by simp)))
  | number text =>
    exact Ensures.advance.seq fun _ => Ensures.pure (.inr (hwithin (by simp)))
  | _ => exact Ensures.unexpected _

/-- So are all operands. -/
theorem ensures_operands : Ensures ok operands (AreOperands ok) :=
  (Ensures.separated .pipe ensures_operand).mono fun _ h => ⟨h.1, h.2⟩

/-! ## Interfaces -/

/-- A parameter is well-formed. -/
theorem ensures_parameter (hok : Vocabulary ok) (alone : Bool) :
    Ensures ok (parameter alone) fun found => ∀ v ∈ found, v.WellFormed ok := by
  apply (ensures_attributes hok).bind
  intro as has
  apply ensures_typed.bind
  intro found hfound
  obtain ⟨type, name⟩ := found
  cases name with
  | some name =>
    refine ensures_arraySuffix.seq fun isArray => Ensures.pure ?_
    rintro _ ⟨⟩
    exact ⟨has, hfound.1, hfound.2 name rfl⟩
  | none =>
    refine Ensures.peek.seq fun _ => Ensures.ite (fun _ => ?_) fun _ => Ensures.unexpected _
    exact Ensures.pure (by simp)

/-- So are all parameters. -/
theorem ensures_parameters (hok : Vocabulary ok) :
    Ensures ok parameters fun vs => ∀ v ∈ vs, v.WellFormed ok := by
  refine (Ensures.expect _).seq fun _ => Ensures.peek.seq fun _ => ?_
  refine Ensures.ite (fun _ => ?_) fun _ => ?_
  · exact Ensures.pureBind (ensures_thenExpect _ (by simp))
  · apply (ensures_parameter hok true).bind
    intro found hfirst
    cases found with
    | none => exact Ensures.pureBind (ensures_thenExpect _ (by simp))
    | some first =>
      apply (Ensures.manyAfter .comma (ensures_parameter hok false)).bind
      intro others hothers
      refine Ensures.pureBind (ensures_thenExpect _ ?_)
      have := hfirst first rfl
      simpa [this] using hothers

/-- So is a method. -/
theorem ensures_method (hok : Vocabulary ok) : Ensures ok method (Method.WellFormed ok) := by
  apply (ensures_attributes hok).bind
  intro as has
  apply (ensures_named _).bind
  intro found hfound
  apply (ensures_parameters hok).bind
  intro params hparams
  refine (Ensures.expect _).seq fun _ => Ensures.pure ?_
  exact ⟨has, ⟨found.1, hfound.1, rfl⟩, hfound.2, hparams⟩

/-- So is an interface. -/
theorem ensures_interface (hok : Vocabulary ok) {as : List Attribute} (has : AreDeclarative ok as)
    (nested : Bool) :
    Ensures ok (interface as) (Declaration.WellFormed ok nested) := by
  apply Ensures.advance.seq
  intro _
  apply (Ensures.identifier _).bind
  intro name hname
  have hrest : ∀ parent : Option String, (∀ p ∈ parent, ok (.identifier p)) →
      Ensures ok (do
        expect (.mark .openBrace)
        let methods ← manyUntil (.mark .closeBrace) method
        expect (.mark .closeBrace)
        discard (eat (.mark .semicolon))
        return Declaration.interface ⟨name, parent, as, methods⟩)
        (Declaration.WellFormed ok nested) := by
    intro parent hparent
    apply (Ensures.expect _).seq
    intro _
    apply (Ensures.manyUntil _ (ensures_method hok)).bind
    intro methods hmethods
    refine (Ensures.expect _).seq fun _ => (Ensures.discardEat _).seq fun _ => Ensures.pure ?_
    exact ⟨has, hname, hparent, hmethods⟩
  refine (Ensures.eat _).seq fun _ => Ensures.ite (fun _ => ?_) fun _ => ?_
  · exact (Ensures.identifier _).some.bind hrest
  · exact Ensures.pureBind (hrest none (by simp))

/-! ## Enumerations and structs -/

/-- So is a member of an enumeration. -/
theorem ensures_member : Ensures ok member (Member.WellFormed ok) := by
  apply (Ensures.identifier _).bind
  intro name hname
  have hrest : ∀ value : Option (List String),
      (∀ operands ∈ value, AreOperands ok operands) →
      Ensures ok (return ⟨name, value⟩) (Member.WellFormed ok) :=
    fun value hvalue => Ensures.pure ⟨hname, hvalue⟩
  refine (Ensures.eat _).seq fun _ => Ensures.ite (fun _ => ?_) fun _ => ?_
  · exact ensures_operands.some.bind hrest
  · exact Ensures.pureBind (hrest none (by simp))

/-- So are all members. -/
theorem ensures_members :
    Ensures ok members fun ms => ∀ m ∈ ms, m.WellFormed ok := by
  refine (Ensures.expect _).seq fun _ => Ensures.peek.seq fun _ => ?_
  refine Ensures.ite (fun _ => ?_) fun _ => ?_
  · exact Ensures.pureBind (ensures_thenExpect _ (by simp))
  · apply ensures_member.bind
    intro first hfirst
    have hnext : Ensures ok (do
        if (← peek) = .mark .closeBrace then return none
        else some <$> member) fun found => ∀ m ∈ found, m.WellFormed ok :=
      Ensures.peek.seq fun _ => Ensures.ite (fun _ => Ensures.pure (by simp))
        fun _ => ensures_member.some
    apply (Ensures.manyAfter .comma hnext).bind
    intro others hothers
    refine Ensures.pureBind (ensures_thenExpect _ ?_)
    simpa [hfirst] using hothers

/-- So is an enumeration. -/
theorem ensures_enumeration {as : List Attribute} (has : ∀ a ∈ as, a.WellFormed ok)
    (nested : Bool) :
    Ensures ok (enumeration as) (Declaration.WellFormed ok nested) := by
  apply Ensures.advance.seq
  intro _
  apply (Ensures.identifier _).bind
  intro name hname
  apply ensures_members.bind
  intro members hmembers
  refine (Ensures.discardEat _).seq fun _ => Ensures.pure ?_
  exact ⟨has, hname, hmembers⟩

/-- So is a field of a struct. -/
theorem ensures_field (hok : Vocabulary ok) : Ensures ok field (Variable.WellFormed ok) := by
  apply (ensures_attributes hok).bind
  intro as has
  apply (ensures_named _).bind
  intro found hfound
  refine ensures_arraySuffix.seq fun _ => (Ensures.expect _).seq fun _ => Ensures.pure ?_
  exact ⟨has, hfound.1, hfound.2⟩

/-- So are all fields. -/
theorem ensures_fields (hok : Vocabulary ok) :
    Ensures ok fields fun vs => ∀ v ∈ vs, v.WellFormed ok := by
  apply (Ensures.expect _).seq
  intro _
  apply (Ensures.manyUntil _ (ensures_field hok)).bind
  intro fields hfields
  exact ensures_thenExpect _ hfields

/-- So is a struct. -/
theorem ensures_record (hok : Vocabulary ok) {as : List Attribute} (has : ∀ a ∈ as, a.WellFormed ok)
    (nested : Bool) :
    Ensures ok (record as) (Declaration.WellFormed ok nested) := by
  apply Ensures.advance.seq
  intro _
  apply (Ensures.identifier _).bind
  intro name hname
  apply (ensures_fields hok).bind
  intro fields hfields
  refine (Ensures.discardEat _).seq fun _ => Ensures.pure ?_
  exact ⟨has, hname, hfields⟩

/-! ## Names for types -/

/-- A name is the text of a type. -/
theorem isTypeText_of_name {ok : TokenKind → Prop} {name : String} (h : ok (.identifier name)) :
    IsTypeText ok name :=
  ⟨[.name name], ⟨by simpa [Word.kind] using h, ⟨.name name, by simp⟩⟩, by simp [Word.text]⟩

/-- The first declaration of a statement that gives names to a type, and the type that further
names refer to. -/
def IsFirst (ok : TokenKind → Prop) (nested : Bool) (found : Declaration × String) : Prop :=
  found.1.WellFormed ok nested ∧ IsTypeText ok found.2

section Typedef

variable {as : List Attribute} (has : ∀ a ∈ as, a.WellFormed ok) (nested : Bool)

include has

/-- So is a further name for a well-formed type. -/
theorem ensures_typedefOf {typeName : String} (htype : IsTypeText ok typeName) :
    Ensures ok (typedefOf typeName as) (Declaration.WellFormed ok nested) := by
  apply ensures_stars.seq
  intro depth
  apply (Ensures.identifier _).bind
  intro name hname
  exact Ensures.pure ⟨has, htype, hname⟩

/-- So is what a tag or a body makes of it. -/
theorem ensures_tagged {ofBody : Parser (String → Declaration)}
    (h : Ensures ok ofBody fun make => ∀ name, ok (.identifier name) →
      (make name).WellFormed ok nested) :
    Ensures ok (tagged as ofBody) (IsFirst ok nested) := by
  apply Ensures.advance.seq
  intro _
  apply Ensures.peek.bind
  intro kind hkind
  have hbody : Ensures ok (do
      let make ← ofBody
      let name ← identifier "typedef name"
      return (make name, name)) (IsFirst ok nested) := by
    apply h.bind
    intro make hmake
    apply (Ensures.identifier _).bind
    intro name hname
    exact Ensures.pure ⟨hmake name hname, isTypeText_of_name hname⟩
  cases kind with
  | identifier tag =>
    have htype := isTypeText_of_name (hkind.resolve_right (by simp))
    refine Ensures.advance.seq fun _ => Ensures.pureBind (Ensures.peek.seq fun _ => ?_)
    refine Ensures.ite (fun _ => hbody) fun _ => ?_
    apply (ensures_typedefOf has nested htype).bind
    intro first hfirst
    exact Ensures.pure ⟨hfirst, htype⟩
  | _ =>
    refine Ensures.pureBind (Ensures.peek.seq fun _ => ?_)
    exact Ensures.ite (fun _ => hbody) fun _ => Ensures.unexpected _

end Typedef

/-- So are all names that a statement gives. -/
theorem ensures_typedefs (hok : Vocabulary ok) (nested : Bool) :
    Ensures ok typedefs (Declaration.AllWellFormed ok nested) := by
  apply Ensures.advance.seq
  intro _
  apply (ensures_attributes hok).bind
  intro as has
  apply Ensures.peek.seq
  intro kind
  have hrest : ∀ found : Declaration × String, IsFirst ok nested found →
      Ensures ok (do
        let others ← many do
          if ← eat (.mark .comma) then some <$> typedefOf found.2 as
          else return none
        expect (.mark .semicolon)
        return found.1 :: others) (Declaration.AllWellFormed ok nested) := by
    intro found hfound
    apply (Ensures.manyAfter .comma (ensures_typedefOf has nested hfound.2).some).bind
    intro others hothers
    refine (Ensures.expect _).seq fun _ => Ensures.pure ⟨hfound.1, ?_⟩
    exact Declaration.allWellFormed_iff.mpr hothers
  dsimp only
  split
  · refine (ensures_tagged has nested ?_).bind hrest
    apply ensures_members.bind
    intro members hmembers
    exact Ensures.pure fun name hname => ⟨has, hname, hmembers⟩
  · refine (ensures_tagged has nested ?_).bind hrest
    apply (ensures_fields hok).bind
    intro fields hfields
    exact Ensures.pure fun name hname => ⟨has, hname, hfields⟩
  · apply (ensures_named _).bind
    intro found hfound
    exact Ensures.pureBind (hrest (_, _) ⟨⟨has, hfound.1, hfound.2⟩, hfound.1⟩)

/-! ## Component classes, constants and directives -/

/-- A mention of an interface has nothing but its name and attributes. -/
theorem ensures_implemented (hok : Vocabulary ok) :
    Ensures ok implemented (Interface.IsMention ok) := by
  apply (ensures_attributes hok).bind
  intro as has
  apply (Ensures.expect _).seq
  intro _
  apply (Ensures.identifier _).bind
  intro name hname
  exact (Ensures.expect _).seq fun _ => Ensures.pure ⟨has, hname, rfl, rfl⟩

/-- A component class is well-formed. -/
theorem ensures_coclass (hok : Vocabulary ok) {as : List Attribute} (has : AreDeclarative ok as)
    (nested : Bool) :
    Ensures ok (coclass as) (Declaration.WellFormed ok nested) := by
  apply Ensures.advance.seq
  intro _
  apply (Ensures.identifier _).bind
  intro name hname
  apply (Ensures.expect _).seq
  intro _
  apply (Ensures.manyUntil _ (ensures_implemented hok)).bind
  intro interfaces hinterfaces
  refine (Ensures.expect _).seq fun _ => (Ensures.discardEat _).seq fun _ => Ensures.pure ?_
  exact ⟨has, hname, hinterfaces⟩

/-- So is an import statement, which names at least one file. -/
theorem ensures_importFiles (nested : Bool) :
    Ensures ok importFiles (Declaration.WellFormed ok nested) := by
  refine Ensures.current.seq fun _ => Ensures.advance.seq fun _ => Ensures.peek.seq fun kind => ?_
  cases kind with
  | string text =>
    apply (Ensures.separated .comma (Ensures.string _)).bind
    intro files hfiles
    exact (Ensures.expect _).seq fun _ => Ensures.pure hfiles
  | _ => exact Ensures.throw _

/-- So is a reference to a type library inside a block. -/
theorem ensures_importLibrary :
    Ensures ok importLibrary (Declaration.WellFormed ok true) := by
  refine Ensures.advance.seq fun _ => ?_
  have hrest : ∀ file, ok (.string file) →
      Ensures ok (do expect (.mark .semicolon); return .importLibrary file)
        (Declaration.WellFormed ok true) :=
    fun file hfile => (Ensures.expect _).seq fun _ => Ensures.pure ⟨rfl, hfile⟩
  refine (Ensures.eat _).seq fun _ => Ensures.ite (fun _ => ?_) fun _ => ?_
  · apply (Ensures.string _).bind
    intro file hfile
    exact (Ensures.expect _).seq fun _ => Ensures.pureBind (hrest file hfile)
  · exact (Ensures.string _).bind hrest

/-- So is a constant inside a block. -/
theorem ensures_constant : Ensures ok constant (Declaration.WellFormed ok true) := by
  apply Ensures.advance.seq
  intro _
  apply (ensures_named _).bind
  intro found hfound
  refine (Ensures.expect _).seq fun _ => Ensures.peek.bind fun kind hkind => ?_
  have hrest : ∀ value : ConstantValue, value.WellFormed ok →
      Ensures ok (do
        expect (.mark .semicolon)
        return .constant ⟨found.2, found.1.suffixed, value⟩)
        (Declaration.WellFormed ok true) :=
    fun value hvalue => (Ensures.expect _).seq fun _ =>
      Ensures.pure ⟨rfl, hfound.2, ⟨found.1, hfound.1, rfl⟩, hvalue⟩
  have hoperands : Ensures ok (ConstantValue.operands <$> operands)
      (ConstantValue.WellFormed ok) :=
    ensures_operands.map fun _ h => h
  cases kind with
  | string text =>
    refine Ensures.advance.seq fun _ => Ensures.pureBind (hrest (.text text) ?_)
    exact hkind.resolve_right (by simp)
  | _ => exact hoperands.bind hrest

/-- So is a quoted text. -/
theorem ensures_cppQuote (nested : Bool) :
    Ensures ok cppQuote (Declaration.WellFormed ok nested) := by
  refine Ensures.advance.seq fun _ => (Ensures.expect _).seq fun _ => ?_
  apply (Ensures.string _).bind
  intro text htext
  exact (Ensures.expect _).seq fun _ => (Ensures.discardEat _).seq fun _ => Ensures.pure htext

/-! ## Pragmas

A group of tokens in parentheses is over when the parentheses are closed, and not before: no
round of the repetition ends it by taking no token. -/

/-- One token of a group is kept as it is spelled, and opens or closes a parenthesis if it is
one. -/
theorem pragmaToken_cases {depth : Nat} {s s' : State} {found : Option (String × Nat)}
    (h : pragmaToken depth s = .ok found s') :
    (depth = 0 ∧ found = none ∧ s' = s) ∨
    (0 < depth ∧ ∃ t : Token, s.tokens = t :: s'.tokens ∧
      found = some (t.kind.text, t.kind.openAfter depth)) := by
  unfold pragmaToken at h
  by_cases hdepth : depth = 0
  · rw [if_pos hdepth] at h
    obtain ⟨rfl, rfl⟩ := EStateM.Result.ok.inj h
    exact .inl ⟨hdepth, rfl, rfl⟩
  · rw [if_neg hdepth] at h
    obtain ⟨kind, s₁, hpeek, h⟩ := ok_of_bind h
    obtain ⟨rfl, rfl⟩ := EStateM.Result.ok.inj hpeek
    have hne : s.current.kind ≠ .eof := by
      intro heof
      rw [heof] at h
      cases h
    have htail : (do advance; return some (s.current.kind.text, s.current.kind.openAfter depth))
        s = .ok found s' := by
      generalize s.current.kind = kind at h hne
      dsimp only at h
      split at h
      · exact h
      · exact h
      · exact absurd rfl hne
      · rename_i hopen hclose _
        have hsame : kind.openAfter depth = depth := by
          unfold TokenKind.openAfter
          split
          · exact absurd rfl hopen
          · exact absurd rfl hclose
          · rfl
        rw [hsame]
        exact h
    obtain ⟨_, s₂, hadvance, h⟩ := ok_of_bind htail
    obtain ⟨rfl, rfl⟩ := EStateM.Result.ok.inj h
    exact .inr ⟨Nat.pos_of_ne_zero hdepth, s.current, tokens_eq_of_advance hadvance hne, rfl⟩

/-- The tokens of a group close the parentheses that are open. -/
theorem manyFrom_pragmaToken {depth : Nat} {s s' : State} {inside : List String}
    (h : manyFrom pragmaToken depth s = .ok inside s') :
    ∃ taken : List Token, s.tokens = taken ++ s'.tokens ∧
      TokenKind.closes depth (taken.map Token.kind) = true ∧
      inside = (taken.map Token.kind).map TokenKind.text := by
  -- The induction is on the number of tokens left.
  induction hn : s.left using Nat.strongRecOn generalizing s depth inside with
  | ind n ih =>
    rcases manyFrom_cases h with ⟨hitem, rfl⟩ |
      ⟨a, next, s₁, others, hitem, hlt, hmany, rfl⟩ | ⟨a, next, hitem, hlt, rfl⟩
    · rcases pragmaToken_cases hitem with ⟨rfl, -, rfl⟩ | ⟨-, t, -, hnone⟩
      · exact ⟨[], rfl, rfl, rfl⟩
      · cases hnone
    · rcases pragmaToken_cases hitem with ⟨-, hnone, -⟩ | ⟨hdepth, t, htokens, hsome⟩
      · cases hnone
      · obtain ⟨rfl, rfl⟩ := Prod.mk.inj (Option.some.inj hsome)
        obtain ⟨taken, htokens₁, hcloses, rfl⟩ := ih s₁.left (hn ▸ hlt) hmany rfl
        refine ⟨t :: taken, by rw [htokens, htokens₁, List.cons_append], ?_, rfl⟩
        obtain ⟨depth, rfl⟩ := Nat.exists_eq_succ_of_ne_zero (Nat.ne_of_gt hdepth)
        exact hcloses
    · rcases pragmaToken_cases hitem with ⟨-, hnone, -⟩ | ⟨-, t, htokens, -⟩
      · cases hnone
      · rw [s.left_eq, s'.left_eq, htokens] at hlt
        exact absurd (Nat.lt_succ_self _) hlt

/-- So is a pragma. -/
theorem ensures_pragma (nested : Bool) :
    Ensures ok pragma (Declaration.WellFormed ok nested) := by
  apply Ensures.advance.seq
  intro _
  apply (Ensures.identifier _).bind
  intro name hname
  refine Ensures.peek.seq fun _ => Ensures.ite (fun _ => Ensures.unexpectedBind _) fun _ => ?_
  have hgroup : Ensures ok (manyFrom pragmaToken 1) fun inside => ∃ kinds : List TokenKind,
      (∀ kind ∈ kinds, ok kind) ∧ TokenKind.closes 1 kinds = true ∧
        inside = kinds.map TokenKind.text :=
    fun s inside s' hs h => by
      obtain ⟨taken, htokens, hcloses, rfl⟩ := manyFrom_pragmaToken h
      have hall : ∀ t ∈ taken ++ s'.tokens, ok t.kind := htokens ▸ hs
      obtain ⟨htaken, hs'⟩ := List.forall_mem_append.mp hall
      exact ⟨hs', taken.map Token.kind, List.forall_mem_map.mpr htaken, hcloses, rfl⟩
  refine Ensures.advance.seq fun _ => hgroup.bind fun inside hinside => ?_
  obtain ⟨kinds, hkinds, hcloses, rfl⟩ := hinside
  refine (Ensures.discardEat _).seq fun _ => Ensures.pure ?_
  exact ⟨name, kinds, hname, hkinds, hcloses, rfl⟩

/-! ## All declarations -/

/-- Attributes before a declaration are not about parameters. -/
theorem ensures_leadingAttributes (hok : Vocabulary ok) :
    Ensures ok leadingAttributes (AreDeclarative ok) := by
  refine Ensures.ifSees _ ?_ ⟨by simp, by simp⟩
  apply (ensures_attributeList hok false).bind
  intro as has
  refine Ensures.peek.seq fun _ => Ensures.ite (fun _ => ?_) fun _ => Ensures.unexpected _
  exact Ensures.pure ⟨fun a ha => (has a ha).1, fun a ha => (has a ha).2 rfl⟩

/-- A library or module is well-formed if what it holds is. -/
theorem ensures_group {inner : Parser (List Declaration)} {as : List Attribute} {nested : Bool}
    (hinner : Ensures ok inner (Declaration.AllWellFormed ok true)) (kind : GroupKind)
    (has : AreDeclarative ok as) :
    Ensures ok (group inner kind as) (Declaration.WellFormed ok nested) := by
  apply Ensures.advance.seq
  intro _
  apply (Ensures.identifier _).bind
  intro name hname
  apply (Ensures.expect _).seq
  intro _
  apply (Ensures.manyUntil _ hinner).bind
  intro body hbody
  refine (Ensures.expect _).seq fun _ => (Ensures.discardEat _).seq fun _ => Ensures.pure ?_
  exact ⟨hname, has, Declaration.allWellFormed_flatten hbody⟩

/-- A well-formed declaration makes a well-formed statement. -/
theorem ensures_singleton {p : Parser Declaration} {nested : Bool}
    (h : Ensures ok p (Declaration.WellFormed ok nested)) :
    Ensures ok (List.singleton <$> p) (Declaration.AllWellFormed ok nested) :=
  h.map fun _ hd => ⟨hd, trivial⟩

/-- The declarations of a statement are well-formed. -/
theorem ensures_chosen (hok : Vocabulary ok) {inner : Parser (List Declaration)}
    {as : List Attribute} (nested : Bool)
    (hinner : Ensures ok inner (Declaration.AllWellFormed ok true)) (has : AreDeclarative ok as) :
    Ensures ok (chosen inner nested as) (Declaration.AllWellFormed ok nested) := by
  apply Ensures.peek.seq
  intro kind
  split
  · exact ensures_singleton (ensures_importFiles nested)
  · exact ensures_singleton (ensures_interface hok has nested)
  · exact ensures_singleton (ensures_coclass hok has nested)
  · exact ensures_singleton (ensures_group hinner .library has)
  · exact ensures_singleton (ensures_group hinner .module has)
  · exact ensures_singleton (ensures_enumeration has.wellFormed nested)
  · exact ensures_singleton (ensures_record hok has.wellFormed nested)
  · exact ensures_typedefs hok nested
  · exact ensures_singleton (ensures_cppQuote nested)
  · exact ensures_singleton (ensures_pragma nested)
  · refine Ensures.ite ?_ fun _ => Ensures.unexpected _
    rintro rfl
    exact ensures_singleton ensures_importLibrary
  · refine Ensures.ite ?_ fun _ => Ensures.unexpected _
    rintro rfl
    exact ensures_singleton ensures_constant
  · exact Ensures.unexpected _

/-- So they are with their attributes, at every depth. -/
theorem ensures_declaration (hok : Vocabulary ok) (depth : Nat) (nested : Bool) :
    Ensures ok (declaration depth nested) (Declaration.AllWellFormed ok nested) := by
  induction depth generalizing nested with
  | zero => exact Ensures.unexpected _
  | succ depth ih =>
    apply (ensures_leadingAttributes hok).bind
    intro as has
    apply (ensures_chosen hok nested (ih true) has).bind
    intro ds hds
    exact (Ensures.note _).seq fun _ => Ensures.pure hds

/-- So are all declarations of a source. -/
theorem ensures_declarations (hok : Vocabulary ok) (depth : Nat) :
    Ensures ok (declarations depth) (Declaration.AllWellFormed ok false) := by
  apply (Ensures.manyUntil .eof (ensures_declaration hok depth false)).map
  intro dss hdss
  exact Declaration.allWellFormed_flatten hdss

end Parser

/-- What a source is read as is well formed, in terms of a vocabulary that its tokens are of. -/
theorem Source.allWellFormed_of_tokens {ok : TokenKind → Prop} (hok : Vocabulary ok)
    {source : Source} {ds : List Declaration} (htokens : ∀ t ∈ source.tokens.tokens, ok t.kind)
    (h : source.parse = .ok ds) : Declaration.AllWellFormed ok false ds := by
  unfold Source.parse Source.read TokenStream.read at h
  dsimp only at h
  split at h
  · rename_i ds' s hrun
    obtain rfl : ds' = ds := Except.ok.inj h
    have hensures := Parser.Ensures.arrive.seq fun _ =>
      Parser.ensures_declarations hok source.tokens.tokens.length
    exact (hensures _ _ _ (fun t ht => htokens t ht) hrun).2
  · cases h

/-- What a source is read as is well formed. -/
theorem Source.allWellFormed_of_parse {source : Source} {ds : List Declaration}
    (h : source.parse = .ok ds) : Declaration.AllWellFormed TokenKind.Lexed false ds :=
  Source.allWellFormed_of_tokens ⟨id, id⟩ (fun _ ht => Cursor.lexed_of_mem_tokens ht) h

end Midl
