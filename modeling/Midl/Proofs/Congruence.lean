import Midl.Parser.Declaration

/-!
# What all parsers respect

Every parser of this library is put together from a few primitives: looking at the current token,
moving on, failing, and repeating. So a relation between parsers that holds between each primitive
and itself, and that putting parsers together preserves, holds between every parser and itself.
`Congruence` collects what has to be shown of such a relation; the rest of this module goes through
the productions once, for all of them. Only whole statements are recorded, which is left to whoever
goes on to them.

Whole declarations may be related by more than their parts are, if it is what they end with that
matters. `Completion` collects what has to be shown of such a relation.

Positions are the one thing in a token, apart from its kind, that a parser can come to know, and
only import statements keep one. The two sides may see different positions, related by
`positions`.
-/

namespace Midl.Parser

/-- A relation that everything parsers are put together with respects. -/
structure Congruence (rel : {α : Type} → Parser α → Parser α → Prop)
    (positions : Position → Position → Prop) : Prop where
  pure : ∀ {α : Type} (a : α), rel (Pure.pure a) (Pure.pure a)
  bind : ∀ {α β : Type} {p q : Parser α} {f g : α → Parser β}, rel p q →
    (∀ a, rel (f a) (g a)) → rel (p >>= f) (q >>= g)
  peek : rel peek peek
  advance : rel advance advance
  unexpected : ∀ {α : Type} (expected : String),
    rel (unexpected expected : Parser α) (Parser.unexpected expected)
  emptyImport : ∀ {α : Type} {pos pos' : Position}, positions pos pos' →
    rel (throw (.emptyImport pos) : Parser α) (throw (.emptyImport pos'))
  manyFrom : ∀ {σ α : Type} {item item' : σ → Parser (Option (α × σ))},
    (∀ carried, rel (item carried) (item' carried)) →
    ∀ carried, rel (manyFrom item carried) (manyFrom item' carried)

/-- A parser is related to itself. -/
def Respected (rel : {α : Type} → Parser α → Parser α → Prop) {α : Type} (p : Parser α) : Prop :=
  rel p p

/-- What follows the keyword of an import statement that begins at a position. -/
def importRest (pos : Position) : Parser Declaration := do
  match ← peek with
  | .string _ =>
    let files ← separated .comma (string "an import file name")
    expect (.mark .semicolon)
    return .imports files
  | _ => throw (.emptyImport pos)

/-- A relation that everything declarations end with respects, and that is kept when something
related by `rel` is put in front. -/
structure Completion (rel closing : {α : Type} → Parser α → Parser α → Prop)
    (positions : Position → Position → Prop) : Prop where
  parts : Congruence rel positions
  weaken : ∀ {α : Type} {p q : Parser α}, closing p q → rel p q
  bind : ∀ {α β : Type} {p q : Parser α} {f g : α → Parser β}, rel p q →
    (∀ a, closing (f a) (g a)) → closing (p >>= f) (q >>= g)
  map : ∀ {α β : Type} {p q : Parser α} (f : α → β), closing p q → closing (f <$> p) (f <$> q)
  expect : ∀ mark, closing (expect (.mark mark)) (Parser.expect (.mark mark))
  parenthesised : closing (Parser.manyFrom pragmaToken 1) (Parser.manyFrom pragmaToken 1)
  optionalSemicolon : ∀ {α β : Type} {p q : Parser α} (f : α → β), closing p q →
    closing (do let a ← p; discard (eat (.mark .semicolon)); return f a)
      (do let a ← q; discard (eat (.mark .semicolon)); return f a)
  emptyImport : ∀ {α : Type} {pos pos' : Position}, positions pos pos' →
    closing (throw (.emptyImport pos) : Parser α) (throw (.emptyImport pos'))

/-- Both sides move on before anything else, and are related from there. -/
def Moving (rel : {α : Type} → Parser α → Parser α → Prop)
    (positions : Position → Position → Prop) {α : Type} (p q : Parser α) : Prop :=
  ∃ f g : Position → Parser α,
    p = (do let t ← current; advance; f t.position) ∧
    q = (do let t ← current; advance; g t.position) ∧
    ∀ pos pos', positions pos pos' → rel (f pos) (g pos')

/-- Both sides move on before anything else, whatever the position, and are related from there. -/
def Stepping (rel : {α : Type} → Parser α → Parser α → Prop) {α : Type} (p q : Parser α) : Prop :=
  ∃ f g : Parser α, p = (advance >>= fun _ => f) ∧ q = (advance >>= fun _ => g) ∧ rel f g

/-- What is an advance and something related is stepping. -/
theorem Stepping.of_eq {rel : {α : Type} → Parser α → Parser α → Prop} {α : Type}
    {p q f g : Parser α} (hp : p = advance >>= fun _ => f) (hq : q = advance >>= fun _ => g)
    (h : rel f g) : Stepping rel p q :=
  ⟨f, g, hp, hq, h⟩

/-- What steps moves on. -/
theorem Stepping.moving {rel : {α : Type} → Parser α → Parser α → Prop}
    {positions : Position → Position → Prop} {α : Type} {p q : Parser α} (h : Stepping rel p q) :
    Moving rel positions p q := by
  obtain ⟨f, g, hp, hq, hfg⟩ := h
  exact ⟨fun _ => f, fun _ => g, hp, hq, fun _ _ _ => hfg⟩

namespace Congruence

variable {rel : {α : Type} → Parser α → Parser α → Prop} {positions : Position → Position → Prop}
  (h : Congruence rel positions)

include h

/-! ## Putting parsers together -/

/-- Two respected steps make one. -/
theorem seq {α β : Type} {p : Parser α} {f : α → Parser β} (hp : Respected rel p)
    (hf : ∀ a, Respected rel (f a)) : Respected rel (p >>= f) :=
  h.bind hp hf

/-- A result alone is respected. -/
theorem yield {α : Type} (a : α) : Respected rel (Pure.pure a : Parser α) := h.pure a

/-- So is failing at a token. -/
theorem fail {α : Type} (expected : String) :
    Respected rel (Parser.unexpected expected : Parser α) :=
  h.unexpected expected

/-- A result may be changed on the way. -/
theorem map {α β : Type} {p q : Parser α} (f : α → β) (hp : rel p q) : rel (f <$> p) (f <$> q) := by
  rw [← bind_pure_comp, ← bind_pure_comp]
  exact h.bind hp fun a => h.pure (f a)

omit h in
/-- A step that only gives a result can be left out. -/
theorem pureBind {α β : Type} {a : α} {f : α → Parser β} (hf : Respected rel (f a)) :
    Respected rel (Pure.pure a >>= f) := by
  rwa [pure_bind]

omit h in
/-- Both branches are respected. -/
theorem ite {α : Type} {c : Prop} [Decidable c] {p q : Parser α} (hp : Respected rel p)
    (hq : Respected rel q) : Respected rel (if c then p else q) := by
  split
  · exact hp
  · exact hq

/-- Taking a token if it is there is respected. -/
theorem eat (kind : TokenKind) : Respected rel (eat kind) :=
  h.seq h.peek fun _ => ite (h.seq h.advance fun _ => h.yield true) (h.yield false)

theorem discardEat (kind : TokenKind) : Respected rel (discard (Parser.eat kind)) :=
  h.map _ (h.eat kind)

/-- So is taking one that has to be there. -/
theorem expect (kind : TokenKind) : Respected rel (expect kind) :=
  h.seq h.peek fun _ => ite h.advance (h.fail _)

/-- So is reading a name. -/
theorem identifier (expected : String) : Respected rel (identifier expected) := by
  refine h.seq h.peek fun kind => ?_
  split
  · exact h.seq h.advance fun _ => h.yield _
  · exact h.fail expected

/-- So is reading a string. -/
theorem string (expected : String) : Respected rel (string expected) := by
  refine h.seq h.peek fun kind => ?_
  split
  · exact h.seq h.advance fun _ => h.yield _
  · exact h.fail expected

/-- A related step may be repeated. -/
theorem many {α : Type} {item item' : Parser (Option α)} (hitem : rel item item') :
    rel (many item) (many item') :=
  h.manyFrom (fun _ => h.map _ hitem) ()

/-- It may be repeated until a token comes. -/
theorem manyUntil {α : Type} (kind : TokenKind) {item item' : Parser α} (hitem : rel item item') :
    rel (manyUntil kind item) (manyUntil kind item') := by
  refine h.many (h.bind h.peek fun k => ?_)
  split
  · exact h.pure none
  · exact h.map some hitem

/-- Items after a separator each, as many as there are. -/
theorem manyAfter {α : Type} (separator : Mark) {item : Parser (Option α)}
    (hitem : Respected rel item) :
    Respected rel
      (Parser.many do if ← Parser.eat (.mark separator) then item else return none) :=
  h.many (h.seq (h.eat _) fun _ => ite hitem (h.yield none))

/-- So may one with separators. -/
theorem separated {α : Type} (separator : Mark) {item : Parser α} (hitem : Respected rel item) :
    Respected rel (separated separator item) :=
  h.seq hitem fun first => h.seq (h.manyAfter separator (h.map some hitem)) fun others =>
    h.yield (first :: others)

/-- Counting stars is respected. -/
theorem stars : Respected rel stars :=
  h.map List.length (h.manyAfter .star (h.yield (some ())))

/-- A step may depend on the token seen. -/
theorem ifSees {α : Type} (kind : TokenKind) (absent : α) {item : Parser α}
    (hitem : Respected rel item) : Respected rel (ifSees kind absent item) :=
  h.seq h.peek fun _ => ite hitem (h.yield absent)

/-! ## Attributes, types and operands -/

/-- Reading the argument of an attribute is respected. -/
theorem attributeArgument : Respected rel attributeArgument := by
  refine h.seq h.stars fun depth => h.seq h.peek fun kind => ?_
  have hrest : ∀ word, Respected rel
      (do Parser.advance; return String.ofList (List.replicate depth '*') ++ word) :=
    fun word => h.seq h.advance fun _ => h.yield _
  cases kind with
  | identifier text => exact h.seq (h.yield text) hrest
  | number text => exact h.seq (h.yield text) hrest
  | string text => exact h.seq (h.yield text) hrest
  | attributeName kind => exact h.seq (h.yield kind.keyword) hrest
  | _ => exact h.seq (h.fail _) hrest

/-- So is reading an attribute. -/
theorem oneAttribute (onParameter : Bool) : Respected rel (oneAttribute onParameter) := by
  refine h.seq h.peek fun kind => ?_
  have hrest : ∀ kind : AttributeKind, Respected rel (do
      Parser.advance
      if ← Parser.eat (.mark .openParen) then
        let value ← Parser.attributeArgument
        Parser.expect (.mark .closeParen)
        return (⟨kind, some value⟩ : Attribute)
      else
        return ⟨kind, none⟩) := by
    intro kind
    refine h.seq h.advance fun _ => h.seq (h.eat _) fun _ => ite ?_ (h.yield _)
    exact h.seq h.attributeArgument fun _ => h.seq (h.expect _) fun _ => h.yield _
  cases kind with
  | attributeName kind => exact ite (h.seq (h.yield kind) hrest) (h.seq (h.fail _) hrest)
  | _ => exact h.seq (h.fail _) hrest

/-- So is reading an attribute list. -/
theorem attributeList (onParameter : Bool) : Respected rel (attributeList onParameter) := by
  refine h.seq (h.expect _) fun _ => h.seq h.peek fun _ => ?_
  have hrest : ∀ as : List Attribute, Respected rel
      (do Parser.expect (.mark .closeBracket); return as) :=
    fun as => h.seq (h.expect _) fun _ => h.yield as
  refine ite (h.seq (h.yield []) hrest) ?_
  exact h.seq (h.separated .comma (h.oneAttribute onParameter)) hrest

theorem attributes : Respected rel attributes := h.ifSees _ _ (h.attributeList true)

/-- Reading a word of a type is respected. -/
theorem word : Respected rel word := by
  refine h.seq h.peek fun kind => ?_
  split
  · exact h.seq h.advance fun _ => h.yield _
  · exact h.seq h.advance fun _ => h.yield _
  · exact h.seq h.advance fun _ => h.yield _
  · exact h.yield none

/-- So is reading a type with its name. -/
theorem typed : Respected rel typed := by
  refine h.seq (h.many h.word) fun words => ?_
  refine h.seq (h.map List.length (h.manyAfter .star
    (h.seq (h.discardEat _) fun _ => h.yield (some ())))) fun depth => ?_
  have hrest : ∀ split : List Word × Option String, Respected rel (do
      if split.1.all (· = .const) then Parser.unexpected "a type name"
      return ((⟨" ".intercalate (split.1.map Word.text), depth⟩, split.2) :
        TypeRef × Option String)) :=
    fun split => ite (h.seq (h.fail _) fun _ => h.yield _) (h.yield _)
  refine ite (h.seq (h.yield _) hrest) ?_
  exact h.seq (h.identifier _) fun name => h.seq (h.yield (words, some name)) hrest

theorem named (expected : String) : Respected rel (named expected) := by
  refine h.seq h.typed fun found => ?_
  split
  · exact h.yield _
  · exact h.fail expected

theorem arraySuffix : Respected rel arraySuffix :=
  h.seq (h.eat _) fun _ => ite (h.seq (h.expect _) fun _ => h.yield true) (h.yield false)

theorem operand : Respected rel operand := by
  refine h.seq h.peek fun kind => ?_
  split
  · exact h.seq h.advance fun _ => h.yield _
  · exact h.seq h.advance fun _ => h.yield _
  · exact h.fail _

theorem operands : Respected rel operands := h.separated .pipe h.operand

/-! ## Parts of declarations -/

/-- Reading a parameter is respected. -/
theorem parameter (alone : Bool) : Respected rel (parameter alone) := by
  refine h.seq h.attributes fun as => h.seq h.typed fun found => ?_
  split
  · exact h.seq h.arraySuffix fun _ => h.yield _
  · exact h.seq h.peek fun _ => ite (h.yield none) (h.fail _)

/-- So is reading all parameters. -/
theorem parameters : Respected rel parameters := by
  refine h.seq (h.expect _) fun _ => h.seq h.peek fun _ => ?_
  have hrest : ∀ params : List Variable, Respected rel
      (do Parser.expect (.mark .closeParen); return params) :=
    fun params => h.seq (h.expect _) fun _ => h.yield params
  refine ite (h.seq (h.yield []) hrest) (h.seq (h.parameter true) fun first => ?_)
  cases first with
  | none => exact h.seq (h.yield []) hrest
  | some first =>
    exact h.seq (h.manyAfter .comma (h.parameter false)) fun others =>
      h.seq (h.yield (first :: others)) hrest

/-- So is reading a method. -/
theorem method : Respected rel method :=
  h.seq h.attributes fun _ => h.seq (h.named _) fun _ => h.seq h.parameters fun _ =>
    h.seq (h.expect _) fun _ => h.yield _

/-- Reading a member of an enumeration is respected. -/
theorem member : Respected rel member := by
  refine h.seq (h.identifier _) fun name => h.seq (h.eat _) fun _ => ?_
  have hrest : ∀ value : Option (List String), Respected rel
      (return (⟨name, value⟩ : Member)) := fun value => h.yield _
  exact ite (h.seq (h.map some h.operands) hrest) (h.seq (h.yield none) hrest)

/-- So is reading a field of a struct. -/
theorem field : Respected rel field :=
  h.seq h.attributes fun _ => h.seq (h.named _) fun _ => h.seq h.arraySuffix fun _ =>
    h.seq (h.expect _) fun _ => h.yield _

/-- Reading a further name for a type is respected. -/
theorem typedefOf (typeName : String) (as : List Attribute) :
    Respected rel (typedefOf typeName as) :=
  h.seq h.stars fun _ => h.seq (h.identifier _) fun _ => h.yield _

/-- So is what a tag or a body makes of it. -/
theorem tagged (as : List Attribute) {ofBody : Parser (String → Declaration)}
    (hbody : Respected rel ofBody) : Respected rel (tagged as ofBody) := by
  refine h.seq h.advance fun _ => h.seq h.peek fun kind => ?_
  have hnamed : Respected rel (do
      let make ← ofBody
      let name ← Parser.identifier "typedef name"
      return (make name, name)) :=
    h.seq hbody fun _ => h.seq (h.identifier _) fun _ => h.yield _
  cases kind with
  | identifier text =>
    refine h.seq h.advance fun _ => pureBind (h.seq h.peek fun _ => ite hnamed ?_)
    exact h.seq (h.typedefOf text as) fun _ => h.yield _
  | _ => exact pureBind (h.seq h.peek fun _ => ite hnamed (h.fail _))

/-- Reading a mention of an interface is respected. -/
theorem implemented : Respected rel implemented :=
  h.seq h.attributes fun _ => h.seq (h.expect _) fun _ => h.seq (h.identifier _) fun _ =>
    h.seq (h.expect _) fun _ => h.yield _

/-- Reading a token in the group of a pragma is respected. -/
theorem pragmaToken (depth : Nat) : Respected rel (pragmaToken depth) := by
  refine ite (h.yield none) (h.seq h.peek fun kind => ?_)
  have hrest : ∀ depth : Nat, Respected rel
      (do Parser.advance; return some (kind.text, depth)) :=
    fun depth => h.seq h.advance fun _ => h.yield _
  dsimp only
  split
  · exact h.seq (h.yield _) hrest
  · exact h.seq (h.yield _) hrest
  · exact h.seq (h.fail _) hrest
  · exact h.seq (h.yield _) hrest

/-- Reading the attributes before a declaration is respected. -/
theorem leadingAttributes : Respected rel leadingAttributes :=
  h.ifSees _ _ <| h.seq (h.attributeList false) fun _ => h.seq h.peek fun _ =>
    ite (h.yield _) (h.fail _)

/-- A congruence is respected by ends as well. -/
theorem completion : Completion rel rel positions where
  parts := h
  weaken := id
  bind := h.bind
  map := h.map
  expect _ := h.expect _
  parenthesised := h.manyFrom h.pragmaToken 1
  optionalSemicolon f hpq := h.bind hpq fun a => h.bind (h.discardEat _) fun _ => h.pure (f a)
  emptyImport := h.emptyImport

end Congruence

/-! ## Declarations

Each declaration moves past its keyword before it does anything else. -/

namespace Completion

variable {rel closing : {α : Type} → Parser α → Parser α → Prop}
  {positions : Position → Position → Prop} (h : Completion rel closing positions)

include h

/-- A respected step may come before one that closes. -/
theorem seq {α β : Type} {p : Parser α} {f : α → Parser β} (hp : Respected rel p)
    (hf : ∀ a, Respected closing (f a)) : Respected closing (p >>= f) :=
  h.bind hp hf

/-- The mark that something ends with. -/
theorem lastMark {α : Type} (mark : Mark) (a : α) :
    Respected closing (do Parser.expect (.mark mark); return a) := by
  rw [bind_pure_comp]
  exact h.map (fun _ => a) (h.expect mark)

/-- Members end in a brace. -/
theorem members : Respected closing members := by
  refine h.seq (h.parts.expect _) fun _ => h.seq h.parts.peek fun _ => ?_
  have hrest := fun ms : List Member => h.lastMark .closeBrace ms
  refine Congruence.ite (h.seq (h.parts.yield []) hrest) (h.seq h.parts.member fun first => ?_)
  refine h.seq (h.parts.manyAfter .comma ?_) fun others =>
    h.seq (h.parts.yield (first :: others)) hrest
  exact h.parts.seq h.parts.peek fun _ =>
    Congruence.ite (h.parts.yield none) (h.parts.map some h.parts.member)

/-- So do fields. -/
theorem fields : Respected closing fields :=
  h.seq (h.parts.expect _) fun _ => h.seq (h.parts.manyUntil _ h.parts.field) fun fs =>
    h.lastMark .closeBrace fs

/-- What stands in braces, and the semicolon that may follow. -/
theorem braced {α β : Type} {item item' : Parser α} (make : List α → β) (hitem : rel item item') :
    closing (do
      Parser.expect (.mark .openBrace)
      let items ← Parser.manyUntil (.mark .closeBrace) item
      Parser.expect (.mark .closeBrace)
      discard (Parser.eat (.mark .semicolon))
      return make items) (do
      Parser.expect (.mark .openBrace)
      let items ← Parser.manyUntil (.mark .closeBrace) item'
      Parser.expect (.mark .closeBrace)
      discard (Parser.eat (.mark .semicolon))
      return make items) :=
  h.bind (h.parts.expect _) fun _ => h.bind (h.parts.manyUntil _ hitem) fun items =>
    h.optionalSemicolon (fun _ => make items) (h.expect .closeBrace)

/-- An interface steps past its keyword, and closes. -/
theorem interface (as : List Attribute) :
    Stepping closing (interface as) (Parser.interface as) := by
  refine Stepping.of_eq rfl rfl ?_
  refine h.seq (h.parts.identifier _) fun name => h.seq (h.parts.eat _) fun _ => ?_
  have hrest : ∀ parent : Option String, Respected closing (do
      Parser.expect (.mark .openBrace)
      let methods ← Parser.manyUntil (.mark .closeBrace) method
      Parser.expect (.mark .closeBrace)
      discard (Parser.eat (.mark .semicolon))
      return Declaration.interface ⟨name, parent, as, methods⟩) :=
    fun parent => h.braced (fun methods => Declaration.interface ⟨name, parent, as, methods⟩)
      h.parts.method
  exact Congruence.ite (h.seq (h.parts.map some (h.parts.identifier _)) hrest)
    (h.seq (h.parts.yield none) hrest)

/-- So does an enumeration. -/
theorem enumeration (as : List Attribute) :
    Stepping closing (enumeration as) (Parser.enumeration as) :=
  Stepping.of_eq rfl rfl <| h.seq (h.parts.identifier _) fun name =>
    h.optionalSemicolon (fun ms => Declaration.enumeration ⟨name, as, ms⟩) h.members

/-- So does a struct. -/
theorem record (as : List Attribute) : Stepping closing (record as) (Parser.record as) :=
  Stepping.of_eq rfl rfl <| h.seq (h.parts.identifier _) fun name =>
    h.optionalSemicolon (fun fs => Declaration.record ⟨name, as, fs⟩) h.fields

/-- So does a statement that gives names to a type. -/
theorem typedefs : Stepping closing typedefs Parser.typedefs := by
  refine Stepping.of_eq rfl rfl ?_
  refine h.seq h.parts.attributes fun as => h.seq h.parts.peek fun kind => ?_
  have hrest : ∀ found : Declaration × String, Respected closing (do
      let others ← Parser.many do
        if ← Parser.eat (.mark .comma) then some <$> typedefOf found.2 as
        else return none
      Parser.expect (.mark .semicolon)
      return found.1 :: others) :=
    fun found => h.seq (h.parts.manyAfter .comma (h.parts.map some (h.parts.typedefOf found.2 as)))
      fun others => h.lastMark .semicolon (found.1 :: others)
  have hbody : ∀ {β : Type} {body : Parser β} (f : β → String → Declaration),
      Respected closing body → Respected rel (do let b ← body; return f b) :=
    fun f hbody => h.parts.seq (h.weaken hbody) fun b => h.parts.yield (f b)
  dsimp only
  split
  · exact h.seq (h.parts.tagged as (hbody _ h.members)) hrest
  · exact h.seq (h.parts.tagged as (hbody _ h.fields)) hrest
  · exact h.seq (h.parts.named _) fun _ => h.seq (h.parts.yield (_, _)) hrest

/-- So does a component class. -/
theorem coclass (as : List Attribute) : Stepping closing (coclass as) (Parser.coclass as) :=
  Stepping.of_eq rfl rfl <| h.seq (h.parts.identifier _) fun name =>
    h.braced (fun interfaces => Declaration.coclass ⟨name, as, interfaces⟩) h.parts.implemented

/-- So does a reference to a type library. -/
theorem importLibrary : Stepping closing importLibrary Parser.importLibrary := by
  refine Stepping.of_eq rfl rfl (h.seq (h.parts.eat _) fun _ => ?_)
  have hrest := fun file => h.lastMark .semicolon (Declaration.importLibrary file)
  refine Congruence.ite ?_ (h.seq (h.parts.string _) hrest)
  exact h.seq (h.parts.string _) fun file => h.seq (h.parts.expect _) fun _ =>
    h.seq (h.parts.yield file) hrest

/-- So does a constant. -/
theorem constant : Stepping closing constant Parser.constant := by
  refine Stepping.of_eq rfl rfl (h.seq (h.parts.named _) fun found => ?_)
  refine h.seq (h.parts.expect _) fun _ => h.seq h.parts.peek fun kind => ?_
  have hrest := fun value =>
    h.lastMark .semicolon (Declaration.constant ⟨found.2, found.1.suffixed, value⟩)
  cases kind with
  | string text =>
    exact h.seq h.parts.advance fun _ => h.seq (h.parts.yield (ConstantValue.text text)) hrest
  | _ => exact h.seq (h.parts.map ConstantValue.operands h.parts.operands) hrest

/-- So does a quoted text. -/
theorem cppQuote : Stepping closing cppQuote Parser.cppQuote :=
  Stepping.of_eq rfl rfl <| h.seq (h.parts.expect _) fun _ => h.seq (h.parts.string _) fun text =>
    h.optionalSemicolon (fun _ => Declaration.directive .cppQuote text) (h.expect .closeParen)

/-- So does a pragma. -/
theorem pragma : Stepping closing pragma Parser.pragma := by
  refine Stepping.of_eq rfl rfl (h.seq (h.parts.identifier _) fun name => ?_)
  refine h.seq h.parts.peek fun _ => ?_
  have hrest : Respected closing (do
      Parser.advance
      let inside ← Parser.manyFrom pragmaToken 1
      discard (Parser.eat (.mark .semicolon))
      return Declaration.directive .midlPragma (" ".intercalate (name :: "(" :: inside))) :=
    h.seq h.parts.advance fun _ => h.optionalSemicolon (fun inside =>
      Declaration.directive .midlPragma (" ".intercalate (name :: "(" :: inside))) h.parenthesised
  exact Congruence.ite (h.seq (h.parts.fail _) fun _ => hrest) hrest

/-- Libraries and modules hold declarations, which may be read by different parsers on the two
sides. -/
theorem group {inner inner' : Parser (List Declaration)} (hinner : rel inner inner')
    (kind : GroupKind) (as : List Attribute) :
    Stepping closing (group inner kind as) (Parser.group inner' kind as) :=
  Stepping.of_eq rfl rfl <| h.bind (h.parts.identifier _) fun name =>
    h.braced (fun body => Declaration.group kind name as body.flatten) hinner

/-- An import statement looks where it stands before it steps past its keyword. -/
theorem importFiles :
    Moving closing positions (List.singleton <$> importFiles)
      (List.singleton <$> Parser.importFiles) := by
  have hsplit : List.singleton <$> Parser.importFiles =
      (do let t ← current; advance; List.singleton <$> importRest t.position) := by
    simp only [← map_bind]
    rfl
  refine ⟨fun pos => List.singleton <$> importRest pos,
    fun pos => List.singleton <$> importRest pos, hsplit, hsplit, fun pos pos' hpos => h.map _ ?_⟩
  refine h.bind h.parts.peek fun kind => ?_
  cases kind with
  | string text =>
    exact h.seq (h.parts.separated .comma (h.parts.string _)) fun files =>
      h.lastMark .semicolon (Declaration.imports files)
  | _ => exact h.emptyImport hpos

/-- A declaration that steps makes a statement that does. -/
theorem single {p q : Parser Declaration} (hpq : Stepping closing p q) :
    Stepping closing (List.singleton <$> p) (List.singleton <$> q) := by
  obtain ⟨f, g, rfl, rfl, hfg⟩ := hpq
  refine ⟨List.singleton <$> f, List.singleton <$> g, ?_, ?_, h.map _ hfg⟩
  · simp only [map_bind]
  · simp only [map_bind]

/-- With each token, both sides read an import statement, both read another declaration, or both
refuse the token. -/
theorem chosen_steps {inner inner' : Parser (List Declaration)} (hinner : rel inner inner')
    (nested : Bool) (as : List Attribute) :
    ∃ f g, chosen inner nested as = (peek >>= f) ∧ chosen inner' nested as = (peek >>= g) ∧
      ∀ kind, (kind = .keyword .importFiles ∧ f kind = List.singleton <$> Parser.importFiles ∧
          g kind = List.singleton <$> Parser.importFiles) ∨
        Stepping closing (f kind) (g kind) ∨
        f kind = unexpected "a declaration" ∧ g kind = unexpected "a declaration" := by
  refine ⟨_, _, rfl, rfl, fun kind => ?_⟩
  cases kind with
  | keyword word =>
    cases word with
    | importFiles => exact .inl ⟨rfl, rfl, rfl⟩
    | interface => exact .inr (.inl (h.single (h.interface as)))
    | coclass => exact .inr (.inl (h.single (h.coclass as)))
    | library => exact .inr (.inl (h.single (h.group hinner _ as)))
    | module => exact .inr (.inl (h.single (h.group hinner _ as)))
    | enum => exact .inr (.inl (h.single (h.enumeration as)))
    | struct => exact .inr (.inl (h.single (h.record as)))
    | typedef => exact .inr (.inl h.typedefs)
    | cppQuote => exact .inr (.inl (h.single h.cppQuote))
    | midlPragma => exact .inr (.inl (h.single h.pragma))
    | importLibrary =>
      cases nested with
      | true => exact .inr (.inl (h.single h.importLibrary))
      | false => exact .inr (.inr ⟨rfl, rfl⟩)
    | const =>
      cases nested with
      | true => exact .inr (.inl (h.single h.constant))
      | false => exact .inr (.inr ⟨rfl, rfl⟩)
    | _ => exact .inr (.inr ⟨rfl, rfl⟩)
  | _ => exact .inr (.inr ⟨rfl, rfl⟩)

/-- With each token, both sides read a declaration from there or both refuse it. -/
theorem chosen_cases {inner inner' : Parser (List Declaration)} (hinner : rel inner inner')
    (nested : Bool) (as : List Attribute) :
    ∃ f g, chosen inner nested as = (peek >>= f) ∧ chosen inner' nested as = (peek >>= g) ∧
      ∀ kind, Moving closing positions (f kind) (g kind) ∨
        f kind = unexpected "a declaration" ∧ g kind = unexpected "a declaration" := by
  obtain ⟨f, g, hf, hg, hfg⟩ := h.chosen_steps hinner nested as
  refine ⟨f, g, hf, hg, fun kind => ?_⟩
  obtain ⟨-, hf, hg⟩ | hstep | hrefused := hfg kind
  · rw [hf, hg]
    exact .inl h.importFiles
  · exact .inl hstep.moving
  · exact .inr hrefused

end Completion

end Midl.Parser
