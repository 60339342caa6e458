import Midl.Proofs.Brackets
import Midl.Proofs.Provenance

/-!
# What the parts of declarations take

The parts that declarations are made of take tokens that open and close nothing, and brackets with
other tokens between them. So a property of tokens that is kept when these are put together holds of
all the tokens that such a part takes. `Gathers` collects what has to be shown of such a property;
the rest of this module goes through the productions once, for all of them.
-/

namespace Midl.Parser

/-- A parser takes tokens of which a property holds, whatever its result is. -/
def Spends (holds : List TokenKind → Prop) (p : Parser α) : Prop := Takes p fun _ => holds

/-- A parser does so where the current token is of the given kind. -/
def SpendsAt (kind : TokenKind) (holds : List TokenKind → Prop) (p : Parser α) : Prop :=
  ∀ s a s', s.current.kind = kind → p s = .ok a s' →
    ∃ taken, s.kinds = taken ++ s'.kinds ∧ holds taken

/-- A property of tokens that is kept when tokens are put together, or put between the brackets
that `encloses` names. -/
structure Gathers (encloses : Mark → Prop) (holds : List TokenKind → Prop) : Prop where
  nil : holds []
  append : ∀ {ks ls : List TokenKind}, holds ks → holds ls → holds (ks ++ ls)
  neutral : ∀ {kind : TokenKind}, kind.isNeutral = true → holds [kind]
  enclosed : ∀ {left right : Mark} {ks : List TokenKind}, encloses left →
    left.closing? = some right → holds ks → holds (.mark left :: (ks ++ [.mark right]))

/-! ## What stands between two marks -/

/-- What stands between two marks. -/
def between (left right : Mark) (inner : Parser α) : Parser α := do
  expect (.mark left)
  let a ← inner
  expect (.mark right)
  return a

/-- The attributes of a list, without the brackets. -/
def attributesInside (onParameter : Bool) : Parser (List Attribute) := do
  if (← peek) = .mark .closeBracket then return []
  else separated .comma (oneAttribute onParameter)

/-- The members of an enumeration, without the braces. -/
def membersInside : Parser (List Member) := do
  if (← peek) = .mark .closeBrace then return []
  else
    let first ← member
    let others ← many do
      if ← eat (.mark .comma) then
        if (← peek) = .mark .closeBrace then return none
        else some <$> member
      else return none
    return first :: others

/-- An attribute list is what stands between brackets. -/
theorem attributeList_eq (onParameter : Bool) :
    attributeList onParameter =
      between .openBracket .closeBracket (attributesInside onParameter) := by
  unfold attributeList between attributesInside
  rw [bind_assoc]
  refine bind_congr fun _ => bind_congr fun kind => ?_
  split
  · rfl
  · rfl

/-- Members are what stands between braces. -/
theorem members_eq : members = between .openBrace .closeBrace membersInside := by
  unfold members between membersInside
  rw [bind_assoc]
  refine bind_congr fun _ => bind_congr fun kind => ?_
  split
  · rfl
  · simp only [bind_assoc]

/-- So are fields. -/
theorem fields_eq :
    fields = between .openBrace .closeBrace (manyUntil (.mark .closeBrace) field) :=
  rfl

/-! ## Single tokens -/

/-- A token that has to be there is taken. -/
theorem kinds_of_expect {s s' : State} {kind : TokenKind} (hne : kind ≠ .eof)
    (h : expect kind s = .ok () s') : s.kinds = kind :: s'.kinds := by
  unfold expect at h
  rw [peekBind] at h
  split at h
  · rename_i hkind
    rw [kinds_of_advance h (hkind ▸ hne), hkind]
  · cases h

/-- A token is taken if it is there. -/
theorem kinds_of_eat {s s' : State} {kind : TokenKind} {found : Bool} (hne : kind ≠ .eof)
    (h : eat kind s = .ok found s') :
    (found = true ∧ s.kinds = kind :: s'.kinds) ∨ (found = false ∧ s' = s) := by
  unfold eat at h
  rw [peekBind] at h
  split at h
  · rename_i hkind
    obtain ⟨_, s₁, hadvance, h⟩ := ok_of_bind h
    obtain ⟨rfl, rfl⟩ := EStateM.Result.ok.inj h
    exact .inl ⟨rfl, by rw [kinds_of_advance hadvance (hkind ▸ hne), hkind]⟩
  · obtain ⟨rfl, rfl⟩ := EStateM.Result.ok.inj h
    exact .inr ⟨rfl, rfl⟩

section Spends

variable {holds : List TokenKind → Prop} {kind : TokenKind} {p q : Parser α} {f : α → Parser β}

/-- What is spent at any token is spent at this one. -/
theorem Spends.at (h : Spends holds p) : SpendsAt kind holds p :=
  fun s a s' _ hrun => h s a s' hrun

/-- A parser that fails spends nothing. -/
theorem Spends.unexpected (expected : String) :
    Spends holds (unexpected expected : Parser α) :=
  fun _ _ _ hrun => nomatch hrun

/-- It spends nothing whatever would come after it. -/
theorem Spends.unexpectedBind (expected : String) :
    Spends holds (Parser.unexpected expected >>= f) := by
  intro s b s' hrun
  obtain ⟨_, _, hfail, _⟩ := ok_of_bind hrun
  cases hfail

/-- A step that only gives a result can be left out. -/
theorem Spends.pureBind {a : α} (h : Spends holds (f a)) : Spends holds (Pure.pure a >>= f) := by
  rwa [pure_bind]

/-- Both branches spend tokens of which it holds. -/
theorem Spends.ite {c : Prop} [Decidable c] (h : Spends holds p) (h' : Spends holds q) :
    Spends holds (if c then p else q) := by
  split
  · exact h
  · exact h'

/-- What is done depends on the current token. -/
theorem Spends.peek {g : TokenKind → Parser α} (h : ∀ kind, SpendsAt kind holds (g kind)) :
    Spends holds (peek >>= g) :=
  fun s a s' hrun => h s.current.kind s a s' rfl hrun

end Spends

namespace Gathers

variable {encloses : Mark → Prop} {holds : List TokenKind → Prop} (h : Gathers encloses holds)
  {kind : TokenKind} {p q : Parser α} {f : α → Parser β}

include h

/-! ## Putting parsers together -/

/-- A result alone spends nothing. -/
theorem pure (a : α) : Spends holds (pure a) := by
  intro s b s' hrun
  obtain ⟨rfl, rfl⟩ := EStateM.Result.ok.inj hrun
  exact ⟨[], rfl, h.nil⟩

/-- Two steps spend what each of them does, the first at the given token. -/
theorem bindAt (hp : SpendsAt kind holds p) (hf : ∀ a, Spends holds (f a)) :
    SpendsAt kind holds (p >>= f) := by
  intro s b s'' hkind hrun
  obtain ⟨a, s', hp', hf'⟩ := ok_of_bind hrun
  obtain ⟨taken, htaken, hholds⟩ := hp s a s' hkind hp'
  obtain ⟨more, hmore, hholds'⟩ := hf a s' b s'' hf'
  exact ⟨taken ++ more, by rw [htaken, hmore, List.append_assoc], h.append hholds hholds'⟩

/-- Two steps spend what each of them does. -/
theorem bind (hp : Spends holds p) (hf : ∀ a, Spends holds (f a)) : Spends holds (p >>= f) :=
  fun s b s'' hrun => h.bindAt hp.at hf s b s'' rfl hrun

/-- A result may be changed on the way. -/
theorem map (g : α → β) (hp : Spends holds p) : Spends holds (g <$> p) := by
  rw [← bind_pure_comp]
  exact h.bind hp fun a => h.pure (g a)

/-- Moving past a neutral token spends it. -/
theorem advance (hkind : kind.isNeutral = true) : SpendsAt kind holds advance := by
  rintro s a s' rfl hrun
  have hkinds := kinds_of_advance hrun (TokenKind.ne_of_isNeutral hkind).1
  exact ⟨[s.current.kind], hkinds, h.neutral hkind⟩

/-- So does expecting one. -/
theorem expect (hkind : kind.isNeutral = true) : Spends holds (expect kind) := by
  intro s _ s' hrun
  exact ⟨[kind], kinds_of_expect (TokenKind.ne_of_isNeutral hkind).1 hrun, h.neutral hkind⟩

/-- So does taking one if it is there. -/
theorem eat (hkind : kind.isNeutral = true) : Spends holds (eat kind) := by
  intro s found s' hrun
  obtain ⟨-, htaken⟩ | ⟨-, rfl⟩ := kinds_of_eat (TokenKind.ne_of_isNeutral hkind).1 hrun
  · exact ⟨[kind], htaken, h.neutral hkind⟩
  · exact ⟨[], rfl, h.nil⟩

theorem discardEat (hkind : kind.isNeutral = true) :
    Spends holds (discard (Parser.eat kind)) :=
  h.map _ (h.eat hkind)

/-- A name spends an identifier, which is neutral. -/
theorem identifier (expected : String) : Spends holds (identifier expected) := by
  refine .peek fun kind => ?_
  cases kind with
  | identifier text => exact h.bindAt (h.advance rfl) fun _ => h.pure text
  | _ => exact (Spends.unexpected expected).at

/-- A text spends a string, which is neutral. -/
theorem string (expected : String) : Spends holds (string expected) := by
  refine .peek fun kind => ?_
  cases kind with
  | string text => exact h.bindAt (h.advance rfl) fun _ => h.pure text
  | _ => exact (Spends.unexpected expected).at

/-- Repetition, by induction on the number of tokens left. -/
theorem manyFrom {item : σ → Parser (Option (α × σ))}
    (hitem : ∀ carried, Spends holds (item carried)) (carried : σ) :
    Spends holds (manyFrom item carried) := by
  intro s as s' hrun
  induction hn : s.left using Nat.strongRecOn generalizing s as carried with
  | ind n ih =>
    obtain ⟨hround, -⟩ | ⟨a, next, s₁, others, hround, hless, hothers, -⟩ |
      ⟨a, next, hround, -, -⟩ := manyFrom_cases hrun
    · exact hitem carried s _ s' hround
    · obtain ⟨taken, htaken, hholds⟩ := hitem carried s _ s₁ hround
      obtain ⟨more, hmore, hholds'⟩ := ih s₁.left (hn ▸ hless) next s₁ others hothers rfl
      exact ⟨taken ++ more, by rw [htaken, hmore, List.append_assoc], h.append hholds hholds'⟩
    · exact hitem carried s _ s' hround

/-- A step may be repeated. -/
theorem many {item : Parser (Option α)} (hitem : Spends holds item) : Spends holds (many item) :=
  h.manyFrom (fun _ => h.map _ hitem) ()

/-- It may be repeated until a token comes. -/
theorem manyUntil {item : Parser α} (kind : TokenKind) (hitem : Spends holds item) :
    Spends holds (manyUntil kind item) :=
  h.many (.peek fun _ => (Spends.ite (h.pure none) (h.map some hitem)).at)

/-- It may be repeated after a neutral separator. -/
theorem manyAfter {item : Parser (Option α)} {separator : Mark}
    (hseparator : (TokenKind.mark separator).isNeutral = true) (hitem : Spends holds item) :
    Spends holds (Parser.many do if ← Parser.eat (.mark separator) then item else return none) :=
  h.many (h.bind (h.eat hseparator) fun _ => .ite hitem (h.pure none))

/-- Items with neutral separators spend what they do. -/
theorem separated {item : Parser α} {separator : Mark}
    (hseparator : (TokenKind.mark separator).isNeutral = true) (hitem : Spends holds item) :
    Spends holds (separated separator item) :=
  h.bind hitem fun _ => h.bind (h.manyAfter hseparator (h.map some hitem)) fun _ => h.pure _

/-- A step may depend on the token seen. -/
theorem ifSees {absent : α} (kind : TokenKind) (hp : Spends holds p) :
    Spends holds (ifSees kind absent p) :=
  .peek fun _ => (Spends.ite hp (h.pure absent)).at

/-- What comes after a bracket, up to the one that closes it. -/
theorem enclosedAfter {left right : Mark} {g : α → β} {s s₁ s' : State} {b : β}
    (hleft : encloses left) (hpair : left.closing? = some right) (hp : Spends holds p)
    (hopen : s.kinds = .mark left :: s₁.kinds)
    (hrun : (do let a ← p; Parser.expect (.mark right); return g a) s₁ = .ok b s') :
    ∃ taken, s.kinds = taken ++ s'.kinds ∧ holds taken := by
  obtain ⟨_, s₂, hinside, hrun⟩ := ok_of_bind hrun
  obtain ⟨_, s₃, hclose, hrun⟩ := ok_of_bind hrun
  obtain ⟨rfl, rfl⟩ := EStateM.Result.ok.inj hrun
  obtain ⟨taken, htaken, hholds⟩ := hp s₁ _ s₂ hinside
  refine ⟨_, ?_, h.enclosed hleft hpair hholds⟩
  rw [hopen, htaken, kinds_of_expect (by simp) hclose]
  simp

/-- What stands between a pair of brackets is spent with the pair. -/
theorem between {left right : Mark} (hleft : encloses left) (hpair : left.closing? = some right)
    (hp : Spends holds p) : Spends holds (between left right p) := by
  intro s a s' hrun
  obtain ⟨_, s₁, hopen, hrun⟩ := ok_of_bind hrun
  exact h.enclosedAfter (g := id) hleft hpair hp (kinds_of_expect (by simp) hopen) hrun

/-- What stands in brackets may be there or not. -/
theorem eatEnclosed {left right : Mark} {g : α → β} {q : Parser β} (hleft : encloses left)
    (hpair : left.closing? = some right) (hp : Spends holds p) (hq : Spends holds q) :
    Spends holds (Parser.eat (.mark left) >>= fun found =>
      if found = true then (do let a ← p; Parser.expect (.mark right); return g a) else q) := by
  intro s b s' hrun
  obtain ⟨found, s₁, heat, hrest⟩ := ok_of_bind hrun
  obtain ⟨rfl, hkinds⟩ | ⟨rfl, rfl⟩ := kinds_of_eat (by simp) heat
  · exact h.enclosedAfter hleft hpair hp hkinds hrest
  · exact hq s₁ b s' hrest

/-! ## Attributes, types and operands -/

theorem stars : Spends holds stars := h.map _ (h.manyAfter rfl (h.pure (some ())))

/-- The argument of an attribute has no brackets. -/
theorem attributeArgument : Spends holds attributeArgument := by
  refine h.bind h.stars fun depth => .peek fun kind => ?_
  have hrest : ∀ word, SpendsAt kind holds Parser.advance → SpendsAt kind holds
      (do Parser.advance; return String.ofList (List.replicate depth '*') ++ word) :=
    fun word hadvance => h.bindAt hadvance fun _ => h.pure _
  cases kind with
  | identifier text => exact hrest text (h.advance rfl)
  | number text => exact hrest text (h.advance rfl)
  | string text => exact hrest text (h.advance rfl)
  | attributeName kind => exact hrest kind.keyword (h.advance rfl)
  | _ => exact (Spends.unexpectedBind _).at

/-- Neither has a word of a type. -/
theorem word : Spends holds word := by
  refine .peek fun kind => ?_
  split
  · exact h.bindAt (h.advance rfl) fun _ => h.pure _
  · exact h.bindAt (h.advance rfl) fun _ => h.pure _
  · exact h.bindAt (h.advance rfl) fun _ => h.pure _
  · exact (h.pure none).at

/-- Neither has a type with its name. -/
theorem typed : Spends holds typed := by
  refine h.bind (h.many h.word) fun words => ?_
  refine h.bind (h.map List.length (h.manyAfter rfl (h.bind (h.discardEat rfl) fun _ =>
    h.pure (some ())))) fun depth => ?_
  have hrest : ∀ split : List Word × Option String, Spends holds (do
      if split.1.all (· = .const) then Parser.unexpected "a type name"
      return ((⟨" ".intercalate (split.1.map Word.text), depth⟩, split.2) :
        TypeRef × Option String)) :=
    fun split => .ite (.unexpectedBind _) (h.pure _)
  refine .ite (.pureBind (hrest _)) ?_
  exact h.bind (h.identifier _) fun name => .pureBind (hrest (words, some name))

theorem named (expected : String) : Spends holds (named expected) := by
  refine h.bind h.typed fun found => ?_
  split
  · exact h.pure _
  · exact .unexpected expected

theorem operand : Spends holds operand := by
  refine .peek fun kind => ?_
  split
  · exact h.bindAt (h.advance rfl) fun _ => h.pure _
  · exact h.bindAt (h.advance rfl) fun _ => h.pure _
  · exact (Spends.unexpected _).at

theorem operands : Spends holds operands := h.separated rfl h.operand

/-- Neither has a member of an enumeration. -/
theorem member : Spends holds member := by
  refine h.bind (h.identifier _) fun name => h.bind (h.eat rfl) fun _ => ?_
  exact .ite (h.bind (h.map some h.operands) fun _ => h.pure _) (.pureBind (h.pure _))

/-- Neither have members, between their braces. -/
theorem membersInside : Spends holds membersInside := by
  refine .peek fun _ => Spends.at (.ite (h.pure []) (h.bind h.member fun first => ?_))
  refine h.bind (h.manyAfter rfl ?_) fun others => h.pure (first :: others)
  exact .peek fun _ => (Spends.ite (h.pure none) (h.map some h.member)).at

theorem typedefOf (typeName : String) (as : List Attribute) :
    Spends holds (typedefOf typeName as) :=
  h.bind h.stars fun _ => h.bind (h.identifier _) fun _ => h.pure _

section Paren

variable (hparen : encloses .openParen)

include hparen

/-- An attribute has a pair of parentheses around its argument, if it has one. -/
theorem oneAttribute (onParameter : Bool) : Spends holds (oneAttribute onParameter) := by
  refine .peek fun kind => ?_
  cases kind with
  | attributeName kind =>
    dsimp only
    split
    · rw [pure_bind]
      refine h.bindAt (h.advance rfl) fun _ => ?_
      exact h.eatEnclosed (g := fun value => (⟨kind, some value⟩ : Attribute)) hparen rfl
        h.attributeArgument (h.pure _)
    · exact (Spends.unexpectedBind _).at
  | _ => exact (Spends.unexpectedBind _).at

/-- So do attributes, between their brackets. -/
theorem attributesInside (onParameter : Bool) : Spends holds (attributesInside onParameter) :=
  .peek fun _ => Spends.at (.ite (h.pure []) (h.separated rfl (h.oneAttribute hparen onParameter)))

variable (hbracket : encloses .openBracket)

include hbracket

/-- An attribute list is in brackets. -/
theorem attributeList (onParameter : Bool) : Spends holds (attributeList onParameter) := by
  rw [attributeList_eq]
  exact h.between hbracket rfl (h.attributesInside hparen onParameter)

theorem attributes : Spends holds attributes :=
  h.ifSees _ (h.attributeList hparen hbracket true)

omit hparen in
/-- An array has an empty pair of brackets. -/
theorem arraySuffix : Spends holds arraySuffix := by
  have hsuffix := h.eatEnclosed (g := fun _ => true) hbracket rfl (h.pure ()) (h.pure false)
  simp only [pure_bind] at hsuffix
  exact hsuffix

/-- A field has the brackets of its attributes and of its array. -/
theorem field : Spends holds field :=
  h.bind (h.attributes hparen hbracket) fun _ => h.bind (h.named _) fun _ =>
    h.bind (h.arraySuffix hbracket) fun _ => h.bind (h.expect rfl) fun _ => h.pure _

end Paren

end Gathers

end Midl.Parser
