import Midl.Proofs.Taking

/-!
# Brackets match

Every production closes the brackets it opens before it comes to its end. `Settles` says so of a
parser, and of the rest of a production it says which brackets are still to be closed. So a
production is gone through from its first token to its last, and a bracket is pending from where it
is opened to where it is closed.

Pragmas count by hand how many parentheses are open. `Rounds` follows the count, whatever the tokens
are and whether they come to a good end or not.
-/

namespace Midl

namespace Parser

/-! ## What productions close -/

/-- A parser closes what is pending, and everything else it opens. -/
def Settles (pending : List Mark) (p : Parser α) : Prop :=
  Takes p fun _ taken => Settled pending taken

/-- A parser does so where the current token is of the given kind. -/
def SettlesAt (kind : TokenKind) (pending : List Mark) (p : Parser α) : Prop :=
  ∀ s a s', s.current.kind = kind → p s = .ok a s' →
    ∃ taken, s.kinds = taken ++ s'.kinds ∧ Settled pending taken

section Settles

variable {pending : List Mark} {p q : Parser α} {f : α → Parser β} {left right : Mark}
  {kind : TokenKind}

/-- What is settled at any token is settled at this one. -/
theorem Settles.at (h : Settles pending p) : SettlesAt kind pending p :=
  fun s a s' _ hrun => h s a s' hrun

/-- Tokens that close what they open can be put together, and into brackets. -/
theorem settled : Gathers (fun _ => True) (Settled []) where
  nil := .nil
  append := Settled.append
  neutral hkind := .neutral hkind .nil
  enclosed {left right ks} _ hpair h := by
    have hright : right.isBracket = true := by
      cases left <;> cases hpair <;> rfl
    exact .opening hpair (h.append (.closing hright .nil))

/-- A result alone settles nothing. -/
theorem Settles.pure (a : α) : Settles [] (pure a) := settled.pure a

/-- A parser that fails settles anything. -/
theorem Settles.unexpected (expected : String) :
    Settles pending (unexpected expected : Parser α) :=
  Spends.unexpected expected

/-- What the first step opens it settles; what is pending is left to the second. -/
theorem SettlesAt.bind (h : SettlesAt kind [] p) (h' : ∀ a, Settles pending (f a)) :
    SettlesAt kind pending (p >>= f) := by
  intro s b s'' hkind hrun
  obtain ⟨a, s', hp, hf⟩ := ok_of_bind hrun
  obtain ⟨taken, htaken, hsettled⟩ := h s a s' hkind hp
  obtain ⟨more, hmore, hsettled'⟩ := h' a s' b s'' hf
  exact ⟨taken ++ more, by rw [htaken, hmore, List.append_assoc], hsettled.append hsettled'⟩

/-- So it is wherever the first step starts. -/
theorem Settles.bind (h : Settles [] p) (h' : ∀ a, Settles pending (f a)) :
    Settles pending (p >>= f) :=
  fun s b s'' hrun => SettlesAt.bind h.at h' s b s'' rfl hrun

/-- A result may be changed on the way. -/
theorem Settles.map (g : α → β) (h : Settles [] p) : Settles [] (g <$> p) := settled.map g h

/-- A step that only gives a result can be left out. -/
theorem Settles.pureBind {a : α} (h : Settles pending (f a)) :
    Settles pending (Pure.pure a >>= f) :=
  Spends.pureBind h

/-- Both branches settle what is pending. -/
theorem Settles.ite {c : Prop} [Decidable c] (h : Settles pending p) (h' : Settles pending q) :
    Settles pending (if c then p else q) :=
  Spends.ite h h'

/-- What is done depends on the current token. -/
theorem Settles.peek {g : TokenKind → Parser α} (h : ∀ kind, SettlesAt kind pending (g kind)) :
    Settles pending (peek >>= g) :=
  fun s a s' hrun => h s.current.kind s a s' rfl hrun

/-- A neutral token leaves nothing to settle. -/
theorem SettlesAt.advance (hkind : kind.isNeutral = true) : SettlesAt kind [] advance :=
  settled.advance hkind

theorem Settles.expect (hkind : kind.isNeutral = true) : Settles [] (expect kind) :=
  settled.expect hkind

/-- A bracket that has to be there is pending once it is opened. -/
theorem Settles.expectOpening {next : Unit → Parser β} (hpair : left.closing? = some right)
    (h : ∀ u, Settles (right :: pending) (next u)) :
    Settles pending (Parser.expect (.mark left) >>= next) := by
  intro s b s'' hrun
  obtain ⟨_, s', hexpect, hnext⟩ := ok_of_bind hrun
  obtain ⟨taken, htaken, hsettled⟩ := h () s' b s'' hnext
  refine ⟨.mark left :: taken, ?_, hsettled.opening hpair⟩
  rw [kinds_of_expect (by simp) hexpect, htaken, List.cons_append]

/-- It is no longer pending once it is closed. -/
theorem Settles.expectClosing {next : Unit → Parser β} (hright : right.isBracket = true)
    (h : ∀ u, Settles pending (next u)) :
    Settles (right :: pending) (Parser.expect (.mark right) >>= next) := by
  intro s b s'' hrun
  obtain ⟨_, s', hexpect, hnext⟩ := ok_of_bind hrun
  obtain ⟨taken, htaken, hsettled⟩ := h () s' b s'' hnext
  refine ⟨.mark right :: taken, ?_, hsettled.closing hright⟩
  rw [kinds_of_expect (by simp) hexpect, htaken, List.cons_append]

/-- A bracket may be opened or not. -/
theorem Settles.eatOpening (hpair : left.closing? = some right)
    (h : Settles (right :: pending) p) (h' : Settles pending q) :
    Settles pending (Parser.eat (.mark left) >>= fun found => if found = true then p else q) := by
  intro s a s'' hrun
  obtain ⟨found, s', heat, hnext⟩ := ok_of_bind hrun
  obtain ⟨rfl, hkinds⟩ | ⟨rfl, rfl⟩ := kinds_of_eat (by simp) heat
  · obtain ⟨taken, htaken, hsettled⟩ := h s' a s'' hnext
    refine ⟨.mark left :: taken, ?_, hsettled.opening hpair⟩
    rw [hkinds, htaken, List.cons_append]
  · exact h' s' a s'' hnext

theorem Settles.manyUntil {item : Parser α} (kind : TokenKind) (h : Settles [] item) :
    Settles [] (manyUntil kind item) :=
  settled.manyUntil kind h

theorem Settles.manyAfter {item : Parser (Option α)} {separator : Mark}
    (hseparator : (TokenKind.mark separator).isNeutral = true) (h : Settles [] item) :
    Settles [] (Parser.many do if ← Parser.eat (.mark separator) then item else return none) :=
  settled.manyAfter hseparator h

theorem Settles.identifier (expected : String) : Settles [] (identifier expected) :=
  settled.identifier expected

theorem Settles.string (expected : String) : Settles [] (string expected) :=
  settled.string expected

theorem Settles.discardEat (hkind : kind.isNeutral = true) :
    Settles [] (discard (Parser.eat kind)) :=
  settled.discardEat hkind

end Settles

/-! ## Parts of declarations -/

/-- Attributes settle their brackets. -/
theorem settles_attributes : Settles [] attributes := settled.attributes trivial trivial

/-- A type with its name has none. -/
theorem settles_named (expected : String) : Settles [] (named expected) := settled.named expected

/-- A parameter settles the brackets of its attributes and of its array. -/
theorem settles_parameter (alone : Bool) : Settles [] (parameter alone) := by
  refine settles_attributes.bind fun as => settled.bind settled.typed fun found => ?_
  split
  · exact settled.bind (settled.arraySuffix trivial) fun _ => settled.pure _
  · exact .peek fun _ => (Settles.ite (.pure none) (.unexpected _)).at

/-- Parameters settle their parentheses. -/
theorem settles_parameters : Settles [] parameters := by
  refine .expectOpening rfl fun _ => .peek fun _ => Settles.at ?_
  have hrest : ∀ params : List Variable,
      Settles [.closeParen] (do expect (.mark .closeParen); return params) :=
    fun params => .expectClosing rfl fun _ => .pure params
  refine .ite (.pureBind (hrest [])) ((settles_parameter true).bind fun first => ?_)
  cases first with
  | none => exact .pureBind (hrest [])
  | some first =>
    exact (Settles.manyAfter rfl (settles_parameter false)).bind fun others =>
      .pureBind (hrest (first :: others))

/-- So does a method. -/
theorem settles_method : Settles [] method :=
  settles_attributes.bind fun _ => (settles_named _).bind fun _ => settles_parameters.bind fun _ =>
    (Settles.expect rfl).bind fun _ => .pure _

/-- Members settle their braces. -/
theorem settles_members : Settles [] members := by
  rw [members_eq]
  exact settled.between trivial rfl settled.membersInside

/-- So do fields. -/
theorem settles_fields : Settles [] fields :=
  settled.between trivial rfl (settled.manyUntil _ (settled.field trivial trivial))

/-- A further name for a type has no brackets. -/
theorem settles_typedefOf (typeName : String) (as : List Attribute) :
    Settles [] (typedefOf typeName as) :=
  settled.typedefOf typeName as

/-- What a tag or a body makes of it settles what the body does. -/
theorem settles_tagged {kind : TokenKind} (hkind : kind.isNeutral = true) (as : List Attribute)
    {ofBody : Parser (String → Declaration)} (hbody : Settles [] ofBody) :
    SettlesAt kind [] (tagged as ofBody) := by
  refine (SettlesAt.advance hkind).bind fun _ => .peek fun kind => ?_
  have hnamed : Settles [] (do
      let make ← ofBody
      let name ← identifier "typedef name"
      return (make name, name)) :=
    hbody.bind fun _ => (Settles.identifier _).bind fun _ => .pure _
  cases kind with
  | identifier text =>
    refine (SettlesAt.advance rfl).bind fun _ => .pureBind (.peek fun _ => Settles.at ?_)
    exact .ite hnamed ((settles_typedefOf text as).bind fun _ => .pure _)
  | _ => exact (Settles.pureBind (.peek fun _ => (Settles.ite hnamed (.unexpected _)).at)).at

/-- A mention of an interface settles the brackets of its attributes. -/
theorem settles_implemented : Settles [] implemented :=
  settles_attributes.bind fun _ => (Settles.expect rfl).bind fun _ =>
    (Settles.identifier _).bind fun _ => (Settles.expect rfl).bind fun _ => .pure _

/-- Attributes before a declaration settle their brackets. -/
theorem settles_leadingAttributes : Settles [] leadingAttributes :=
  settled.ifSees _ <| settled.bind (settled.attributeList trivial trivial false) fun _ =>
    .peek fun _ => (Spends.ite (settled.pure _) (.unexpected _)).at

/-- What stands in braces, and the semicolon that may follow. -/
theorem settles_braced {item : Parser α} (make : List α → β) (h : Settles [] item) :
    Settles [] (do
      expect (.mark .openBrace)
      let items ← manyUntil (.mark .closeBrace) item
      expect (.mark .closeBrace)
      discard (eat (.mark .semicolon))
      return make items) :=
  .expectOpening rfl fun _ => (Settles.manyUntil _ h).bind fun _ => .expectClosing rfl fun _ =>
    (Settles.discardEat rfl).bind fun _ => .pure _

/-! ## Declarations -/

/-- An import statement has no brackets. -/
theorem settles_importFiles : SettlesAt (.keyword .importFiles) [] importFiles := by
  intro s d s' hkind hrun
  have hrun : (do advance; importRest s.current.position : Parser Declaration) s = .ok d s' := hrun
  refine SettlesAt.bind (.advance rfl) (fun _ => .peek fun kind => ?_) s d s' hkind hrun
  cases kind with
  | string text =>
    refine (Settles.bind (settled.separated rfl (settled.string _)) fun _ => ?_).at
    exact (Settles.expect rfl).bind fun _ => .pure _
  | _ => exact fun _ _ _ _ hrun => nomatch hrun

/-- An interface settles its braces and all in them. -/
theorem settles_interface (as : List Attribute) :
    SettlesAt (.keyword .interface) [] (interface as) := by
  refine (SettlesAt.advance rfl).bind fun _ => (Settles.identifier _).bind fun name =>
    Settles.bind (settled.eat rfl) fun _ => ?_
  have hrest : ∀ parent : Option String, Settles [] (do
      expect (.mark .openBrace)
      let methods ← manyUntil (.mark .closeBrace) method
      expect (.mark .closeBrace)
      discard (eat (.mark .semicolon))
      return Declaration.interface ⟨name, parent, as, methods⟩) :=
    fun parent => settles_braced (fun methods => Declaration.interface ⟨name, parent, as, methods⟩)
      settles_method
  exact .ite (((Settles.identifier _).map some).bind hrest) (.pureBind (hrest none))

/-- So does an enumeration. -/
theorem settles_enumeration (as : List Attribute) :
    SettlesAt (.keyword .enum) [] (enumeration as) :=
  (SettlesAt.advance rfl).bind fun _ => (Settles.identifier _).bind fun _ =>
    settles_members.bind fun _ => (Settles.discardEat rfl).bind fun _ => .pure _

/-- So does a struct. -/
theorem settles_record (as : List Attribute) : SettlesAt (.keyword .struct) [] (record as) :=
  (SettlesAt.advance rfl).bind fun _ => (Settles.identifier _).bind fun _ =>
    settles_fields.bind fun _ => (Settles.discardEat rfl).bind fun _ => .pure _

/-- So does a statement that gives names to a type. -/
theorem settles_typedefs : SettlesAt (.keyword .typedef) [] typedefs := by
  refine (SettlesAt.advance rfl).bind fun _ => settles_attributes.bind fun as =>
    .peek fun kind => ?_
  have hrest : ∀ found : Declaration × String, Settles [] (do
      let others ← many do
        if ← eat (.mark .comma) then some <$> typedefOf found.2 as
        else return none
      expect (.mark .semicolon)
      return found.1 :: others) :=
    fun found => (Settles.manyAfter rfl ((settles_typedefOf found.2 as).map some)).bind
      fun others => (Settles.expect rfl).bind fun _ => .pure (found.1 :: others)
  dsimp only
  split
  · exact (settles_tagged rfl as (settles_members.bind fun _ => .pure _)).bind hrest
  · exact (settles_tagged rfl as (settles_fields.bind fun _ => .pure _)).bind hrest
  · exact ((settles_named _).bind fun _ => .pureBind (hrest (_, _))).at

/-- So does a component class. -/
theorem settles_coclass (as : List Attribute) : SettlesAt (.keyword .coclass) [] (coclass as) :=
  (SettlesAt.advance rfl).bind fun _ => (Settles.identifier _).bind fun name =>
    settles_braced (fun interfaces => Declaration.coclass ⟨name, as, interfaces⟩)
      settles_implemented

/-- A reference to a type library settles its parentheses, if it has them. -/
theorem settles_importLibrary : SettlesAt (.keyword .importLibrary) [] importLibrary := by
  have hrest : ∀ file, Settles [] (do
      expect (.mark .semicolon)
      return Declaration.importLibrary file) :=
    fun file => (Settles.expect rfl).bind fun _ => .pure _
  refine (SettlesAt.advance rfl).bind fun _ => .eatOpening rfl ?_ ((Settles.string _).bind hrest)
  exact (Settles.string _).bind fun file => .expectClosing rfl fun _ => .pureBind (hrest file)

/-- A constant has no brackets. -/
theorem settles_constant : SettlesAt (.keyword .const) [] constant := by
  refine (SettlesAt.advance rfl).bind fun _ => (settles_named _).bind fun found =>
    (Settles.expect rfl).bind fun _ => .peek fun kind => ?_
  have hrest : ∀ value, Settles [] (do
      expect (.mark .semicolon)
      return Declaration.constant ⟨found.2, found.1.suffixed, value⟩) :=
    fun value => (Settles.expect rfl).bind fun _ => .pure _
  cases kind with
  | string text =>
    exact (SettlesAt.advance rfl).bind fun _ => .pureBind (hrest (ConstantValue.text text))
  | _ => exact (Settles.bind (settled.map ConstantValue.operands settled.operands) hrest).at

/-- A quoted text settles its parentheses. -/
theorem settles_cppQuote : SettlesAt (.keyword .cppQuote) [] cppQuote :=
  (SettlesAt.advance rfl).bind fun _ => .expectOpening rfl fun _ => (Settles.string _).bind fun _ =>
    .expectClosing rfl fun _ => (Settles.discardEat rfl).bind fun _ => .pure _

/-- A library or module settles its braces, if what it holds settles its own. -/
theorem settles_group {inner : Parser (List Declaration)} (hinner : Settles [] inner)
    {keyword : TokenKind} (hkeyword : keyword.isNeutral = true) (kind : GroupKind)
    (as : List Attribute) : SettlesAt keyword [] (group inner kind as) :=
  (SettlesAt.advance hkeyword).bind fun _ => (Settles.identifier _).bind fun name =>
    settles_braced (fun body => Declaration.group kind name as body.flatten) hinner

/-- A pragma settles the brackets around its group, which counts as a whole. -/
theorem settles_pragma : SettlesAt (.keyword .midlPragma) [] pragma := by
  intro s d s' hkind hrun
  obtain ⟨name, inside, s₁, hkinds, hcloses, -, hsemicolon⟩ := pragma_cases hkind hrun
  obtain ⟨gap, hgap, hsettled⟩ := Settles.discardEat rfl s₁ _ _ hsemicolon
  have hpragma := Settled.pragma name hcloses
  refine ⟨(Portion.pragma name inside).kinds ++ gap, ?_, hpragma.append hsettled⟩
  rw [hkinds, hgap]
  simp [Portion.kinds]

/-- A declaration settles as a statement what it settles by itself. -/
theorem SettlesAt.single {kind : TokenKind} {p : Parser Declaration} (h : SettlesAt kind [] p) :
    SettlesAt kind [] (List.singleton <$> p) := by
  rw [← bind_pure_comp]
  exact h.bind fun d => .pure [d]

/-- Every declaration settles its brackets. -/
theorem settles_chosen {inner : Parser (List Declaration)} (hinner : Settles [] inner)
    (nested : Bool) (as : List Attribute) : Settles [] (chosen inner nested as) := by
  refine .peek fun kind => ?_
  split
  · exact settles_importFiles.single
  · exact (settles_interface as).single
  · exact (settles_coclass as).single
  · exact (settles_group hinner rfl .library as).single
  · exact (settles_group hinner rfl .module as).single
  · exact (settles_enumeration as).single
  · exact (settles_record as).single
  · exact settles_typedefs
  · exact settles_cppQuote.single
  · exact settles_pragma.single
  · split
    · exact settles_importLibrary.single
    · exact (Settles.unexpected _).at
  · split
    · exact settles_constant.single
    · exact (Settles.unexpected _).at
  · exact (Settles.unexpected _).at

/-- Recording events settles nothing. -/
theorem Settles.note (events : List Event) : Settles [] (note events) := by
  intro s _ s' hrun
  obtain ⟨-, rfl⟩ := EStateM.Result.ok.inj hrun
  exact ⟨[], rfl, .nil⟩

/-- Every statement settles its brackets, those of its attributes among them. -/
theorem settles_declaration (depth : Nat) (nested : Bool) :
    Settles [] (declaration depth nested) := by
  induction depth generalizing nested with
  | zero => exact .unexpected _
  | succ depth ih =>
    exact settles_leadingAttributes.bind fun as => (settles_chosen (ih true) nested as).bind
      fun ds => (Settles.note _).bind fun _ => .pure ds

/-! ## Counting parentheses -/

/-- The rounds in which a group is read, from the state after the parenthesis that opens it. They
are described by the tokens taken so far, how many parentheses are open as far as has been counted,
and the state that has been reached. -/
inductive Rounds (start : State) : List TokenKind → Nat → State → Prop
  | start : Rounds start [] 1 start
  | next {taken : List TokenKind} {depth depth' : Nat} {s s' : State} {text : String}
      (h : Rounds start taken depth s)
      (hround : pragmaToken depth s = .ok (some (text, depth')) s') :
      Rounds start (taken ++ [s.current.kind]) depth' s'

section Rounds

variable {start s : State} {taken : List TokenKind} {depth : Nat}

/-- A round is only begun while a parenthesis is open, and counts its token right. -/
theorem pragmaToken_counts {depth' : Nat} {text : String} {s' : State}
    (h : pragmaToken depth s = .ok (some (text, depth')) s') :
    1 ≤ depth ∧ (depth' : Int) = depth + TokenKind.balance [s.current.kind] := by
  obtain ⟨-, hnone, -⟩ | ⟨hdepth, t, htokens, hsome⟩ := pragmaToken_cases h
  · cases hnone
  · obtain ⟨-, rfl⟩ := Prod.mk.inj (Option.some.inj hsome)
    obtain ⟨depth, rfl⟩ := Nat.exists_eq_add_one_of_ne_zero (Nat.ne_of_gt hdepth)
    rw [State.current_of_cons htokens]
    exact ⟨hdepth, TokenKind.openAfter_eq t.kind depth⟩

/-- The count is right after every round, and a parenthesis is open before every token. -/
theorem Rounds.counts (h : Rounds start taken depth s) :
    (depth : Int) = 1 + TokenKind.balance taken ∧
      ∀ before kind after, taken = before ++ kind :: after → 1 ≤ 1 + TokenKind.balance before := by
  induction h with
  | start => simp [TokenKind.balance]
  | @next taken depth depth' s s' text _ hround ih =>
    obtain ⟨hcount, hbefore⟩ := ih
    obtain ⟨hdepth, hcount'⟩ := pragmaToken_counts hround
    refine ⟨by rw [TokenKind.balance_append]; omega, fun before kind after htaken => ?_⟩
    rcases List.eq_nil_or_concat after with rfl | ⟨after, last, rfl⟩
    · rw [← List.append_inj_left' htaken rfl]
      omega
    · rw [List.concat_eq_append, ← List.cons_append, ← List.append_assoc] at htaken
      exact hbefore before kind after (List.append_inj_left' htaken rfl)

/-- Whatever comes of reading a group comes of its last round: no parenthesis is open any more, or
the round has failed. -/
theorem Rounds.manyFrom (h : Rounds start taken depth s) :
    ∃ taken depth' s₁, Rounds start taken depth' s₁ ∧
      match Parser.manyFrom pragmaToken depth s with
      | .ok _ s' => depth' = 0 ∧ s' = s₁
      | .error error s' => pragmaToken depth' s₁ = .error error s' := by
  induction hn : s.left using Nat.strongRecOn generalizing s taken depth with
  | ind n ih =>
    cases hrun : pragmaToken depth s with
    | error error s' =>
      rw [manyFrom_of_error hrun]
      exact ⟨taken, depth, s, h, hrun⟩
    | ok found s' =>
      obtain ⟨rfl, rfl, rfl⟩ | ⟨-, t, htokens, rfl⟩ := pragmaToken_cases hrun
      · rw [manyFrom_of_none hrun]
        exact ⟨taken, 0, s', h, rfl, rfl⟩
      · have hless : s'.left < s.left := by
          rw [s'.left_eq, s.left_eq, htokens]
          exact Nat.lt_succ_self _
        obtain ⟨taken', depth', s₁, hrounds, hend⟩ := ih s'.left (hn ▸ hless) (h.next hrun) rfl
        refine ⟨taken', depth', s₁, hrounds, ?_⟩
        rw [manyFrom_of_less hrun hless, ← bind_pure_comp]
        cases hrest : Parser.manyFrom pragmaToken (t.kind.openAfter depth) s' with
        | error error s'' =>
          rw [bind_of_error hrest]
          rwa [hrest] at hend
        | ok texts s'' =>
          rw [bind_of_ok hrest]
          rwa [hrest] at hend

end Rounds

end Parser

namespace Source

/-- In a source that can be read, brackets match: its tokens fall into pragmas and other tokens in
one way, and the brackets outside the groups of pragmas together with the parentheses inside them
make up a well-nested word. In each group the parentheses match by themselves, with at least one
open before every token (`Portion.Proper`).

Whatever the input is, the number of open parentheses is counted right while a group is read: it is
never brought below zero, since it is at least one wherever it is lowered. -/
theorem brackets_match (source : Source) :
    (∀ ds, source.parse = .ok ds →
      ∃ portions, Splits (source.tokens.tokens.map Token.kind) portions ∧
        (∀ others, Splits (source.tokens.tokens.map Token.kind) others → others = portions) ∧
        Mark.WellNested (portions.flatMap Portion.brackets)) ∧
    ∀ start : Parser.State,
      (∀ taken depth s, Parser.Rounds start taken depth s →
        (depth : Int) = 1 + TokenKind.balance taken ∧
        ∀ before after, taken = before ++ .mark .closeParen :: after →
          1 ≤ 1 + TokenKind.balance before) ∧
      ∃ taken depth s, Parser.Rounds start taken depth s ∧
        match Parser.manyFrom Parser.pragmaToken 1 start with
        | .ok _ s' => depth = 0 ∧ s' = s
        | .error error s' => Parser.pragmaToken depth s = .error error s' := by
  refine ⟨fun ds h => ?_, fun start => ⟨fun taken depth s h => ?_, Parser.Rounds.start.manyFrom⟩⟩
  · obtain ⟨-, -, portions, hsplits, hnested⟩ := taken_of_parse
      (fun depth => Parser.Settles.manyUntil .eof (Parser.settles_declaration depth false)) h
    exact ⟨portions, hsplits, fun others hothers => hothers.unique hsplits, hnested⟩
  · obtain ⟨hcount, hbefore⟩ := h.counts
    exact ⟨hcount, fun before after => hbefore before _ after⟩

/-- A pragma in whose group brackets are out of order, and brackets of all kinds. -/
def unevenGroup : Source :=
  ofText "midl_pragma w([(\x7d)) [local] interface I \x7b T f(T x[]);\x7d"

/-- The portions of it. -/
def unevenPortions : List Portion :=
  .pragma "w" [.mark .openBracket, .mark .openParen, .mark .closeBrace, .mark .closeParen,
      .mark .closeParen] ::
    ([.mark .openBracket, .attributeName .isLocal, .mark .closeBracket, .keyword .interface,
      .identifier "I", .mark .openBrace, .identifier "T", .identifier "f", .mark .openParen,
      .identifier "T", .identifier "x", .mark .openBracket, .mark .closeBracket,
      .mark .closeParen, .mark .semicolon, .mark .closeBrace] : List TokenKind).map .token

/-- A pragma whose group has brackets that do not match. -/
theorem brackets_match_unevenGroup :
    ∃ ds, unevenGroup.parse = .ok ds ∧
      (Declaration.preorder ds).map Declaration.kindWord = ["midl_pragma", "interface"] ∧
      Splits (unevenGroup.tokens.tokens.map Token.kind) unevenPortions ∧
      unevenPortions.flatMap Portion.brackets =
        [.openParen, .openParen, .closeParen, .closeParen, .openBracket, .closeBracket, .openBrace,
          .openParen, .openBracket, .closeBracket, .closeParen, .closeBrace] ∧
      Mark.WellNested (unevenPortions.flatMap Portion.brackets) := by
  have hwords : unevenGroup.parse.toOption.map
      (fun ds => (Declaration.preorder ds).map Declaration.kindWord) =
        some ["midl_pragma", "interface"] := by
    decide +kernel
  have hkinds : unevenGroup.tokens.tokens.map Token.kind =
      unevenPortions.flatMap Portion.kinds := by
    decide +kernel
  have hsplits : Splits (unevenGroup.tokens.tokens.map Token.kind) unevenPortions :=
    ⟨hkinds, by simpa [unevenPortions, Portion.Proper] using TokenKind.closesGroup_of_closes rfl⟩
  obtain ⟨ds, h, hds⟩ := Declaration.exists_of_kindWords hwords
  obtain ⟨portions, -, hunique, hnested⟩ := (brackets_match unevenGroup).1 ds h
  exact ⟨ds, h, hds, hsplits, rfl, hunique unevenPortions hsplits ▸ hnested⟩

end Source

end Midl
