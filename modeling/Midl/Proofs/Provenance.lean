import Midl.Proofs.Online
import Midl.Proofs.Parsed
import Midl.Proofs.Streaming
import Midl.Proofs.Walk

/-!
# Where pragmas come from

A pragma is kept as text, in which its tokens have single spaces between them. `PragmasFrom` tells
which tokens those are: the pragmas of some declarations were read, one after the other, off
stretches of the tokens that do not overlap, each of them next to the keyword before it.

Parsers take tokens from the front of those that are left. So what a sequence takes is what its
parts take, one after the other, and `Takes` says of what is taken how it gave rise to the result.
Only two kinds of declarations have to be looked at: pragmas, and the libraries and modules that may
hold them.
-/

namespace Midl

/-- Tokens with single spaces between them. -/
def TokenKind.spell (kinds : List TokenKind) : String := " ".intercalate (kinds.map text)

/-- Stretches of some tokens, one after the other, with any tokens in between. -/
inductive Stretches : List (List TokenKind) → List TokenKind → Prop
  | nil (gap : List TokenKind) : Stretches [] gap
  | cons (gap block : List TokenKind) {blocks : List (List TokenKind)} {rest : List TokenKind}
      (h : Stretches blocks rest) : Stretches (block :: blocks) (gap ++ (block ++ rest))

/-- Tokens in front do not matter to the stretches after them. -/
theorem Stretches.after {blocks : List (List TokenKind)} {ks : List TokenKind}
    (h : Stretches blocks ks) (gap : List TokenKind) : Stretches blocks (gap ++ ks) := by
  cases h with
  | nil gap' => exact .nil _
  | cons gap' block h =>
    rw [← List.append_assoc]
    exact .cons _ block h

/-- Stretches of two lists are stretches of both together. -/
theorem Stretches.append {blocks blocks' : List (List TokenKind)} {ks ls : List TokenKind}
    (h : Stretches blocks ks) (h' : Stretches blocks' ls) :
    Stretches (blocks ++ blocks') (ks ++ ls) := by
  induction h with
  | nil gap => exact h'.after gap
  | cons gap block _ ih =>
    rw [List.append_assoc, List.append_assoc]
    exact .cons gap block ih

/-- The tokens of a pragma after its keyword: a name, and tokens in parentheses. -/
def IsPragma (block : List TokenKind) : Prop :=
  ∃ name inside, block = .identifier name :: .mark .openParen :: inside ∧
    TokenKind.closes 1 inside = true

namespace Declaration

/-- The text of a pragma. -/
def pragma? : Declaration → Option String
  | .directive .midlPragma text => some text
  | _ => none

/-- The texts of all pragmas, at any depth. -/
def pragmas (ds : List Declaration) : List String := (preorder ds).filterMap pragma?

/-- Pragmas come in the order of the declarations. -/
theorem pragmas_cons (d : Declaration) (ds : List Declaration) :
    pragmas (d :: ds) = pragmas [d] ++ pragmas ds := by
  simp [pragmas]

/-- So they do in two lists. -/
theorem pragmas_append (ds es : List Declaration) :
    pragmas (ds ++ es) = pragmas ds ++ pragmas es := by
  induction ds with
  | nil => rfl
  | cons d ds ih => rw [List.cons_append, pragmas_cons, ih, ← List.append_assoc, ← pragmas_cons]

/-- The pragmas of a library or module are those in its body. -/
theorem pragmas_group (kind : GroupKind) (name : String) (as : List Attribute)
    (body : List Declaration) : pragmas [.group kind name as body] = pragmas body := by
  have hpreorder : preorder [.group kind name as body] =
      .group kind name as body :: preorder body := by simp
  rw [pragmas, pragmas, hpreorder]
  rfl

/-- Declarations that are neither pragmas nor hold any others. -/
def isPlain : Declaration → Bool
  | .group .. | .directive .midlPragma _ => false
  | _ => true

/-- A plain declaration has no pragmas. -/
theorem pragmas_of_isPlain {d : Declaration} (h : d.isPlain = true) : pragmas [d] = [] := by
  cases d with
  | group kind name as body => cases h
  | directive kind text =>
    cases kind with
    | cppQuote => rfl
    | midlPragma => cases h
  | _ => rfl

/-- So plain declarations have none. -/
theorem pragmas_eq_nil {ds : List Declaration} (h : ∀ d ∈ ds, d.isPlain = true) :
    pragmas ds = [] := by
  induction ds with
  | nil => rfl
  | cons d ds ih =>
    obtain ⟨hd, hds⟩ := List.forall_mem_cons.mp h
    rw [pragmas_cons, pragmas_of_isPlain hd, ih hds, List.append_nil]

end Declaration

open Declaration (pragmas)

/-- The pragmas of declarations were read off tokens of these kinds. -/
def PragmasFrom (kinds : List TokenKind) (ds : List Declaration) : Prop :=
  ∃ blocks : List (List TokenKind), (∀ block ∈ blocks, IsPragma block) ∧
    Stretches (blocks.map (.keyword .midlPragma :: ·)) kinds ∧
    pragmas ds = blocks.map TokenKind.spell

section PragmasFrom

variable {ks ls : List TokenKind} {ds es : List Declaration}

/-- Declarations without pragmas need no tokens for them. -/
theorem PragmasFrom.of_eq_nil (h : pragmas ds = []) : PragmasFrom ks ds :=
  ⟨[], by simp, .nil ks, h⟩

/-- Pragmas of two lists are found in their tokens, one after the other. -/
theorem PragmasFrom.append (h : PragmasFrom ks ds) (h' : PragmasFrom ls es) :
    PragmasFrom (ks ++ ls) (ds ++ es) := by
  obtain ⟨blocks, hblocks, hks, hds⟩ := h
  obtain ⟨blocks', hblocks', hls, hes⟩ := h'
  refine ⟨blocks ++ blocks', List.forall_mem_append.mpr ⟨hblocks, hblocks'⟩, ?_, ?_⟩
  · rw [List.map_append]
    exact hks.append hls
  · rw [Declaration.pragmas_append, hds, hes, List.map_append]

/-- There may be other tokens around. -/
theorem PragmasFrom.between (before after : List TokenKind) (h : PragmasFrom ks ds) :
    PragmasFrom (before ++ (ks ++ after)) ds := by
  have hnone : ∀ gap, PragmasFrom gap [] := fun gap => .of_eq_nil rfl
  have hall := (hnone before).append (h.append (hnone after))
  rwa [List.append_nil] at hall

/-- A block around declarations adds no pragma. -/
theorem PragmasFrom.group (h : PragmasFrom ks ds) (kind : GroupKind) (name : String)
    (as : List Attribute) : PragmasFrom ks [.group kind name as ds] := by
  unfold PragmasFrom
  rw [Declaration.pragmas_group]
  exact h

/-- A pragma is found in the tokens after its keyword. -/
theorem PragmasFrom.single {block : List TokenKind} (h : IsPragma block) :
    PragmasFrom (.keyword .midlPragma :: block) [.directive .midlPragma (TokenKind.spell block)] :=
  ⟨[block], List.forall_mem_singleton.mpr h,
    List.append_nil (.keyword .midlPragma :: block) ▸ .cons [] _ (.nil []), rfl⟩

end PragmasFrom

namespace Parser

/-! ## What parsers take -/

/-- The kinds of the tokens that are left. -/
def State.kinds (s : State) : List TokenKind := s.tokens.map Token.kind

/-- A parser takes tokens from the front, of which `post` holds together with its result. -/
def Takes (p : Parser α) (post : α → List TokenKind → Prop) : Prop :=
  ∀ s a s', p s = .ok a s' → ∃ taken, s.kinds = taken ++ s'.kinds ∧ post a taken

section Takes

variable {p : Parser α} {post : α → List TokenKind → Prop} {s s' : State}

/-- A parser that leaves a suffix takes tokens from the front. -/
theorem Takes.of_suffix (h : ∀ s a s', p s = .ok a s' → s'.tokens <:+ s.tokens) :
    Takes p fun _ _ => True := by
  intro s a s' hrun
  obtain ⟨taken, htaken⟩ := h s a s' hrun
  exact ⟨taken.map Token.kind, by rw [State.kinds, ← htaken, List.map_append]; rfl, trivial⟩

/-- So does one that does not look beyond what it takes. -/
theorem Takes.of_online (h : ∀ bound, Online bound Eq p p) : Takes p fun _ _ => True := by
  refine .of_suffix fun s a s' hrun => ?_
  have hnarrows := (h s.left s (Nat.le_refl _)).narrows
  rwa [hrun] at hnarrows

/-- Parsers that move past their keyword first take tokens as well. -/
theorem Takes.of_moving (h : ∀ bound, Moving (Online bound Eq) Eq p p) :
    Takes p fun _ _ => True := by
  refine .of_suffix fun s a s' hrun => ?_
  have honline := Online.of_moving (fun pos => ⟨pos, rfl⟩) (h s.left)
  have hnarrows := (honline s (Nat.le_succ _)).narrows
  rwa [hrun] at hnarrows

/-- Moving on takes the current token. -/
theorem kinds_of_advance (h : advance s = .ok () s') (hkind : s.current.kind ≠ .eof) :
    s.kinds = s.current.kind :: s'.kinds := by
  rw [State.kinds, tokens_eq_of_advance h hkind]
  rfl

/-- A name takes its identifier. -/
theorem kinds_of_identifier {expected name : String} (h : identifier expected s = .ok name s') :
    s.kinds = .identifier name :: s'.kinds := by
  unfold identifier at h
  rw [peekBind] at h
  cases hkind : s.current.kind with
  | identifier text =>
    rw [hkind] at h
    obtain ⟨_, s₁, hadvance, h⟩ := ok_of_bind h
    obtain ⟨rfl, rfl⟩ := EStateM.Result.ok.inj h
    rw [kinds_of_advance hadvance (by simp [hkind]), hkind]
  | _ =>
    rw [hkind] at h
    cases h

/-- Items take tokens one after the other. -/
theorem Takes.manyUntil {all : List α → List TokenKind → Prop} (kind : TokenKind)
    (h : Takes p post) (hnil : all [] [])
    (hcons : ∀ a as taken more, post a taken → all as more → all (a :: as) (taken ++ more)) :
    Takes (manyUntil kind p) all := by
  intro s as s' hrun
  apply manyUntil_induction (fun _ => ⟨[], rfl, hnil⟩) ?_ hrun
  rintro a as s s₁ s' hitem ⟨more, hmore, has⟩
  obtain ⟨taken, htaken, ha⟩ := h s a s₁ hitem
  exact ⟨taken ++ more, by rw [htaken, hmore, List.append_assoc], hcons a as taken more ha has⟩

end Takes

/-! ## Plain declarations -/

section Plain

/-- A parser of any tokens gives results of which `post` holds. -/
abbrev Gives (p : Parser α) (post : α → Prop) : Prop := Ensures (fun _ => True) p post

/-- Nothing is asked of a result. -/
theorem Ensures.any (p : Parser α) : Gives p fun _ => True :=
  fun _ _ _ _ _ => ⟨fun _ _ => trivial, trivial⟩

/-- Only what comes last matters. -/
theorem Ensures.last {p : Parser α} {next : α → Parser β} {post : β → Prop}
    (h : ∀ a, Gives (next a) post) : Gives (p >>= next) post :=
  (Ensures.any p).seq h

/-- A parser of plain declarations. -/
abbrev Plain (p : Parser Declaration) : Prop := Gives p fun d => d.isPlain = true

/-- What one declaration gives is plain if it is. -/
theorem Ensures.single {p : Parser Declaration} (h : Plain p) :
    Gives (List.singleton <$> p) fun ds => ∀ d ∈ ds, d.isPlain = true :=
  h.map fun _ hd => List.forall_mem_singleton.mpr hd

/-- An import statement is plain. -/
theorem plain_importFiles : Plain importFiles := by
  refine .last fun _ => .last fun _ => .last fun kind => ?_
  cases kind with
  | string text => exact .last fun _ => .last fun _ => .pure rfl
  | _ => exact .throw _

/-- So is an interface. -/
theorem plain_interface (as : List Attribute) : Plain (interface as) := by
  refine .last fun _ => .last fun _ => .last fun _ => .ite (fun _ => ?_) fun _ => ?_
  · exact .last fun _ => .last fun _ => .last fun _ => .last fun _ => .last fun _ => .pure rfl
  · exact .last fun _ => .last fun _ => .last fun _ => .last fun _ => .last fun _ => .pure rfl

/-- So is a component class. -/
theorem plain_coclass (as : List Attribute) : Plain (coclass as) :=
  .last fun _ => .last fun _ => .last fun _ => .last fun _ => .last fun _ => .last fun _ =>
    .pure rfl

/-- So is an enumeration. -/
theorem plain_enumeration (as : List Attribute) : Plain (enumeration as) :=
  .last fun _ => .last fun _ => .last fun _ => .last fun _ => .pure rfl

/-- So is a struct. -/
theorem plain_record (as : List Attribute) : Plain (record as) :=
  .last fun _ => .last fun _ => .last fun _ => .last fun _ => .pure rfl

/-- So is a reference to a type library. -/
theorem plain_importLibrary : Plain importLibrary := by
  refine .last fun _ => .last fun _ => .ite (fun _ => ?_) fun _ => ?_
  · exact .last fun _ => .last fun _ => .last fun _ => .last fun _ => .pure rfl
  · exact .last fun _ => .last fun _ => .pure rfl

/-- So is a constant. -/
theorem plain_constant : Plain constant := by
  refine .last fun _ => .last fun _ => .last fun _ => .last fun kind => ?_
  cases kind with
  | string text => exact .last fun _ => .last fun _ => .last fun _ => .pure rfl
  | _ => exact .last fun _ => .last fun _ => .pure rfl

/-- So is a quoted text, which is no pragma. -/
theorem plain_cppQuote : Plain cppQuote :=
  .last fun _ => .last fun _ => .last fun _ => .last fun _ => .last fun _ => .pure rfl

/-- So is a further name for a type. -/
theorem plain_typedefOf (typeName : String) (as : List Attribute) : Plain (typedefOf typeName as) :=
  .last fun _ => .last fun _ => .pure rfl

/-- So is what a tag or a body makes of it. -/
theorem plain_tagged (as : List Attribute) {ofBody : Parser (String → Declaration)}
    (h : Gives ofBody fun make => ∀ name, (make name).isPlain = true) :
    Gives (tagged as ofBody) fun found => found.1.isPlain = true := by
  have hbody : Gives (do
      let make ← ofBody
      let name ← identifier "typedef name"
      return (make name, name)) fun found => found.1.isPlain = true :=
    h.bind fun make hmake => .last fun name => .pure (hmake name)
  refine .last fun _ => .last fun kind => ?_
  cases kind with
  | identifier tag =>
    refine .last fun _ => .pureBind (.last fun _ => .ite (fun _ => hbody) fun _ => ?_)
    exact (plain_typedefOf tag as).bind fun first hfirst => .pure hfirst
  | _ => exact .pureBind (.last fun _ => .ite (fun _ => hbody) fun _ => .unexpected _)

/-- So are all names that a statement gives. -/
theorem plain_typedefs : Gives typedefs fun ds => ∀ d ∈ ds, d.isPlain = true := by
  refine .last fun _ => .last fun as => .last fun kind => ?_
  have hrest : ∀ found : Declaration × String, found.1.isPlain = true → Gives (do
      let others ← many do
        if ← eat (.mark .comma) then some <$> typedefOf found.2 as
        else return none
      expect (.mark .semicolon)
      return found.1 :: others) fun ds => ∀ d ∈ ds, d.isPlain = true := by
    intro found hfound
    apply (Ensures.manyAfter .comma (plain_typedefOf found.2 as).some).bind
    intro others hothers
    exact .last fun _ => .pure (List.forall_mem_cons.mpr ⟨hfound, hothers⟩)
  dsimp only
  split
  · exact (plain_tagged as (.last fun _ => .pure fun _ => rfl)).bind hrest
  · exact (plain_tagged as (.last fun _ => .pure fun _ => rfl)).bind hrest
  · exact .last fun found => .pureBind (hrest (_, _) rfl)

end Plain

/-! ## All declarations -/

/-- What a pragma is read off: its keyword, a name, and a group of tokens in parentheses, after
which there may be a semicolon. -/
theorem pragma_cases {s s' : State} {d : Declaration}
    (hkind : s.current.kind = .keyword .midlPragma) (h : pragma s = .ok d s') :
    ∃ name inside s₁,
      s.kinds = .keyword .midlPragma :: .identifier name :: .mark .openParen ::
        (inside ++ s₁.kinds) ∧
      TokenKind.closes 1 inside = true ∧
      d = .directive .midlPragma
        (TokenKind.spell (.identifier name :: .mark .openParen :: inside)) ∧
      discard (eat (.mark .semicolon)) s₁ = .ok () s' := by
  unfold pragma at h
  obtain ⟨_, s₁, hadvance, h⟩ := ok_of_bind h
  obtain ⟨name, s₂, hname, h⟩ := ok_of_bind h
  rw [peekBind] at h
  by_cases hopen : s₂.current.kind = .mark .openParen
  · rw [if_neg (not_not.mpr hopen)] at h
    obtain ⟨_, s₃, hadvance', h⟩ := ok_of_bind h
    obtain ⟨texts, s₄, hinside, h⟩ := ok_of_bind h
    obtain ⟨_, s₅, hsemicolon, h⟩ := ok_of_bind h
    obtain ⟨rfl, rfl⟩ := EStateM.Result.ok.inj h
    obtain ⟨inside, htokens, hcloses, rfl⟩ := manyFrom_pragmaToken hinside
    have hkinds₃ : s₃.kinds = inside.map Token.kind ++ s₄.kinds := by
      rw [State.kinds, htokens, List.map_append]
      rfl
    refine ⟨name, inside.map Token.kind, s₄, ?_, hcloses, rfl, hsemicolon⟩
    rw [kinds_of_advance hadvance (by simp [hkind]), hkind, kinds_of_identifier hname,
      kinds_of_advance hadvance' (by simp [hopen]), hopen, hkinds₃]
  · rw [if_pos hopen] at h
    cases h

/-- What a pragma takes: its keyword, its tokens, and a semicolon if there is one. -/
theorem pragma_takes {s s' : State} {d : Declaration}
    (hkind : s.current.kind = .keyword .midlPragma) (h : pragma s = .ok d s') :
    ∃ taken, s.kinds = taken ++ s'.kinds ∧ PragmasFrom taken [d] := by
  obtain ⟨name, inside, s₁, hkinds, hcloses, rfl, hsemicolon⟩ := pragma_cases hkind h
  obtain ⟨gap, hgap, -⟩ := Takes.of_online
    (fun bound => (online bound Eq).discardEat (.mark .semicolon)) s₁ _ _ hsemicolon
  have hpragma : IsPragma (.identifier name :: .mark .openParen :: inside) :=
    ⟨name, inside, rfl, hcloses⟩
  refine ⟨_, ?_, (PragmasFrom.single hpragma).between [] gap⟩
  rw [hkinds, hgap]
  simp

/-- The pragmas of a library or module are found in the tokens it takes. -/
theorem takes_group {inner : Parser (List Declaration)}
    (hinner : Takes inner fun ds taken => PragmasFrom taken ds) (kind : GroupKind)
    (as : List Attribute) :
    Takes (group inner kind as) fun d taken => PragmasFrom taken [d] := by
  intro s d s' h
  obtain ⟨_, s₁, hadvance, h⟩ := ok_of_bind h
  obtain ⟨name, s₂, hname, h⟩ := ok_of_bind h
  obtain ⟨_, s₃, hopen, h⟩ := ok_of_bind h
  obtain ⟨dss, s₄, hbody, h⟩ := ok_of_bind h
  obtain ⟨_, s₅, hclose, h⟩ := ok_of_bind h
  obtain ⟨_, s₆, hsemicolon, h⟩ := ok_of_bind h
  obtain ⟨rfl, rfl⟩ := EStateM.Result.ok.inj h
  have honline := fun bound => online bound Eq
  obtain ⟨k₁, h₁, -⟩ := Takes.of_online (fun bound => (honline bound).advance) s _ _ hadvance
  obtain ⟨k₂, h₂, -⟩ := Takes.of_online (fun bound => (honline bound).identifier _) s₁ _ _ hname
  obtain ⟨k₃, h₃, -⟩ := Takes.of_online (fun bound => (honline bound).expect _) s₂ _ _ hopen
  obtain ⟨k₅, h₅, -⟩ := Takes.of_online (fun bound => (honline bound).expect _) s₄ _ _ hclose
  obtain ⟨k₆, h₆, -⟩ :=
    Takes.of_online (fun bound => (honline bound).discardEat _) s₅ _ _ hsemicolon
  have hall : Takes (manyUntil (.mark .closeBrace) inner) fun dss taken =>
      PragmasFrom taken dss.flatten :=
    hinner.manyUntil _ (.of_eq_nil rfl) fun _ _ _ _ hds hdss => hds.append hdss
  obtain ⟨taken, htaken, hpragmas⟩ := hall s₃ _ _ hbody
  refine ⟨_, ?_, (hpragmas.group kind name as).between (k₁ ++ k₂ ++ k₃) (k₅ ++ k₆)⟩
  rw [h₁, h₂, h₃, htaken, h₅, h₆]
  simp

/-- A parser of statements that give plain declarations. It moves past its keyword first, and
whatever all parsers respect, so does it. -/
structure PlainStatement (p : Parser (List Declaration)) : Prop where
  moving : ∀ (rel : {α : Type} → Parser α → Parser α → Prop)
    (positions : Position → Position → Prop), Congruence rel positions → Moving rel positions p p
  gives : Gives p fun ds => ∀ d ∈ ds, d.isPlain = true

/-- A plain declaration makes a plain statement. -/
theorem PlainStatement.single {p : Parser Declaration}
    (hstep : ∀ (rel : {α : Type} → Parser α → Parser α → Prop)
      (positions : Position → Position → Prop), Congruence rel positions → Stepping rel p p)
    (hplain : Plain p) : PlainStatement (List.singleton <$> p) where
  moving rel positions h := (h.completion.single (hstep rel positions h)).moving
  gives := hplain.single

/-- Statements give plain declarations, or they are pragmas, or libraries or modules. -/
theorem chosen_cases {inner : Parser (List Declaration)} {nested : Bool} {as : List Attribute}
    {s s' : State} {ds : List Declaration} (h : chosen inner nested as s = .ok ds s') :
    (∃ p, PlainStatement p ∧ p s = .ok ds s') ∨
    (∃ d, s.current.kind = .keyword .midlPragma ∧ pragma s = .ok d s' ∧ ds = [d]) ∨
    ∃ kind d, group inner kind as s = .ok d s' ∧ ds = [d] := by
  have hgroup : ∀ kind, (List.singleton <$> group inner kind as) s = .ok ds s' →
      ∃ kind d, group inner kind as s = .ok d s' ∧ ds = [d] := by
    intro kind hrun
    obtain ⟨d, hd, hds⟩ := ok_of_map hrun
    exact ⟨kind, d, hd, hds.symm⟩
  unfold chosen at h
  rw [peekBind] at h
  generalize hkind : s.current.kind = kind at h
  cases kind with
  | keyword k =>
    cases k with
    | importFiles =>
      exact .inl ⟨_, ⟨fun _ _ h => h.completion.importFiles, plain_importFiles.single⟩, h⟩
    | interface =>
      exact .inl ⟨_, .single (fun _ _ h => h.completion.interface as) (plain_interface as), h⟩
    | coclass =>
      exact .inl ⟨_, .single (fun _ _ h => h.completion.coclass as) (plain_coclass as), h⟩
    | library => exact .inr (.inr (hgroup _ h))
    | module => exact .inr (.inr (hgroup _ h))
    | enum =>
      exact .inl ⟨_, .single (fun _ _ h => h.completion.enumeration as) (plain_enumeration as), h⟩
    | struct => exact .inl ⟨_, .single (fun _ _ h => h.completion.record as) (plain_record as), h⟩
    | typedef => exact .inl ⟨_, ⟨fun _ _ h => h.completion.typedefs.moving, plain_typedefs⟩, h⟩
    | cppQuote => exact .inl ⟨_, .single (fun _ _ h => h.completion.cppQuote) plain_cppQuote, h⟩
    | midlPragma =>
      obtain ⟨d, hd, hds⟩ := ok_of_map h
      exact .inr (.inl ⟨d, rfl, hd, hds.symm⟩)
    | importLibrary =>
      cases nested with
      | false => cases h
      | true =>
        exact .inl ⟨_, .single (fun _ _ h => h.completion.importLibrary) plain_importLibrary, h⟩
    | const =>
      cases nested with
      | false => cases h
      | true => exact .inl ⟨_, .single (fun _ _ h => h.completion.constant) plain_constant, h⟩
    | _ => cases h
  | _ => cases h

/-- The pragmas of a statement are found in the tokens it takes. -/
theorem takes_chosen {inner : Parser (List Declaration)}
    (hinner : Takes inner fun ds taken => PragmasFrom taken ds) (nested : Bool)
    (as : List Attribute) :
    Takes (chosen inner nested as) fun ds taken => PragmasFrom taken ds := by
  intro s ds s' hrun
  obtain ⟨p, hp, hrun⟩ | ⟨d, hkind, hd, rfl⟩ | ⟨kind, d, hd, rfl⟩ := chosen_cases hrun
  · -- where there are no pragmas, any tokens will do
    obtain ⟨taken, htaken, -⟩ :=
      Takes.of_moving (fun bound => hp.moving _ _ (online bound Eq)) s ds s' hrun
    have hds := (hp.gives s ds s' (fun _ _ => trivial) hrun).2
    exact ⟨taken, htaken, .of_eq_nil (Declaration.pragmas_eq_nil hds)⟩
  · exact pragma_takes hkind hd
  · exact takes_group hinner kind as s d s' hd

/-- So are those of a statement with its attributes. -/
theorem takes_declaration (depth : Nat) (nested : Bool) :
    Takes (declaration depth nested) fun ds taken => PragmasFrom taken ds := by
  induction depth generalizing nested with
  | zero => exact fun s ds s' hrun => nomatch hrun
  | succ depth ih =>
    intro s ds s' hrun
    rw [declaration] at hrun
    obtain ⟨as, s₁, hattributes, hrun⟩ := ok_of_bind hrun
    obtain ⟨_, s₂, hchosen, hrun⟩ := ok_of_bind hrun
    obtain ⟨_, s₃, hnote, hrun⟩ := ok_of_bind hrun
    obtain ⟨-, rfl⟩ := EStateM.Result.ok.inj hnote
    obtain ⟨rfl, rfl⟩ := EStateM.Result.ok.inj hrun
    obtain ⟨before, hbefore, -⟩ :=
      Takes.of_online (fun bound => (online bound Eq).leadingAttributes) s as s₁ hattributes
    obtain ⟨taken, htaken, hpragmas⟩ := takes_chosen (ih true) nested as s₁ _ s₂ hchosen
    refine ⟨_, ?_, hpragmas.between before []⟩
    rw [hbefore, htaken, List.append_nil, List.append_assoc]
    rfl

end Parser

namespace Source

/-- The declarations of a source that can be read take all of its tokens. -/
theorem taken_of_parse {source : Source} {ds : List Declaration}
    {post : List (List Declaration) → List TokenKind → Prop}
    (htakes : ∀ depth, Parser.Takes
      (Parser.manyUntil .eof (Parser.declaration depth false)) post)
    (h : source.parse = .ok ds) :
    ∃ dss, dss.flatten = ds ∧ post dss (source.tokens.tokens.map Token.kind) := by
  obtain ⟨s, dss, s', htokens, -, hflatten, hrun⟩ := TokenStream.exists_manyUntil_of_read h
  obtain ⟨taken, htaken, hpost⟩ := htakes _ s dss s' hrun
  have hleft : s.left ≤ source.tokens.tokens.length :=
    Nat.le_of_eq (s.left_eq.trans (congrArg List.length htokens))
  have hend : s'.tokens = [] := by
    cases hrest : s'.tokens with
    | nil => rfl
    | cons t ts =>
      -- the last token would be the end of the input, which is none of the tokens
      have heof := Parser.manyUntil_declaration_ends hleft hrun
      rw [Parser.State.current_of_cons hrest] at heof
      have hmem : t.kind ∈ s.kinds := by
        rw [htaken]
        simp [Parser.State.kinds, hrest]
      obtain ⟨u, hu, hkind⟩ := List.mem_map.mp hmem
      exact absurd (hkind.trans heof) (kind_ne_eof (htokens ▸ hu))
  refine ⟨dss, hflatten, ?_⟩
  rw [← htokens, show s.tokens.map Token.kind = taken ++ s'.kinds from htaken, Parser.State.kinds,
    hend, List.map_nil, List.append_nil]
  exact hpost

/-- The pragmas of a source were read off its tokens. -/
theorem pragmasFrom_of_parse {source : Source} {ds : List Declaration}
    (h : source.parse = .ok ds) : PragmasFrom (source.tokens.tokens.map Token.kind) ds := by
  have hall : ∀ depth, Parser.Takes (Parser.manyUntil .eof (Parser.declaration depth false))
      fun dss taken => PragmasFrom taken dss.flatten :=
    fun depth => (Parser.takes_declaration depth false).manyUntil _ (.of_eq_nil rfl)
      fun _ _ _ _ hds hdss => hds.append hdss
  obtain ⟨dss, rfl, hpragmas⟩ := taken_of_parse hall h
  exact hpragmas

end Source

end Midl
