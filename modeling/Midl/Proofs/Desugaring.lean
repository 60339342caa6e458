import Midl.Proofs.Grammar
import Midl.Proofs.Online
import Midl.Proofs.Portability
import Midl.Proofs.RoundTrip

/-!
# Statements that give several names

A statement can give several names to a type, and it can declare the type in passing. It says no
more than statements that give one name each. Which these are depends on how the type is written:
words are repeated before every name, a body is written once and then goes by its first name, and
after a tag the keyword is left out (`Desugars`).
-/

namespace Midl

namespace Parser

/-! ## How statements are written -/

/-- A name and the stars before it. -/
structure Declarator where
  stars : Nat
  name : String
deriving DecidableEq

namespace Declarator

/-- How a name is written. -/
def kinds (d : Declarator) : List TokenKind :=
  List.replicate d.stars (.mark .star) ++ [.identifier d.name]

/-- What is declared by giving the name to a type. -/
def declare (d : Declarator) (typeName : String) (as : List Attribute) : Declaration :=
  .typedef ⟨d.name, typeName, d.stars, as⟩

end Declarator

/-- An attribute list, or nothing in its place. -/
inductive OptionalList : List TokenKind → Prop
  | absent : OptionalList []
  | present {inside : List TokenKind} (hinside : .mark .closeBracket ∉ inside) :
      OptionalList (.mark .openBracket :: (inside ++ [.mark .closeBracket]))

/-- A statement with an attribute list, what stands for the type, and the names given to it. -/
def statement (list base : List TokenKind) (d : Declarator) (others : List Declarator) :
    List TokenKind :=
  .keyword .typedef :: (list ++ (base ++ (d.kinds ++
    (others.flatMap (.mark .comma :: ·.kinds) ++ [.mark .semicolon]))))

/-- A statement for each of the names. -/
def singles (list base : List TokenKind) (ds : List Declarator) : List TokenKind :=
  ds.flatMap (statement list base · [])

/-- A body, with or without a tag before it. -/
def bodied (k : Keyword) (tag : Option String) (inside : List TokenKind) : List TokenKind :=
  .keyword k :: (tag.toList.map .identifier ++
    .mark .openBrace :: (inside ++ [.mark .closeBrace]))

/-- A statement and what to write in place of it, with the same attribute list. -/
inductive Desugars (list : List TokenKind) : List TokenKind → List TokenKind → Prop
  /-- Each name is given to the type. -/
  | words (words : List Word) (d : Declarator) (others : List Declarator) :
      Desugars list (statement list (words.map Word.kind) d others)
        (singles list (words.map Word.kind) (d :: others))
  /-- The first name is given to the body, the others are given to that name. -/
  | body {k : Keyword} (hk : k = .enum ∨ k = .struct) (tag : Option String)
      {inside : List TokenKind} (hinside : .mark .closeBrace ∉ inside) (name : String)
      (others : List Declarator) :
      Desugars list (statement list (bodied k tag inside) ⟨0, name⟩ others)
        (statement list (bodied k tag inside) ⟨0, name⟩ [] ++
          singles list [.identifier name] others)
  /-- Each name is given to the tag. -/
  | tag {k : Keyword} (hk : k = .enum ∨ k = .struct) (tag : String) (d : Declarator)
      (others : List Declarator) :
      Desugars list (statement list [.keyword k, .identifier tag] d others)
        (singles list [.identifier tag] (d :: others))

/-! ## Names -/

variable {as : List Attribute} {typeName : String} {rest : List TokenKind}

/-- A name with its stars is read as a further name for the type. -/
theorem yields_declarator (d : Declarator) (typeName : String) (as : List Attribute)
    (rest : List TokenKind) :
    Yields (typedefOf typeName as) (d.kinds ++ rest) (d.declare typeName as) rest := by
  rw [Declarator.kinds, List.append_assoc]
  refine (Yields.stars d.stars (by simp)).bind ?_
  exact (Yields.identifier _ d.name).bind (Yields.pure _)

/-- The names after the first one. -/
def moreNames (typeName : String) (as : List Attribute) : Parser (List Declaration) :=
  many do
    if ← eat (.mark .comma) then some <$> typedefOf typeName as
    else return none

/-- So is each of the names after a comma. -/
theorem yields_moreNames (others : List Declarator) (typeName : String) (as : List Attribute)
    (h : first rest ≠ .mark .comma) :
    Yields (moreNames typeName as) (others.flatMap (.mark .comma :: ·.kinds) ++ rest)
      (others.map (·.declare typeName as)) rest := by
  induction others with
  | nil => exact Yields.many_nil ((Yields.eat_other h).bind (Yields.pure none))
  | cons d others ih =>
    rw [List.flatMap_cons, List.append_assoc]
    refine Yields.many_cons ((Yields.eat_self _).bind (yields_declarator d typeName as _).map) ?_ ih
    simp only [List.cons_append, List.length_cons, List.length_append]
    omega

/-! ## What stands for the type -/

/-- The reader of the body after a keyword. -/
def bodyAfter (as : List Attribute) : Keyword → Parser (String → Declaration)
  | .enum => do
    let members ← members
    return fun name => .enumeration ⟨name, as, members⟩
  | _ => do
    let fields ← fields
    return fun name => .record ⟨name, as, fields⟩

/-- What a statement says up to its first name: what this name declares, and the type that further
names are given to. -/
def opening (as : List Attribute) : Parser (Declaration × String) := do
  let kind ← peek
  if kind = .keyword .enum then tagged as (bodyAfter as .enum)
  else if kind = .keyword .struct then tagged as (bodyAfter as .struct)
  else
    let (type, name) ← named "typedef name"
    return (.typedef ⟨name, type.typeName, type.indirection, as⟩, type.typeName)

/-- A statement is its opening, and then further names. -/
theorem typedefs_eq : typedefs = do
    advance
    let as ← attributes
    let (d, typeName) ← opening as
    let others ← moreNames typeName as
    expect (.mark .semicolon)
    return d :: others := by
  refine bind_congr fun _ => bind_congr fun as => ?_
  rw [opening, bind_assoc]
  refine bind_congr fun kind => ?_
  split
  · rfl
  · rfl
  · next henum hstruct =>
    rw [if_neg henum, if_neg hstruct, bind_assoc]
    rfl

/-- What is written before a name is a type, which goes by `typeName`. -/
def StandsFor (as : List Attribute) (base : List TokenKind) (typeName : String) : Prop :=
  ∀ (d : Declarator) rest, EndsName (first rest) →
    Yields (opening as) (base ++ (d.kinds ++ rest)) (d.declare typeName as, typeName) rest

/-- Words that are not all `const` stand for a type. -/
theorem standsFor_words {words : List Word} (h : ∃ w ∈ words, w ≠ .const) (as : List Attribute) :
    StandsFor as (words.map Word.kind) (" ".intercalate (words.map Word.text)) := by
  intro d rest hrest
  have hnamed := yields_named "typedef name" (yields_typed h d.stars d.name hrest)
  rw [Declarator.kinds, List.append_assoc]
  apply Yields.peekBind
  -- no type begins with a keyword that introduces a body
  cases words with
  | nil => simp at h
  | cons w words =>
    cases w <;> exact hnamed.bind (Yields.pure _)

/-- A name after nothing but `const` is part of the type. -/
theorem splitName_of_const {words : List Word} (h : ∀ w ∈ words, w = .const) (ident : String) :
    splitName (words ++ [.name ident]) = (words ++ [.name ident], none) := by
  have hfilter : words.filter (· ≠ .const) = [] := by simpa using h
  unfold splitName
  rw [List.getLast?_concat, List.filter_append, hfilter]
  rfl

/-- After words that are all `const`, a name without stars is taken for the type. -/
theorem yields_typed_of_const {words : List Word} (h : ∀ w ∈ words, w = .const) (ident : String)
    {ks : List TokenKind} (hks : EndsName (first ks)) :
    ∃ type, Yields typed (words.map Word.kind ++ .identifier ident :: ks) (type, none) ks := by
  obtain ⟨m, hm, hstar⟩ := hks
  refine ⟨⟨" ".intercalate ((words ++ [Word.name ident]).map Word.text), 0⟩, ?_⟩
  rw [map_kind_name]
  refine (yields_words _ hm).bind ?_
  refine (yields_pointer 0 (by simp [hm, hstar]) (by simp [hm])).bind ?_
  rw [if_pos rfl, splitName_of_const h]
  refine (Yields.pure _).bind ?_
  dsimp only
  rw [if_neg (by simp)]
  exact Yields.pure _

/-- Words that are all `const` are not read with a name after them, nor with stars and a name. -/
theorem not_accepts_named {words : List Word} (h : ∀ w ∈ words, w = .const) (n : Nat)
    (expected ident : String) {ks : List TokenKind} (hks : EndsName (first ks)) :
    ¬Accepts (named expected)
      (words.map Word.kind ++ (List.replicate n (.mark .star) ++ .identifier ident :: ks)) := by
  intro haccepts
  cases n with
  | zero =>
    obtain ⟨type, htyped⟩ := yields_typed_of_const h ident hks
    exact not_accepts_unexpected _ _ (haccepts.of_bind htyped)
  | succ n =>
    replace haccepts := haccepts.first.of_bind (yields_words words rfl)
    replace haccepts := haccepts.of_bind (yields_pointer (n + 1) (by simp) (by simp))
    rw [if_neg (Nat.succ_ne_zero n)] at haccepts
    replace haccepts := haccepts.of_bind (Yields.identifier _ ident)
    replace haccepts := haccepts.of_bind (Yields.pure _)
    dsimp only at haccepts
    rw [if_pos (by simpa using h)] at haccepts
    exact not_accepts_unexpected _ _ haccepts.first

/-- A type that is accepted has a word besides `const`. -/
theorem exists_word_of_accepts {words : List Word} {d : Declarator} {ks : List TokenKind}
    (h : Accepts (opening as) (words.map Word.kind ++ (d.kinds ++ ks)))
    (hks : EndsName (first ks)) : ∃ w ∈ words, w ≠ .const := by
  by_contra hconst
  push Not at hconst
  have hnamed : Accepts (named "typedef name") (words.map Word.kind ++ (d.kinds ++ ks)) := by
    replace h := h.of_bind Yields.peek
    cases words with
    | nil =>
      obtain ⟨stars, name⟩ := d
      cases stars <;> exact h.first
    | cons w words => cases w <;> exact h.first
  rw [Declarator.kinds, List.append_assoc] at hnamed
  exact not_accepts_named hconst d.stars _ d.name hks hnamed

/-- A name stands for the type of that name. -/
theorem standsFor_name (name : String) (as : List Attribute) :
    StandsFor as [.identifier name] name :=
  @standsFor_words [.name name] ⟨_, List.mem_singleton_self _, nofun⟩ as

/-- A keyword and a tag stand for the type that the tag alone would. -/
theorem standsFor_tag {k : Keyword} (hk : k = .enum ∨ k = .struct) (tag : String)
    (as : List Attribute) : StandsFor as [.keyword k, .identifier tag] tag := by
  intro d rest _
  have hbrace : first (d.kinds ++ rest) ≠ .mark .openBrace := by
    rw [Declarator.kinds]
    cases d.stars <;> simp [List.replicate_succ]
  have htagged : ∀ ofBody, Yields (tagged as ofBody)
      (.keyword k :: .identifier tag :: (d.kinds ++ rest)) (d.declare tag as, tag) rest := by
    intro ofBody
    refine (Yields.advance _).bind (Yields.peekBind ?_)
    refine (Yields.advance _).bind ((Yields.pure (some tag)).bind (Yields.peekBind ?_))
    rw [if_neg hbrace]
    exact (yields_declarator d tag as rest).bind (Yields.pure _)
  rcases hk with rfl | rfl
  · exact Yields.peekBind (htagged _)
  · exact Yields.peekBind (htagged _)

/-- A body is read once more where it is written, if it was read. -/
theorem exists_yields_bodyAfter {k : Keyword} (hk : k = .enum ∨ k = .struct)
    {inside ls : List TokenKind} (hinside : .mark .closeBrace ∉ inside)
    (h : Accepts (bodyAfter as k) (.mark .openBrace :: (inside ++ .mark .closeBrace :: ls))) :
    ∃ make, ∀ rest, Yields (bodyAfter as k)
      (.mark .openBrace :: (inside ++ .mark .closeBrace :: rest)) make rest := by
  rcases hk with rfl | rfl
  · obtain ⟨members, hmembers, -⟩ := Accepts.members h hinside
    exact ⟨_, fun rest => (hmembers rest).bind (Yields.pure _)⟩
  · obtain ⟨fields, hfields, -⟩ := Accepts.fields h hinside
    exact ⟨_, fun rest => (hfields rest).bind (Yields.pure _)⟩

/-- If a body with its tag is accepted, then so is the body. -/
theorem accepts_ofBody {ofBody : Parser (String → Declaration)} {ks : List TokenKind}
    (k : Keyword) (tag : Option String)
    (h : Accepts (tagged as ofBody)
      (.keyword k :: (tag.toList.map .identifier ++ .mark .openBrace :: ks))) :
    Accepts ofBody (.mark .openBrace :: ks) := by
  replace h := h.of_bind (Yields.advance _)
  replace h := h.of_bind Yields.peek
  cases tag with
  | none =>
    replace h := h.of_bind (Yields.pure none)
    exact (h.of_bind Yields.peek).first
  | some tag =>
    replace h := h.of_bind (Yields.advance _)
    replace h := h.of_bind (Yields.pure (some tag))
    exact (h.of_bind Yields.peek).first

/-- The tokens of a body with a tag and a name, in order. -/
theorem bodied_append (k : Keyword) (tag : Option String) (inside : List TokenKind) (name : String)
    (rest : List TokenKind) :
    bodied k tag inside ++ ((⟨0, name⟩ : Declarator).kinds ++ rest) =
      .keyword k :: (tag.toList.map .identifier ++ .mark .openBrace ::
        (inside ++ .mark .closeBrace :: .identifier name :: rest)) := by
  simp [bodied, Declarator.kinds]

/-- A body that was read with a name is read with it wherever they stand. -/
theorem exists_yields_body {k : Keyword} (hk : k = .enum ∨ k = .struct) {tag : Option String}
    {inside ks : List TokenKind} {name : String} (hinside : .mark .closeBrace ∉ inside)
    (h : Accepts (opening as) (bodied k tag inside ++ ((⟨0, name⟩ : Declarator).kinds ++ ks))) :
    ∃ decl, ∀ rest, Yields (opening as)
      (bodied k tag inside ++ ((⟨0, name⟩ : Declarator).kinds ++ rest)) (decl, name) rest := by
  simp only [bodied_append] at h ⊢
  have htagged := h.of_bind Yields.peek
  have hbody : Accepts (bodyAfter as k) (.mark .openBrace ::
      (inside ++ .mark .closeBrace :: .identifier name :: ks)) := by
    rcases hk with rfl | rfl
    · exact accepts_ofBody .enum tag htagged
    · exact accepts_ofBody .struct tag htagged
  obtain ⟨make, hmake⟩ := exists_yields_bodyAfter hk hinside hbody
  refine ⟨make name, fun rest => Yields.peekBind ?_⟩
  rcases hk with rfl | rfl
  · exact yields_tagged .enum tag (hmake _)
  · exact yields_tagged .struct tag (hmake _)

/-! ## Statements -/

section Statements

variable {list base ks : List TokenKind} {d : Declarator} {others : List Declarator}

/-- The attributes that a list is read as, wherever it stands. -/
def Lists (list : List TokenKind) (as : List Attribute) : Prop :=
  ∀ rest, first rest ≠ .mark .openBracket → Yields attributes (list ++ rest) as rest

/-- An attribute list is read once more where it is written, if it was read. -/
theorem exists_lists {f : List Attribute → Parser α} (hlist : OptionalList list)
    (hks : first ks ≠ .mark .openBracket) (h : Accepts (attributes >>= f) (list ++ ks)) :
    ∃ as, Lists list as ∧ Accepts (f as) ks := by
  cases hlist with
  | absent =>
    have habsent : Lists [] [] := fun rest hrest => Yields.ifSees_other [] hrest
    exact ⟨[], habsent, h.of_bind (habsent ks hks)⟩
  | @present inside hinside =>
    have hkinds : ∀ rest, (.mark .openBracket :: (inside ++ [.mark .closeBracket])) ++ rest =
        TokenKind.mark .openBracket :: (inside ++ .mark .closeBracket :: rest) := by simp
    rw [hkinds] at h
    unfold attributes ifSees at h
    rw [bind_assoc] at h
    replace h := h.of_bind Yields.peek
    rw [first_cons, if_pos rfl] at h
    obtain ⟨as, has, haccepts⟩ := h.attributeList hinside
    refine ⟨as, fun rest _ => ?_, haccepts⟩
    rw [hkinds]
    exact Yields.ifSees_self (has rest)

/-- A type without attributes does not begin with a bracket. -/
theorem first_ne_openBracket (hbase : base.head? ≠ some (.mark .openBracket)) (d : Declarator)
    (rest : List TokenKind) : first (base ++ (d.kinds ++ rest)) ≠ .mark .openBracket := by
  cases base with
  | nil =>
    obtain ⟨stars, name⟩ := d
    cases stars <;> exact nofun
  | cons k base => simpa using hbase

/-- The tokens of a statement, in order. -/
theorem statement_append (rest : List TokenKind) :
    statement list base d others ++ rest = .keyword .typedef :: (list ++ (base ++ (d.kinds ++
      (others.flatMap (.mark .comma :: ·.kinds) ++ .mark .semicolon :: rest)))) := by
  simp [statement]

/-- What follows the first name is not taken for a part of it. -/
theorem endsName_others (others : List Declarator) (rest : List TokenKind) :
    EndsName (first (others.flatMap (.mark .comma :: ·.kinds) ++ .mark .semicolon :: rest)) :=
  follow_separator ⟨.comma, rfl, nofun⟩ ⟨.semicolon, rfl, nofun⟩

/-- A statement was read as its attribute list and what stands for the type. -/
theorem exists_lists_of_accepts (hlist : OptionalList list)
    (hbase : base.head? ≠ some (.mark .openBracket))
    (h : Accepts typedefs (statement list base d others)) :
    ∃ as, Lists list as ∧ Accepts (opening as) (base ++ (d.kinds ++
      (others.flatMap (.mark .comma :: ·.kinds) ++ [.mark .semicolon]))) := by
  rw [typedefs_eq] at h
  obtain ⟨as, has, haccepts⟩ := exists_lists hlist (first_ne_openBracket hbase d _)
    (h.of_bind (Yields.advance _))
  exact ⟨as, has, haccepts.first⟩

/-- A statement for several names is read as one declaration for each. -/
theorem yields_typedefs {decl : Declaration} (hlist : Lists list as)
    (hbase : base.head? ≠ some (.mark .openBracket))
    (hopening : ∀ rest, EndsName (first rest) →
      Yields (opening as) (base ++ (d.kinds ++ rest)) (decl, typeName) rest)
    (others : List Declarator) (rest : List TokenKind) :
    Yields typedefs (statement list base d others ++ rest)
      (decl :: others.map (·.declare typeName as)) rest := by
  rw [statement_append, typedefs_eq]
  refine (Yields.advance _).bind ((hlist _ (first_ne_openBracket hbase d _)).bind ?_)
  refine (hopening _ (endsName_others others rest)).bind ?_
  refine (yields_moreNames others typeName as (by simp)).bind ?_
  exact (Yields.expect _).bind (Yields.pure _)

/-- One more statement before others. -/
theorem yields_statement_cons {depth : Nat} {ds : List Declaration}
    {dss : List (List Declaration)}
    (h : Yields typedefs (statement list base d others ++ rest) ds rest)
    (hrest : Yields (manyUntil .eof (declaration (depth + 1) false)) rest dss []) :
    Yields (manyUntil .eof (declaration (depth + 1) false)) (statement list base d others ++ rest)
      (ds :: dss) [] := by
  rw [statement_append] at h ⊢
  refine Yields.many_cons (Yields.peekBind ?_) ?_ hrest
  · exact (yields_bare (Yields.peekBind h)).map
  · simp only [List.length_cons, List.length_append]
    omega

/-- Statements for one name each are read as the same declarations. -/
theorem yields_singles (depth : Nat) (hlist : Lists list as)
    (hbase : base.head? ≠ some (.mark .openBracket)) (hstands : StandsFor as base typeName)
    (ds : List Declarator) :
    Yields (manyUntil .eof (declaration (depth + 1) false)) (singles list base ds)
      (statements (ds.map (·.declare typeName as))) [] := by
  induction ds with
  | nil => exact Yields.many_nil (Yields.peekBind (Yields.pure none))
  | cons d ds ih =>
    exact yields_statement_cons (yields_typedefs hlist hbase (hstands d) [] _) ih

/-- What is read statement by statement is read as a whole. -/
theorem yields_declarations_of {depth : Nat} {dss : List (List Declaration)}
    {ds : List Declaration} (h : Yields (manyUntil .eof (declaration depth false)) ks dss [])
    (hflatten : dss.flatten = ds) : Yields (declarations depth) ks ds [] := by
  rw [← hflatten]
  exact h.map

/-- A statement and nothing else. -/
theorem yields_alone (depth : Nat) {ds : List Declaration}
    (h : ∀ rest, Yields typedefs (statement list base d others ++ rest) ds rest) :
    Yields (declarations (depth + 1)) (statement list base d others) ds [] := by
  have hdone : Yields (manyUntil .eof (declaration (depth + 1) false)) [] [] [] :=
    Yields.many_nil (Yields.peekBind (Yields.pure none))
  have hone := yields_statement_cons (h []) hdone
  rw [List.append_nil] at hone
  exact yields_declarations_of hone (by simp)

/-- A statement is read as the same as those for each of its names, if the type that they are
given to is the same. -/
theorem exists_yields_of_standsFor {base' : List TokenKind} (hlist : Lists list as)
    (hbase : base.head? ≠ some (.mark .openBracket))
    (hbase' : base'.head? ≠ some (.mark .openBracket)) (hstands : StandsFor as base typeName)
    (hstands' : StandsFor as base' typeName) :
    ∃ ds, ∀ depth, Yields (declarations (depth + 1)) (statement list base d others) ds [] ∧
      Yields (declarations (depth + 1)) (singles list base' (d :: others)) ds [] := by
  refine ⟨(d :: others).map (·.declare typeName as), fun depth => ⟨?_, ?_⟩⟩
  · exact yields_alone depth (yields_typedefs hlist hbase (hstands d) others)
  · exact yields_declarations_of (yields_singles depth hlist hbase' hstands' (d :: others))
      (statements_flatten _)

end Statements

/-! ## What is written in place of a statement -/

/-- Both ways of writing begin with the same keyword. -/
theorem Desugars.begins {list left right : List TokenKind} (h : Desugars list left right) :
    ∃ ks ls, left = .keyword .typedef :: ks ∧ right = .keyword .typedef :: ls := by
  cases h <;> exact ⟨_, _, rfl, rfl⟩

/-- Both ways of writing are read as the same declarations. -/
theorem Desugars.exists_yields {list left right : List TokenKind} (hlist : OptionalList list)
    (h : Desugars list left right) (haccepts : Accepts typedefs left) :
    ∃ ds, ∀ depth, Yields (declarations (depth + 1)) left ds [] ∧
      Yields (declarations (depth + 1)) right ds [] := by
  cases h with
  | words words d others =>
    have hbase : (words.map Word.kind).head? ≠ some (.mark .openBracket) := by
      cases words with
      | nil => exact nofun
      | cons w words => cases w <;> simp [Word.kind]
    obtain ⟨as, has, hopening⟩ := exists_lists_of_accepts hlist hbase haccepts
    have hstands := standsFor_words (exists_word_of_accepts hopening (endsName_others others [])) as
    exact exists_yields_of_standsFor has hbase hbase hstands hstands
  | body hk tag hinside name others =>
    obtain ⟨as, has, hopening⟩ := exists_lists_of_accepts hlist (by simp [bodied]) haccepts
    obtain ⟨decl, hdecl⟩ := exists_yields_body hk hinside hopening
    have hall := yields_typedefs has (by simp [bodied]) fun rest _ => hdecl rest
    refine ⟨decl :: others.map (·.declare name as), fun depth => ⟨?_, ?_⟩⟩
    · exact yields_alone depth (hall others)
    · have hothers := yields_singles depth has (by simp) (standsFor_name name as) others
      refine yields_declarations_of (yields_statement_cons (hall [] _) hothers) ?_
      rw [List.flatten_cons, statements_flatten]
      rfl
  | tag hk tag d others =>
    obtain ⟨as, has, -⟩ := exists_lists_of_accepts hlist (by simp) haccepts
    exact exists_yields_of_standsFor has (by simp) (by simp) (standsFor_tag hk tag as)
      (standsFor_name tag as)

/-- A stream that is read and begins with a statement holds one that is read. -/
theorem accepts_typedefs_of_read {stream : TokenStream} {ks : List TokenKind}
    {ds : List Declaration} (hholds : stream.Holds (.keyword .typedef :: ks))
    (h : stream.read.result = .ok ds) : Accepts typedefs (.keyword .typedef :: ks) := by
  obtain ⟨s, dss, s', htokens, hstop, -, hrun⟩ := TokenStream.exists_manyUntil_of_read h
  have hs : s.At (.keyword .typedef :: ks) :=
    ⟨by rw [htokens, hholds.kinds], hstop ▸ hholds.finished⟩
  have hleft : s.left = stream.tokens.length := by rw [s.left_eq, htokens]
  obtain ⟨hkind, -⟩ | ⟨-, ds₁, s₁, -, hitem, -⟩ :=
    manyUntil_cases (fun _ _ => left_of_declaration (Nat.le_of_eq hleft)) hrun
  · rw [hs.current] at hkind
    cases hkind
  · have hdeclaration : Accepts (declaration stream.tokens.length false)
        (.keyword .typedef :: ks) := ⟨s, ds₁, s₁, hs, hitem⟩
    rw [← hleft, hs.left, List.length_cons] at hdeclaration
    replace hdeclaration := hdeclaration.of_bind (Yields.ifSees_other [] (by simp))
    exact hdeclaration.first.of_bind Yields.peek

end Parser

/-- A stream is read as what its tokens yield. -/
theorem TokenStream.Holds.read_eq {stream : TokenStream} {k : TokenKind} {ks : List TokenKind}
    {ds : List Declaration} (h : stream.Holds (k :: ks))
    (hyields : ∀ depth, (Parser.declarations (depth + 1)).Yields (k :: ks) ds []) :
    stream.read.result = .ok ds := by
  refine TokenStream.read_of_yields h.kinds h.finished ?_
  have hlength : stream.tokens.length = ks.length + 1 := by
    rw [← List.length_map Token.kind, h.kinds, List.length_cons]
  rw [hlength]
  exact hyields ks.length

namespace Source

/-- A statement that is read is read as the same declarations as what is to be written in place of
it. -/
theorem parse_desugared {source source' : Source} {list left right : List TokenKind}
    {ds : List Declaration} (hlist : Parser.OptionalList list)
    (h : Parser.Desugars list left right) (hleft : source.tokens.Holds left)
    (hright : source'.tokens.Holds right) (hparse : source.parse = .ok ds) :
    source'.parse = .ok ds := by
  obtain ⟨ks, ls, rfl, rfl⟩ := h.begins
  obtain ⟨ds', hyields⟩ := h.exists_yields hlist (Parser.accepts_typedefs_of_read hleft hparse)
  have hparse' : source.parse = .ok ds' := hleft.read_eq fun depth => (hyields depth).1
  obtain rfl : ds = ds' := Except.ok.inj (hparse.symm.trans hparse')
  exact hright.read_eq fun depth => (hyields depth).2

/-- An enumeration with a tag, a name and two more names. -/
def together : Source := ofText "typedef [v1_enum] enum t \x7bA = 2\x7d N, *P, Q;"

/-- The same names, one in each statement. -/
def apart : Source :=
  ofText "typedef [v1_enum] enum t \x7bA = 2\x7d N; typedef [v1_enum] N *P; typedef [v1_enum] N Q;"

/-- An enumeration that is given two names, in one statement and in two. -/
theorem parse_desugared_enum :
    let list : List TokenKind :=
      [.mark .openBracket, .attributeName .v1Enum, .mark .closeBracket]
    let body := Parser.bodied .enum (some "t")
      [.identifier "A", .mark .assign, .number "2"]
    let left := Parser.statement list body ⟨0, "N"⟩ [⟨1, "P"⟩, ⟨0, "Q"⟩]
    let right := Parser.statement list body ⟨0, "N"⟩ [] ++
      Parser.singles list [.identifier "N"] [⟨1, "P"⟩, ⟨0, "Q"⟩]
    Parser.OptionalList list ∧ Parser.Desugars list left right ∧ together.tokens.Holds left ∧
      apart.tokens.Holds right ∧ ∃ ds, together.parse = .ok ds ∧
        (Declaration.preorder ds).map Declaration.kindWord = ["enum", "typedef", "typedef"] ∧
        apart.parse = .ok ds := by
  intro list body left right
  have hlist : Parser.OptionalList list := @Parser.OptionalList.present [_] (by decide)
  have h : Parser.Desugars list left right := .body (.inl rfl) (some "t") (by decide) "N" _
  have hlexed : (together.tokens.tokens.map Token.kind = left ∧ together.tokens.error? = none) ∧
      apart.tokens.tokens.map Token.kind = right ∧ apart.tokens.error? = none := by
    decide +kernel
  have hleft : together.tokens.Holds left :=
    ⟨hlexed.1.1, Lexical.error?_eq_none_iff.mp hlexed.1.2⟩
  have hright : apart.tokens.Holds right :=
    ⟨hlexed.2.1, Lexical.error?_eq_none_iff.mp hlexed.2.2⟩
  have hwords : together.parse.toOption.map
      (fun ds => (Declaration.preorder ds).map Declaration.kindWord) =
        some ["enum", "typedef", "typedef"] := by
    decide +kernel
  obtain ⟨ds, hparse, hds⟩ := Declaration.exists_of_kindWords hwords
  exact ⟨hlist, h, hleft, hright, ds, hparse, hds, parse_desugared hlist h hleft hright hparse⟩

end Source

end Midl
