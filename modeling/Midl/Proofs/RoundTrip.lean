import Midl.Proofs.Online
import Midl.Proofs.Productions

/-!
# Declarations are read back from their canonical text

A declaration is read from what it is written with, whatever follows, by induction on how deeply
it may be nested. So well-formed declarations are what their canonical text is read as.
-/

namespace Midl

namespace Parser

open Piece

/-! ## One declaration -/

/-- Attributes are read before a declaration that takes them. -/
theorem yields_leadingAttributes {as : List Attribute}
    (has : ∀ a ∈ as, a.kind.isParameter = false) {k : Keyword} (ks : List TokenKind)
    (hk : takesAttributes (.keyword k) = true) :
    Yields leadingAttributes (kindsAll (attributePieces as) ++ .keyword k :: ks) as
      (.keyword k :: ks) := by
  cases as with
  | nil => exact Yields.ifSees_other [] (by simp [attributePieces])
  | cons a as =>
    refine Yields.ifSees_self ((yields_attributeList (by simpa using has) _).bind ?_)
    apply Yields.peekBind
    rw [first_cons, if_pos hk]
    exact Yields.pure _

/-- A declaration with attributes before its keyword. -/
theorem yields_attributed {depth : Nat} {nested : Bool} {as : List Attribute}
    {ds : List Declaration} {k : Keyword} {ks ls : List TokenKind}
    (has : ∀ a ∈ as, a.kind.isParameter = false) (hk : takesAttributes (.keyword k) = true)
    (h : Yields (chosen (declaration depth true) nested as) (.keyword k :: ks) ds ls) :
    Yields (declaration (depth + 1) nested) (kindsAll (attributePieces as) ++ .keyword k :: ks)
      ds ls :=
  (yields_leadingAttributes has ks hk).bind (h.bind ((Yields.note _).bind (Yields.pure ds)))

/-- A declaration that begins with its keyword. -/
theorem yields_bare {depth : Nat} {nested : Bool} {ds : List Declaration} {k : Keyword}
    {ks ls : List TokenKind}
    (h : Yields (chosen (declaration depth true) nested []) (.keyword k :: ks) ds ls) :
    Yields (declaration (depth + 1) nested) (.keyword k :: ks) ds ls :=
  (Yields.ifSees_other [] (by simp)).bind (h.bind ((Yields.note _).bind (Yields.pure ds)))

/-- A parser of one declaration gives the declarations of a statement. -/
theorem yields_single {p : Parser Declaration} {d : Declaration} {ks ls : List TokenKind}
    (h : Yields p ks d ls) : Yields (List.singleton <$> p) ks [d] ls :=
  h.map

/-- A body that is given a name, with attributes or without. -/
theorem yields_bodyPieces {depth : Nat} {nested : Bool} {k : Keyword} {ident : String}
    {as : List Attribute} {body : List Piece} {d : Declaration} {ks : List TokenKind}
    (hbare : as = [] → Yields (chosen (declaration depth true) nested []) (.keyword k ::
      .identifier ident :: (kindsAll (braced body) ++ .mark .semicolon :: ks)) [d] ks)
    (htypedef : Yields typedefs (.keyword .typedef :: (kindsAll (attributePieces as) ++
      .keyword k :: (kindsAll (braced body) ++ .identifier ident :: .mark .semicolon :: ks)))
      [d] ks) :
    Yields (declaration (depth + 1) nested) (kindsAll (bodyPieces k ident as body) ++ ks) [d]
      ks := by
  cases as with
  | nil => simpa [bodyPieces] using yields_bare (hbare rfl)
  | cons a as =>
    have hchosen : Yields (chosen (declaration depth true) nested []) _ [d] ks :=
      Yields.peekBind htypedef
    simpa [bodyPieces] using yields_bare hchosen

/-- Attributes, if any, and a keyword begin a statement. -/
theorem begins_attributed (as : List Attribute) (k : Keyword) (ks : List TokenKind) :
    Begins StartsStatement (kindsAll (attributePieces as) ++ .keyword k :: ks) :=
  begins_attributePieces as (.inl rfl) ⟨_, _, rfl, .inr ⟨k, rfl⟩⟩

/-- So does what is printed for a declaration with a body. -/
theorem begins_bodyPieces (k : Keyword) (ident : String) (as : List Attribute)
    (body : List Piece) : Begins StartsStatement (kindsAll (bodyPieces k ident as body)) := by
  cases as with
  | nil => exact ⟨_, _, rfl, .inr ⟨k, rfl⟩⟩
  | cons a as => exact ⟨_, _, rfl, .inr ⟨.typedef, rfl⟩⟩

/-- So does what is printed for any declaration. -/
theorem begins_declaration (d : Declaration) :
    Begins StartsStatement (kindsAll d.pieces) := by
  cases d with
  | interface i =>
    simpa [Declaration.pieces, Interface.pieces] using begins_attributed i.attributes .interface _
  | enumeration e => exact begins_bodyPieces _ _ _ _
  | record r => exact begins_bodyPieces _ _ _ _
  | coclass c =>
    simpa [Declaration.pieces, CoClass.pieces] using begins_attributed c.attributes .coclass _
  | group kind ident as body =>
    simpa [Declaration.pieces] using begins_attributed as kind.keyword _
  | directive kind text =>
    cases kind <;> exact ⟨_, _, rfl, .inr ⟨_, rfl⟩⟩
  | _ => exact ⟨_, _, rfl, .inr ⟨_, rfl⟩⟩

/-! ## Declarations in a row

A statement can declare several names, so what is read is a list of lists. Each declaration is
written as a statement of its own. -/

/-- Declarations, each as a statement of its own. -/
def statements (ds : List Declaration) : List (List Declaration) := ds.map ([·])

/-- One statement for each declaration makes all of them. -/
theorem statements_flatten (ds : List Declaration) : (statements ds).flatten = ds := by
  rw [statements, ← List.flatMap_def, List.flatMap_singleton']

/-- Printing statements is printing declarations. -/
theorem statements_pieces (ds : List Declaration) :
    (statements ds).flatMap Declaration.piecesAll = Declaration.piecesAll ds := by
  induction ds with
  | nil => rfl
  | cons d ds ih =>
    have hcons : statements (d :: ds) = [d] :: statements ds := rfl
    rw [hcons, List.flatMap_cons, ih]
    simp [Declaration.piecesAll]

/-- A printed statement does not begin with a token that no statement begins with. -/
theorem begins_statement {ds : List Declaration} {statement : List Declaration}
    (h : statement ∈ statements ds) {other : TokenKind} (hother : ¬StartsStatement other) :
    Begins (· ≠ other) (kindsAll (Declaration.piecesAll statement)) := by
  obtain ⟨d, -, rfl⟩ := List.mem_map.mp h
  rw [Declaration.piecesAll, kindsAll_append]
  refine ((begins_declaration d).mono ?_).append _
  rintro k hk rfl
  exact hother hk

/-- A printed statement is read as its declaration. -/
theorem yields_statement {depth : Nat} {nested : Bool} {ds : List Declaration}
    (h : ∀ d ∈ ds, ∀ ks, Yields (declaration depth nested) (kindsAll d.pieces ++ ks) [d] ks)
    {statement : List Declaration} (hstatement : statement ∈ statements ds)
    (ks : List TokenKind) :
    Yields (declaration depth nested) (kindsAll (Declaration.piecesAll statement) ++ ks) statement
      ks := by
  obtain ⟨d, hd, rfl⟩ := List.mem_map.mp hstatement
  simpa [Declaration.piecesAll] using h d hd ks

/-- A printed library or module is read as it was, if what it holds is. -/
theorem yields_group {depth : Nat} {kind : GroupKind} {ident : String} {as : List Attribute}
    {body : List Declaration}
    (h : ∀ d ∈ body, ∀ ks, Yields (declaration depth true) (kindsAll d.pieces ++ ks) [d] ks)
    (ks : List TokenKind) :
    Yields (group (declaration depth true) kind as) (.keyword kind.keyword :: .identifier ident ::
      (kindsAll (braced (Declaration.piecesAll body)) ++ .mark .semicolon :: ks))
      (.group kind ident as body) ks := by
  refine (Yields.advance _).bind ((Yields.identifier _ ident).bind ?_)
  rw [← statements_pieces body]
  apply yields_braced
  · exact fun statement hstatement => begins_statement hstatement (by simp [StartsStatement])
  · exact fun statement hstatement => yields_statement h hstatement
  · rw [statements_flatten]
    exact (Yields.discardEat_self _).bind (Yields.pure _)

/-- A declaration takes no more tokens than all of them. -/
theorem length_le_of_mem {d : Declaration} {ds : List Declaration} (h : d ∈ ds) :
    (kindsAll d.pieces).length ≤ (kindsAll (Declaration.piecesAll ds)).length := by
  induction ds with
  | nil => simp at h
  | cons e ds ih =>
    rw [Declaration.piecesAll, kindsAll_append, List.length_append]
    rcases List.mem_cons.mp h with rfl | h
    · omega
    · have := ih h
      omega

/-- A declaration is read from what it is written with. The depth suffices if it is no less than
the number of tokens, since those of a declaration in a block are fewer. -/
theorem yields_declaration {depth : Nat} {nested : Bool} {d : Declaration}
    (h : d.WellFormed TokenKind.Writable nested) (hdepth : (kindsAll d.pieces).length ≤ depth)
    (ks : List TokenKind) :
    Yields (declaration depth nested) (kindsAll d.pieces ++ ks) [d] ks := by
  induction depth generalizing d nested ks with
  | zero =>
    obtain ⟨k, ls, hk, -⟩ := begins_declaration d
    rw [hk] at hdepth
    simp at hdepth
  | succ depth ih =>
    cases d with
    | imports files =>
      have hchosen : Yields (chosen (declaration depth true) nested []) _ _ ks :=
        Yields.peekBind (yields_single (yields_importFiles h.1 ks))
      simpa [Declaration.pieces] using yields_bare hchosen
    | interface i =>
      have hchosen : Yields (chosen (declaration depth true) nested i.attributes) _ _ ks :=
        Yields.peekBind (yields_single (yields_interface h ks))
      simpa [Declaration.pieces, Interface.pieces] using
        yields_attributed h.attributes.declarative rfl hchosen
    | enumeration e =>
      refine yields_bodyPieces ?_ (yields_typedefs_enumeration h ks)
      intro hattributes
      refine Yields.peekBind (yields_single ?_)
      rw [← hattributes]
      exact yields_enumeration h ks
    | record r =>
      refine yields_bodyPieces ?_ (yields_typedefs_record h ks)
      intro hattributes
      refine Yields.peekBind (yields_single ?_)
      rw [← hattributes]
      exact yields_record h ks
    | typedef t =>
      have hchosen : Yields (chosen (declaration depth true) nested []) _ _ ks :=
        Yields.peekBind (yields_typedefs_typedef h ks)
      exact yields_bare hchosen
    | coclass c =>
      have hchosen : Yields (chosen (declaration depth true) nested c.attributes) _ _ ks :=
        Yields.peekBind (yields_single (yields_coclass h ks))
      simpa [Declaration.pieces, CoClass.pieces] using
        yields_attributed h.attributes.declarative rfl hchosen
    | group kind ident as body =>
      obtain ⟨-, hattributes, hbody⟩ := h
      have hinner : ∀ d ∈ body, ∀ ks,
          Yields (declaration depth true) (kindsAll d.pieces ++ ks) [d] ks := by
        intro d hd ks
        -- The keyword and the name of the block are tokens that its body does not have.
        refine ih (Declaration.allWellFormed_iff.mp hbody d hd) ?_ ks
        have hle := length_le_of_mem hd
        simp only [Declaration.pieces, braced, kindsAll_append, kindsAll_cons, kinds_mark,
          List.length_append, List.length_cons] at hdepth
        omega
      have htakes : takesAttributes (.keyword kind.keyword) = true := by cases kind <;> rfl
      have hchosen : Yields (chosen (declaration depth true) nested as)
          (.keyword kind.keyword :: .identifier ident ::
            (kindsAll (braced (Declaration.piecesAll body)) ++ .mark .semicolon :: ks))
          [.group kind ident as body] ks := by
        cases kind <;> exact Yields.peekBind (yields_single (yields_group hinner ks))
      simpa [Declaration.pieces] using
        yields_attributed hattributes.declarative htakes hchosen
    | importLibrary file =>
      obtain ⟨rfl, -⟩ := h
      have hchosen : Yields (chosen (declaration depth true) true []) _ _ ks :=
        Yields.peekBind (yields_single (yields_importLibrary file ks))
      exact yields_bare hchosen
    | constant c =>
      obtain ⟨rfl, hc⟩ := h
      have hchosen : Yields (chosen (declaration depth true) true []) _ _ ks :=
        Yields.peekBind (yields_single (yields_constant hc ks))
      exact yields_bare hchosen
    | directive kind text =>
      cases kind with
      | cppQuote =>
        have hchosen : Yields (chosen (declaration depth true) nested []) _ _ ks :=
          Yields.peekBind (yields_single (yields_cppQuote text ks))
        exact yields_bare hchosen
      | midlPragma =>
        have hchosen : Yields (chosen (declaration depth true) nested []) _ _ ks :=
          Yields.peekBind (yields_single (yields_pragma h ks))
        simpa [Declaration.pieces] using yields_bare hchosen

/-- Declarations are read from what they are written with. -/
theorem yields_declarations {depth : Nat} {ds : List Declaration}
    (h : Declaration.AllWellFormed TokenKind.Writable false ds)
    (hdepth : (kindsAll (Declaration.piecesAll ds)).length ≤ depth) :
    Yields (declarations depth) (kindsAll (Declaration.piecesAll ds)) ds [] := by
  have hitem : ∀ d ∈ ds, ∀ ks, Yields (declaration depth false) (kindsAll d.pieces ++ ks) [d] ks :=
    fun d hd => yields_declaration (Declaration.allWellFormed_iff.mp h d hd)
      (Nat.le_trans (length_le_of_mem hd) hdepth)
  have hmany : Yields (manyUntil .eof (declaration depth false))
      ((statements ds).flatMap (fun statement => kindsAll (Declaration.piecesAll statement)) ++ [])
      (statements ds) [] := by
    refine Yields.manyUntil ?_ rfl fun statement hstatement => yields_statement hitem hstatement
    exact fun statement hstatement => begins_statement hstatement (by simp [StartsStatement])
  rw [List.append_nil, ← kindsAll_flatMap, statements_pieces] at hmany
  have hflatten := hmany.map (f := List.flatten)
  rw [statements_flatten] at hflatten
  exact hflatten

end Parser

/-- A token stream that is finished is read as what its kinds are read as. -/
theorem TokenStream.read_of_yields {stream : TokenStream} {kinds : List TokenKind}
    {ds : List Declaration} (hkinds : stream.tokens.map Token.kind = kinds)
    (hstop : ∃ pos, stream.stop = .finished pos)
    (h : (Parser.declarations stream.tokens.length).Yields kinds ds []) :
    stream.read.result = .ok ds := by
  have hread : Parser.Yields (do
      Parser.arrive
      Parser.declarations stream.tokens.length) kinds ds [] :=
    Parser.Yields.arrive.bind h
  obtain ⟨s, hs, -⟩ := hread { tokens := stream.tokens, stop := stream.stop, log := #[] }
    ⟨hkinds, hstop⟩
  unfold TokenStream.read
  dsimp only
  rw [hs]

namespace Declaration

/-- Well-formed declarations are what their canonical text is read as. -/
theorem parse_print {ds : List Declaration} (h : AllWellFormed TokenKind.Writable false ds) :
    (Source.ofText (print ds)).parse = .ok ds := by
  obtain ⟨hkinds, hstop⟩ := Piece.tokens_ofText_layout (allSpelled_piecesAll h)
  have hlength : (Piece.kindsAll (piecesAll ds)).length =
      (Source.ofText (print ds)).tokens.tokens.length := by
    rw [← hkinds, List.length_map]
    rfl
  exact TokenStream.read_of_yields hkinds hstop
    (Parser.yields_declarations h (Nat.le_of_eq hlength))

/-- Declarations of every kind, nested ones among them. -/
def assortment : List Declaration :=
  [.imports ["unknwn.idl", "größe.idl"],
    .directive .cppQuote "// naïve",
    .directive .midlPragma "warning ( disable : 4049 ( \"a\" ) )",
    .enumeration ⟨"Flags", [⟨.v1Enum, none⟩, ⟨.input, none⟩],
      [⟨"none", none⟩, ⟨"both", some ["0x1", "other"]⟩]⟩,
    .enumeration ⟨"Empty", [], []⟩,
    .record ⟨"Pair", [], [⟨[⟨.sizeIs, some "*n"⟩], "const unsigned long", 2, "items", true⟩]⟩,
    .typedef { name := "Handle", typeName := "void const", indirection := 1,
               attributes := [⟨.helpString, some "a, b"⟩] },
    .interface ⟨"IChild", some "IParent", [⟨.object, none⟩, ⟨.uuid, some "00-1"⟩],
      [⟨"Get", "long**", [⟨[⟨.input, none⟩], "Pair", 0, "pair", false⟩,
        ⟨[], "long long", 1, "out_", false⟩], [⟨.propGet, none⟩]⟩]⟩,
    .group .library "Lib" [⟨.version, some "1.0"⟩]
      [.importLibrary "stdole2.tlb",
        .group .module "Values" []
          [.constant ⟨"Name", "const char*", .text "été"⟩,
            .constant ⟨"Mask", "long", .operands ["1", "Flag"]⟩],
        .coclass ⟨"Child", [], [⟨"IChild", none, [⟨.isDefault, none⟩], []⟩]⟩]]

/-- The assortment is well-formed. -/
theorem wellFormed_assortment : AllWellFormed TokenKind.Writable false assortment := by
  have htype : ∀ words : List Parser.Word,
      (∀ w ∈ words, w.kind.Writable) ∧ (∃ w ∈ words, w ≠ .const) →
      IsTypeText TokenKind.Writable (" ".intercalate (words.map Parser.Word.text)) :=
    fun words h => ⟨words, ⟨h.1, h.2⟩, rfl⟩
  have hunsigned := htype [.const, .name "unsigned", .long] (by decide +kernel)
  have hvoid := htype [.name "void", .const] (by decide +kernel)
  have hpair := htype [.name "Pair"] (by decide +kernel)
  have hlonglong := htype [.long, .long] (by decide +kernel)
  have hlong := htype [.long] (by decide +kernel)
  have hchar := htype [.const, .name "char"] (by decide +kernel)
  refine ⟨?_, ?_, ?_, ?_, ?_, ?_, ?_, ?_, ?_, trivial⟩
  · constructor <;> decide +kernel
  · show (TokenKind.string _).Writable
    decide +kernel
  · refine ⟨"warning", [.identifier "disable", .mark .colon, .number "4049", .mark .openParen,
      .string "a", .mark .closeParen, .mark .closeParen], ?_, ?_, ?_, ?_⟩ <;> decide +kernel
  · constructor <;> decide +kernel
  · constructor <;> decide +kernel
  · refine ⟨by decide +kernel, by decide +kernel, List.forall_mem_singleton.mpr ?_⟩
    exact ⟨by decide +kernel, hunsigned, by decide +kernel⟩
  · exact ⟨by decide +kernel, hvoid, by decide +kernel⟩
  · refine ⟨by decide +kernel, by decide +kernel, by decide +kernel,
      List.forall_mem_singleton.mpr ?_⟩
    refine ⟨by decide +kernel, ⟨⟨"long", 2⟩, hlong, rfl⟩, by decide +kernel,
      List.forall_mem_cons.mpr ⟨?_, List.forall_mem_singleton.mpr ?_⟩⟩
    · exact ⟨by decide +kernel, hpair, by decide +kernel⟩
    · exact ⟨by decide +kernel, hlonglong, by decide +kernel⟩
  · refine ⟨by decide +kernel, by decide +kernel, ⟨rfl, by decide +kernel⟩,
      ⟨by decide +kernel, by decide +kernel, ⟨rfl, ?_⟩, ⟨rfl, ?_⟩, trivial⟩, ?_, trivial⟩
    · exact ⟨by decide +kernel, ⟨⟨"const char", 1⟩, hchar, rfl⟩, by decide +kernel⟩
    · exact ⟨by decide +kernel, ⟨⟨"long", 0⟩, hlong, rfl⟩, by decide +kernel⟩
    · refine ⟨by decide +kernel, by decide +kernel, List.forall_mem_singleton.mpr ?_⟩
      exact ⟨by decide +kernel, by decide +kernel, rfl, rfl⟩

/-- One declaration of each kind is printed and read back. -/
theorem parse_print_assortment : AllWellFormed TokenKind.Writable false assortment ∧
    (Source.ofText (print assortment)).parse = .ok assortment :=
  ⟨wellFormed_assortment, parse_print wellFormed_assortment⟩

end Declaration

end Midl
