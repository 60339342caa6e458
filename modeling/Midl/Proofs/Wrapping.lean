import Midl.Proofs.Concatenation
import Midl.Proofs.RoundTrip

/-!
# Sources inside libraries and modules

Whatever can be read by itself can be read in a library or module, and means the same there. A
source is put into one as it is, comments without an end included: a line feed keeps it apart from
the brace after it. No declaration begins with that brace, so that declarations are read up to it as
they are read up to the end of the input.

* `Layer.holds_around`: the tokens of a source that is put into a library or module.
* `Parser.yields_enclosed`: the declarations that are read up to the brace.
* `Source.parse_enclosed`: what is read of a source inside any number of libraries and modules.
-/

namespace Midl

/-! ## Tokens -/

section Holds

variable {pos : Position} {bytes : List UInt8} {ks : List TokenKind}

/-- Where a source stands makes no difference. -/
theorem TokenStream.Holds.elsewhere (h : (Source.ofBytes bytes).tokens.Holds ks)
    (pos : Position) : ((Cursor.mk pos bytes).tokens .eof).Holds ks := by
  obtain ⟨hkinds, start, hstop⟩ := h
  obtain ⟨halike, hends⟩ := Cursor.tokens_alike .eof (Cursor.start bytes) ⟨pos, bytes⟩ rfl
  exact ⟨(Token.forall₂_alike_iff.mp halike).symm.trans hkinds, hends start hstop⟩

/-- A line feed parts a source from what follows. -/
theorem TokenStream.Holds.newline {ls : List TokenKind} {more : List UInt8}
    (h : ((Cursor.mk pos bytes).tokens .eof).Holds ks)
    (hmore : ∀ pos, ((Cursor.mk pos more).tokens .eof).Holds ls) :
    ((Cursor.mk pos (bytes ++ '\n'.toUInt8 :: more)).tokens .eof).Holds (ks ++ ls) := by
  obtain ⟨hks, pos', hstop⟩ := h
  obtain ⟨hls, hfinished⟩ := hmore (pos'.after '\n'.toUInt8)
  rw [Cursor.tokens_newline hstop more]
  exact ⟨by rw [List.map_append, hks, hls], hfinished⟩

end Holds

/-- A library or module that something is put into. -/
structure Layer where
  /-- Which of the two it is. -/
  kind : GroupKind
  /-- Its name, in bytes. -/
  name : List UInt8

namespace Layer

/-- The name is read as a name, all of it. -/
def Named (layer : Layer) : Prop :=
  (Source.ofBytes layer.name).tokens.tokens.map Token.kind = [.identifier (Byte.text layer.name)]

instance (layer : Layer) : Decidable layer.Named :=
  inferInstanceAs (Decidable (_ = _))

/-- A source inside the layer. -/
def around (layer : Layer) (bytes : List UInt8) : List UInt8 :=
  Utf8.encode (layer.kind.keyword.text ++ " ").toList ++ layer.name ++
    Utf8.encode " \x7b\n".toList ++ bytes ++ Utf8.encode "\n\x7d".toList

/-- Declarations inside the layer. -/
def declare (layer : Layer) (ds : List Declaration) : List Declaration :=
  [.group layer.kind (Byte.text layer.name) [] ds]

/-- A name is a single literal run. -/
theorem Named.kindOf? {layer : Layer} (h : layer.Named) :
    Run.kindOf? layer.name = some (.identifier (Byte.text layer.name)) := by
  obtain ⟨t, c, hscan, hkind⟩ := scan_of_kinds h
  rcases scan_cases hscan with ⟨lexeme, hin, hlexeme⟩ | ⟨s, hs, -⟩ | ⟨m, hm⟩
  · rw [hkind] at hlexeme
    have htext : Byte.text layer.name = Byte.text lexeme := Run.text_of_kindOf? hlexeme
    -- There are as many bytes in the run as in the name, so it leaves none out.
    have hlength := congrArg (·.toList.length) htext
    simp only [Byte.text, String.toList_ofList, List.length_map] at hlength
    obtain rfl : lexeme = layer.name := hin.eq_of_length hlength.symm
    exact hlexeme
  · rw [hs] at hkind
    cases hkind
  · rw [hm] at hkind
    cases hkind

/-- The tokens of a layer are put around those of what it holds. -/
theorem holds_around {layer : Layer} (hname : layer.Named) {bytes : List UInt8}
    {ks : List TokenKind} (h : (Source.ofBytes bytes).tokens.Holds ks) :
    (Source.ofBytes (layer.around bytes)).tokens.Holds (.keyword layer.kind.keyword ::
      .identifier (Byte.text layer.name) :: .mark .openBrace :: (ks ++ [.mark .closeBrace])) := by
  have hspace : ∀ rest, Parts (' '.toUInt8 :: rest) := by
    rintro rest _ ⟨⟩
    decide
  have hclose : ∀ pos, ((Cursor.mk pos ['\x7d'.toUInt8]).tokens .eof).Holds [.mark .closeBrace] :=
    fun pos => (TokenStream.Holds.nil _).token (scan_mark (m := .closeBrace) nofun pos [])
  have hbody := fun pos => (h.elsewhere pos).newline hclose
  have hopen := fun pos => (TokenStream.Holds.blank (b := '\n'.toUInt8) (by decide)
    (hbody _)).token (scan_mark (m := .openBrace) nofun pos _)
  have hnamed := fun pos => (TokenStream.Holds.blank (b := ' '.toUInt8) (by decide)
    (hopen _)).token (scan_run hname.kindOf? pos (hspace _))
  have hall := (TokenStream.Holds.blank (b := ' '.toUInt8) (by decide) (hnamed _)).token
    (scan_run (kindOf?_keyword layer.kind.keyword) .start (hspace _))
  have hbytes : layer.around bytes = Utf8.encode layer.kind.keyword.text.toList ++
      ' '.toUInt8 :: (layer.name ++ ' '.toUInt8 :: Mark.openBrace.char.toUInt8 ::
        '\n'.toUInt8 :: (bytes ++ '\n'.toUInt8 :: ['\x7d'.toUInt8])) := by
    unfold around
    rw [String.toList_append, encode_append]
    simp only [List.append_assoc]
    rfl
  rw [hbytes]
  exact hall

end Layer

/-! ## Declarations -/

namespace Parser

/-- What is read until a token comes is read once, if that token follows. -/
theorem Yields.manyUntil_single {kind : TokenKind} {item : Parser α} {a : α}
    {ks ls : List TokenKind} (h : Yields item ks a ls) (hfirst : first ks ≠ kind)
    (hlast : first ls = kind) (hlength : ls.length < ks.length) :
    Yields (Parser.manyUntil kind item) ks [a] ls := by
  refine Yields.many_cons (Yields.peekBind ?_) hlength (Yields.many_nil (Yields.peekBind ?_))
  · rw [if_neg hfirst]
    exact h.map
  · rw [if_pos hlast]
    exact Yields.pure none

/-- No statement begins with a closing brace. -/
theorem not_startsStatement_closeBrace : ¬StartsStatement (.mark .closeBrace) := by
  simp [StartsStatement]

/-- What is read up to the end of a stream is read up to a brace. -/
theorem yields_enclosed {stream : TokenStream} {ds : List Declaration}
    (h : stream.read.result = .ok ds) (hkinds : ∀ t ∈ stream.tokens, t.kind ≠ .eof) {depth : Nat}
    (rest : List TokenKind) (hdepth : stream.tokens.length + rest.length < depth) :
    ∃ dss, dss.flatten = ds ∧ Yields (manyUntil (.mark .closeBrace) (declaration depth true))
      (stream.tokens.map Token.kind ++ .mark .closeBrace :: rest) dss
      (.mark .closeBrace :: rest) := by
  obtain ⟨s, dss, s', htokens, -, hflatten, hrun⟩ := TokenStream.exists_manyUntil_of_read h
  refine ⟨dss, hflatten, fun t ht => ?_⟩
  obtain ⟨ts, us, hsplit, hts, hus⟩ := List.map_eq_append_iff.mp ht.kinds
  have hleft : s.left = stream.tokens.length := by rw [s.left_eq, htokens]
  have hleft' : t.left ≤ depth := by
    rw [ht.left, List.length_append, List.length_map, List.length_cons]
    exact hdepth
  have hjoins : Joins (fun _ _ => True) s t us := by
    refine ⟨⟨ts, hsplit, ?_⟩, ht.finished, fun u hu => ?_⟩
    · rw [htokens]
      exact Token.forall₂_alike_iff.mpr hts.symm
    · have hfirst := congrArg List.head? hus
      rw [List.head?_map, hu] at hfirst
      rw [Option.some.inj hfirst]
      exact nofun
  obtain ⟨t', htokens', hstop', hrest⟩ := hjoins.manyUntil_declaration (fun pos => ⟨pos, trivial⟩)
    not_startsStatement_closeBrace true (Nat.le_of_eq hleft) hleft'
    (fun x hx => hkinds x (htokens ▸ hx)) hrun
  have ht' : t'.At (.mark .closeBrace :: rest) := ⟨by rw [htokens', hus], hstop'⟩
  refine ⟨t', ?_, ht'⟩
  rw [hrest [] t' (manyUntil_of_eq ht'.current), List.append_nil]

/-- A library or module and nothing else. -/
theorem yields_layer {depth : Nat} {dss : List (List Declaration)} {ks : List TokenKind}
    (kind : GroupKind) (name : String)
    (h : Yields (manyUntil (.mark .closeBrace) (declaration depth true))
      (ks ++ [.mark .closeBrace]) dss [.mark .closeBrace]) :
    Yields (declarations (depth + 1)) (.keyword kind.keyword :: .identifier name ::
      .mark .openBrace :: (ks ++ [.mark .closeBrace])) [.group kind name [] dss.flatten] [] := by
  have hgroup : Yields (group (declaration depth true) kind []) (.keyword kind.keyword ::
      .identifier name :: .mark .openBrace :: (ks ++ [.mark .closeBrace]))
      (.group kind name [] dss.flatten) [] := by
    refine (Yields.advance _).bind ((Yields.identifier _ name).bind ((Yields.expect _).bind ?_))
    refine h.bind ((Yields.expect _).bind ?_)
    exact (Yields.discardEat_other (by decide)).bind (Yields.pure _)
  have hchosen : Yields (chosen (declaration depth true) false []) (.keyword kind.keyword ::
      .identifier name :: .mark .openBrace :: (ks ++ [.mark .closeBrace]))
      [.group kind name [] dss.flatten] [] := by
    cases kind <;> exact Yields.peekBind (yields_single hgroup)
  have hall : Yields (manyUntil .eof (declaration (depth + 1) false)) _ _ [] :=
    (yields_bare hchosen).manyUntil_single nofun rfl (Nat.succ_pos _)
  exact hall.map

end Parser

namespace Source

/-- Bytes in a layer are read as the layer around what they are read as. -/
theorem parse_around {layer : Layer} (hname : layer.Named) {bytes : List UInt8}
    {ds : List Declaration} (h : (ofBytes bytes).parse = .ok ds) :
    (ofBytes (layer.around bytes)).parse = .ok (layer.declare ds) := by
  have hholds := layer.holds_around hname ⟨rfl, finished_of_parse h⟩
  have hlength := congrArg List.length hholds.kinds
  simp only [List.length_map, List.length_cons, List.length_append, List.length_nil] at hlength
  -- The keyword, the name and the braces are tokens, so there is depth enough for what is inside.
  obtain ⟨depth, hdepth⟩ : ∃ depth,
      (ofBytes (layer.around bytes)).tokens.tokens.length = depth + 1 := ⟨_, hlength⟩
  obtain ⟨dss, rfl, hdss⟩ := Parser.yields_enclosed h (fun t ht => kind_ne_eof ht) []
    (show _ < depth by rw [List.length_nil]; omega)
  refine TokenStream.read_of_yields hholds.kinds hholds.finished ?_
  rw [hdepth]
  exact Parser.yields_layer layer.kind _ hdss

/-- What is read of a source is read of it inside libraries and modules, whatever their names and
however many there are: the outermost comes first in `layers`. -/
theorem parse_enclosed {bytes : List UInt8} {ds : List Declaration} {layers : List Layer}
    (hnames : ∀ layer ∈ layers, layer.Named) (h : (ofBytes bytes).parse = .ok ds) :
    (ofBytes (layers.foldr Layer.around bytes)).parse = .ok (layers.foldr Layer.declare ds) := by
  induction layers with
  | nil => exact h
  | cons layer layers ih =>
    obtain ⟨hname, hnames⟩ := List.forall_mem_cons.mp hnames
    exact parse_around hname (ih hnames)

/-- A module in a library. -/
def nestedLayers : List Layer :=
  [⟨.library, Utf8.encode "Lib".toList⟩, ⟨.module, Utf8.encode "m_2".toList⟩]

/-- A module in a library, around declarations that end in a comment. -/
theorem parse_enclosed_openEnded :
    ∃ ds, (ofBytes openEnded).parse = .ok ds ∧
      (Declaration.preorder ds).map Declaration.kindWord = ["import", "enum"] ∧
      (∀ layer ∈ nestedLayers, layer.Named) ∧
      (ofBytes (nestedLayers.foldr Layer.around openEnded)).parse =
        .ok [.group .library "Lib" [] [.group .module "m_2" [] ds]] := by
  have hwords : (ofBytes openEnded).parse.toOption.map
      (fun ds => (Declaration.preorder ds).map Declaration.kindWord) = some ["import", "enum"] := by
    decide +kernel
  have hnames : ∀ layer ∈ nestedLayers, layer.Named := by decide +kernel
  obtain ⟨ds, h, hds⟩ := Declaration.exists_of_kindWords hwords
  exact ⟨ds, h, hds, hnames, parse_enclosed hnames h⟩

end Source

end Midl
