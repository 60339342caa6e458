import Midl.Proofs.Scanned

/-!
# Layout does not matter

A parser looks at kinds of tokens. Positions it passes on, if it fails, and it makes nothing of them
otherwise. So two streams of the same kinds are read as the same declarations, or with the same
error at the same place: at tokens with the same number, or at the end of both streams.

The frame for this is `Online`, in the case that nothing is added to the tokens. The relation
between positions that it is used with has to relate every position to some other, whether anything
stands there or not. `Corresponds` does, since it asks nothing of positions where nothing stands.
That something stands where an error is met is told by the tokens scanned (`ParseError.MetAfter`).
-/

namespace Midl

namespace TokenStream

/-- Where the tokens of a stream stand, and then where the input ends. -/
def positions (stream : TokenStream) : List Position :=
  stream.tokens.map Token.position ++
    match stream.stop with
    | .finished pos => [pos]
    | .failed _ => []

/-- Positions of tokens with the same number in two streams, or of the ends of both. -/
def SamePlace (stream stream' : TokenStream) (pos pos' : Position) : Prop :=
  ∃ i : Nat, stream.positions[i]? = some pos ∧ stream'.positions[i]? = some pos'

/-- Positions that are in the same place, if the first is in any place at all. -/
def Corresponds (stream stream' : TokenStream) (pos pos' : Position) : Prop :=
  ∀ other, stream.SamePlace stream' pos other → stream.SamePlace stream' pos pos'

variable {stream stream' : TokenStream} {kinds : List TokenKind}

/-- Every position has one that corresponds to it. -/
theorem exists_corresponds (stream stream' : TokenStream) (pos : Position) :
    ∃ pos', stream.Corresponds stream' pos pos' := by
  by_cases hplace : ∃ other, stream.SamePlace stream' pos other
  · obtain ⟨other, hother⟩ := hplace
    exact ⟨other, fun _ _ => hother⟩
  · exact ⟨pos, fun other hother => absurd ⟨other, hother⟩ hplace⟩

/-- There is a position for every token, and one for the end. -/
theorem Holds.length_positions (h : stream.Holds kinds) :
    stream.positions.length = kinds.length + 1 := by
  obtain ⟨hkinds, pos, hstop⟩ := h
  simp [positions, hstop, ← hkinds]

/-- Among streams of the same kinds every place has its counterpart. -/
theorem Holds.exists_samePlace (h : stream.Holds kinds) (h' : stream'.Holds kinds)
    {pos : Position} (hpos : pos ∈ stream.positions) :
    ∃ pos', stream.SamePlace stream' pos pos' := by
  obtain ⟨i, hi, hget⟩ := List.getElem_of_mem hpos
  have hi' : i < stream'.positions.length := by
    rw [h'.length_positions, ← h.length_positions]
    exact hi
  exact ⟨stream'.positions[i], i, by rw [List.getElem?_eq_getElem hi, hget],
    List.getElem?_eq_getElem hi'⟩

/-- A token stands at its position. -/
theorem positions_of_lt {i : Nat} (hi : i < stream.tokens.length) :
    stream.positions[i]? = some stream.tokens[i].position := by
  rw [positions, List.getElem?_append_left (by rwa [List.length_map]), List.getElem?_map,
    List.getElem?_eq_getElem hi]
  rfl

/-- The ends of two streams of the same kinds are at the same place. -/
theorem Holds.samePlace_stop (h : stream.Holds kinds) (h' : stream'.Holds kinds)
    {pos pos' : Position} (hstop : stream.stop = .finished pos)
    (hstop' : stream'.stop = .finished pos') : stream.SamePlace stream' pos pos' := by
  have hlength : stream'.tokens.length = stream.tokens.length := by
    rw [← List.length_map Token.kind, h'.kinds, ← h.kinds, List.length_map]
  refine ⟨stream.tokens.length, ?_, ?_⟩
  · simp [positions, hstop]
  · simp [positions, hstop', ← hlength]

/-- Tokens of the same kinds are alike, each with its own position. -/
theorem Holds.forall₂_alike (h : stream.Holds kinds) (h' : stream'.Holds kinds) :
    List.Forall₂ (Token.Alike (stream.Corresponds stream')) stream.tokens stream'.tokens := by
  have hkinds : stream.tokens.map Token.kind = stream'.tokens.map Token.kind :=
    h.kinds.trans h'.kinds.symm
  obtain ⟨hlength, halike⟩ := List.forall₂_iff_get.mp (Token.forall₂_alike_iff.mpr hkinds)
  refine List.forall₂_iff_get.mpr ⟨hlength, fun i hi hi' => ⟨(halike i hi hi').1, fun _ _ => ?_⟩⟩
  exact ⟨i, positions_of_lt hi, positions_of_lt hi'⟩

end TokenStream

/-! ## Errors -/

namespace ParseError

/-- The position that an error speaks of is that of a token, or the end of the input. -/
theorem MetAfter.mem_positions {stream : TokenStream} {scanned : List Token} {error : ParseError}
    (h : error.MetAfter stream scanned) (hscanned : scanned <+: stream.tokens)
    (hlexical : ∀ e, error ≠ .lexical e) {pos : Position} (hpos : error.position? = some pos) :
    pos ∈ stream.positions := by
  have htoken : ∀ t ∈ scanned, t.position ∈ stream.positions := fun t ht =>
    List.mem_append_left _ (List.mem_map_of_mem (hscanned.subset ht))
  cases error with
  | lexical e => exact absurd rfl (hlexical e)
  | mismatch expected found pos' =>
    obtain rfl := Option.some.inj hpos
    obtain ⟨t, hlast, rfl, -⟩ := h
    exact htoken t (List.mem_of_getLast? hlast)
  | emptyImport pos' =>
    obtain rfl := Option.some.inj hpos
    obtain ⟨t, -, rfl, hlast | hlast⟩ := h
    · exact htoken t (List.mem_of_getLast? hlast)
    · exact htoken t (List.dropLast_subset _ (List.mem_of_getLast? hlast))
  | unexpectedEnd expected pos' =>
    obtain rfl := Option.some.inj hpos
    obtain ⟨-, hstop⟩ := h
    simp [TokenStream.positions, hstop]

/-- Errors that are alike stay so if their positions correspond in another way. -/
theorem Alike.imp {positions positions' : Position → Position → Prop} {error error' : ParseError}
    (h : error.Alike positions error')
    (himp : ∀ pos pos', error.position? = some pos → positions pos pos' → positions' pos pos') :
    error.Alike positions' error' := by
  cases h with
  | lexical e => exact .lexical e
  | mismatch expected found hpos => exact .mismatch expected found (himp _ _ rfl hpos)
  | emptyImport hpos => exact .emptyImport (himp _ _ rfl hpos)
  | unexpectedEnd expected hpos => exact .unexpectedEnd expected (himp _ _ rfl hpos)

end ParseError

/-! ## Streams and sources -/

/-- Streams of the same kinds are read in the same way, up to positions that correspond. -/
theorem TokenStream.Holds.same {stream stream' : TokenStream} {kinds : List TokenKind}
    (h : stream.Holds kinds) (h' : stream'.Holds kinds) :
    Parser.Same (stream.Corresponds stream') []
      (declarations stream.tokens.length stream.initial)
      (declarations stream'.tokens.length stream'.initial) := by
  have hlength : stream.tokens.length = stream'.tokens.length := (h.forall₂_alike h').length_eq
  have honline := online_declarations (exists_corresponds stream stream')
    (Nat.le_refl stream.tokens.length) (Nat.le_of_eq hlength)
  obtain ⟨pos, hstop⟩ := h.finished
  obtain ⟨pos', hstop'⟩ := h'.finished
  have hstarts : Parser.StartsLike (stream.Corresponds stream') stream.initial stream'.initial [] :=
    ⟨stream'.tokens, (List.append_nil _).symm, h.forall₂_alike h'⟩
  have halike : stream.initial.stop.Alike (stream.Corresponds stream') stream'.initial.stop := by
    show stream.stop.Alike _ stream'.stop
    rw [hstop, hstop']
    exact fun _ _ => h.samePlace_stop h' hstop hstop'
  exact ((honline stream.initial (Nat.le_refl _)).same _ [] hstarts (.inr ⟨rfl, halike⟩)).1

namespace Source

/-- Sources with tokens of the same kinds are read as the same declarations, or else both are
refused for the same reason, which speaks of the same place in both of them. -/
theorem parse_of_same_kinds {source source' : Source} {kinds : List TokenKind}
    (h : source.tokens.Holds kinds) (h' : source'.tokens.Holds kinds) :
    (∃ ds, source.parse = .ok ds ∧ source'.parse = .ok ds) ∨
    ∃ error error', source.parse = .error error ∧ source'.parse = .error error' ∧
      (∀ e, error ≠ .lexical e) ∧
      error.Alike (source.tokens.SamePlace source'.tokens) error' := by
  have hsame := h.same h'
  have hkinds : ∀ t ∈ source.tokens.tokens, t.kind ≠ .eof := fun _ => kind_ne_eof
  have haccounted := TokenStream.accounted_declarations hkinds source.tokens.tokens.length
  unfold parse read
  rw [source.tokens.read_eq, source'.tokens.read_eq]
  generalize TokenStream.declarations source.tokens.tokens.length source.tokens.initial = result
    at hsame haccounted
  generalize TokenStream.declarations source'.tokens.tokens.length source'.tokens.initial = result'
    at hsame
  cases hsame with
  | ok ds _ => exact .inl ⟨ds, rfl, rfl⟩
  | @error error error' _ _ herror _ =>
    refine .inr ⟨error, error', rfl, rfl, ?_⟩
    cases haccounted with
    | error hscanned hmet =>
      have hlexical : ∀ e, error ≠ .lexical e := by
        rintro e rfl
        obtain ⟨pos, hstop⟩ := h.finished
        exact Stop.noConfusion (hstop.symm.trans hmet.2)
      refine ⟨hlexical, herror.imp fun pos pos' hpos hcorresponds => ?_⟩
      obtain ⟨other, hother⟩ :=
        h.exists_samePlace h' (hmet.mem_positions hscanned hlexical hpos)
      exact hcorresponds other hother

/-- An enumeration without a comma between its members, on a line. -/
def crowded : Source := ofText "enum E\x7bA B\x7d"

/-- The same tokens over several lines, between comments. -/
def spread : Source := ofText "#x\nenum // y\n E \x7b\nA\n  B \x7d"

/-- A syntax error in a source on one line and on several. -/
theorem parse_of_same_kinds_spread :
    let kinds : List TokenKind := [.keyword .enum, .identifier "E", .mark .openBrace,
      .identifier "A", .identifier "B", .mark .closeBrace]
    crowded.tokens.Holds kinds ∧ spread.tokens.Holds kinds ∧
    crowded.parse = .error (.mismatch "'\x7d'" "identifier 'B'" ⟨9, 1, 10⟩) ∧
    ∃ pos, spread.parse = .error (.mismatch "'\x7d'" "identifier 'B'" pos) ∧
      crowded.tokens.SamePlace spread.tokens ⟨9, 1, 10⟩ pos := by
  intro kinds
  have hkinds : crowded.tokens.tokens.map Token.kind = kinds ∧
      spread.tokens.tokens.map Token.kind = kinds := by decide +kernel
  have hstop : crowded.tokens.error? = none ∧ spread.tokens.error? = none := by decide +kernel
  have h : crowded.tokens.Holds kinds := ⟨hkinds.1, Lexical.error?_eq_none_iff.mp hstop.1⟩
  have h' : spread.tokens.Holds kinds := ⟨hkinds.2, Lexical.error?_eq_none_iff.mp hstop.2⟩
  have hrefused : crowded.parse.map (fun _ => ()) =
      .error (.mismatch "'\x7d'" "identifier 'B'" ⟨9, 1, 10⟩) := by decide +kernel
  obtain ⟨ds, hds, -⟩ | ⟨error, error', herror, herror', -, halike⟩ := parse_of_same_kinds h h'
  · rw [hds] at hrefused
    cases hrefused
  · rw [herror] at hrefused
    obtain rfl := Except.error.inj hrefused
    refine ⟨h, h', herror, ?_⟩
    cases halike with
    | mismatch _ _ hplace => exact ⟨_, herror', hplace⟩

end Source

end Midl
