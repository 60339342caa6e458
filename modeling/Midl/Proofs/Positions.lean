import Mathlib.Data.List.DropRight
import Midl.Proofs.Scanned

/-!
# Positions are exact

A position is found by stepping over bytes one at a time, through trivia, runs and strings. It can
be found by counting as well: `Position.Exact` counts the bytes, the line feeds among them, and the
bytes after the last line feed. Both come to the same for the position of every token, of every
error that has one, and of the end of the input (`Source.positions_exact`).

What is before a token is told from the factorization of the source, where each lexeme has its
place, and not from the positions themselves.
-/

namespace Midl

/-! ## Counting -/

namespace Position

/-- A position in some bytes that agrees with counting them. The line is told from the line feeds
before it, and the column from the bytes after the last of these. -/
structure Exact (bytes : List UInt8) (p : Position) : Prop where
  offset_le : p.offset ≤ bytes.length
  line_eq : p.line = 1 + (bytes.take p.offset).count '\n'.toUInt8
  column_eq : p.column = 1 + ((bytes.take p.offset).rtakeWhile (· ≠ '\n'.toUInt8)).length

/-- The last byte is passed last. -/
theorem advance_concat (p : Position) (bs : List UInt8) (b : UInt8) :
    p.advance (bs ++ [b]) = (p.advance bs).after b := by
  rw [advance_append, advance_cons, advance_nil]

/-- A byte adds one to the offset. -/
theorem offset_after (p : Position) (b : UInt8) : (p.after b).offset = p.offset + 1 := by
  unfold after
  split <;> rfl

/-- Bytes add their number to it. -/
theorem offset_advance (p : Position) (bs : List UInt8) :
    (p.advance bs).offset = p.offset + bs.length := by
  induction bs generalizing p with
  | nil => rfl
  | cons b bs ih =>
    rw [advance_cons, ih, offset_after, List.length_cons]
    omega

/-- The offset is the number of bytes passed. -/
theorem offset_advance_start (bs : List UInt8) : (start.advance bs).offset = bs.length := by
  rw [offset_advance, start, Nat.zero_add]

/-- The line is one more than the number of line feeds passed. -/
theorem line_advance_start (bs : List UInt8) :
    (start.advance bs).line = 1 + bs.count '\n'.toUInt8 := by
  induction bs using List.reverseRecOn with
  | nil => rfl
  | append_singleton bs b ih =>
    rw [advance_concat, after, List.count_append, List.count_singleton]
    by_cases hb : b = '\n'.toUInt8
    · simp [hb, ih, Nat.add_assoc]
    · simp [hb, ih]

/-- The column is one more than the number of bytes passed since the last line feed. -/
theorem column_advance_start (bs : List UInt8) :
    (start.advance bs).column = 1 + (bs.rtakeWhile (· ≠ '\n'.toUInt8)).length := by
  induction bs using List.reverseRecOn with
  | nil => rfl
  | append_singleton bs b ih =>
    rw [advance_concat, after, List.rtakeWhile_concat]
    by_cases hb : b = '\n'.toUInt8
    · simp [hb]
    · simp [hb, ih, Nat.add_assoc]

/-- The position after the first bytes of a source agrees with counting them. -/
theorem exact_advance_start {before bytes : List UInt8} (h : before <+: bytes) :
    (start.advance before).Exact bytes := by
  have htake : bytes.take (start.advance before).offset = before := by
    rw [offset_advance_start]
    exact (List.prefix_iff_eq_take.mp h).symm
  refine ⟨?_, ?_, ?_⟩
  · rw [offset_advance_start]
    exact h.length_le
  · rw [htake, line_advance_start]
  · rw [htake, column_advance_start]

end Position

/-! ## Places -/

namespace Lexical

namespace Factorization

/-- Each lexeme with all that comes before it, where `passed` comes before the first piece. -/
def placesAfter (passed : List UInt8) :
    List (List UInt8 × List UInt8) → List (List UInt8 × List UInt8)
  | [] => []
  | (gap, lexeme) :: pieces =>
    (passed ++ gap, lexeme) :: placesAfter (passed ++ gap ++ lexeme) pieces

/-- Each lexeme with all that comes before it. -/
def places (f : Factorization) : List (List UInt8 × List UInt8) := placesAfter [] f.pieces

/-- Places are those of the lexemes, in order. -/
theorem map_snd_placesAfter (passed : List UInt8) (pieces : List (List UInt8 × List UInt8)) :
    (placesAfter passed pieces).map Prod.snd = pieces.map Prod.snd := by
  induction pieces generalizing passed with
  | nil => rfl
  | cons piece pieces ih => rw [placesAfter, List.map_cons, List.map_cons, ih]

/-- The places of a factorization are those of its lexemes. -/
theorem map_snd_places (f : Factorization) : f.places.map Prod.snd = f.lexemes :=
  map_snd_placesAfter [] f.pieces

/-- A lexeme comes after what has been passed, and after all that is before it. -/
theorem prefix_of_mem_placesAfter {passed : List UInt8} {pieces : List (List UInt8 × List UInt8)}
    {place : List UInt8 × List UInt8} (h : place ∈ placesAfter passed pieces) :
    passed <+: place.1 ∧
      place.1 ++ place.2 <+: passed ++ pieces.flatMap fun piece => piece.1 ++ piece.2 := by
  induction pieces generalizing passed with
  | nil => cases h
  | cons piece pieces ih =>
    rw [List.flatMap_cons, ← List.append_assoc, ← List.append_assoc]
    rcases List.mem_cons.mp h with rfl | h
    · exact ⟨List.prefix_append _ _, List.prefix_append _ _⟩
    · obtain ⟨hpassed, hplace⟩ := ih h
      rw [List.append_assoc passed piece.1] at hpassed
      exact ⟨(List.prefix_append _ _).trans hpassed, hplace⟩

/-- A lexeme follows the bytes that were passed before it. -/
theorem Of.prefix_of_mem_places {bytes : List UInt8} {f : Factorization} (h : Of bytes f)
    {place : List UInt8 × List UInt8} (hplace : place ∈ f.places) :
    place.1 ++ place.2 <+: bytes := by
  have hbefore : place.1 ++ place.2 <+: f.before :=
    (prefix_of_mem_placesAfter hplace).2.trans (List.prefix_append _ _)
  rw [h.bytes_eq]
  exact hbefore.trans (List.prefix_append _ _)

/-- The lexemes of a factorization have bytes. -/
theorem Of.length_pos {bytes : List UInt8} {f : Factorization} (h : Of bytes f) :
    ∀ piece ∈ f.pieces, 0 < piece.2.length := by
  induction h with
  | stop => simp
  | more hgap hlexeme hafter ih => exact List.forall_mem_cons.mpr ⟨hlexeme.length_pos, ih⟩

/-- Every lexeme is over before a later one begins. -/
theorem pairwise_placesAfter (passed : List UInt8) {pieces : List (List UInt8 × List UInt8)}
    (h : ∀ piece ∈ pieces, 0 < piece.2.length) :
    (placesAfter passed pieces).Pairwise fun x y =>
      x.1.length < y.1.length ∧ x.1.length + x.2.length ≤ y.1.length := by
  induction pieces generalizing passed with
  | nil => exact .nil
  | cons piece pieces ih =>
    obtain ⟨hpiece, hpieces⟩ := List.forall_mem_cons.mp h
    refine .cons (fun place hplace => ?_) (ih _ hpieces)
    have hle := (prefix_of_mem_placesAfter hplace).1.length_le
    rw [List.length_append] at hle
    exact ⟨Nat.lt_of_lt_of_le (Nat.lt_add_of_pos_right hpiece) hle, hle⟩

/-- A token is read off each lexeme, and stands where the lexeme does. -/
theorem Of.tokens_places {bytes : List UInt8} {f : Factorization} (h : Of bytes f)
    (passed : List UInt8) :
    List.Forall₂
      (fun t place => ReadAs place.2 t.kind ∧ t.position = Position.start.advance place.1)
      ((Cursor.mk (Position.start.advance passed) bytes).tokens .eof).tokens
      (placesAfter passed f.pieces) := by
  induction h generalizing passed with
  | @stop gap rest hgap hrest =>
    obtain ⟨ts, stop, htokens, hread, -⟩ :=
      (Of.stop hgap hrest).tokens (Position.start.advance passed)
    cases hread
    rw [htokens]
    exact .nil
  | @more gap lexeme after f hgap hlexeme hafter ih =>
    obtain ⟨kind, hkind, hscan⟩ := hlexeme.scan (Position.start.advance (passed ++ gap))
    have hnext := ih (passed ++ gap ++ lexeme)
    rw [Position.advance_append _ (passed ++ gap)] at hnext
    have hscan' := scan_trivia hgap.trivia (Position.start.advance passed)
    rw [← Position.advance_append, hscan] at hscan'
    rw [Cursor.tokens_of_token hscan']
    exact .cons ⟨hkind, rfl⟩ hnext

end Factorization

/-- An error of the lexer speaks of the place where reading stops. -/
theorem StopsAt.position {pos : Position} {rest : List UInt8} {error : LexError}
    (h : StopsAt pos rest (.failed error)) : error.position? = some pos := by
  cases h <;> rfl

end Lexical

/-! ## Sources -/

namespace Source

open Lexical

/-- Where reading fails, there are no tokens that would not be there otherwise. -/
theorem tokens_begin (source : Source) :
    source.tokens.tokens <+: (ofBytes source.bytes).tokens.tokens := by
  obtain ⟨bytes, ending⟩ := source
  cases ending with
  | eof => exact List.prefix_rfl
  | failure message =>
    have hbegins := @begins_of_failure bytes message []
    rwa [List.append_nil] at hbegins

/-- An error that has a position is due to the bytes, however they end. -/
theorem error_of_position {source : Source} {error : LexError} {pos : Position}
    (h : source.tokens.error? = some error) (hpos : error.position? = some pos) :
    (ofBytes source.bytes).tokens.error? = some error := by
  obtain ⟨bytes, ending⟩ := source
  cases ending with
  | eof => exact h
  | failure message =>
    have hne : error ≠ .readFailure message := by
      rintro rfl
      cases hpos
    have hsame := tokens_of_failure [] (error?_eq_some_iff.mp h) hne
    rw [List.append_nil] at hsame
    rw [hsame]
    exact h

/-- The tokens of a source stand at the places of its first lexemes. -/
theorem tokens_at_places {source : Source} {f : Factorization}
    (hf : Factorization.Of source.bytes f) :
    List.Forall₂ (fun t place => Spelled place.2 t.kind ∧ t.position.offset = place.1.length ∧
        t.position.Exact source.bytes)
      source.tokens.tokens (f.places.take source.tokens.tokens.length) := by
  have hfirst := List.forall₂_take source.tokens.tokens.length (hf.tokens_places [])
  have htokens : source.tokens.tokens = _ := List.prefix_iff_eq_take.mp source.tokens_begin
  change List.Forall₂ _ ((ofBytes source.bytes).tokens.tokens.take _) _ at hfirst
  rw [← htokens] at hfirst
  obtain ⟨hlength, hread⟩ := List.forall₂_iff_zip.mp hfirst
  refine List.forall₂_iff_zip.mpr ⟨hlength, fun {t place} hmem => ?_⟩
  obtain ⟨hkind, hpos⟩ := hread hmem
  have hplace := hf.prefix_of_mem_places (List.mem_of_mem_take (List.of_mem_zip hmem).2)
  rw [hpos]
  refine ⟨hkind.spelled, Position.offset_advance_start _, Position.exact_advance_start ?_⟩
  exact (List.prefix_append _ _).trans hplace

/-- A token ends before the next one begins. -/
theorem pairwise_tokens {source : Source} {f : Factorization}
    (hf : Factorization.Of source.bytes f) :
    (source.tokens.tokens.zip f.lexemes).Pairwise fun x y =>
      x.1.position.offset < y.1.position.offset ∧
      x.1.position.offset + x.2.length ≤ y.1.position.offset := by
  obtain ⟨hlength, hplaces⟩ := List.forall₂_iff_zip.mp (tokens_at_places hf)
  generalize source.tokens.tokens = ts at hlength hplaces ⊢
  have hle : ts.length ≤ f.places.length := by
    rw [List.length_take] at hlength
    omega
  have hzip : ts.zip f.places = ts.zip (f.places.take ts.length) := by
    rw [List.zip_eq_zip_take_min, Nat.min_eq_left hle, List.take_length]
  have hordered : ((ts.zip (f.places.take ts.length)).map Prod.snd).Pairwise fun x y =>
      x.1.length < y.1.length ∧ x.1.length + x.2.length ≤ y.1.length := by
    rw [List.map_snd_zip hlength.ge]
    exact (Factorization.pairwise_placesAfter [] hf.length_pos).sublist (List.take_sublist _ _)
  rw [← Factorization.map_snd_places, List.zip_map_right, hzip, List.pairwise_map]
  refine (List.pairwise_map.mp hordered).imp_of_mem fun {x y} hx hy h => ?_
  have hx := (hplaces hx).2.1
  have hy := (hplaces hy).2.1
  simp only [Prod.map, id, hx, hy]
  exact h

/-- Every token of a source stands at the place of its lexeme, the tokens being read off the first
lexemes of the source, or off all of them if no read fails. An error that has a position stands
where no further lexeme follows, and the end of the input after all bytes. All these positions
agree with counting, and no two lexemes overlap. -/
theorem positions_exact (source : Source) :
    ∃ f, Factorization.Of source.bytes f ∧
      (∀ place ∈ f.places, place.1 ++ place.2 <+: source.bytes) ∧
      List.Forall₂ (fun t place => Spelled place.2 t.kind ∧ t.position.offset = place.1.length ∧
          t.position.Exact source.bytes)
        source.tokens.tokens (f.places.take source.tokens.tokens.length) ∧
      (source.ending = .eof → source.tokens.tokens.length = f.places.length) ∧
      (source.tokens.tokens.zip f.lexemes).Pairwise (fun x y =>
        x.1.position.offset < y.1.position.offset ∧
        x.1.position.offset + x.2.length ≤ y.1.position.offset) ∧
      (∀ error pos, source.tokens.error? = some error → error.position? = some pos →
        pos.offset = f.before.length ∧ pos.Exact source.bytes) ∧
      ∀ pos, source.tokens.stop = .finished pos →
        source.tokens.last = .eof pos ∧ pos.offset = source.bytes.length ∧
          pos.Exact source.bytes := by
  obtain ⟨f, hf⟩ := Factorization.exists_of source.bytes
  refine ⟨f, hf, fun _ => hf.prefix_of_mem_places, tokens_at_places hf, fun heof => ?_,
    pairwise_tokens hf, fun error pos herror hpos => ?_, fun pos hstop => ?_⟩
  · obtain ⟨bytes, ending⟩ := source
    subst heof
    exact (hf.tokens_places []).length_eq
  · obtain ⟨ts, stop, htokens, -, hstops⟩ := hf.tokens .start
    have hsource : (ofBytes source.bytes).tokens = ⟨ts, stop⟩ := htokens
    have hbytes := error_of_position herror hpos
    rw [hsource, error?_eq_some_iff] at hbytes
    obtain rfl : stop = .failed error := hbytes
    obtain rfl : Position.start.advance f.before = pos :=
      Option.some.inj (hstops.position.symm.trans hpos)
    refine ⟨Position.offset_advance_start _, Position.exact_advance_start ?_⟩
    rw [hf.bytes_eq]
    exact List.prefix_append _ _
  · obtain rfl := finished_position hstop
    refine ⟨?_, Position.offset_advance_start _, Position.exact_advance_start List.prefix_rfl⟩
    rw [TokenStream.last, hstop]

end Source

end Midl
