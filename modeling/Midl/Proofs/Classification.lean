import Midl.Proofs.Names

/-!
# What literal runs are read as

The machine that follows a literal run changes its mind byte by byte. What it settles on in the end
can be told from the run as a whole: a numeral is a number, the dash is a mark, a reserved word is
the word, and everything else is a name (`Run.literal_run_classified`).

That numerals are taken for numbers is known from `Run.IsNumeral.ofBytes?`. The other direction is
an invariant of the machine, `Run.Denotes`: as long as it takes a run for a number, the bytes it
has seen are a numeral of the kind it takes them for.
-/

namespace Midl

namespace Run

/-- Numerals can be told by their first two bytes and the rest. -/
instance : DecidablePred IsNumeral := fun bytes =>
  decidable_of_iff
    ((bytes ≠ [] ∧ bytes.all Byte.isDigit = true) ∨
      bytes.head? = some '0'.toUInt8 ∧
      (bytes[1]? = some 'x'.toUInt8 ∨ bytes[1]? = some 'X'.toUInt8) ∧
      (bytes.drop 2).all Byte.isHexDigit = true) <| by
    rw [List.all_eq_true, List.all_eq_true]
    refine or_congr_right ?_
    constructor
    · rintro ⟨hzero, hmark, hdigits⟩
      rcases bytes with _ | ⟨z, _ | ⟨x, digits⟩⟩
      · cases hzero
      · simp at hmark
      · obtain rfl : z = '0'.toUInt8 := Option.some.inj hzero
        exact ⟨x, digits, rfl, by simpa using hmark, hdigits⟩
    · rintro ⟨x, digits, rfl, hx, hdigits⟩
      exact ⟨rfl, by simpa using hx, hdigits⟩

/-! ## Only numerals are taken for numbers -/

/-- What bytes have been seen, as far as they are taken for a number. -/
def Denotes : Run → List UInt8 → Prop
  | zero, bytes => bytes = ['0'.toUInt8]
  | decimal, bytes => bytes ≠ [] ∧ ∀ b ∈ bytes, Byte.isDigit b = true
  | hex, bytes => ∃ x digits, bytes = '0'.toUInt8 :: x :: digits ∧
      (x = 'x'.toUInt8 ∨ x = 'X'.toUInt8) ∧ ∀ b ∈ digits, Byte.isHexDigit b = true
  | word, _ => True
  | dotted, _ => True

/-- Bytes that are taken for a number are a numeral. -/
theorem Denotes.isNumeral {run : Run} {bytes : List UInt8} (h : run.Denotes bytes)
    (hnumber : run.isNumber = true) : IsNumeral bytes := by
  cases run with
  | zero =>
    obtain rfl : bytes = ['0'.toUInt8] := h
    exact .inl ⟨by simp, List.forall_mem_singleton.mpr (by decide)⟩
  | decimal => exact .inl h
  | hex => exact .inr h
  | word => cases hnumber
  | dotted => cases hnumber

/-- A letter makes a run that says nothing about the bytes before it. -/
theorem denotes_ofLetter (b : UInt8) (bytes : List UInt8) : (ofLetter b).Denotes bytes := by
  unfold ofLetter
  split <;> trivial

/-- A run of one byte is what that byte is. -/
theorem denotes_ofByte (b : UInt8) : (ofByte b).Denotes [b] := by
  unfold ofByte
  split
  · rename_i hzero
    rw [hzero]
    rfl
  · split
    · rename_i hdigit
      exact ⟨by simp, by simpa using hdigit⟩
    · exact denotes_ofLetter b [b]

/-- One more byte is one more that has been seen. -/
theorem Denotes.next? {run run' : Run} {bytes : List UInt8} {b : UInt8} (h : run.Denotes bytes)
    (hnext : run.next? b = some run') : run'.Denotes (bytes ++ [b]) := by
  have hletter : ∀ {r : Run}, some (ofLetter b) = some r → r.Denotes (bytes ++ [b]) := by
    rintro _ ⟨⟩
    exact denotes_ofLetter b _
  unfold Run.next? at hnext
  split at hnext
  · cases hnext
  · cases run with
    | zero =>
      obtain rfl : bytes = ['0'.toUInt8] := h
      dsimp only at hnext
      split at hnext
      · rename_i hdigit
        obtain rfl := Option.some.inj hnext
        have hzero : Byte.isDigit '0'.toUInt8 = true := by decide
        exact ⟨by simp, by simp [hzero, hdigit]⟩
      · split at hnext
        · rename_i hmark
          obtain rfl := Option.some.inj hnext
          exact ⟨b, [], rfl, by simpa using hmark, by simp⟩
        · exact hletter hnext
    | decimal =>
      obtain ⟨hne, hdigits⟩ := h
      dsimp only at hnext
      split at hnext
      · rename_i hdigit
        obtain rfl := Option.some.inj hnext
        exact ⟨by simp, List.forall_mem_append.mpr ⟨hdigits, by simpa using hdigit⟩⟩
      · exact hletter hnext
    | hex =>
      obtain ⟨x, digits, rfl, hx, hdigits⟩ := h
      dsimp only at hnext
      split at hnext
      · rename_i hdigit
        obtain rfl := Option.some.inj hnext
        refine ⟨x, digits ++ [b], rfl, hx, ?_⟩
        exact List.forall_mem_append.mpr ⟨hdigits, by simpa using hdigit⟩
      · exact hletter hnext
    | word => exact hletter hnext
    | dotted =>
      obtain rfl : dotted = run' := Option.some.inj hnext
      trivial

/-- A run that is followed further has seen the further bytes after those before. -/
theorem Denotes.foldlM {run run' : Run} {seen bs : List UInt8} (h : run.Denotes seen)
    (hrun : bs.foldlM Run.next? run = some run') : run'.Denotes (seen ++ bs) := by
  induction bs generalizing run seen with
  | nil =>
    obtain rfl : run = run' := by simpa using hrun
    rwa [List.append_nil]
  | cons b bs ih =>
    have hstep : (run.next? b).bind (fun r => bs.foldlM Run.next? r) = some run' := hrun
    obtain ⟨r, hr, hbs⟩ := Option.bind_eq_some_iff.mp hstep
    have hall := ih (h.next? hr) hbs
    rwa [List.append_assoc] at hall

/-- A run is what its bytes are. -/
theorem denotes_of_ofBytes? {run : Run} {bytes : List UInt8} (h : ofBytes? bytes = some run) :
    run.Denotes bytes := by
  cases bytes with
  | nil => cases h
  | cons b bs =>
    rw [ofBytes?] at h
    split at h
    · exact (denotes_ofByte b).foldlM h
    · cases h

/-! ## The token that a run is -/

section Kinds

variable {bytes : List UInt8} {kind : TokenKind} (h : kindOf? bytes = some kind)
include h

/-- A run is a number exactly if it is a numeral. -/
theorem eq_number_iff : kind = .number (Byte.text bytes) ↔ IsNumeral bytes := by
  obtain ⟨run, hrun, rfl⟩ := Option.map_eq_some_iff.mp h
  constructor
  · intro hkind
    exact (denotes_of_ofBytes? hrun).isNumeral (isNumber_of_kind hkind)
  · intro hnumeral
    obtain ⟨run', hrun', hnumber⟩ := hnumeral.ofBytes?
    obtain rfl : run = run' := Option.some.inj (hrun.symm.trans hrun')
    cases run <;> cases hnumber <;> rfl

/-- A run is a dash if it is just that. -/
theorem eq_dash_iff : kind = .mark .dash ↔ bytes = ['-'.toUInt8] := by
  have hdash : kindOf? ['-'.toUInt8] = some (.mark .dash) := by decide
  constructor
  · rintro rfl
    exact Byte.text_injective ((text_of_kindOf? h).symm.trans (text_of_kindOf? hdash))
  · rintro rfl
    exact Option.some.inj (h.symm.trans hdash)

/-- A run is a keyword if it spells it. -/
theorem eq_keyword_iff (k : Keyword) : kind = .keyword k ↔ k.text = Byte.text bytes := by
  constructor
  · rintro rfl
    exact text_of_kindOf? h
  · intro htext
    exact eq_of_text_eq h (kindOf?_keyword k) ((text_of_kindOf? h).trans htext.symm)

/-- A run names an attribute if it is the keyword of it. -/
theorem eq_attributeName_iff (a : AttributeKind) :
    kind = .attributeName a ↔ a.keyword = Byte.text bytes := by
  constructor
  · rintro rfl
    exact text_of_kindOf? h
  · intro htext
    exact eq_of_text_eq h (kindOf?_attributeName a) ((text_of_kindOf? h).trans htext.symm)

/-- The dash is the only mark that is a run. -/
theorem eq_dash_of_mark {m : Mark} (hm : kind = .mark m) : m = .dash := by
  obtain ⟨run, -, rfl⟩ := Option.map_eq_some_iff.mp h
  cases run with
  | zero => cases hm
  | decimal => cases hm
  | hex => cases hm
  | word =>
    rw [Run.kind, TokenKind.ofWord] at hm
    split at hm
    · cases hm
    · split at hm <;> cases hm
  | dotted =>
    rw [Run.kind] at hm
    split at hm
    · exact (TokenKind.mark.inj hm).symm
    · cases hm

/-- A run is a name exactly if it is nothing else. -/
theorem eq_identifier_iff : kind = .identifier (Byte.text bytes) ↔
    ¬ IsNumeral bytes ∧ bytes ≠ ['-'.toUInt8] ∧ ¬ IsReserved (Byte.text bytes) := by
  constructor
  · intro hkind
    have hrun := h
    rw [hkind] at hrun
    obtain ⟨hreserved, hnumeral, -⟩ := not_reserved_of_kindOf? hrun
    refine ⟨hnumeral, fun hdash => ?_, hreserved⟩
    rw [(eq_dash_iff h).mpr hdash] at hkind
    cases hkind
  · rintro ⟨hnumeral, hdash, hreserved⟩
    have htext := text_of_kindOf? h
    obtain ⟨run, -, hkind⟩ := Option.map_eq_some_iff.mp h
    have hother := run.kind_ne (Byte.text bytes)
    rw [hkind] at hother
    cases kind with
    | keyword k => exact absurd (.inl ⟨k, htext⟩) hreserved
    | attributeName a => exact absurd (.inr ⟨a, htext⟩) hreserved
    | mark m =>
      obtain rfl := eq_dash_of_mark h rfl
      exact absurd ((eq_dash_iff h).mp rfl) hdash
    | identifier s => exact congrArg _ htext
    | number s => exact absurd ((eq_number_iff h).mp (congrArg _ htext)) hnumeral
    | string s => exact absurd rfl (hother.2 s)
    | eof => exact absurd rfl hother.1

end Kinds

/-! ## Runs in place -/

/-- Where a literal byte stands, the longest run that begins with it is read, no more and no less,
if the byte after it can be looked at or there is none. The token that it is depends on the run as
a whole. -/
theorem literal_run_classified {b : UInt8} (hb : Byte.isLiteral b = true) (bs : List UInt8)
    {ending : Ending} (hend : bs.dropWhile Byte.isLiteral = [] → ending = .eof) (pos : Position) :
    let run := b :: bs.takeWhile Byte.isLiteral
    ∃ kind,
      scanRun ending pos b bs =
        .token ⟨kind, pos⟩ ⟨pos.advance run, bs.dropWhile Byte.isLiteral⟩ ∧
      scan ending ⟨pos, b :: bs⟩ = scanRun ending pos b bs ∧
      (kind = .number (Byte.text run) ↔ IsNumeral run) ∧
      (kind = .mark .dash ↔ run = ['-'.toUInt8]) ∧
      (∀ k, kind = .keyword k ↔ k.text = Byte.text run) ∧
      (∀ a, kind = .attributeName a ↔ a.keyword = Byte.text run) ∧
      (kind = .identifier (Byte.text run) ↔
        ¬ IsNumeral run ∧ run ≠ ['-'.toUInt8] ∧ ¬ IsReserved (Byte.text run)) := by
  intro run
  have hliteral : ∀ x ∈ run, Byte.isLiteral x = true :=
    List.forall_mem_cons.mpr ⟨hb, fun x hx => List.all_eq_true.mp List.all_takeWhile x hx⟩
  obtain ⟨kind, hkind⟩ := exists_kindOf? (List.cons_ne_nil _ _) hliteral
  have hscan := scanRun_of_kindOf? hkind (parts_dropWhile bs) ending pos
  rw [List.takeWhile_append_dropWhile] at hscan
  have hlook : ∀ step, ending.lookAt (bs.dropWhile Byte.isLiteral) step = step := by
    intro step
    cases hrest : bs.dropWhile Byte.isLiteral with
    | nil =>
      rw [hend hrest]
      rfl
    | cons c cs => rfl
  rw [hlook] at hscan
  exact ⟨kind, hscan, scan_literal hb ending pos bs, eq_number_iff hkind, eq_dash_iff hkind,
    eq_keyword_iff hkind, eq_attributeName_iff hkind, eq_identifier_iff hkind⟩

/-- The further bytes of a run that is taken for a number, a word and a dotted word in turn, and a
comma. -/
def wavering : List UInt8 := Utf8.encode "XfFg-2,".toList

/-- A run that looks like a hexadecimal number at first, in a source that breaks off after it. -/
theorem literal_run_classified_wavering :
    Byte.isLiteral '0'.toUInt8 = true ∧
    (wavering.dropWhile Byte.isLiteral = [] → Ending.failure "gone" = .eof) ∧
    scan (.failure "gone") ⟨.start, '0'.toUInt8 :: wavering⟩ =
      .token ⟨.identifier "0XfFg-2", .start⟩ ⟨⟨7, 1, 8⟩, [','.toUInt8]⟩ := by
  have hzero : Byte.isLiteral '0'.toUInt8 = true := by decide
  have hend : wavering.dropWhile Byte.isLiteral = [] → Ending.failure "gone" = .eof := by
    intro h
    exact absurd h (by decide)
  have hunreserved : ¬ IsReserved "0XfFg-2" := by
    rintro (⟨k, hk⟩ | ⟨a, ha⟩)
    · exact absurd hk (by cases k <;> decide)
    · exact absurd ha (by cases a <;> decide)
  obtain ⟨kind, hrun, hscan, -, -, -, -, hname⟩ :=
    literal_run_classified hzero wavering hend .start
  obtain rfl := hname.mpr ⟨by decide, by decide, hunreserved⟩
  exact ⟨hzero, hend, hscan.trans hrun⟩

end Run

end Midl
