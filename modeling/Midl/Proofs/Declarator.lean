import Midl.Proofs.Layout
import Midl.Proofs.Names
import Midl.Proofs.Taking
import Midl.Text.Blank

/-!
# The tokens and the text of a type

A type is written with words, stars and a name, and is read as the text of its words and the number
of its stars. `IsDeclarator` tells which tokens a type takes, and `takes_typed` that what is read of
it is what these tokens say.

The text does not hold the words apart. They can be found in it again all the same
(`words_spelled`), since no word has a blank in it.
-/

namespace Midl

/-! ## Finding words in a text -/

namespace Text

/-- A text with something in it that nothing separates. -/
structure IsWord (text : String) : Prop where
  ne_nil : text.toList ≠ []
  unbroken : ∀ c ∈ text.toList, isBlank c = false

/-- Characters without a blank belong to the word they begin. -/
theorem splitWords_append {word : List Char} (h : ∀ c ∈ word, isBlank c = false)
    (rest : List Char) :
    splitWords (word ++ rest) = (word ++ (splitWords rest).1, (splitWords rest).2) := by
  induction word with
  | nil => rfl
  | cons c word ih =>
    obtain ⟨hc, hword⟩ := List.forall_mem_cons.mp h
    rw [List.cons_append, splitWords, ih hword]
    simp [hc]

/-- A word is not empty, so it counts. -/
theorem consWord_of_isWord {text : String} (h : IsWord text) (words : List (List Char)) :
    consWord text.toList words = text.toList :: words := by
  rw [consWord, if_neg (by simpa using h.ne_nil)]

/-- Words are written with a space between them. -/
theorem toList_spaced (w v : String) (ws : List String) :
    (" ".intercalate (w :: v :: ws)).toList =
      w.toList ++ ' ' :: (" ".intercalate (v :: ws)).toList := by
  rw [String.intercalate_cons_cons, String.toList_append, String.toList_append]
  simp

/-- Words with spaces between them are found again. -/
theorem words_intercalate {ws : List String} (h : ∀ w ∈ ws, IsWord w) :
    words (" ".intercalate ws) = ws := by
  induction ws with
  | nil => rfl
  | cons w ws ih =>
    obtain ⟨hw, hws⟩ := List.forall_mem_cons.mp h
    cases ws with
    | nil =>
      have hsplit := splitWords_append hw.unbroken []
      rw [List.append_nil] at hsplit
      rw [String.intercalate_singleton, words, hsplit]
      simp [splitWords, consWord_of_isWord hw]
    | cons v ws =>
      have hblank : isBlank ' ' = true := by decide
      rw [words, toList_spaced, splitWords_append hw.unbroken]
      simp only [splitWords, hblank, if_true, List.append_nil, consWord_of_isWord hw, List.map_cons,
        String.ofList_toList]
      exact congrArg (w :: ·) (ih hws)

end Text

/-! ## The words of a type -/

namespace Parser

variable {w : Word} {words : List Word}

/-- The words of a type with spaces between them. -/
def spelled (words : List Word) : String := " ".intercalate (words.map Word.text)

/-- A literal byte is neither a blank nor a star. -/
theorem toChar_unbroken : ∀ b : UInt8, Byte.isLiteral b = true →
    Text.isBlank (Byte.toChar b) = false ∧ Byte.toChar b ≠ '*' :=
  Byte.forall_of_forall_lt (by decide +kernel)

/-- A word of a type is a literal run. -/
theorem Word.exists_kindOf? (h : w.kind.Lexed) : ∃ bytes, Run.kindOf? bytes = some w.kind := by
  cases w <;> exact h

/-- A word of a type has neither blanks nor stars. -/
theorem Word.unbroken (h : w.kind.Lexed) {c : Char} (hc : c ∈ w.text.toList) :
    Text.isBlank c = false ∧ c ≠ '*' := by
  obtain ⟨bytes, hbytes⟩ := Word.exists_kindOf? h
  rw [← Word.text_kind] at hc
  obtain ⟨b, hb, rfl⟩ := Run.isLiteral_of_mem_text hbytes hc
  exact toChar_unbroken b hb

/-- So its spelling is one word. -/
theorem Word.isWord_text (h : w.kind.Lexed) : Text.IsWord w.text where
  ne_nil := by
    obtain ⟨bytes, hbytes⟩ := Word.exists_kindOf? h
    rw [← Word.text_kind, Run.text_of_kindOf? hbytes, Byte.text, String.toList_ofList]
    cases bytes with
    | nil => cases hbytes
    | cons b bs => simp
  unbroken c hc := (Word.unbroken h hc).1

/-- No name is spelled like `const`. -/
theorem Word.text_eq_const_iff (h : w.kind.Lexed) : w.text = "const" ↔ w = .const := by
  constructor
  · intro htext
    cases w with
    | const => rfl
    | long => exact absurd htext (by decide)
    | name text =>
      obtain ⟨bytes, hbytes⟩ := h
      exact absurd (.inl ⟨.const, htext.symm⟩) (Run.not_reserved_of_kindOf? hbytes).1
  · rintro rfl
    rfl

/-- Words that are spelled out are split as they were. -/
theorem words_spelled (h : ∀ w ∈ words, w.kind.Lexed) :
    Text.words (spelled words) = words.map Word.text := by
  refine Text.words_intercalate fun text htext => ?_
  obtain ⟨w, hw, rfl⟩ := List.mem_map.mp htext
  exact Word.isWord_text (h w hw)

/-- Words that are spelled out have no stars. -/
theorem star_not_mem_spelled (h : ∀ w ∈ words, w.kind.Lexed) : '*' ∉ (spelled words).toList := by
  induction words with
  | nil => exact List.not_mem_nil
  | cons w words ih =>
    obtain ⟨hw, hwords⟩ := List.forall_mem_cons.mp h
    have hstar : '*' ∉ w.text.toList := fun hmem => (Word.unbroken hw hmem).2 rfl
    cases words with
    | nil => simpa [spelled] using hstar
    | cons v words =>
      rw [spelled, List.map_cons, List.map_cons, Text.toList_spaced, List.mem_append, List.mem_cons,
        not_or, not_or]
      exact ⟨hstar, by decide, ih hwords⟩

/-! ## The tokens of a type -/

/-- Items take tokens one after the other, and where there is no item nothing is taken. -/
theorem Takes.many {item : Parser (Option α)} {post : α → List TokenKind → Prop}
    {all : List α → List TokenKind → Prop}
    (h : Takes item fun found taken =>
      (found = none ∧ taken = []) ∨ ∃ a, found = some a ∧ post a taken)
    (hnil : all [] [])
    (hcons : ∀ a as taken more, post a taken → all as more → all (a :: as) (taken ++ more)) :
    Takes (many item) all := by
  intro s as s' hrun
  have hround : ∀ {s s' : State} {found : Option (α × Unit)},
      ((Option.map (·, ())) <$> item) s = .ok found s' → ∃ taken, s.kinds = taken ++ s'.kinds ∧
        ((found = none ∧ taken = []) ∨ ∃ a, found = some (a, ()) ∧ post a taken) := by
    intro s s' found hfound
    obtain ⟨found', hitem, rfl⟩ := ok_of_map hfound
    obtain ⟨taken, htaken, ⟨rfl, rfl⟩ | ⟨a, rfl, ha⟩⟩ := h s found' _ hitem
    · exact ⟨[], htaken, .inl ⟨rfl, rfl⟩⟩
    · exact ⟨taken, htaken, .inr ⟨a, rfl, ha⟩⟩
  change manyFrom (fun () => (Option.map (·, ())) <$> item) () s = .ok as s' at hrun
  induction hn : s.left using Nat.strongRecOn generalizing s as with
  | ind n ih =>
    obtain ⟨hitem, rfl⟩ | ⟨a, _, s₁, others, hitem, hless, hothers, rfl⟩ | ⟨a, _, hitem, -, rfl⟩ :=
      manyFrom_cases hrun
    · obtain ⟨taken, htaken, ⟨-, rfl⟩ | ⟨_, heq, -⟩⟩ := hround hitem
      · exact ⟨[], htaken, hnil⟩
      · cases heq
    · obtain ⟨taken, htaken, ⟨heq, -⟩ | ⟨_, heq, ha⟩⟩ := hround hitem
      · cases heq
      · cases heq
        obtain ⟨more, hmore, hall⟩ := ih s₁.left (hn ▸ hless) s₁ others hothers rfl
        exact ⟨taken ++ more, by rw [htaken, hmore, List.append_assoc],
          hcons a others taken more ha hall⟩
    · obtain ⟨taken, htaken, ⟨heq, -⟩ | ⟨_, heq, ha⟩⟩ := hround hitem
      · cases heq
      · cases heq
        exact ⟨taken ++ [], by rw [List.append_nil, htaken], hcons a [] taken [] ha hnil⟩

/-- A word takes its token, or nothing. -/
theorem takes_word : Takes word fun found taken =>
    (found = none ∧ taken = []) ∨ ∃ w : Word, found = some w ∧ taken = [w.kind] := by
  intro s found s' hrun
  unfold word at hrun
  rw [peekBind] at hrun
  have hsome : ∀ w : Word, s.current.kind = w.kind →
      (do advance; return some w) s = .ok found s' →
      ∃ taken, s.kinds = taken ++ s'.kinds ∧
        ((found = none ∧ taken = []) ∨ ∃ w : Word, found = some w ∧ taken = [w.kind]) := by
    intro w hkind hrun
    obtain ⟨_, _, hadvance, hrun⟩ := ok_of_bind hrun
    obtain ⟨rfl, rfl⟩ := EStateM.Result.ok.inj hrun
    have hne : s.current.kind ≠ .eof := by
      rw [hkind]
      cases w <;> nofun
    exact ⟨[w.kind], by rw [kinds_of_advance hadvance hne, hkind]; rfl, .inr ⟨w, rfl, rfl⟩⟩
  generalize hkind : s.current.kind = kind at hrun
  split at hrun
  · exact hsome (.name _) hkind hrun
  · exact hsome .long hkind hrun
  · exact hsome .const hkind hrun
  · obtain ⟨rfl, rfl⟩ := EStateM.Result.ok.inj hrun
    exact ⟨[], rfl, .inl ⟨rfl, rfl⟩⟩

/-- A number of stars, each with or without a `const` after it. -/
inductive Stars : Nat → List TokenKind → Prop
  | none : Stars 0 []
  | plain {n : Nat} {kinds : List TokenKind} (h : Stars n kinds) :
    Stars (n + 1) (.mark .star :: kinds)
  | const {n : Nat} {kinds : List TokenKind} (h : Stars n kinds) :
    Stars (n + 1) (.mark .star :: .keyword .const :: kinds)

/-- Tokens that are read as a type: its words, not all of them `const`, its stars, and the name, if
there is one. -/
def IsDeclarator (words : List Word) (depth : Nat) (name? : Option String)
    (taken : List TokenKind) : Prop :=
  (∃ w ∈ words, w ≠ .const) ∧ ∃ stars, Stars depth stars ∧
    taken = words.map Word.kind ++ (stars ++ name?.toList.map .identifier)

/-- Moves past a star and a `const` after it, where there is one. -/
def star : Parser (Option Unit) := do
  if ← eat (.mark .star) then
    discard (eat (.keyword .const))
    return some ()
  else return none

/-- A star takes its token and a `const` after it, or nothing. -/
theorem takes_star : Takes star fun found taken => (found = none ∧ taken = []) ∨
    ∃ a, found = some a ∧ (taken = [.mark .star] ∨ taken = [.mark .star, .keyword .const]) := by
  intro s found s' hrun
  obtain ⟨_, s₁, heat, hafter⟩ := ok_of_bind hrun
  obtain ⟨rfl, hkinds⟩ | ⟨rfl, rfl⟩ := kinds_of_eat (by simp) heat
  · rw [if_pos rfl] at hafter
    obtain ⟨_, s₂, hdiscard, hreturn⟩ := ok_of_bind hafter
    obtain ⟨rfl, rfl⟩ := EStateM.Result.ok.inj hreturn
    change ((fun _ => ()) <$> eat (.keyword .const)) s₁ = _ at hdiscard
    obtain ⟨_, heat', -⟩ := ok_of_map hdiscard
    obtain ⟨-, hkinds'⟩ | ⟨-, rfl⟩ := kinds_of_eat (by simp) heat'
    · exact ⟨_, by rw [hkinds, hkinds']; rfl, .inr ⟨(), rfl, .inr rfl⟩⟩
    · exact ⟨_, hkinds, .inr ⟨(), rfl, .inl rfl⟩⟩
  · rw [if_neg (by simp)] at hafter
    obtain ⟨rfl, rfl⟩ := EStateM.Result.ok.inj hafter
    exact ⟨[], rfl, .inl ⟨rfl, rfl⟩⟩

/-- Words take their tokens. -/
theorem takes_words : Takes (many word) fun words taken => taken = words.map Word.kind := by
  refine takes_word.many rfl fun w words taken more htaken hmore => ?_
  rw [htaken, hmore]
  rfl

/-- Stars take theirs, and every `const` among them. -/
theorem takes_stars : Takes (many star) fun found taken => Stars found.length taken := by
  refine takes_star.many .none fun _ found taken more htaken hmore => ?_
  rcases htaken with rfl | rfl
  · exact .plain hmore
  · exact .const hmore

/-- The words of a type are parted from the name after them, if they are at all. -/
theorem map_kind_splitName (words : List Word) :
    words.map Word.kind = (splitName words).1.map Word.kind ++
      (splitName words).2.toList.map .identifier := by
  unfold splitName
  split
  next text hlast =>
    split
    · conv_lhs => rw [← List.dropLast_append_getLast? _ hlast]
      simp [Word.kind]
    · simp
  next => simp

/-- The words and the name that are read of a type, and the number of stars between them, are those
that are written. -/
theorem takes_typed : Takes typed fun found taken => ∃ words : List Word,
    IsDeclarator words found.1.indirection found.2 taken ∧ found.1.typeName = spelled words := by
  intro s found s' hrun
  obtain ⟨words, s₁, hwords, hrun⟩ := ok_of_bind hrun
  obtain ⟨_, hkinds, rfl⟩ := takes_words s words s₁ hwords
  obtain ⟨depth, s₂, hdepth, hrun⟩ := ok_of_bind hrun
  obtain ⟨units, hunits, rfl⟩ := ok_of_map hdepth
  obtain ⟨stars, hkinds', hstars⟩ := takes_stars s₁ units s₂ hunits
  have hend : ∀ (words : List Word) (name? : Option String) {t t' : State},
      (do
        if words.all (· = Word.const) then unexpected "a type name"
        return ((⟨spelled words, units.length⟩ : TypeRef), name?)) t = .ok found t' →
      (∃ w ∈ words, w ≠ .const) ∧ found = (⟨spelled words, units.length⟩, name?) ∧ t' = t := by
    intro words name? t t' hrun
    split at hrun
    · cases hrun
    next hall =>
      obtain ⟨rfl, rfl⟩ := EStateM.Result.ok.inj hrun
      exact ⟨by simpa using hall, rfl, rfl⟩
  dsimp only at hrun
  split at hrun
  next hzero =>
    -- without a star there is nothing between the words and the name
    rw [hzero] at hstars
    cases hstars
    obtain ⟨htype, rfl, rfl⟩ := hend (splitName words).1 (splitName words).2 hrun
    refine ⟨_, ?_, _, ⟨htype, [], hzero ▸ .none, rfl⟩, rfl⟩
    rw [hkinds, hkinds', List.nil_append, map_kind_splitName words]
    rfl
  next =>
    obtain ⟨name, _, hname, hrun⟩ := ok_of_bind hrun
    obtain ⟨htype, rfl, rfl⟩ := hend words (some name) hrun
    refine ⟨_, ?_, words, ⟨htype, stars, hstars, rfl⟩, rfl⟩
    rw [hkinds, hkinds', kinds_of_identifier hname]
    simp

/-- A type begins with one of its words. -/
theorem exists_word_of_typed {s s' : State} {found : TypeRef × Option String}
    (h : typed s = .ok found s') : ∃ w : Word, s.current.kind = w.kind := by
  obtain ⟨taken, hkinds, words, ⟨⟨w, hw, -⟩, stars, -, rfl⟩, -⟩ := takes_typed s found s' h
  cases words with
  | nil => cases hw
  | cons v words =>
    cases htokens : s.tokens with
    | nil => simp [State.kinds, htokens] at hkinds
    | cons t ts =>
      rw [State.kinds, htokens] at hkinds
      exact ⟨v, by rw [State.current_of_cons htokens, (List.cons.inj hkinds).1]⟩

end Parser

end Midl
