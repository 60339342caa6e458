import Midl.Parser.Basic

/-!
# What a parser ensures

A parser that reads tokens of a vocabulary `ok`, and does not fail, leaves such tokens and gives a
result of which something holds. `Ensures` states this, and is closed under everything that
parsers are put together with.
-/

namespace Midl.Parser

/-- The tokens that are left are of a vocabulary. -/
def State.Within (ok : TokenKind → Prop) (s : State) : Prop := ∀ t ∈ s.tokens, ok t.kind

/-- A parser of tokens of a vocabulary gives results of which `post` holds, unless it fails. -/
def Ensures (ok : TokenKind → Prop) (p : Parser α) (post : α → Prop) : Prop :=
  ∀ (s : State) (a : α) (s' : State), s.Within ok → p s = .ok a s' → s'.Within ok ∧ post a

/-- A parser that has come to its end has come past the end of its first part. -/
theorem ok_of_bind {p : Parser α} {next : α → Parser β} {b : β} {s s'' : State}
    (h : (p >>= next) s = .ok b s'') : ∃ a s', p s = .ok a s' ∧ next a s' = .ok b s'' := by
  change EStateM.bind p next s = _ at h
  rw [EStateM.bind] at h
  cases hp : p s with
  | error error s' => simp [hp] at h
  | ok a s' => exact ⟨a, s', rfl, by simpa [hp] using h⟩

/-- Moving on takes one token away. -/
theorem tokens_of_advance {s s' : State} (h : advance s = .ok () s') :
    s'.tokens = s.tokens.tail := by
  unfold advance arrive at h
  split at h
  · obtain ⟨-, rfl⟩ := EStateM.Result.ok.inj h
    rfl
  · obtain ⟨-, rfl⟩ := EStateM.Result.ok.inj h
    rfl
  · cases h

/-- So one token less is left. -/
theorem left_of_advance {s s' : State} (h : advance s = .ok () s') : s'.left = s.left - 1 := by
  rw [s'.left_eq, s.left_eq, tokens_of_advance h, List.length_tail]

/-- Where the input is not over, the current token is the first of those left. -/
theorem State.exists_tokens_eq {s : State} (h : s.current.kind ≠ .eof) :
    ∃ ts, s.tokens = s.current :: ts := by
  cases htokens : s.tokens with
  | cons t ts => exact ⟨ts, by simp only [State.current, htokens]⟩
  | nil =>
    unfold State.current at h
    rw [htokens] at h
    split at h
    · contradiction
    · exact absurd rfl h
    · exact absurd rfl h

/-- Moving on takes the current token. -/
theorem tokens_eq_of_advance {s s' : State} (h : advance s = .ok () s')
    (hkind : s.current.kind ≠ .eof) : s.tokens = s.current :: s'.tokens := by
  obtain ⟨ts, hts⟩ := s.exists_tokens_eq hkind
  rw [tokens_of_advance h, hts, List.tail_cons]

section Ensures

variable {ok : TokenKind → Prop} {p : Parser α} {post post' : α → Prop}

/-- A result has the properties it has. -/
theorem Ensures.pure {a : α} (h : post a) : Ensures ok (pure a) post := by
  intro s a' s' hs hrun
  obtain ⟨rfl, rfl⟩ := EStateM.Result.ok.inj hrun
  exact ⟨hs, h⟩

/-- Less can be said of a result. -/
theorem Ensures.mono (h : Ensures ok p post) (himp : ∀ a, post a → post' a) :
    Ensures ok p post' := by
  intro s a s' hs hrun
  obtain ⟨hs', ha⟩ := h s a s' hs hrun
  exact ⟨hs', himp a ha⟩

/-- What the first step ensures, the second can rely on. -/
theorem Ensures.bind {next : α → Parser β} {post' : β → Prop} (h : Ensures ok p post)
    (h' : ∀ a, post a → Ensures ok (next a) post') : Ensures ok (p >>= next) post' := by
  intro s b s'' hs hrun
  obtain ⟨a, s', hp, hnext⟩ := ok_of_bind hrun
  obtain ⟨hs', ha⟩ := h s a s' hs hp
  exact h' a ha s' b s'' hs' hnext

/-- A step that only gives a result can be left out. -/
theorem Ensures.pureBind {a : α} {next : α → Parser β} {post' : β → Prop}
    (h : Ensures ok (next a) post') : Ensures ok (Pure.pure a >>= next) post' := by
  rwa [pure_bind]

/-- A result may be changed on the way. -/
theorem Ensures.map {f : α → β} {post' : β → Prop} (h : Ensures ok p post)
    (h' : ∀ a, post a → post' (f a)) : Ensures ok (f <$> p) post' := by
  rw [← bind_pure_comp]
  exact h.bind fun a ha => Ensures.pure (h' a ha)

/-- A result that is there has the property. -/
theorem Ensures.some (h : Ensures ok p post) :
    Ensures ok (some <$> p) fun found => ∀ a ∈ found, post a :=
  h.map (by simp)

/-- What comes after does not depend on what came before. -/
theorem Ensures.seq {next : α → Parser β} {post' : β → Prop} (h : Ensures ok p post)
    (h' : ∀ a, Ensures ok (next a) post') : Ensures ok (p >>= next) post' :=
  h.bind fun a _ => h' a

/-- Both branches ensure it, each in its case. -/
theorem Ensures.ite {c : Prop} [Decidable c] {q : Parser α} (h : c → Ensures ok p post)
    (h' : ¬c → Ensures ok q post) : Ensures ok (if c then p else q) post := by
  split
  · exact h ‹_›
  · exact h' ‹_›

/-- A parser that fails ensures anything. -/
theorem Ensures.unexpected (expected : String) : Ensures ok (unexpected expected) post := by
  intro s a s' _ hrun
  cases hrun

/-- Nothing comes after a failure. -/
theorem Ensures.unexpectedBind (expected : String) {next : α → Parser β} {post' : β → Prop} :
    Ensures ok (Parser.unexpected expected >>= next) post' :=
  Ensures.bind (@Ensures.unexpected α ok (fun _ => False) expected) fun _ h => h.elim

/-- So does one that fails with any error. -/
theorem Ensures.throw (error : ParseError) : Ensures ok (throw error) post := by
  intro s a s' _ hrun
  cases hrun

/-! ## Tokens -/

theorem Ensures.arrive : Ensures ok arrive fun _ => True := by
  intro s a s' hs hrun
  unfold Parser.arrive at hrun
  split at hrun
  · obtain ⟨-, rfl⟩ := EStateM.Result.ok.inj hrun
    exact ⟨hs, trivial⟩
  · obtain ⟨-, rfl⟩ := EStateM.Result.ok.inj hrun
    exact ⟨hs, trivial⟩
  · cases hrun

theorem Ensures.advance : Ensures ok advance fun _ => True := by
  intro s a s' hs hrun
  exact Ensures.arrive s.tail a s' (fun t ht => hs t (List.mem_of_mem_tail ht)) hrun

theorem Ensures.note (events : List Event) : Ensures ok (note events) fun _ => True := by
  intro s a s' hs hrun
  obtain ⟨-, rfl⟩ := EStateM.Result.ok.inj hrun
  exact ⟨hs, trivial⟩

/-- The current token is of the vocabulary, or is the end of the input. -/
theorem State.within_current {s : State} (hs : s.Within ok) :
    ok s.current.kind ∨ s.current.kind = .eof := by
  unfold State.current
  split
  · rename_i t _ htokens
    exact .inl (hs t (by simp [htokens]))
  · exact .inr rfl
  · exact .inr rfl

theorem Ensures.current : Ensures ok current fun _ => True := by
  intro s a s' hs hrun
  obtain ⟨-, rfl⟩ := EStateM.Result.ok.inj hrun
  exact ⟨hs, trivial⟩

/-- The current token is of the vocabulary, unless the input is over. -/
theorem Ensures.peek : Ensures ok peek fun kind => ok kind ∨ kind = .eof := by
  intro s a s' hs hrun
  obtain ⟨rfl, rfl⟩ := EStateM.Result.ok.inj hrun
  exact ⟨hs, State.within_current hs⟩

theorem Ensures.eat (kind : TokenKind) : Ensures ok (eat kind) fun _ => True :=
  Ensures.peek.seq fun _ =>
    Ensures.ite (fun _ => Ensures.advance.seq fun _ => Ensures.pure trivial)
      fun _ => Ensures.pure trivial

theorem Ensures.discardEat (kind : TokenKind) :
    Ensures ok (discard (Parser.eat kind)) fun _ => True :=
  (Ensures.eat kind).map fun _ _ => trivial

theorem Ensures.expect (kind : TokenKind) : Ensures ok (expect kind) fun _ => True :=
  Ensures.peek.seq fun _ =>
    Ensures.ite (fun _ => Ensures.advance) fun _ => Ensures.unexpected _

/-- A name is of the vocabulary. -/
theorem Ensures.identifier (expected : String) :
    Ensures ok (identifier expected) fun text => ok (.identifier text) := by
  apply Ensures.peek.bind
  intro kind hkind
  cases kind with
  | identifier text =>
    refine Ensures.advance.seq fun _ => Ensures.pure ?_
    rcases hkind with h | h
    · exact h
    · cases h
  | _ => exact Ensures.unexpected _

/-- So is a string. -/
theorem Ensures.string (expected : String) :
    Ensures ok (string expected) fun text => ok (.string text) := by
  apply Ensures.peek.bind
  intro kind hkind
  cases kind with
  | string text =>
    refine Ensures.advance.seq fun _ => Ensures.pure ?_
    rcases hkind with h | h
    · exact h
    · cases h
  | _ => exact Ensures.unexpected _

/-! ## Repetition -/

/-- How a repetition comes to its end: at a round that yields nothing, or at one that takes no
token, and otherwise with what the rounds after the first yield. -/
theorem manyFrom_cases {item : σ → Parser (Option (α × σ))} {carried : σ} {s s' : State}
    {as : List α} (h : manyFrom item carried s = .ok as s') :
    (item carried s = .ok none s' ∧ as = []) ∨
    (∃ a next s₁ others, item carried s = .ok (some (a, next)) s₁ ∧ s₁.left < s.left ∧
      manyFrom item next s₁ = .ok others s' ∧ as = a :: others) ∨
    (∃ a next, item carried s = .ok (some (a, next)) s' ∧ ¬ s'.left < s.left ∧ as = [a]) := by
  unfold manyFrom at h
  split at h
  · cases h
  · rename_i s₁ hitem
    obtain ⟨rfl, rfl⟩ := EStateM.Result.ok.inj h
    exact .inl ⟨hitem, rfl⟩
  · rename_i a next s₁ hitem
    dsimp only at h
    by_cases hlt : s₁.left < s.left
    · rw [if_pos hlt] at h
      split at h
      · cases h
      · rename_i others s₂ hmany
        obtain ⟨rfl, rfl⟩ := EStateM.Result.ok.inj h
        exact .inr (.inl ⟨a, next, s₁, others, hitem, hlt, hmany, rfl⟩)
    · rw [if_neg hlt] at h
      obtain ⟨rfl, rfl⟩ := EStateM.Result.ok.inj h
      exact .inr (.inr ⟨a, next, hitem, hlt, rfl⟩)

/-- What is ensured of every item is ensured of all of them. -/
theorem Ensures.manyFrom {item : σ → Parser (Option (α × σ))}
    (h : ∀ carried, Ensures ok (item carried) fun found => ∀ x ∈ found, post x.1) (carried : σ) :
    Ensures ok (manyFrom item carried) fun as => ∀ a ∈ as, post a := by
  intro s as s' hs hrun
  -- The induction is on the number of tokens left, which every round but the last makes smaller.
  induction hn : s.left using Nat.strongRecOn generalizing s as carried with
  | ind n ih =>
    rcases manyFrom_cases hrun with ⟨hitem, rfl⟩ |
      ⟨a, next, s₁, others, hitem, hlt, hmany, rfl⟩ | ⟨a, next, hitem, -, rfl⟩
    · exact ⟨(h carried s _ _ hs hitem).1, by simp⟩
    · obtain ⟨hs₁, ha⟩ := h carried s _ _ hs hitem
      obtain ⟨hs', hothers⟩ := ih s₁.left (hn ▸ hlt) next s₁ others hs₁ hmany rfl
      refine ⟨hs', ?_⟩
      intro x hx
      rcases List.mem_cons.mp hx with rfl | hx
      · exact ha _ rfl
      · exact hothers x hx
    · obtain ⟨hs', ha⟩ := h carried s _ _ hs hitem
      exact ⟨hs', by simpa using ha⟩

/-- What is ensured of an item is ensured of each. -/
theorem Ensures.many {item : Parser (Option α)}
    (h : Ensures ok item fun found => ∀ a ∈ found, post a) :
    Ensures ok (many item) fun as => ∀ a ∈ as, post a := by
  apply Ensures.manyFrom
  intro _
  apply h.map
  intro found hfound x hx
  obtain ⟨a, ha, rfl⟩ := Option.map_eq_some_iff.mp hx
  exact hfound a ha

/-- Nothing is asked of items that are only counted. -/
theorem Ensures.count {item : Parser (Option α)} (h : Ensures ok item fun _ => True) :
    Ensures ok (List.length <$> Parser.many item) fun _ => True :=
  (Ensures.many (h.mono fun _ _ _ _ => trivial)).map fun _ _ => trivial

/-- What is ensured of an item is ensured of each up to the token. -/
theorem Ensures.manyUntil {item : Parser α} (kind : TokenKind) (h : Ensures ok item post) :
    Ensures ok (manyUntil kind item) fun as => ∀ a ∈ as, post a := by
  apply Ensures.many
  refine Ensures.peek.seq fun _ => Ensures.ite (fun _ => ?_) (fun _ => ?_)
  · exact Ensures.pure (by simp)
  · exact h.some

/-- Items after a separator each, as many as there are. -/
theorem Ensures.manyAfter {item : Parser (Option α)} (separator : Mark)
    (h : Ensures ok item fun found => ∀ a ∈ found, post a) :
    Ensures ok (Parser.many do if ← Parser.eat (.mark separator) then item else return none)
      fun as => ∀ a ∈ as, post a := by
  apply Ensures.many
  refine (Ensures.eat _).seq fun _ => Ensures.ite (fun _ => h) (fun _ => ?_)
  exact Ensures.pure (by simp)

/-- So it is of separated items, of which there is at least one. -/
theorem Ensures.separated {item : Parser α} (separator : Mark) (h : Ensures ok item post) :
    Ensures ok (separated separator item) fun as => as ≠ [] ∧ ∀ a ∈ as, post a := by
  apply h.bind
  intro first hfirst
  apply (Ensures.manyAfter separator h.some).bind
  intro others hothers
  refine Ensures.pure ⟨by simp, ?_⟩
  simpa [hfirst] using hothers

/-- What is absent has to have the property as well. -/
theorem Ensures.ifSees {item : Parser α} {absent : α} (kind : TokenKind) (h : Ensures ok item post)
    (habsent : post absent) : Ensures ok (ifSees kind absent item) post :=
  Ensures.peek.seq fun _ => Ensures.ite (fun _ => h) fun _ => Ensures.pure habsent

end Ensures

end Midl.Parser
