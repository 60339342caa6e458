import Midl.Parser.Basic

/-!
# What a parser makes of tokens

A parser looks at the kinds of tokens only. `Yields` says what it makes of tokens of certain kinds,
up to the end of the input, and which of them it leaves. What a larger parser makes of tokens is
put together from what its parts make of them.
-/

namespace Midl.Parser

/-- The tokens left are of these kinds, and the input is over after them. -/
structure State.At (s : State) (kinds : List TokenKind) : Prop where
  kinds : s.tokens.map Token.kind = kinds
  finished : ∃ pos, s.stop = .finished pos

/-- A parser reads a value off tokens of some kinds and leaves others. -/
def Yields (p : Parser α) (kinds : List TokenKind) (a : α) (rest : List TokenKind) : Prop :=
  ∀ s : State, s.At kinds → ∃ s' : State, p s = .ok a s' ∧ s'.At rest

/-- The kind of the first token, or of the end of the input. -/
def first (kinds : List TokenKind) : TokenKind := kinds.headD .eof

@[simp] theorem first_cons (k : TokenKind) (ks : List TokenKind) : first (k :: ks) = k := rfl

section Yields

variable {p : Parser α} {next : α → Parser β} {a : α} {b : β} {ks ls ms : List TokenKind}

/-- Nothing is read off for a result alone. -/
theorem Yields.pure (a : α) : Yields (pure a) ks a ks := by
  intro s hs
  exact ⟨s, rfl, hs⟩

/-- What is left by one step is read by the next. -/
theorem Yields.bind (h : Yields p ks a ls) (h' : Yields (next a) ls b ms) :
    Yields (p >>= next) ks b ms := by
  intro s hs
  obtain ⟨s', hp, hs'⟩ := h s hs
  obtain ⟨s'', hnext, hs''⟩ := h' s' hs'
  refine ⟨s'', ?_, hs''⟩
  show EStateM.bind p next s = _
  rw [EStateM.bind, hp]
  exact hnext

/-- A result may be changed on the way. -/
theorem Yields.map {f : α → β} (h : Yields p ks a ls) : Yields (f <$> p) ks (f a) ls := by
  rw [← bind_pure_comp]
  exact h.bind (Yields.pure (f a))

/-! ## Tokens -/

/-- The current token is the first of those left. -/
theorem State.At.current {s : State} (h : s.At ks) : s.current.kind = first ks := by
  obtain ⟨rfl, pos, hstop⟩ := h
  unfold State.current
  cases htokens : s.tokens with
  | nil => rw [hstop]; rfl
  | cons t ts => rfl

/-- Looking at a token takes nothing. -/
theorem Yields.peek : Yields peek ks (first ks) ks := by
  intro s hs
  exact ⟨s, by rw [Parser.peek, hs.current], hs⟩

/-- Neither does arriving at it. -/
theorem Yields.arrive : Yields arrive ks () ks := by
  rintro s ⟨hkinds, pos, hstop⟩
  unfold Parser.arrive
  split
  · exact ⟨_, rfl, hkinds, pos, hstop⟩
  · exact ⟨s, rfl, hkinds, pos, hstop⟩
  · rename_i hfailed
    rw [hstop] at hfailed
    cases hfailed

/-- Moving on takes one token. -/
theorem Yields.advance (k : TokenKind) : Yields advance (k :: ks) () ks := by
  rintro s ⟨hkinds, pos, hstop⟩
  apply Yields.arrive s.tail
  refine ⟨?_, pos, hstop⟩
  show s.tokens.tail.map Token.kind = ks
  rw [List.map_tail, hkinds, List.tail_cons]

/-- Recording events takes nothing. -/
theorem Yields.note (events : List Event) : Yields (note events) ks () ks := by
  intro s hs
  exact ⟨_, rfl, hs.kinds, hs.finished⟩

/-- Going on with the current token, whose position plays no part. -/
theorem Yields.currentBind {next : Token → Parser β} (h : ∀ t, Yields (next t) ks b ms) :
    Yields (Parser.current >>= next) ks b ms := by
  intro s hs
  exact h s.current s hs

/-- Looking at the current token and going on. -/
theorem Yields.peekBind {next : TokenKind → Parser β} (h : Yields (next (first ks)) ks b ms) :
    Yields (Parser.peek >>= next) ks b ms :=
  Yields.peek.bind h

/-- A token that is there is taken. -/
theorem Yields.eat_self (k : TokenKind) : Yields (eat k) (k :: ks) true ks := by
  apply Yields.peekBind
  rw [first_cons, if_pos rfl]
  exact (Yields.advance k).bind (Yields.pure true)

/-- One that is not is not missed. -/
theorem Yields.eat_other {k : TokenKind} (h : first ks ≠ k) : Yields (eat k) ks false ks := by
  apply Yields.peekBind
  rw [if_neg h]
  exact Yields.pure false

/-- A token that has to be there is taken. -/
theorem Yields.expect (k : TokenKind) : Yields (expect k) (k :: ks) () ks := by
  apply Yields.peekBind
  rw [first_cons, if_pos rfl]
  exact Yields.advance k

/-- A name is read off an identifier. -/
theorem Yields.identifier (expected text : String) :
    Yields (identifier expected) (.identifier text :: ks) text ks :=
  Yields.peekBind ((Yields.advance _).bind (Yields.pure text))

/-- A text is read off a string. -/
theorem Yields.string (expected text : String) :
    Yields (string expected) (.string text :: ks) text ks :=
  Yields.peekBind ((Yields.advance _).bind (Yields.pure text))

theorem Yields.discardEat_self (k : TokenKind) :
    Yields (discard (Parser.eat k)) (k :: ks) () ks :=
  (Yields.eat_self k).map

theorem Yields.discardEat_other {k : TokenKind} (h : first ks ≠ k) :
    Yields (discard (Parser.eat k)) ks () ks :=
  (Yields.eat_other h).map

/-! ## Repetition -/

/-- As many tokens are left as kinds. -/
theorem State.At.left {s : State} (h : s.At ks) : s.left = ks.length := by
  rw [s.left_eq, ← h.kinds, List.length_map]

/-- A repetition ends where an item yields nothing. -/
theorem Yields.manyFrom_nil {item : σ → Parser (Option (α × σ))} {carried : σ}
    (h : Yields (item carried) ks none ls) : Yields (manyFrom item carried) ks [] ls := by
  intro s hs
  obtain ⟨s', hitem, hs'⟩ := h s hs
  refine ⟨s', ?_, hs'⟩
  rw [Parser.manyFrom, hitem]

/-- A repetition goes on after an item that took a token. -/
theorem Yields.manyFrom_cons {item : σ → Parser (Option (α × σ))} {carried next : σ}
    {as : List α} (h : Yields (item carried) ks (some (a, next)) ls)
    (hlength : ls.length < ks.length) (h' : Yields (manyFrom item next) ls as ms) :
    Yields (manyFrom item carried) ks (a :: as) ms := by
  intro s hs
  obtain ⟨s', hitem, hs'⟩ := h s hs
  obtain ⟨s'', hmany, hs''⟩ := h' s' hs'
  have hleft : s'.left < s.left := by rw [hs.left, hs'.left]; exact hlength
  refine ⟨s'', ?_, hs''⟩
  rw [Parser.manyFrom, hitem]
  dsimp only
  rw [if_pos hleft, hmany]

/-- Nothing is repeated if the first round yields nothing. -/
theorem Yields.many_nil {item : Parser (Option α)} (h : Yields item ks none ls) :
    Yields (many item) ks [] ls :=
  Yields.manyFrom_nil h.map

/-- A round that takes something is followed by the others. -/
theorem Yields.many_cons {item : Parser (Option α)} {as : List α}
    (h : Yields item ks (some a) ls) (hlength : ls.length < ks.length)
    (h' : Yields (many item) ls as ms) : Yields (many item) ks (a :: as) ms :=
  Yields.manyFrom_cons h.map hlength h'

/-- What begins with the token is read. -/
theorem Yields.ifSees_self {k : TokenKind} {absent : α} (h : Yields p (k :: ks) a ls) :
    Yields (ifSees k absent p) (k :: ks) a ls := by
  apply Yields.peekBind
  rw [first_cons, if_pos rfl]
  exact h

/-- Otherwise nothing is. -/
theorem Yields.ifSees_other {k : TokenKind} (absent : α) (h : first ks ≠ k) :
    Yields (ifSees k absent p) ks absent ks := by
  apply Yields.peekBind
  rw [if_neg h]
  exact Yields.pure absent

end Yields

/-! ## Lists of items

What follows an item may matter to it, so items are read under a condition `follow` on the kind of
the token after them. It has to hold of what every other item begins with, and of what comes after
the list. -/

/-- Tokens of which there is one, whose kind has a property. -/
def Begins (property : TokenKind → Prop) (kinds : List TokenKind) : Prop :=
  ∃ k ks, kinds = k :: ks ∧ property k

section Begins

variable {property other : TokenKind → Prop} {ks : List TokenKind}

/-- Less can be said of the first token. -/
theorem Begins.mono (h : Begins property ks) (himp : ∀ k, property k → other k) :
    Begins other ks := by
  obtain ⟨k, ks, rfl, hk⟩ := h
  exact ⟨k, ks, rfl, himp k hk⟩

/-- More tokens do not change the first. -/
theorem Begins.append (h : Begins property ks) (ls : List TokenKind) :
    Begins property (ks ++ ls) := by
  obtain ⟨k, ks, rfl, hk⟩ := h
  exact ⟨k, ks ++ ls, rfl, hk⟩

/-- The first token has the property. -/
theorem Begins.first (h : Begins property ks) : property (first ks) := by
  obtain ⟨k, ks, rfl, hk⟩ := h
  exact hk

end Begins

section Lists

variable {f : α → List TokenKind} {xs : List α} {follow : TokenKind → Prop}
  {rest : List TokenKind}

/-- Items of a list, one after the other, up to where no item is read. -/
theorem Yields.many {item : Parser (Option α)} (hbegins : ∀ x ∈ xs, Begins follow (f x))
    (hrest : follow (first rest)) (hstop : Yields item rest none rest)
    (hitem : ∀ x ∈ xs, ∀ ks, follow (first ks) → Yields item (f x ++ ks) (some x) ks) :
    Yields (Parser.many item) (xs.flatMap f ++ rest) xs rest := by
  induction xs with
  | nil => exact Yields.many_nil hstop
  | cons x xs ih =>
    obtain ⟨hx, hxs⟩ := List.forall_mem_cons.mp hbegins
    obtain ⟨hitemx, hitems⟩ := List.forall_mem_cons.mp hitem
    -- What follows this item is the next one, or else what comes after all of them.
    have hfollow : follow (first (xs.flatMap f ++ rest)) := by
      cases xs with
      | nil => exact hrest
      | cons y ys =>
        obtain ⟨k, ks, hk, hfollow⟩ := hxs y List.mem_cons_self
        rw [List.flatMap_cons, hk]
        exact hfollow
    rw [List.flatMap_cons, List.append_assoc]
    refine Yields.many_cons (hitemx _ hfollow) ?_ (ih hxs hitems)
    obtain ⟨k, ks, hk, -⟩ := hx
    simp only [hk, List.cons_append, List.length_cons, List.length_append]
    omega

/-- Items up to a token that none of them begins with. -/
theorem Yields.manyUntil {kind : TokenKind} {item : Parser α}
    (hbegins : ∀ x ∈ xs, Begins (· ≠ kind) (f x)) (hrest : first rest = kind)
    (hitem : ∀ x ∈ xs, ∀ ks, Yields item (f x ++ ks) x ks) :
    Yields (manyUntil kind item) (xs.flatMap f ++ rest) xs rest := by
  apply @Yields.many α f xs fun _ => True
  · intro x hx
    obtain ⟨k, ks, hk, -⟩ := hbegins x hx
    exact ⟨k, ks, hk, trivial⟩
  · trivial
  · apply Yields.peekBind
    rw [if_pos hrest]
    exact Yields.pure none
  · intro x hx ks _
    obtain ⟨k, ks', hk, hne⟩ := hbegins x hx
    apply Yields.peekBind
    rw [if_neg (by rw [hk]; exact hne)]
    exact (hitem x hx ks).map

/-- What items with a separator before each of them begin with. -/
theorem follow_separator {separator : Mark} (hseparator : follow (.mark separator))
    (hrest : follow (first rest)) :
    follow (first (xs.flatMap (.mark separator :: f ·) ++ rest)) := by
  cases xs with
  | nil => exact hrest
  | cons x xs => exact hseparator

/-- Items with a separator before each of them. -/
theorem Yields.manyAfter {separator : Mark} {item : Parser (Option α)}
    (hseparator : follow (.mark separator)) (hrest : follow (first rest))
    (hne : first rest ≠ .mark separator)
    (hitem : ∀ x ∈ xs, ∀ ks, follow (first ks) → Yields item (f x ++ ks) (some x) ks) :
    Yields (Parser.many do if ← eat (.mark separator) then item else return none)
      (xs.flatMap (.mark separator :: f ·) ++ rest) xs rest := by
  apply @Yields.many α _ xs follow
  · intro x _
    exact ⟨_, _, rfl, hseparator⟩
  · exact hrest
  · exact (Yields.eat_other hne).bind (Yields.pure none)
  · intro x hx ks hks
    exact (Yields.eat_self _).bind (hitem x hx ks hks)

/-- Items with a separator between any two of them. -/
theorem Yields.separated {separator : Mark} {item : Parser α} {x : α}
    (hseparator : follow (.mark separator)) (hrest : follow (first rest))
    (hne : first rest ≠ .mark separator)
    (hitem : ∀ y ∈ x :: xs, ∀ ks, follow (first ks) → Yields item (f y ++ ks) y ks) :
    Yields (separated separator item)
      (f x ++ (xs.flatMap (.mark separator :: f ·) ++ rest)) (x :: xs) rest := by
  obtain ⟨hx, hxs⟩ := List.forall_mem_cons.mp hitem
  refine (hx _ (follow_separator hseparator hrest)).bind ?_
  refine (Yields.manyAfter hseparator hrest hne fun y hy ks hks => (hxs y hy ks hks).map).bind ?_
  exact Yields.pure (x :: xs)

/-- The same token several times, of which only the number is kept. -/
theorem Yields.count {item : Parser (Option Unit)} {kind : TokenKind} (n : Nat)
    (hkind : follow kind) (hrest : follow (first rest)) (hstop : Yields item rest none rest)
    (hitem : ∀ ks, follow (first ks) → Yields item (kind :: ks) (some ()) ks) :
    Yields (List.length <$> Parser.many item) (List.replicate n kind ++ rest) n rest := by
  have hmany : Yields (Parser.many item)
      ((List.replicate n ()).flatMap (fun _ => [kind]) ++ rest) (List.replicate n ()) rest :=
    Yields.many (fun _ _ => ⟨kind, [], rfl, hkind⟩) hrest hstop fun _ _ ks hks => hitem ks hks
  have hcount := hmany.map (f := List.length)
  rw [List.length_replicate, ← List.map_eq_flatMap, List.map_replicate] at hcount
  exact hcount

/-- Stars are counted up to the first other token. -/
theorem Yields.stars (n : Nat) (h : first rest ≠ .mark .star) :
    Yields stars (List.replicate n (.mark .star) ++ rest) n rest := by
  apply @Yields.count fun _ => True
  · trivial
  · trivial
  · exact (Yields.eat_other h).bind (Yields.pure none)
  · exact fun _ _ => (Yields.eat_self _).bind (Yields.pure (some ()))

end Lists

end Midl.Parser
