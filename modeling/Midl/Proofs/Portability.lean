import Midl.Proofs.Taking
import Midl.Proofs.Yields

/-!
# Reading the same tokens elsewhere

A parser looks no further than the token after those it takes. So what it makes of some tokens, it
makes of them wherever they stand, as long as the same token comes next. `Portable` says so, and it
holds of all parsers. What stands between two marks can do without the condition, since its reader
stops right at the second one; and if that mark does not come before, then it is known where this
reader stops (`Accepts.between`).

`Accepts` follows a successful run from one part of a parser to the next.
-/

namespace Midl.Parser

variable {s s' : State} {ks ls taken rest : List TokenKind}

/-! ## Portable parsers -/

/-- What `p` makes of the tokens it takes, `q` makes of them wherever the same token follows. -/
def Portable (p q : Parser α) : Prop :=
  ∀ s a s', p s = .ok a s' → ∃ taken, s.kinds = taken ++ s'.kinds ∧
    ∀ rest, rest.head? = s'.kinds.head? → Yields q (taken ++ rest) a rest

/-- The kind of the current token is that of the first, if there is one. -/
theorem State.kind_eq_first (s : State) : s.current.kind = first s.kinds := by
  cases htokens : s.tokens with
  | nil =>
    rw [State.kind_of_nil htokens, State.kinds, htokens]
    rfl
  | cons t ts =>
    rw [State.current_of_cons htokens, State.kinds, htokens]
    rfl

/-- Tokens with the same head begin with the same token, be it the end of the input. -/
theorem first_eq_of_head? (h : ks.head? = ls.head?) : first ks = first ls := by
  rw [first, first, List.headD_eq_head?_getD, List.headD_eq_head?_getD, h]

/-- Reading nothing is portable. -/
theorem Portable.pure (a : α) : Portable (pure a) (Pure.pure a) := by
  intro s b s' hrun
  obtain ⟨rfl, rfl⟩ := EStateM.Result.ok.inj hrun
  exact ⟨[], rfl, fun rest _ => Yields.pure a⟩

/-- Two portable steps make one. -/
theorem Portable.bind {p q : Parser α} {f g : α → Parser β} (h : Portable p q)
    (h' : ∀ a, Portable (f a) (g a)) : Portable (p >>= f) (q >>= g) := by
  intro s b s'' hrun
  obtain ⟨a, s', hp, hf⟩ := ok_of_bind hrun
  obtain ⟨taken, htaken, hyields⟩ := h s a s' hp
  obtain ⟨more, hmore, hyields'⟩ := h' a s' b s'' hf
  refine ⟨taken ++ more, by rw [htaken, hmore, List.append_assoc], fun rest hrest => ?_⟩
  have hnext : (more ++ rest).head? = s'.kinds.head? := by
    rw [hmore, List.head?_append, List.head?_append, hrest]
  rw [List.append_assoc]
  exact (hyields _ hnext).bind (hyields' rest hrest)

/-- Looking at a token is portable, as the token that follows is the same. -/
theorem Portable.peek : Portable peek Parser.peek := by
  intro s kind s' hrun
  obtain ⟨rfl, rfl⟩ := EStateM.Result.ok.inj hrun
  refine ⟨[], rfl, fun rest hrest => ?_⟩
  rw [State.kind_eq_first, ← first_eq_of_head? hrest]
  exact Yields.peek

/-- So is moving on. -/
theorem Portable.advance : Portable advance Parser.advance := by
  intro s _ s' hrun
  have hkinds : s'.kinds = s.kinds.tail := by
    rw [State.kinds, tokens_of_advance hrun, List.map_tail]
    rfl
  cases hs : s.kinds with
  | nil =>
    -- at the end of the input there is nothing to move past
    rw [hs] at hkinds
    refine ⟨[], by rw [hkinds]; rfl, fun rest hrest => ?_⟩
    rw [hkinds, List.tail_nil, List.head?_nil, List.head?_eq_none_iff] at hrest
    subst hrest
    rintro t ⟨ht, hfinished⟩
    refine Yields.arrive t.tail ⟨?_, hfinished⟩
    show t.tokens.tail.map Token.kind = []
    rw [List.map_tail, ht, List.nil_append, List.tail_nil]
  | cons k ks =>
    rw [hs, List.tail_cons] at hkinds
    exact ⟨[k], by rw [hkinds]; rfl, fun rest _ => Yields.advance k⟩

/-- A repetition ends after an item that took nothing. -/
theorem Yields.manyFrom_stuck {item : σ → Parser (Option (α × σ))} {carried next : σ} {a : α}
    (h : Yields (item carried) ks (some (a, next)) ks) :
    Yields (manyFrom item carried) ks [a] ks := by
  intro s hs
  obtain ⟨s', hitem, hs'⟩ := h s hs
  have hleft : ¬s'.left < s.left := by
    rw [hs.left, hs'.left]
    exact Nat.lt_irrefl _
  exact ⟨s', manyFrom_of_stuck hitem hleft, hs'⟩

/-- There are as many kinds as tokens left. -/
theorem State.length_kinds (s : State) : s.kinds.length = s.left := by
  rw [State.kinds, List.length_map, s.left_eq]

/-- Repetition, by induction on the number of tokens left. -/
theorem Portable.manyFrom {item item' : σ → Parser (Option (α × σ))}
    (h : ∀ carried, Portable (item carried) (item' carried)) (carried : σ) :
    Portable (manyFrom item carried) (Parser.manyFrom item' carried) := by
  intro s as s' hrun
  induction hn : s.left using Nat.strongRecOn generalizing s as carried with
  | ind n ih =>
    obtain ⟨hitem, rfl⟩ | ⟨a, next, s₁, others, hitem, hless, hothers, rfl⟩ |
      ⟨a, next, hitem, hstuck, rfl⟩ := manyFrom_cases hrun
    · obtain ⟨taken, htaken, hyields⟩ := h carried s _ s' hitem
      exact ⟨taken, htaken, fun rest hrest => Yields.manyFrom_nil (hyields rest hrest)⟩
    · obtain ⟨taken, htaken, hyields⟩ := h carried s _ s₁ hitem
      obtain ⟨more, hmore, hyields'⟩ := ih s₁.left (hn ▸ hless) next s₁ others hothers rfl
      refine ⟨taken ++ more, by rw [htaken, hmore, List.append_assoc], fun rest hrest => ?_⟩
      have hnext : (more ++ rest).head? = s₁.kinds.head? := by
        rw [hmore, List.head?_append, List.head?_append, hrest]
      have hlength : (more ++ rest).length < (taken ++ (more ++ rest)).length := by
        have hlengths := congrArg List.length htaken
        rw [State.length_kinds, List.length_append, State.length_kinds] at hlengths
        simp only [List.length_append]
        omega
      rw [List.append_assoc]
      exact Yields.manyFrom_cons (hyields _ hnext) hlength (hyields' rest hrest)
    · obtain ⟨taken, htaken, hyields⟩ := h carried s _ s' hitem
      have hlengths := congrArg List.length htaken
      rw [State.length_kinds, List.length_append, State.length_kinds] at hlengths
      obtain rfl : taken = [] := List.length_eq_zero_iff.mp (by omega)
      exact ⟨[], htaken, fun rest hrest => Yields.manyFrom_stuck (hyields rest hrest)⟩

/-- All parsers are portable. -/
theorem portable : Congruence Portable fun _ _ => True where
  pure := Portable.pure
  bind := Portable.bind
  peek := Portable.peek
  advance := Portable.advance
  unexpected _ := fun _ _ _ hrun => nomatch hrun
  emptyImport _ := fun _ _ _ hrun => nomatch hrun
  manyFrom := Portable.manyFrom

/-! ## Where a reader stops -/

/-- A parser succeeds on tokens of some kinds, up to the end of the input. -/
def Accepts (p : Parser α) (ks : List TokenKind) : Prop :=
  ∃ s a s', s.At ks ∧ p s = .ok a s'

/-- The run goes on after what is known of its first part. -/
theorem Accepts.of_bind {p : Parser α} {f : α → Parser β} {a : α} (h : Accepts (p >>= f) ks)
    (hp : Yields p ks a ls) : Accepts (f a) ls := by
  obtain ⟨s, b, s'', hs, hrun⟩ := h
  obtain ⟨s', hp, hs'⟩ := hp s hs
  rw [bind_of_ok hp] at hrun
  exact ⟨s', b, s'', hs', hrun⟩

/-- The first part of a run succeeds. -/
theorem Accepts.first {p : Parser α} {f : α → Parser β} (h : Accepts (p >>= f) ks) :
    Accepts p ks := by
  obtain ⟨s, b, s'', hs, hrun⟩ := h
  obtain ⟨a, s', hp, -⟩ := ok_of_bind hrun
  exact ⟨s, a, s', hs, hp⟩

/-- A parser that fails accepts nothing. -/
theorem not_accepts_unexpected (expected : String) (ks : List TokenKind) :
    ¬Accepts (unexpected expected : Parser α) ks := by
  rintro ⟨s, a, s', -, hrun⟩
  cases hrun

/-- To do without a bracket can be told of tokens one by one. -/
theorem avoiding {mark : Mark} (hmark : mark.isBracket = true) :
    Gathers (fun left => left ≠ mark ∧ left.closing? ≠ some mark) (.mark mark ∉ ·) where
  nil := List.not_mem_nil
  append h h' := by
    rw [List.mem_append]
    exact not_or.mpr ⟨h, h'⟩
  neutral {kind} hkind := by
    rw [List.mem_singleton]
    rintro rfl
    simp [TokenKind.isNeutral, hmark] at hkind
  enclosed {left right ks} hleft hpair h := by
    have hright : right ≠ mark := by
      rintro rfl
      exact hleft.2 hpair
    simp [h, hleft.1.symm, hright.symm]

/-- An item has one first occurrence in a list. -/
theorem eq_of_append_cons_eq {α : Type} {x : α} {as bs as' bs' : List α} (h : x ∉ as)
    (h' : x ∉ as') (heq : as ++ x :: bs = as' ++ x :: bs') : as = as' := by
  obtain ⟨c, rfl, hc⟩ | ⟨c, rfl, hc⟩ := List.append_eq_append_iff.mp heq
  · cases c with
    | nil => rw [List.append_nil]
    | cons y c =>
      obtain rfl : x = y := (List.cons.inj hc).1
      simp at h'
  · cases c with
    | nil => rw [List.append_nil]
    | cons y c =>
      obtain rfl : x = y := (List.cons.inj hc).1
      simp at h

/-- What stands between two marks is read up to the second of them, and is read so wherever it
stands. -/
theorem Accepts.between {left right : Mark} {inner : Parser α} {f : α → Parser β}
    (h : Accepts (between left right inner >>= f) (.mark left :: (ks ++ .mark right :: ls)))
    (hinner : Portable inner inner) (havoids : Spends (.mark right ∉ ·) inner)
    (hks : .mark right ∉ ks) :
    ∃ a, (∀ rest, Yields (between left right inner)
      (.mark left :: (ks ++ .mark right :: rest)) a rest) ∧ Accepts (f a) ls := by
  obtain ⟨s, b, s', hs, hrun⟩ := h
  obtain ⟨_, _, hbetween, hf⟩ := ok_of_bind hrun
  obtain ⟨_, s₁, hopen, hafter⟩ := ok_of_bind hbetween
  obtain ⟨a, s₂, hinside, hend⟩ := ok_of_bind hafter
  obtain ⟨_, _, hclose, hreturn⟩ := ok_of_bind hend
  obtain ⟨rfl, rfl⟩ := EStateM.Result.ok.inj hreturn
  have hkinds₁ : s₁.kinds = ks ++ .mark right :: ls := by
    have hopened := kinds_of_expect (by simp) hopen
    rw [show s.kinds = _ from hs.kinds] at hopened
    exact (List.cons.inj hopened).2.symm
  have hkinds₂ := kinds_of_expect (by simp) hclose
  obtain ⟨taken, htaken, hnot⟩ := havoids s₁ _ s₂ hinside
  obtain ⟨taken', htaken', hyields⟩ := hinner s₁ _ s₂ hinside
  obtain rfl : taken = taken' := List.append_cancel_right (htaken.symm.trans htaken')
  -- the mark comes first where the reader stops, and where it was said to come
  obtain rfl := eq_of_append_cons_eq hks hnot (by rw [← hkinds₁, htaken, hkinds₂])
  have hall : ∀ rest, Yields (Parser.between left right inner)
      (.mark left :: (ks ++ .mark right :: rest)) a rest := by
    intro rest
    have hhead : (TokenKind.mark right :: rest).head? = s₂.kinds.head? := by rw [hkinds₂]; rfl
    exact (Yields.expect _).bind ((hyields _ hhead).bind ((Yields.expect _).bind (Yields.pure _)))
  obtain ⟨_, hrun', hs'⟩ := hall ls s hs
  obtain ⟨-, rfl⟩ := EStateM.Result.ok.inj (hbetween.symm.trans hrun')
  exact ⟨a, hall, _, b, s', hs', hf⟩

/-! ## Attribute lists and bodies -/

/-- An attribute list that is accepted before some tokens is read alike before any others. -/
theorem Accepts.attributeList {onParameter : Bool} {f : List Attribute → Parser β}
    (h : Accepts (attributeList onParameter >>= f)
      (.mark .openBracket :: (ks ++ .mark .closeBracket :: ls)))
    (hks : .mark .closeBracket ∉ ks) :
    ∃ as, (∀ rest, Yields (attributeList onParameter)
      (.mark .openBracket :: (ks ++ .mark .closeBracket :: rest)) as rest) ∧
      Accepts (f as) ls := by
  have hinner : Portable (attributesInside onParameter) (attributesInside onParameter) :=
    portable.seq portable.peek fun _ => Congruence.ite (portable.yield [])
      (portable.separated .comma (portable.oneAttribute onParameter))
  rw [attributeList_eq] at h ⊢
  exact h.between hinner ((avoiding rfl).attributesInside (by decide) onParameter) hks

/-- So are the members of an enumeration. -/
theorem Accepts.members {f : List Member → Parser β}
    (h : Accepts (members >>= f) (.mark .openBrace :: (ks ++ .mark .closeBrace :: ls)))
    (hks : .mark .closeBrace ∉ ks) :
    ∃ ms, (∀ rest, Yields members (.mark .openBrace :: (ks ++ .mark .closeBrace :: rest)) ms rest) ∧
      Accepts (f ms) ls := by
  have hinner : Portable membersInside membersInside :=
    portable.seq portable.peek fun _ => Congruence.ite (portable.yield []) <|
      portable.seq portable.member fun _ =>
        portable.seq (portable.manyAfter .comma (portable.seq portable.peek fun _ =>
          Congruence.ite (portable.yield none) (portable.map some portable.member)))
        fun _ => portable.yield _
  rw [members_eq] at h ⊢
  exact h.between hinner (avoiding rfl).membersInside hks

/-- So are the fields of a struct. -/
theorem Accepts.fields {f : List Variable → Parser β}
    (h : Accepts (fields >>= f) (.mark .openBrace :: (ks ++ .mark .closeBrace :: ls)))
    (hks : .mark .closeBrace ∉ ks) :
    ∃ vs, (∀ rest, Yields fields (.mark .openBrace :: (ks ++ .mark .closeBrace :: rest)) vs rest) ∧
      Accepts (f vs) ls := by
  have hfield : Spends (.mark .closeBrace ∉ ·) field :=
    (avoiding rfl).field (by decide) (by decide)
  rw [fields_eq] at h ⊢
  exact h.between (portable.manyUntil _ portable.field) ((avoiding rfl).manyUntil _ hfield) hks

end Midl.Parser
