import Mathlib.Data.List.Forall2
import Midl.Proofs.Congruence
import Midl.Proofs.Ensures

/-!
# Parsers read no further than they have to

A parser that has not come to the end of its tokens does not know what comes after them. So it does
the same on every longer list of tokens. `Online` states this of two parsers, for the sake of those
that are bounded in how deeply they go, together with what it takes to be carried through a
sequence: tokens are only ever taken from the front, and where the tokens end in an error, coming to
their end gives that error.

Everything is stated up to positions, which may differ by a given relation. Where nothing is added
to the tokens, both sides may come to their end.
-/

namespace Midl

/-- The same kind of token, at related positions. -/
def Token.Alike (positions : Position → Position → Prop) (t u : Token) : Prop :=
  t.kind = u.kind ∧ positions t.position u.position

/-- Tokens are alike at any positions if they are of the same kinds. -/
theorem Token.forall₂_alike_iff {ts us : List Token} :
    List.Forall₂ (Token.Alike fun _ _ => True) ts us ↔
      ts.map Token.kind = us.map Token.kind := by
  rw [← List.forall₂_eq_eq_eq, List.forall₂_map_left_iff, List.forall₂_map_right_iff]
  constructor
  · exact fun h => h.imp fun _ _ halike => halike.1
  · exact fun h => h.imp fun _ _ hkind => ⟨hkind, trivial⟩

/-- The same end of the input, at related positions. -/
def Stop.Alike (positions : Position → Position → Prop) : Stop → Stop → Prop
  | .finished pos, .finished pos' => positions pos pos'
  | _, _ => False

/-- The same error, at related positions. -/
inductive ParseError.Alike (positions : Position → Position → Prop) :
    ParseError → ParseError → Prop
  | lexical (error : LexError) : Alike positions (.lexical error) (.lexical error)
  | mismatch (expected found : String) {pos pos' : Position} (h : positions pos pos') :
      Alike positions (.mismatch expected found pos) (.mismatch expected found pos')
  | emptyImport {pos pos' : Position} (h : positions pos pos') :
      Alike positions (.emptyImport pos) (.emptyImport pos')
  | unexpectedEnd (expected : String) {pos pos' : Position} (h : positions pos pos') :
      Alike positions (.unexpectedEnd expected pos) (.unexpectedEnd expected pos')

/-- Errors that are alike at the same positions are the same. -/
theorem ParseError.Alike.eq {error error' : ParseError} (h : ParseError.Alike Eq error error') :
    error = error' := by
  cases h with
  | lexical error => rfl
  | mismatch expected found h => rw [h]
  | emptyImport h => rw [h]
  | unexpectedEnd expected h => rw [h]

/-- A token that does not fit is the same error wherever it stands. -/
theorem ParseError.alike_unexpected {positions : Position → Position → Prop} {t u : Token}
    (h : t.Alike positions u) (expected : String) :
    ParseError.Alike positions (.unexpected expected t) (.unexpected expected u) := by
  obtain ⟨kind, pos⟩ := t
  obtain ⟨_, pos'⟩ := u
  obtain ⟨rfl, hpos⟩ := h
  unfold ParseError.unexpected
  cases kind with
  | eof => exact .unexpectedEnd expected hpos
  | _ => exact .mismatch expected _ hpos

namespace Parser

/-- The state that is left. -/
def state : EStateM.Result ParseError State α → State
  | .ok _ s | .error _ s => s

/-- The tokens of `t` begin like those of `s`, and go on with `us`. -/
def StartsLike (positions : Position → Position → Prop) (s t : State) (us : List Token) : Prop :=
  ∃ ts, t.tokens = ts ++ us ∧ List.Forall₂ (Token.Alike positions) s.tokens ts

/-- There are tokens left, or the two sides end in the same way. -/
def Covered (positions : Position → Position → Prop) (rest : List Token) (s t : State)
    (us : List Token) : Prop :=
  rest ≠ [] ∨ us = [] ∧ s.stop.Alike positions t.stop

/-- The same outcome, up to positions, with the same tokens taken. -/
inductive Same (positions : Position → Position → Prop) (us : List Token) :
    EStateM.Result ParseError State α → EStateM.Result ParseError State α → Prop
  | ok (a : α) {s t : State} (h : StartsLike positions s t us) :
      Same positions us (.ok a s) (.ok a t)
  | error {error error' : ParseError} {s t : State} (herror : error.Alike positions error')
      (h : StartsLike positions s t us) : Same positions us (.error error s) (.error error' t)

/-- What `Online` says of one state. -/
structure OnlineAt (positions : Position → Position → Prop) (p q : Parser α) (s : State) :
    Prop where
  narrows : (state (p s)).tokens <:+ s.tokens
  stop : (state (p s)).stop = s.stop
  settled : ∀ error, s.stop = .failed error → s.tokens ≠ [] → (state (p s)).tokens = [] →
    ∃ s', p s = .error (.lexical error) s'
  same : ∀ t us, StartsLike positions s t us → Covered positions (state (p s)).tokens s t us →
    Same positions us (p s) (q t) ∧ (state (q t)).stop = t.stop

/-- On up to `bound` tokens, what `p` makes of them `q` makes of any tokens that begin with them,
unless `p` comes to their end. -/
def Online (bound : Nat) (positions : Position → Position → Prop) (p q : Parser α) : Prop :=
  ∀ s, s.left ≤ bound → OnlineAt positions p q s

section

variable {positions : Position → Position → Prop} {bound : Nat} {s t : State} {us : List Token}

/-- More tokens are left where others follow. -/
theorem StartsLike.left (h : StartsLike positions s t us) : t.left = s.left + us.length := by
  obtain ⟨ts, htokens, hts⟩ := h
  rw [t.left_eq, s.left_eq, htokens, List.length_append, hts.length_eq]

/-- Both sides move past the same token, or have none to move past. -/
theorem StartsLike.tail (h : StartsLike positions s t us) (hne : s.tokens ≠ [] ∨ us = []) :
    StartsLike positions s.tail t.tail us := by
  obtain ⟨ts, htokens, hts⟩ := h
  refine ⟨ts.tail, ?_, ?_⟩
  · show t.tokens.tail = ts.tail ++ us
    cases ts with
    | cons u ts => exact congrArg List.tail htokens
    | nil =>
      obtain hne | rfl := hne
      · exact absurd (List.forall₂_nil_right_iff.mp hts) hne
      · exact congrArg List.tail htokens
  · show List.Forall₂ _ s.tokens.tail ts.tail
    generalize s.tokens = rest at hts
    cases hts with
    | nil => exact .nil
    | cons _ hts => exact hts

/-- The current token is the first of those left. -/
theorem State.current_of_cons {u : Token} {ts : List Token} (h : s.tokens = u :: ts) :
    s.current = u := by
  simp only [State.current, h]

/-- It is the end of the input if none is left. -/
theorem State.current_of_nil {pos : Position} (h : s.tokens = []) (hstop : s.stop = .finished pos) :
    s.current = .eof pos := by
  simp only [State.current, h, hstop]

/-- The current tokens are alike, as far as they are covered. -/
theorem StartsLike.current (h : StartsLike positions s t us)
    (hcovered : Covered positions s.tokens s t us) : s.current.Alike positions t.current := by
  obtain ⟨ts, htokens, hts⟩ := h
  cases hs : s.tokens with
  | cons u rest =>
    rw [hs] at hts
    cases hts with
    | cons hu _ =>
      rw [State.current_of_cons hs, State.current_of_cons htokens]
      exact hu
  | nil =>
    rw [hs, List.forall₂_nil_left_iff] at hts
    obtain hrest | ⟨rfl, hstop⟩ := hcovered
    · exact absurd hs hrest
    · cases hstop_s : s.stop with
      | failed error => simp [Stop.Alike, hstop_s] at hstop
      | finished pos =>
        cases hstop_t : t.stop with
        | failed error => simp [Stop.Alike, hstop_s, hstop_t] at hstop
        | finished pos' =>
          rw [hstop_s, hstop_t] at hstop
          have ht : t.tokens = [] := by rw [htokens, hts, List.append_nil]
          rw [State.current_of_nil hs hstop_s, State.current_of_nil ht hstop_t]
          exact ⟨rfl, hstop⟩

end

/-! ## Moving on -/

section

variable {positions : Position → Position → Prop} {s t : State} {us : List Token}

@[simp] theorem tokens_arrive (s : State) : (state (arrive s)).tokens = s.tokens := by
  unfold arrive
  split <;> rfl

@[simp] theorem stop_arrive (s : State) : (state (arrive s)).stop = s.stop := by
  unfold arrive
  split <;> rfl

/-- Arriving at a failure fails. -/
theorem arrive_of_failed {error : LexError} (h : s.tokens = []) (hstop : s.stop = .failed error) :
    arrive s = .error (.lexical error) s := by
  simp only [arrive, h, hstop]

/-- Arriving takes no token away. -/
theorem arrive_of_ok {s' : State} (h : arrive s = .ok () s') :
    s'.tokens = s.tokens ∧ s'.stop = s.stop := by
  have htokens := tokens_arrive s
  have hstop := stop_arrive s
  rw [h] at htokens hstop
  exact ⟨htokens, hstop⟩

/-- Arriving succeeds unless reading failed. -/
theorem arrive_eq_ok (h : s.tokens = [] → ∃ pos, s.stop = .finished pos) :
    arrive s = .ok () (state (arrive s)) := by
  cases htokens : s.tokens with
  | nil =>
    obtain ⟨pos, hstop⟩ := h htokens
    simp only [arrive, htokens, hstop, state]
  | cons u ts =>
    unfold arrive
    split
    · rfl
    · simp_all
    · simp_all

/-- Where the two sides are covered, neither comes upon an error. -/
theorem Covered.finished (h : StartsLike positions s t us)
    (hcovered : Covered positions s.tokens s t us) :
    (s.tokens = [] → ∃ pos, s.stop = .finished pos) ∧
      (t.tokens = [] → ∃ pos, t.stop = .finished pos) := by
  obtain ⟨ts, htokens, hts⟩ := h
  obtain hrest | ⟨rfl, hstop⟩ := hcovered
  · refine ⟨fun hnil => absurd hnil hrest, fun hnil => ?_⟩
    obtain ⟨rfl, -⟩ := List.append_eq_nil_iff.mp (htokens ▸ hnil)
    exact absurd (List.forall₂_nil_right_iff.mp hts) hrest
  · unfold Stop.Alike at hstop
    split at hstop
    · exact ⟨fun _ => ⟨_, ‹_›⟩, fun _ => ⟨_, ‹_›⟩⟩
    · exact hstop.elim

/-- Arriving comes to the same where others follow. -/
theorem Same.arrive (h : StartsLike positions s t us)
    (hcovered : Covered positions s.tokens s t us) :
    Same positions us (arrive s) (Parser.arrive t) := by
  obtain ⟨hs, ht⟩ := hcovered.finished h
  rw [arrive_eq_ok hs, arrive_eq_ok ht]
  refine .ok () ?_
  unfold StartsLike
  rw [tokens_arrive, tokens_arrive]
  exact h

/-- A parser that stays where it is never comes to an end. -/
theorem OnlineAt.of_still {p q : Parser α} (htokens : (state (p s)).tokens = s.tokens)
    (hstop : (state (p s)).stop = s.stop)
    (hsame : ∀ t us, StartsLike positions s t us → Covered positions s.tokens s t us →
      Same positions us (p s) (q t) ∧ (state (q t)).stop = t.stop) : OnlineAt positions p q s where
  narrows := htokens ▸ List.suffix_refl s.tokens
  stop := hstop
  settled _ _ hne hnil := absurd (htokens ▸ hnil) hne
  same t us h hcovered := hsame t us h (htokens ▸ hcovered)

/-- Arriving at a token is online. -/
theorem OnlineAt.arrive (s : State) : OnlineAt positions arrive Parser.arrive s :=
  .of_still (tokens_arrive s) (stop_arrive s) fun t _ h hcovered =>
    ⟨Same.arrive h hcovered, stop_arrive t⟩

/-- So is moving on. -/
theorem OnlineAt.advance (s : State) : OnlineAt positions advance Parser.advance s where
  narrows := by
    show (state (Parser.arrive s.tail)).tokens <:+ s.tokens
    rw [tokens_arrive]
    exact List.tail_suffix s.tokens
  stop := stop_arrive s.tail
  settled error hstop hne hnil := ⟨s.tail, arrive_of_failed (tokens_arrive s.tail ▸ hnil) hstop⟩
  same t us h hcovered := by
    have htail : Covered positions s.tail.tokens s t us := tokens_arrive s.tail ▸ hcovered
    have hne : s.tokens ≠ [] ∨ us = [] :=
      htail.imp (fun hrest hnil => hrest (congrArg List.tail hnil)) And.left
    exact ⟨Same.arrive (h.tail hne) htail, stop_arrive t.tail⟩

/-- So is a result alone. -/
theorem OnlineAt.pure (a : α) (s : State) : OnlineAt positions (pure a) (Pure.pure a) s :=
  .of_still rfl rfl fun _ _ h _ => ⟨.ok a h, rfl⟩

/-- So is looking at a token. -/
theorem OnlineAt.peek (s : State) : OnlineAt positions peek Parser.peek s := by
  refine .of_still rfl rfl fun t us h hcovered => ⟨?_, rfl⟩
  obtain ⟨hkind, -⟩ := h.current hcovered
  unfold Parser.peek
  rw [hkind]
  exact .ok _ h

/-- So is recording events. -/
theorem OnlineAt.note (events : List Event) (s : State) :
    OnlineAt positions (note events) (Parser.note events) s :=
  .of_still rfl rfl fun _ _ h _ => ⟨.ok () h, rfl⟩

/-- So is failing at a token. -/
theorem OnlineAt.unexpected (expected : String) (s : State) :
    OnlineAt positions (unexpected expected : Parser α) (Parser.unexpected expected) s :=
  .of_still rfl rfl fun _ _ h hcovered =>
    ⟨.error (ParseError.alike_unexpected (h.current hcovered) expected) h, rfl⟩

/-- So is failing at a related position. -/
theorem OnlineAt.emptyImport {pos pos' : Position} (hpos : positions pos pos') (s : State) :
    OnlineAt positions (throw (.emptyImport pos) : Parser α) (throw (.emptyImport pos')) s :=
  .of_still rfl rfl fun _ _ h _ => ⟨.error (.emptyImport hpos) h, rfl⟩

end

/-! ## Sequences and repetition -/

section

variable {positions : Position → Position → Prop} {bound : Nat} {s s' : State}

/-- A parser that begins with `p` fails if `p` does. -/
theorem OnlineAt.of_error {p q : Parser α} {p' q' : Parser β} {error : ParseError}
    (h : OnlineAt positions p q s) (hrun : p s = .error error s') (hp : p' s = .error error s')
    (hq : ∀ {t error t'}, q t = .error error t' → q' t = .error error t') :
    OnlineAt positions p' q' s := by
  obtain ⟨hnarrows, hstop, hsettled, hsame⟩ := h
  rw [hrun] at hnarrows hstop hsettled hsame
  refine ⟨?_, ?_, ?_, ?_⟩ <;> rw [hp]
  · exact hnarrows
  · exact hstop
  · intro error' hfailed hne hnil
    obtain ⟨_, heq⟩ := hsettled error' hfailed hne hnil
    obtain ⟨rfl, rfl⟩ := EStateM.Result.error.inj heq
    exact ⟨s', rfl⟩
  · intro t us h hcovered
    obtain ⟨hresult, htstop⟩ := hsame t us h hcovered
    generalize hrun' : q t = result at hresult htstop
    cases hresult with
    | error herror h' =>
      rw [hq hrun']
      exact ⟨.error herror h', htstop⟩

/-- A parser that begins with `p` goes on from where `p` succeeds. -/
theorem OnlineAt.of_ok {p q : Parser α} {p' q' f g : Parser β} {a : α}
    (h : OnlineAt positions p q s) (hrun : p s = .ok a s') (hp : p' s = f s')
    (hq : ∀ {t t' us}, StartsLike positions s t us → StartsLike positions s' t' us →
      q t = .ok a t' → q' t = g t') (hf : OnlineAt positions f g s') :
    OnlineAt positions p' q' s := by
  obtain ⟨hnarrows, hstop, hsettled, hsame⟩ := h
  obtain ⟨hnarrows', hstop', hsettled', hsame'⟩ := hf
  rw [hrun] at hnarrows hstop hsettled hsame
  refine ⟨?_, ?_, ?_, ?_⟩ <;> rw [hp]
  · exact hnarrows'.trans hnarrows
  · exact hstop'.trans hstop
  · intro error hfailed hne hnil
    by_cases hmid : s'.tokens = []
    · obtain ⟨_, heq⟩ := hsettled error hfailed hne hmid
      cases heq
    · exact hsettled' error (hstop.trans hfailed) hmid hnil
  · intro t us h hcovered
    -- what is left at the end was left in the middle
    have hmid : Covered positions s'.tokens s t us :=
      hcovered.imp_left fun hrest hnil => hrest (List.suffix_nil.mp (hnil ▸ hnarrows'))
    obtain ⟨hresult, htstop⟩ := hsame t us h hmid
    generalize hrun' : q t = result at hresult htstop
    cases hresult with
    | @ok _ _ t' h' =>
      rw [hq h h' hrun']
      have hcovered' : Covered positions (state (f s')).tokens s' t' us :=
        hcovered.imp_right fun ⟨hus, halike⟩ => ⟨hus, hstop ▸ htstop ▸ halike⟩
      obtain ⟨hresult', htstop'⟩ := hsame' t' us h' hcovered'
      exact ⟨hresult', htstop'.trans htstop⟩

/-- After a step that succeeds comes the next. -/
theorem bind_of_ok {p : Parser α} {f : α → Parser β} {a : α} (h : p s = .ok a s') :
    (p >>= f) s = f a s' := by
  show EStateM.bind p f s = _
  rw [EStateM.bind, h]

/-- After one that fails there is nothing. -/
theorem bind_of_error {p : Parser α} {f : α → Parser β} {error : ParseError}
    (h : p s = .error error s') : (p >>= f) s = .error error s' := by
  show EStateM.bind p f s = _
  rw [EStateM.bind, h]

/-- Two steps that are online make one. -/
theorem OnlineAt.bind {p q : Parser α} {f g : α → Parser β} (hp : OnlineAt positions p q s)
    (hf : ∀ a s', p s = .ok a s' → OnlineAt positions (f a) (g a) s') :
    OnlineAt positions (p >>= f) (q >>= g) s := by
  cases hrun : p s with
  | error error s' => exact hp.of_error hrun (bind_of_error hrun) bind_of_error
  | ok a s' => exact hp.of_ok hrun (bind_of_ok hrun) (fun _ _ => bind_of_ok) (hf a s' hrun)

/-- A step may depend on where it starts, if it does so alike at related positions. -/
theorem OnlineAt.located (htotal : ∀ pos, ∃ pos', positions pos pos') {f g : Position → Parser α}
    (hfg : ∀ pos pos', positions pos pos' → OnlineAt positions (f pos) (g pos') s) :
    OnlineAt positions (current >>= fun t => f t.position)
      (current >>= fun t => g t.position) s := by
  obtain ⟨pos', hpos⟩ := htotal s.current.position
  obtain ⟨hnarrows, hstop, hsettled, -⟩ := hfg _ _ hpos
  refine ⟨hnarrows, hstop, hsettled, fun t us h hcovered => ?_⟩
  have hall : Covered positions s.tokens s t us :=
    hcovered.imp_left fun hrest hnil => hrest (List.suffix_nil.mp (hnil ▸ hnarrows))
  exact (hfg _ _ (h.current hall).2).same t us h hcovered

/-- A result may be changed on the way. -/
theorem OnlineAt.map {p q : Parser α} (f : α → β) (hp : OnlineAt positions p q s) :
    OnlineAt positions (f <$> p) (f <$> q) s := by
  rw [← bind_pure_comp, ← bind_pure_comp]
  exact hp.bind fun a s' _ => .pure (f a) s'

/-- No step gives tokens back. -/
theorem OnlineAt.left_le {p q : Parser α} {a : α} (h : OnlineAt positions p q s)
    (hrun : p s = .ok a s') : s'.left ≤ s.left := by
  have hnarrows := h.narrows
  rw [hrun] at hnarrows
  rw [s'.left_eq, s.left_eq]
  exact hnarrows.length_le

section Rounds

variable {item : σ → Parser (Option (α × σ))} {carried next : σ} {a : α}

/-- A round that fails settles the matter. -/
theorem manyFrom_of_error {error : ParseError} (h : item carried s = .error error s') :
    manyFrom item carried s = .error error s' := by
  rw [manyFrom, h]

/-- One that yields nothing is the last. -/
theorem manyFrom_of_none (h : item carried s = .ok none s') :
    manyFrom item carried s = .ok [] s' := by
  rw [manyFrom, h]

/-- One that takes something is followed by others. -/
theorem manyFrom_of_less (h : item carried s = .ok (some (a, next)) s') (hless : s'.left < s.left) :
    manyFrom item carried s = (List.cons a <$> manyFrom item next) s' := by
  rw [manyFrom, h]
  dsimp only
  rw [if_pos hless, ← bind_pure_comp]
  cases hrest : manyFrom item next s' with
  | error error s'' => rw [bind_of_error hrest]
  | ok as s'' =>
    rw [bind_of_ok hrest]
    rfl

/-- One that takes nothing is the last as well. -/
theorem manyFrom_of_stuck (h : item carried s = .ok (some (a, next)) s')
    (hless : ¬ s'.left < s.left) : manyFrom item carried s = .ok [a] s' := by
  rw [manyFrom, h]
  dsimp only
  rw [if_neg hless]

end Rounds

/-- Repetition, by induction on the number of tokens: a round takes as many tokens on one side as
on the other, so that both sides go on or both do not. -/
theorem Online.manyFrom {item item' : σ → Parser (Option (α × σ))}
    (hitem : ∀ carried, Online bound positions (item carried) (item' carried)) (carried : σ) :
    Online bound positions (manyFrom item carried) (Parser.manyFrom item' carried) := by
  intro s hs
  induction hn : s.left using Nat.strongRecOn generalizing s carried with
  | ind n ih =>
    have hround := hitem carried s hs
    cases hrun : item carried s with
    | error error s' => exact hround.of_error hrun (manyFrom_of_error hrun) manyFrom_of_error
    | ok found s' =>
      cases found with
      | none =>
        exact hround.of_ok hrun (manyFrom_of_none hrun) (fun _ _ => manyFrom_of_none) (.pure [] s')
      | some found =>
        obtain ⟨a, next⟩ := found
        by_cases hless : s'.left < s.left
        · have hothers := ih s'.left (hn ▸ hless) next s' (by omega) rfl
          refine hround.of_ok hrun (manyFrom_of_less hrun hless) ?_ (hothers.map (List.cons a))
          intro t t' us h h' hrun'
          exact manyFrom_of_less hrun' (by rw [h.left, h'.left]; omega)
        · refine hround.of_ok hrun (manyFrom_of_stuck hrun hless) ?_ (.pure [a] s')
          intro t t' us h h' hrun'
          exact manyFrom_of_stuck hrun' (by rw [h.left, h'.left]; omega)

/-- All parsers read no further than they have to. -/
theorem online (bound : Nat) (positions : Position → Position → Prop) :
    Congruence (Online bound positions) positions where
  pure a s _ := .pure a s
  bind hp hf s hs := (hp s hs).bind fun a s' hrun =>
    hf a s' (Nat.le_trans ((hp s hs).left_le hrun) hs)
  peek s _ := .peek s
  advance s _ := .advance s
  unexpected expected s _ := .unexpected expected s
  emptyImport hpos s _ := .emptyImport hpos s
  manyFrom hitem carried := Online.manyFrom hitem carried

/-- Recording events is online wherever it happens. -/
theorem Online.note (events : List Event) :
    Online bound positions (note events) (Parser.note events) :=
  fun s _ => .note events s

/-! ## Declarations

How deeply libraries and modules may be nested does not matter as long as there are no more tokens
than that. -/

/-- If no token is left, there is none. -/
theorem State.tokens_eq_nil (h : s.left = 0) : s.tokens = [] :=
  List.length_eq_zero_iff.mp (s.left_eq ▸ h)

/-- Then the current token is the end of the input. -/
theorem State.kind_of_nil (h : s.tokens = []) : s.current.kind = .eof := by
  unfold State.current
  rw [h]
  cases s.stop with
  | finished pos => rfl
  | failed error => rfl

/-- What is done after looking depends on the current token. -/
theorem peekBind (f : TokenKind → Parser α) (s : State) :
    (peek >>= f) s = f s.current.kind s :=
  rfl

/-- What statements begin with: a keyword, or attributes. -/
def StartsStatement (kind : TokenKind) : Prop :=
  kind = .mark .openBracket ∨ ∃ k, kind = .keyword k

/-- No statement begins with the end of the input. -/
theorem not_startsStatement_eof : ¬StartsStatement .eof := by
  simp [StartsStatement]

/-- A token that begins no statement is not expected. -/
theorem chosen_of_not_startsStatement (inner : Parser (List Declaration)) (nested : Bool)
    (as : List Attribute) (h : ¬StartsStatement s.current.kind) :
    chosen inner nested as s = .error (.unexpected "a declaration" s.current) s := by
  unfold chosen
  rw [peekBind]
  generalize s.current.kind = kind at h
  cases kind with
  | keyword k => exact absurd (.inr ⟨k, rfl⟩) h
  | _ => rfl

/-- It is not expected where a statement with attributes could stand. -/
theorem declaration_of_not_startsStatement (depth : Nat) (nested : Bool)
    (h : ¬StartsStatement s.current.kind) :
    declaration depth nested s = .error (.unexpected "a declaration" s.current) s := by
  cases depth with
  | zero => rfl
  | succ depth =>
    have hattributes : leadingAttributes s = .ok [] s := by
      unfold leadingAttributes ifSees
      rw [peekBind, if_neg fun hbracket => h (.inl hbracket)]
      rfl
    rw [declaration, bind_of_ok hattributes,
      bind_of_error (chosen_of_not_startsStatement _ nested [] h)]

/-- So a declaration fails at the end of the input. -/
theorem declaration_of_nil (depth : Nat) (nested : Bool) (h : s.tokens = []) :
    declaration depth nested s = .error (.unexpected "a declaration" s.current) s :=
  declaration_of_not_startsStatement depth nested
    (State.kind_of_nil h ▸ not_startsStatement_eof)

/-- What moves on first and is online from there is online for one token more. -/
theorem Online.of_moving (htotal : ∀ pos, ∃ pos', positions pos pos') {p q : Parser α}
    (h : Moving (Online bound positions) positions p q) : Online (bound + 1) positions p q := by
  obtain ⟨f, g, rfl, rfl, hfg⟩ := h
  intro s hs
  refine .located htotal (f := fun pos => do advance; f pos) (g := fun pos => do advance; g pos) ?_
  intro pos pos' hpos
  refine (OnlineAt.advance s).bind fun _ s' hrun => hfg pos pos' hpos s' ?_
  have hleft := left_of_advance hrun
  omega

/-- Reading a declaration is online. -/
theorem Online.declaration (htotal : ∀ pos, ∃ pos', positions pos pos') {depth depth' : Nat}
    (hdepth : bound ≤ depth) (hdepth' : bound ≤ depth') (nested : Bool) :
    Online bound positions (declaration depth nested) (Parser.declaration depth' nested) := by
  induction bound generalizing depth depth' nested with
  | zero =>
    intro s hs
    have hnil := State.tokens_eq_nil (Nat.le_zero.mp hs)
    have hrun := declaration_of_nil depth nested hnil
    refine .of_still (by rw [hrun]; rfl) (by rw [hrun]; rfl) fun t us h hcovered => ?_
    obtain hne | ⟨rfl, -⟩ := id hcovered
    · exact absurd hnil hne
    · have hnil' := State.tokens_eq_nil (h.left.trans (Nat.le_zero.mp hs))
      rw [hrun, declaration_of_nil depth' nested hnil']
      exact ⟨.error (ParseError.alike_unexpected (h.current hcovered) _) h, rfl⟩
  | succ bound ih =>
    obtain ⟨depth, rfl⟩ := Nat.exists_eq_add_one_of_ne_zero (Nat.ne_zero_of_lt hdepth)
    obtain ⟨depth', rfl⟩ := Nat.exists_eq_add_one_of_ne_zero (Nat.ne_zero_of_lt hdepth')
    have hall := online (bound + 1) positions
    refine hall.bind hall.leadingAttributes fun as => hall.bind ?_ fun ds =>
      hall.bind (.note _) fun _ => hall.pure ds
    have hinner := ih (Nat.le_of_succ_le_succ hdepth) (Nat.le_of_succ_le_succ hdepth') true
    obtain ⟨f, g, hf, hg, hfg⟩ := (online bound positions).completion.chosen_cases hinner nested as
    rw [hf, hg]
    refine hall.bind hall.peek fun kind => ?_
    obtain hmoving | ⟨hf, hg⟩ := hfg kind
    · exact .of_moving htotal hmoving
    · rw [hf, hg]
      exact hall.unexpected _

/-- So is reading all of them. -/
theorem Online.declarations (htotal : ∀ pos, ∃ pos', positions pos pos') {depth depth' : Nat}
    (hdepth : bound ≤ depth) (hdepth' : bound ≤ depth') :
    Online bound positions (declarations depth) (Parser.declarations depth') :=
  (online bound positions).map _
    ((online bound positions).manyUntil .eof (.declaration htotal hdepth hdepth' false))

/-- What moves on takes at least one token. -/
theorem left_of_moving {p q : Parser α} {a : α} (hs : s.left ≤ bound + 1)
    (h : Moving (Online bound positions) positions p q) (htotal : ∀ pos, ∃ pos', positions pos pos')
    (hrun : p s = .ok a s') : s'.left ≤ s.left - 1 := by
  obtain ⟨f, g, rfl, -, hfg⟩ := h
  obtain ⟨_, _, hcurrent, hrun⟩ := ok_of_bind hrun
  obtain ⟨rfl, rfl⟩ := EStateM.Result.ok.inj hcurrent
  obtain ⟨_, s₁, hadvance, hrun⟩ := ok_of_bind hrun
  have hleft := left_of_advance hadvance
  obtain ⟨pos', hpos⟩ := htotal s.current.position
  have hle := (hfg _ _ hpos s₁ (by omega)).left_le hrun
  omega

/-- A declaration takes tokens. -/
theorem left_of_declaration {depth : Nat} {nested : Bool} {ds : List Declaration}
    (hs : s.left ≤ depth) (h : declaration depth nested s = .ok ds s') : s'.left < s.left := by
  cases depth with
  | zero => cases h
  | succ depth =>
    rw [Parser.declaration] at h
    obtain ⟨as, s₁, hattributes, h⟩ := ok_of_bind h
    obtain ⟨_, s₂, hchosen, h⟩ := ok_of_bind h
    obtain ⟨_, s₃, hnote, h⟩ := ok_of_bind h
    obtain ⟨-, rfl⟩ := EStateM.Result.ok.inj hnote
    obtain ⟨rfl, rfl⟩ := EStateM.Result.ok.inj h
    have hle : s₁.left ≤ s.left :=
      ((online s.left Eq).leadingAttributes s (Nat.le_refl _)).left_le hattributes
    show s₂.left < s.left
    by_cases hnil : s₁.tokens = []
    · rw [chosen_of_not_startsStatement _ nested as
        (State.kind_of_nil hnil ▸ not_startsStatement_eof)] at hchosen
      cases hchosen
    · have hpos : 0 < s₁.left := s₁.left_eq ▸ List.length_pos_of_ne_nil hnil
      have htotal : ∀ pos : Position, ∃ pos', pos = pos' := fun pos => ⟨pos, rfl⟩
      obtain ⟨f, g, hf, -, hfg⟩ := (online depth Eq).completion.chosen_cases
        (.declaration htotal (Nat.le_refl _) (Nat.le_refl _) true) nested as
      rw [hf, peekBind] at hchosen
      obtain hmoving | ⟨hrefused, -⟩ := hfg s₁.current.kind
      · have hless := left_of_moving (by omega) hmoving htotal hchosen
        omega
      · rw [hrefused] at hchosen
        cases hchosen

/-! ## Up to a token -/

section Until

variable {kind : TokenKind} {item : Parser α} {a : α}

/-- Nothing is repeated where the token is. -/
theorem manyUntil_of_eq (h : s.current.kind = kind) : manyUntil kind item s = .ok [] s := by
  refine manyFrom_of_none ?_
  rw [← bind_pure_comp, bind_assoc, peekBind, if_pos h]
  rfl

/-- Before it, a round that fails settles the matter. -/
theorem manyUntil_of_error {error : ParseError} (h : s.current.kind ≠ kind)
    (hitem : item s = .error error s') : manyUntil kind item s = .error error s' := by
  refine manyFrom_of_error ?_
  rw [← bind_pure_comp, bind_assoc, peekBind, if_neg h, ← bind_pure_comp, bind_assoc,
    bind_of_error hitem]

/-- A round that reads an item. -/
theorem manyUntil_round (h : s.current.kind ≠ kind) (hitem : item s = .ok a s') :
    (Option.map (·, ()) <$> (do if (← peek) = kind then return none else some <$> item) :
      Parser (Option (α × Unit))) s = .ok (some (a, ())) s' := by
  rw [← bind_pure_comp, bind_assoc, peekBind, if_neg h, ← bind_pure_comp, bind_assoc,
    bind_of_ok hitem]
  rfl

/-- One that takes something is followed by others. -/
theorem manyUntil_of_less (h : s.current.kind ≠ kind) (hitem : item s = .ok a s')
    (hless : s'.left < s.left) :
    manyUntil kind item s = (List.cons a <$> manyUntil kind item) s' :=
  manyFrom_of_less (manyUntil_round h hitem) hless

/-- One that takes nothing is the last. -/
theorem manyUntil_of_stuck (h : s.current.kind ≠ kind) (hitem : item s = .ok a s')
    (hless : ¬ s'.left < s.left) : manyUntil kind item s = .ok [a] s' :=
  manyFrom_of_stuck (manyUntil_round h hitem) hless

/-- A result that was changed on the way was there before. -/
theorem ok_of_map {p : Parser α} {f : α → β} {b : β} (h : (f <$> p) s = .ok b s') :
    ∃ a, p s = .ok a s' ∧ f a = b := by
  rw [← bind_pure_comp] at h
  obtain ⟨a, s₁, hp, h⟩ := ok_of_bind h
  obtain ⟨rfl, rfl⟩ := EStateM.Result.ok.inj h
  exact ⟨a, hp, rfl⟩

/-- Items that take tokens are read until there is nothing but the given token to stop them. -/
theorem manyUntil_cases {as : List α} (hless : ∀ a s', item s = .ok a s' → s'.left < s.left)
    (h : manyUntil kind item s = .ok as s') :
    (s.current.kind = kind ∧ as = [] ∧ s' = s) ∨
    s.current.kind ≠ kind ∧ ∃ a s₁ others, item s = .ok a s₁ ∧ s₁.left < s.left ∧
      manyUntil kind item s₁ = .ok others s' ∧ as = a :: others := by
  by_cases hkind : s.current.kind = kind
  · rw [manyUntil_of_eq hkind] at h
    obtain ⟨rfl, rfl⟩ := EStateM.Result.ok.inj h
    exact .inl ⟨hkind, rfl, rfl⟩
  · refine .inr ⟨hkind, ?_⟩
    cases hitem : item s with
    | error error s₁ =>
      rw [manyUntil_of_error hkind hitem] at h
      cases h
    | ok a s₁ =>
      have hless := hless a s₁ hitem
      rw [manyUntil_of_less hkind hitem hless] at h
      obtain ⟨others, hothers, rfl⟩ := ok_of_map h
      exact ⟨a, s₁, others, rfl, hless, hothers, rfl⟩

/-- What holds of no items, and is kept by reading one more in front, holds of all items. -/
theorem manyUntil_induction {all : List α → State → State → Prop} (hnil : ∀ s, all [] s s)
    (hcons : ∀ a as s s₁ s', item s = .ok a s₁ → all as s₁ s' → all (a :: as) s s')
    {as : List α} (h : manyUntil kind item s = .ok as s') : all as s s' := by
  -- The induction is on the number of tokens left.
  induction hn : s.left using Nat.strongRecOn generalizing s as with
  | ind n ih =>
    by_cases hkind : s.current.kind = kind
    · rw [manyUntil_of_eq hkind] at h
      obtain ⟨rfl, rfl⟩ := EStateM.Result.ok.inj h
      exact hnil s
    · cases hitem : item s with
      | error error s₁ =>
        rw [manyUntil_of_error hkind hitem] at h
        cases h
      | ok a s₁ =>
        by_cases hless : s₁.left < s.left
        · rw [manyUntil_of_less hkind hitem hless] at h
          obtain ⟨others, hothers, rfl⟩ := ok_of_map h
          exact hcons a others s s₁ s' hitem (ih s₁.left (hn ▸ hless) hothers rfl)
        · rw [manyUntil_of_stuck hkind hitem hless] at h
          obtain ⟨rfl, rfl⟩ := EStateM.Result.ok.inj h
          exact hcons a [] s s₁ s₁ hitem (hnil s₁)

end Until

/-- Declarations that could be read are followed by the end of the input. -/
theorem manyUntil_declaration_ends {depth : Nat} {dss : List (List Declaration)}
    (hs : s.left ≤ depth) (h : manyUntil .eof (declaration depth false) s = .ok dss s') :
    s'.current.kind = .eof := by
  induction hn : s.left using Nat.strongRecOn generalizing s dss with
  | ind n ih =>
    obtain ⟨hkind, -, rfl⟩ | ⟨-, ds, s₁, others, -, hless, hothers, -⟩ :=
      manyUntil_cases (fun _ _ => left_of_declaration hs) h
    · exact hkind
    · exact ih s₁.left (hn ▸ hless) (by omega) hothers rfl

/-- Declarations are read wherever they stand. -/
theorem manyUntil_declaration_of_alike (htotal : ∀ pos, ∃ pos', positions pos pos')
    {depth depth' : Nat} {dss : List (List Declaration)} {t : State} (hs : s.left ≤ depth)
    (hs' : s.left ≤ depth')
    (hstarts : StartsLike positions s t []) (hstop : s.stop.Alike positions t.stop)
    (h : manyUntil .eof (declaration depth false) s = .ok dss s') :
    ∃ t', manyUntil .eof (declaration depth' false) t = .ok dss t' := by
  have honline : Online s.left positions (manyUntil .eof (declaration depth false))
      (manyUntil .eof (declaration depth' false)) :=
    (online _ positions).manyUntil .eof (.declaration htotal hs hs' false)
  obtain ⟨hsame, -⟩ := (honline s (Nat.le_refl _)).same t [] hstarts (.inr ⟨rfl, hstop⟩)
  rw [h] at hsame
  generalize manyUntil .eof (declaration depth' false) t = result at hsame
  cases hsame with
  | ok _ _ => exact ⟨_, rfl⟩

end

end Parser

/-! ## Token streams -/

namespace TokenStream

/-- The state that a stream is read from. -/
def initial : TokenStream → Parser.State
  | ⟨tokens, stop⟩ => { tokens, stop, log := #[] }

/-- All declarations, the first token included. -/
def declarations (depth : Nat) : Parser (List Declaration) := do
  Parser.arrive
  Parser.declarations depth

/-- A stream is read with the log of the state that is left. -/
theorem read_eq (stream : TokenStream) :
    stream.read = match declarations stream.tokens.length stream.initial with
      | .ok ds s => ⟨.ok ds, s.log⟩
      | .error error s => ⟨.error error, s.log⟩ := rfl

/-- A stream is read with as much depth as it has tokens. -/
theorem read_result (stream : TokenStream) :
    (∃ ds s, declarations stream.tokens.length stream.initial = .ok ds s ∧
      stream.read.result = .ok ds) ∨
    ∃ error s, declarations stream.tokens.length stream.initial = .error error s ∧
      stream.read.result = .error error := by
  unfold read
  dsimp only
  split
  · rename_i ds s hrun
    exact .inl ⟨ds, s, hrun, rfl⟩
  · rename_i error s hrun
    exact .inr ⟨error, s, hrun, rfl⟩

/-- Reading declarations is online at all depths that are deep enough. -/
theorem online_declarations {positions : Position → Position → Prop} {bound depth depth' : Nat}
    (htotal : ∀ pos, ∃ pos', positions pos pos') (hdepth : bound ≤ depth)
    (hdepth' : bound ≤ depth') :
    Parser.Online bound positions (declarations depth) (declarations depth') := by
  intro s hs
  have harrive : Parser.OnlineAt positions Parser.arrive Parser.arrive s := .arrive s
  refine harrive.bind fun _ s' hrun => Parser.Online.declarations htotal hdepth hdepth' s' ?_
  exact Nat.le_trans (harrive.left_le hrun) hs

/-- A stream that is read as declarations is read as such from where its tokens begin. -/
theorem exists_manyUntil_of_read {stream : TokenStream} {ds : List Declaration}
    (h : stream.read.result = .ok ds) :
    ∃ s dss s', s.tokens = stream.tokens ∧ s.stop = stream.stop ∧ dss.flatten = ds ∧
      Parser.manyUntil .eof (Parser.declaration stream.tokens.length false) s = .ok dss s' := by
  obtain ⟨_, s', hrun, hok⟩ | ⟨error, -, -, herror⟩ := stream.read_result
  · obtain rfl := Except.ok.inj (hok.symm.trans h)
    obtain ⟨_, s, harrive, hrun⟩ := Parser.ok_of_bind hrun
    obtain ⟨dss, hdss, hflatten⟩ := Parser.ok_of_map hrun
    obtain ⟨htokens, hstop⟩ := Parser.arrive_of_ok harrive
    exact ⟨s, dss, s', htokens, hstop, hflatten, hdss⟩
  · rw [herror] at h
    cases h

/-- A stream without an error is read as what is read from where its tokens begin. -/
theorem exists_read_of_finished {stream : TokenStream} {pos : Position}
    (hstop : stream.stop = .finished pos) :
    ∃ s, s.tokens = stream.tokens ∧ s.stop = stream.stop ∧ ∀ dss s',
      Parser.manyUntil .eof (Parser.declaration stream.tokens.length false) s = .ok dss s' →
      stream.read.result = .ok dss.flatten := by
  have harrive := Parser.arrive_eq_ok (s := stream.initial) fun _ => ⟨pos, hstop⟩
  obtain ⟨htokens, hstop'⟩ := Parser.arrive_of_ok harrive
  refine ⟨_, htokens, hstop', fun dss s' hdss => ?_⟩
  have hrun : declarations stream.tokens.length stream.initial = .ok dss.flatten s' := by
    unfold declarations Parser.declarations
    rw [Parser.bind_of_ok harrive, ← bind_pure_comp, Parser.bind_of_ok hdss]
    rfl
  obtain ⟨ds, _, hrun', hok⟩ | ⟨_, _, hrun', -⟩ := stream.read_result
  · rw [hrun] at hrun'
    obtain ⟨rfl, -⟩ := EStateM.Result.ok.inj hrun'
    exact hok
  · rw [hrun] at hrun'
    cases hrun'

/-- Declarations that could be read are followed by the end of the input. -/
theorem eof_of_declarations {stream : TokenStream} {ds : List Declaration} {s : Parser.State}
    (h : declarations stream.tokens.length stream.initial = .ok ds s) : s.current.kind = .eof := by
  obtain ⟨_, s', harrive, h⟩ := Parser.ok_of_bind h
  obtain ⟨dss, hdss, -⟩ := Parser.ok_of_map h
  refine Parser.manyUntil_declaration_ends ?_ hdss
  have honline : Parser.OnlineAt Eq Parser.arrive Parser.arrive stream.initial := .arrive _
  exact honline.left_le harrive

end TokenStream

end Midl
