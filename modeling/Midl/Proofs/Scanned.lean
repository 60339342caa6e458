import Midl.Proofs.Grammar
import Midl.Proofs.Streaming

/-!
# The tokens that were scanned

A token is scanned when it becomes the current one, and a parser decides by its current token alone.
So the log tells how far a parser came: it holds the tokens that were moved past and the current
one, and none beyond. `State.On` is this invariant. Everything that parsers are put together with
keeps it or fails in a way that the tokens scanned account for (`Accounts`), and so does every
parser.

Import statements are the exception that has to be looked at by itself: the error for one that names
no file speaks of its keyword, when the token after it has already been scanned.
-/

namespace Midl

/-! ## Records of tokens -/

/-- The token that an event records, if it records one. -/
def Event.scanned? : Event → Option Token
  | scanned token => some token
  | _ => none

/-- The tokens that events record, in order. -/
def Event.tokens (events : List Event) : List Token := events.filterMap scanned?

/-- Nothing but tokens is recorded at the lowest level. -/
theorem Event.filter_trace (events : List Event) :
    events.filter (fun event => event.level = .trace) = (Event.tokens events).map .scanned := by
  induction events with
  | nil => rfl
  | cons event events ih =>
    rw [Event.tokens] at ih ⊢
    rw [List.filter_cons, List.filterMap_cons, ih]
    cases event <;> rfl

/-- What the tokens scanned in a stream have to do with an error. -/
def ParseError.MetAfter (stream : TokenStream) (scanned : List Token) : ParseError → Prop
  | lexical error => scanned = stream.tokens ∧ stream.stop = .failed error
  | mismatch _ found pos =>
    ∃ t, scanned.getLast? = some t ∧ t.position = pos ∧ t.kind.describe = found
  | emptyImport pos =>
    ∃ t, t.kind = .keyword .importFiles ∧ t.position = pos ∧
      (scanned.getLast? = some t ∨ scanned.dropLast.getLast? = some t)
  | unexpectedEnd _ pos => scanned = stream.tokens ∧ stream.stop = .finished pos

namespace Parser

/-- The tokens scanned so far. -/
def State.scanned (s : State) : List Token := Event.tokens s.log.toList

/-- A state in which the tokens scanned are those that were moved past, so that the next one is yet
to become the current one. -/
structure State.Facing (stream : TokenStream) (s : State) : Prop where
  stop : s.stop = stream.stop
  tokens : stream.tokens = s.scanned ++ s.tokens

/-- A state in which the tokens scanned are those that were moved past and the current one, which is
there unless the stream is over. -/
structure State.On (stream : TokenStream) (s : State) : Prop where
  stop : s.stop = stream.stop
  tokens : ∃ past, stream.tokens = past ++ s.tokens ∧ s.scanned = past ++ s.tokens.take 1
  finished : s.tokens = [] → ∃ pos, stream.stop = .finished pos

/-- An outcome that the tokens scanned account for. -/
inductive Accounted (stream : TokenStream) : EStateM.Result ParseError State α → Prop
  | ok (a : α) {s : State} (h : s.On stream) : Accounted stream (.ok a s)
  | error {error : ParseError} {s : State} (hscanned : s.scanned <+: stream.tokens)
      (herror : error.MetAfter stream s.scanned) : Accounted stream (.error error s)

/-- Whatever comes of a parser, the tokens scanned account for it. -/
def Accounts (stream : TokenStream) (p : Parser α) : Prop :=
  ∀ s : State, s.On stream → Accounted stream (p s)

section

variable {stream : TokenStream} {s s' : State}

/-! ## Moving on -/

/-- Arriving at a token makes it one of those scanned. -/
theorem State.Facing.arrive (h : s.Facing stream) : Accounted stream (arrive s) := by
  obtain ⟨hstop, htokens⟩ := h
  cases hrest : s.tokens with
  | nil =>
    rw [hrest, List.append_nil] at htokens
    cases hend : s.stop with
    | finished pos =>
      have hrun : Parser.arrive s = .ok () s := by simp only [Parser.arrive, hrest, hend]
      rw [hrun]
      exact .ok () ⟨hstop, ⟨s.scanned, by simp [hrest, htokens], by simp [hrest]⟩,
        fun _ => ⟨pos, hstop ▸ hend⟩⟩
    | failed error =>
      rw [arrive_of_failed hrest hend]
      exact .error (htokens ▸ List.prefix_rfl) ⟨htokens.symm, hstop ▸ hend⟩
  | cons t ts =>
    have hrun : Parser.arrive s = .ok () { s with log := s.log.push (.scanned t) } := by
      simp only [Parser.arrive, hrest]
    rw [hrun]
    refine .ok () ⟨hstop, ⟨s.scanned, htokens, ?_⟩, fun hnil => absurd (hrest ▸ hnil) (by simp)⟩
    simp [State.scanned, Event.tokens, Event.scanned?, hrest]

/-- Moving past a token leaves the next one yet to be scanned. -/
theorem State.On.tail (h : s.On stream) : s.tail.Facing stream := by
  obtain ⟨hstop, ⟨past, htokens, hscanned⟩, -⟩ := h
  refine ⟨hstop, ?_⟩
  show stream.tokens = s.scanned ++ s.tokens.tail
  rw [htokens, hscanned, List.append_assoc, ← List.drop_one, List.take_append_drop]

/-- Moving on accounts for the token moved to. -/
theorem Accounts.advance : Accounts stream advance := fun _ h => h.tail.arrive

/-- Moving on adds the token moved to, if there is one, to the tokens scanned. -/
theorem State.On.scanned_of_advance (h : s.On stream) (h' : s'.On stream)
    (hrun : Parser.advance s = .ok () s') : s'.scanned = s.scanned ++ s'.tokens.take 1 := by
  obtain ⟨past, htokens, hscanned⟩ := h'.tokens
  have hpast : past ++ s'.tokens = s.scanned ++ s'.tokens := by
    rw [← htokens, tokens_of_advance hrun]
    exact h.tail.tokens
  rw [hscanned, List.append_cancel_right hpast]

/-! ## Failing -/

/-- The tokens scanned are the first ones of the stream. -/
theorem State.On.begins (h : s.On stream) : s.scanned <+: stream.tokens :=
  ⟨s.tokens.tail, h.tail.tokens.symm⟩

/-- The token that was scanned last is the current one. -/
theorem State.On.getLast (h : s.On stream) {t : Token} {ts : List Token}
    (htokens : s.tokens = t :: ts) : s.scanned.getLast? = some t := by
  obtain ⟨past, -, hscanned⟩ := h.tokens
  simp [hscanned, htokens]

/-- A token that does not fit is the one scanned last, or the stream is over. -/
theorem State.On.unexpected (hkinds : ∀ t ∈ stream.tokens, t.kind ≠ .eof) (h : s.On stream)
    (expected : String) :
    (ParseError.unexpected expected s.current).MetAfter stream s.scanned := by
  cases htokens : s.tokens with
  | nil =>
    obtain ⟨past, hpast, hscanned⟩ := h.tokens
    obtain ⟨pos, hstop⟩ := h.finished htokens
    rw [State.current_of_nil htokens (h.stop.trans hstop)]
    exact ⟨by simp [hpast, hscanned, htokens], hstop⟩
  | cons t ts =>
    have hlast := h.getLast htokens
    have hkind : t.kind ≠ .eof := hkinds t (h.begins.subset (List.mem_of_getLast? hlast))
    rw [State.current_of_cons htokens]
    unfold ParseError.unexpected
    split
    · exact absurd ‹_› hkind
    · exact ⟨t, hlast, rfl, rfl⟩

/-! ## Putting parsers together -/

/-- A step is accounted for if its parts are, each from where it starts. -/
theorem Accounted.bind {p : Parser α} {f : α → Parser β} (hp : Accounted stream (p s))
    (hf : ∀ a s', s'.On stream → Accounted stream (f a s')) : Accounted stream ((p >>= f) s) := by
  cases hrun : p s with
  | ok a s' =>
    rw [hrun] at hp
    cases hp with
    | ok _ h =>
      rw [bind_of_ok hrun]
      exact hf a s' h
  | error error s' =>
    rw [hrun] at hp
    cases hp with
    | error hscanned herror =>
      rw [bind_of_error hrun]
      exact .error hscanned herror

/-- So is one whose parts are wherever they start. -/
theorem Accounts.bind {p : Parser α} {f : α → Parser β} (hp : Accounts stream p)
    (hf : ∀ a, Accounts stream (f a)) : Accounts stream (p >>= f) :=
  fun s h => (hp s h).bind hf

/-- Reading nothing needs no account. -/
theorem Accounts.pure (a : α) : Accounts stream (pure a) := fun _ h => .ok a h

/-- A result may be changed on the way. -/
theorem Accounts.map {p : Parser α} (f : α → β) (hp : Accounts stream p) :
    Accounts stream (f <$> p) := by
  rw [← bind_pure_comp]
  exact hp.bind fun a => .pure (f a)

/-- What is recorded of declarations does not count as scanned. -/
theorem Accounts.note (ds : List Declaration) : Accounts stream (note (ds.map .parsed)) := by
  intro s h
  have hnone : Event.tokens (ds.map .parsed) = [] := by
    simp [Event.tokens, List.filterMap_map, Function.comp_def, Event.scanned?]
  refine .ok () ⟨h.stop, ?_, h.finished⟩
  obtain ⟨past, htokens, hscanned⟩ := h.tokens
  refine ⟨past, htokens, ?_⟩
  rw [← hscanned]
  simp only [Event.tokens] at hnone
  simp [State.scanned, Event.tokens, hnone]

/-- Repetition, by induction on the number of tokens left. -/
theorem Accounts.manyFrom {item : σ → Parser (Option (α × σ))}
    (hitem : ∀ carried, Accounts stream (item carried)) (carried : σ) :
    Accounts stream (manyFrom item carried) := by
  intro s h
  induction hn : s.left using Nat.strongRecOn generalizing s carried with
  | ind n ih =>
    have hround := hitem carried s h
    cases hrun : item carried s with
    | error error s' =>
      rw [hrun] at hround
      cases hround with
      | error hscanned herror =>
        rw [manyFrom_of_error hrun]
        exact .error hscanned herror
    | ok found s' =>
      rw [hrun] at hround
      cases hround with
      | ok _ h' =>
        cases found with
        | none =>
          rw [manyFrom_of_none hrun]
          exact .ok [] h'
        | some found =>
          obtain ⟨a, next⟩ := found
          by_cases hless : s'.left < s.left
          · rw [manyFrom_of_less hrun hless, ← bind_pure_comp]
            exact (ih s'.left (hn ▸ hless) next s' h' rfl).bind fun as => Accounts.pure (a :: as)
          · rw [manyFrom_of_stuck hrun hless]
            exact .ok [a] h'

/-- Everything that parsers are put together with is accounted for. There is no position for which
an import statement may be said to be empty out of the blue. -/
theorem accounts (hkinds : ∀ t ∈ stream.tokens, t.kind ≠ .eof) :
    Congruence (fun p _ => Accounts stream p) fun _ _ => False where
  pure := Accounts.pure
  bind := Accounts.bind
  peek _ h := .ok _ h
  advance := Accounts.advance
  unexpected expected _ h := .error h.begins (h.unexpected hkinds expected)
  emptyImport := False.elim
  manyFrom := Accounts.manyFrom

/-! ## Declarations -/

/-- The error for an import statement without a file comes directly after its keyword, or directly
after the token that stands in place of the file. -/
theorem State.On.emptyImport (h : s.On stream) (h' : s'.On stream)
    (hkind : s.current.kind = .keyword .importFiles) (hrun : Parser.advance s = .ok () s') :
    (ParseError.emptyImport s.current.position).MetAfter stream s'.scanned := by
  refine ⟨s.current, hkind, rfl, ?_⟩
  have hlast : s.scanned.getLast? = some s.current := by
    cases htokens : s.tokens with
    | nil => simp [State.kind_of_nil htokens] at hkind
    | cons t ts => rw [h.getLast htokens, State.current_of_cons htokens]
  rw [h.scanned_of_advance h' hrun]
  cases s'.tokens with
  | nil => exact .inl (by simpa using hlast)
  | cons t ts => exact .inr (by simpa using hlast)

/-- An import statement is accounted for, also if it fails because no file is named. -/
theorem Accounted.importFiles (hkinds : ∀ t ∈ stream.tokens, t.kind ≠ .eof) (h : s.On stream)
    (hkind : s.current.kind = .keyword .importFiles) : Accounted stream (importFiles s) := by
  have hall := accounts hkinds
  have hcurrent : Parser.importFiles s =
      (do advance; importRest s.current.position : Parser Declaration) s := rfl
  rw [hcurrent]
  have hmoved := Accounts.advance s h
  cases hrun : Parser.advance s with
  | error error s' =>
    rw [bind_of_error hrun]
    rw [hrun] at hmoved
    cases hmoved with
    | error hscanned herror => exact .error hscanned herror
  | ok _ s' =>
    rw [bind_of_ok hrun]
    rw [hrun] at hmoved
    cases hmoved with
    | ok _ h' =>
      have herror := h.emptyImport h' hkind hrun
      unfold importRest
      rw [peekBind]
      generalize s'.current.kind = kind
      cases kind with
      | string text =>
        refine Accounts.bind (hall.separated .comma (hall.string _)) (fun files => ?_) s' h'
        exact Accounts.bind (hall.expect _) fun _ => .pure _
      | _ => exact .error h'.begins herror

/-- So is a declaration. -/
theorem Accounts.declaration (hkinds : ∀ t ∈ stream.tokens, t.kind ≠ .eof) (depth : Nat)
    (nested : Bool) : Accounts stream (declaration depth nested) := by
  have hall := accounts hkinds
  induction depth generalizing nested with
  | zero => exact hall.unexpected _
  | succ depth ih =>
    refine Accounts.bind hall.leadingAttributes fun as => Accounts.bind ?_ fun ds =>
      (Accounts.note ds).bind fun _ => .pure ds
    obtain ⟨f, _, hf, -, hcases⟩ := @Completion.chosen_steps _ _ _ hall.completion _
      (Parser.declaration depth true) (ih true) nested as
    rw [hf]
    intro s h
    rw [peekBind]
    obtain ⟨hkind, himport, -⟩ | ⟨f', -, hstep, -, hrest⟩ | ⟨hrefused, -⟩ := hcases s.current.kind
    · rw [himport, ← bind_pure_comp]
      exact (Accounted.importFiles hkinds h hkind).bind fun d => Accounts.pure [d]
    · rw [hstep]
      exact Accounts.advance.bind (fun _ => hrest) s h
    · rw [hrefused]
      exact hall.unexpected _ s h

/-- So are declarations up to the end. -/
theorem Accounts.declarations (hkinds : ∀ t ∈ stream.tokens, t.kind ≠ .eof) (depth : Nat) :
    Accounts stream (declarations depth) :=
  Accounts.map _ (@Congruence.manyUntil _ _ (accounts hkinds) _ .eof _
    (Parser.declaration depth false) (Accounts.declaration hkinds depth false))

end

end Parser

/-! ## Streams and sources -/

namespace TokenStream

variable {stream : TokenStream}

/-- At the beginning no token has been scanned. -/
theorem initial_facing (stream : TokenStream) : stream.initial.Facing stream := ⟨rfl, rfl⟩

/-- So reading a whole stream is accounted for. -/
theorem accounted_declarations (hkinds : ∀ t ∈ stream.tokens, t.kind ≠ .eof) (depth : Nat) :
    Parser.Accounted stream (declarations depth stream.initial) :=
  (initial_facing stream).arrive.bind fun _ => Parser.Accounts.declarations hkinds depth

/-- Declarations that could be read are all there is. -/
theorem scanned_of_ok (hkinds : ∀ t ∈ stream.tokens, t.kind ≠ .eof) {ds : List Declaration}
    {s : Parser.State} (h : s.On stream)
    (hrun : declarations stream.tokens.length stream.initial = .ok ds s) :
    s.scanned = stream.tokens ∧ ∃ pos, stream.stop = .finished pos := by
  have hend : s.current.kind = .eof := eof_of_declarations hrun
  obtain ⟨past, htokens, hscanned⟩ := h.tokens
  cases hrest : s.tokens with
  | nil => exact ⟨by simp [hscanned, htokens, hrest], h.finished hrest⟩
  | cons t ts =>
    rw [Parser.State.current_of_cons hrest] at hend
    exact absurd hend (hkinds t (by simp [htokens, hrest]))

end TokenStream

namespace Source

/-- A source that is over is over after its last byte. -/
theorem finished_position {source : Source} {pos : Position}
    (h : source.tokens.stop = .finished pos) : pos = Position.start.advance source.bytes := by
  obtain ⟨bytes, ending⟩ := source
  cases ending with
  | eof =>
    obtain ⟨f, hf⟩ := Lexical.Factorization.exists_of bytes
    obtain ⟨ts, stop, htokens, -, hstop⟩ := hf.tokens .start
    have htokens : (Source.mk bytes .eof).tokens = ⟨ts, stop⟩ := htokens
    rw [htokens] at h
    obtain rfl : stop = .finished pos := h
    have hrest : f.rest = [] := hstop.finished_iff.mp ⟨pos, rfl⟩
    rw [hrest] at hstop
    cases hstop with
    | finished => rw [hf.bytes_eq, hrest, List.append_nil]
  | failure message =>
    obtain ⟨error, hstop⟩ := exists_stop_of_failure bytes message
    rw [hstop] at h
    cases h

/-- The tokens scanned account for what a source is read as. -/
theorem accounted_read (source : Source) :
    ∃ s : Parser.State, source.read.log = s.log ∧ s.scanned <+: source.tokens.tokens ∧
      match source.parse with
      | .ok _ => s.scanned = source.tokens.tokens ∧ ∃ pos, source.tokens.stop = .finished pos
      | .error error => error.MetAfter source.tokens s.scanned := by
  have hkinds : ∀ t ∈ source.tokens.tokens, t.kind ≠ .eof := fun _ => kind_ne_eof
  have hread := source.tokens.read_eq
  have haccounted := TokenStream.accounted_declarations hkinds source.tokens.tokens.length
  unfold parse read
  cases hrun : TokenStream.declarations source.tokens.tokens.length source.tokens.initial with
  | ok ds s =>
    rw [hrun] at hread haccounted
    cases haccounted with
    | ok _ h =>
      rw [hread]
      exact ⟨s, rfl, h.begins, TokenStream.scanned_of_ok hkinds h hrun⟩
  | error error s =>
    rw [hrun] at hread haccounted
    cases haccounted with
    | error hscanned herror =>
      rw [hread]
      exact ⟨s, rfl, hscanned, herror⟩

/-- The records of tokens in the log are those of the first tokens of the source, and tell where the
parser stopped. If it succeeds, it has scanned all tokens there are, and no error follows them. A
token that does not fit is the last one scanned. The end of the input and an error of the lexer are
met after all tokens. An import statement without a file is reported as soon as the token after its
keyword has been scanned, or has turned out to be missing. -/
theorem parse_scans_to_verdict (source : Source) :
    ∃ scanned, source.read.log.toList.filter (fun event => event.level = .trace) =
        scanned.map .scanned ∧
      scanned <+: source.tokens.tokens ∧
      (∀ ds, source.parse = .ok ds →
        scanned = source.tokens.tokens ∧ source.tokens.error? = none) ∧
      (∀ expected found pos, source.parse = .error (.mismatch expected found pos) →
        ∃ t, scanned.getLast? = some t ∧ t.position = pos ∧ t.kind.describe = found) ∧
      (∀ expected pos, source.parse = .error (.unexpectedEnd expected pos) →
        scanned = source.tokens.tokens ∧ source.tokens.error? = none ∧
          source.tokens.last = .eof pos ∧ pos = Position.start.advance source.bytes) ∧
      (∀ error, source.parse = .error (.lexical error) →
        scanned = source.tokens.tokens ∧ source.tokens.error? = some error) ∧
      ∀ pos, source.parse = .error (.emptyImport pos) →
        ∃ t, t.kind = .keyword .importFiles ∧ t.position = pos ∧
          (scanned.getLast? = some t ∨ scanned.dropLast.getLast? = some t) := by
  obtain ⟨s, hlog, hscanned, hverdict⟩ := source.accounted_read
  refine ⟨s.scanned, ?_, hscanned, ?_, ?_, ?_, ?_, ?_⟩
  · rw [hlog]
    exact Event.filter_trace s.log.toList
  · intro ds hparse
    rw [hparse] at hverdict
    exact ⟨hverdict.1, Lexical.error?_eq_none_iff.mpr hverdict.2⟩
  · intro expected found pos hparse
    rw [hparse] at hverdict
    exact hverdict
  · intro expected pos hparse
    rw [hparse] at hverdict
    obtain ⟨hall, hstop⟩ := hverdict
    refine ⟨hall, Lexical.error?_eq_none_iff.mpr ⟨pos, hstop⟩, ?_, finished_position hstop⟩
    rw [TokenStream.last, hstop]
  · intro error hparse
    rw [hparse] at hverdict
    exact ⟨hverdict.1, Lexical.error?_eq_some_iff.mpr hverdict.2⟩
  · intro pos hparse
    rw [hparse] at hverdict
    exact hverdict

end Source

end Midl
