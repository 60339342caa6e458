import Midl.Proofs.Lexing
import Midl.Token.Lexer

/-!
# Calls on a lexer

A lexer keeps its current token, an error that has not been taken, and whether it is finished. Five
calls look at these or change them, and can be made in any order. What each of them answers depends
on two things only: how many calls have moved the lexer on, and whether the error has been handed
out. `Served` says so, in two phases: as long as there was a token for every call that moved on,
and from the first one that there was none for. Each call leads from one of these to one of these,
so that they tell what holds after any calls at all (`Lexer.calls_in_any_order`).
-/

namespace Midl

/-- What a lexer can be asked. -/
inductive Call where
  /-- To move on to the next token. -/
  | advance
  /-- For the current token. -/
  | current
  /-- For the error, which is left where it is. -/
  | lastError
  /-- For the error, which is taken away. -/
  | takeError
  /-- For the next item. -/
  | next
deriving DecidableEq

/-- Whether a call moves on to the next token. -/
def Call.moves : Call → Bool
  | advance | next => true
  | current | lastError | takeError => false

/-- What a lexer answers. -/
inductive Reply where
  /-- Whether there is a further token. -/
  | moved (more : Bool)
  | token (token : Token)
  | error (error? : Option LexError)
  | item (item? : Option (Except LexError Token))

namespace Lexer

/-- Answers one call. -/
def answer (lexer : Lexer) : Call → Reply × Lexer
  | .advance =>
    let (more, lexer) := lexer.advance
    (.moved more, lexer)
  | .current => (.token lexer.current, lexer)
  | .lastError => (.error lexer.error?, lexer)
  | .takeError =>
    let (error?, lexer) := lexer.popError
    (.error error?, lexer)
  | .next =>
    let (item?, lexer) := lexer.next
    (.item item?, lexer)

end Lexer

/-- A call, what was answered, and what the lexer was then. -/
structure Exchange where
  call : Call
  reply : Reply
  after : Lexer

namespace Exchange

/-- The token that the lexer has moved on to, if it has. -/
def yielded (x : Exchange) : Option Token :=
  match x.reply with
  | .moved true => some x.after.current
  | .item (some (.ok t)) => some t
  | _ => none

/-- A call to move on that there was no token for. -/
def Stalls (x : Exchange) : Prop := x.call.moves = true ∧ x.yielded = none

/-- The error that is given away, if there is one. -/
def handedOut (x : Exchange) : Option LexError :=
  match x.call, x.reply with
  | .takeError, .error error? => error?
  | .next, .item (some (.error error)) => some error
  | _, _ => none

/-- If the call can tell of an error, it tells of this one, or of none. -/
def Reports (x : Exchange) (error? : Option LexError) : Prop :=
  match x.call with
  | .lastError | .takeError => x.reply = .error error?
  | .next => x.reply = .item (error?.map .error)
  | .advance | .current => True

end Exchange

namespace Lexer

/-- What comes of a call. -/
def exchange (lexer : Lexer) (call : Call) : Exchange :=
  ⟨call, (lexer.answer call).1, (lexer.answer call).2⟩

/-- What comes of calls, one after the other. -/
def trace (lexer : Lexer) : List Call → List Exchange
  | [] => []
  | call :: calls => lexer.exchange call :: (lexer.exchange call).after.trace calls

/-- The exchanges of a lexer are those it was called for. -/
theorem map_call_trace (lexer : Lexer) (calls : List Call) :
    (lexer.trace calls).map Exchange.call = calls := by
  induction calls generalizing lexer with
  | nil => rfl
  | cons call calls ih => rw [trace, List.map_cons, ih, exchange]

/-- As many exchanges move on as calls do. -/
theorem countP_trace (lexer : Lexer) (calls : List Call) :
    (lexer.trace calls).countP (fun x => x.call.moves) = calls.countP Call.moves := by
  have hmap := congrArg (List.countP Call.moves) (map_call_trace lexer calls)
  rw [List.countP_map] at hmap
  exact hmap

/-! ## What one call does -/

section Exchange

variable {lexer : Lexer} (call : Call)

/-- A lexer that is finished stays as it is, but that its error may be handed out. -/
theorem exchange_of_finished (h : lexer.finished = true) :
    (lexer.exchange call).yielded = none ∧
    (lexer.exchange call).after.current = lexer.current ∧
    (lexer.exchange call).after.finished = true ∧
    (lexer.exchange call).Reports lexer.error? ∧
    (call = .current → (lexer.exchange call).reply = .token lexer.current) ∧
    ((lexer.exchange call).handedOut = none ∧
        (lexer.exchange call).after.error? = lexer.error? ∨
      (lexer.exchange call).handedOut = lexer.error? ∧
        (lexer.exchange call).after.error? = none) := by
  have hadvance : lexer.advance = (false, lexer) := by rw [advance, if_pos h]
  unfold exchange Exchange.yielded Exchange.Reports Exchange.handedOut
  cases call with
  | advance => simp [answer, hadvance, h]
  | current => simp [answer, h]
  | lastError => simp [answer, h]
  | takeError => simp [answer, popError, h]
  | next => cases herror : lexer.error? <;> simp [answer, next, hadvance, popError, herror, h]

variable {call}

/-- A call that does not move on leaves a lexer without an error as it is. -/
theorem exchange_of_not_moves (hcall : call.moves = false) (herror : lexer.error? = none) :
    (lexer.exchange call).yielded = none ∧ (lexer.exchange call).handedOut = none ∧
    (lexer.exchange call).after = lexer ∧ (lexer.exchange call).Reports none := by
  obtain ⟨ending, cursor, current, error?, finished⟩ := lexer
  obtain rfl : error? = none := herror
  cases call with
  | current => exact ⟨rfl, rfl, rfl, trivial⟩
  | lastError => exact ⟨rfl, rfl, rfl, rfl⟩
  | takeError => exact ⟨rfl, rfl, rfl, rfl⟩
  | advance => cases hcall
  | next => cases hcall

/-- A call that moves on to a token. -/
theorem exchange_of_token {t : Token} {rest : Cursor} (hcall : call.moves = true)
    (hfinished : lexer.finished = false)
    (hscan : scan lexer.ending lexer.cursor = .token t rest) :
    (lexer.exchange call).yielded = some t ∧ (lexer.exchange call).handedOut = none ∧
    (lexer.exchange call).after = { lexer with cursor := rest, current := t } := by
  have hadvance : lexer.advance = (true, { lexer with cursor := rest, current := t }) := by
    rw [advance, hfinished, hscan]
    rfl
  unfold exchange Exchange.yielded Exchange.handedOut
  cases call with
  | advance => simp [answer, hadvance]
  | next => simp [answer, next, hadvance]
  | current => cases hcall
  | lastError => cases hcall
  | takeError => cases hcall

/-- A call that comes to the end of the input. -/
theorem exchange_of_finish {pos : Position} (hcall : call.moves = true)
    (hfinished : lexer.finished = false) (herror : lexer.error? = none)
    (hscan : scan lexer.ending lexer.cursor = .finished pos) :
    (lexer.exchange call).yielded = none ∧ (lexer.exchange call).handedOut = none ∧
    (lexer.exchange call).after = { lexer with current := .eof pos, finished := true } := by
  have hadvance : lexer.advance =
      (false, { lexer with current := .eof pos, finished := true }) := by
    rw [advance, hfinished, hscan]
    rfl
  unfold exchange Exchange.yielded Exchange.handedOut
  cases call with
  | advance => simp [answer, hadvance]
  | next => simp [answer, next, hadvance, popError, herror]
  | current => cases hcall
  | lastError => cases hcall
  | takeError => cases hcall

/-- A call that meets an error, and keeps it or hands it out. -/
theorem exchange_of_failure {error : LexError} (hcall : call.moves = true)
    (hfinished : lexer.finished = false)
    (hscan : scan lexer.ending lexer.cursor = .failed error) :
    (lexer.exchange call).yielded = none ∧
    (lexer.exchange call).after.current = lexer.current ∧
    (lexer.exchange call).after.finished = true ∧
    ((lexer.exchange call).handedOut = none ∧
        (lexer.exchange call).after.error? = some error ∨
      (lexer.exchange call).handedOut = some error ∧
        (lexer.exchange call).after.error? = none) := by
  have hadvance : lexer.advance =
      (false, { lexer with error? := some error, finished := true }) := by
    rw [advance, hfinished, hscan]
    rfl
  unfold exchange Exchange.yielded Exchange.handedOut
  cases call with
  | advance => simp [answer, hadvance]
  | next => simp [answer, next, hadvance, popError]
  | current => cases hcall
  | lastError => cases hcall
  | takeError => cases hcall

end Exchange

/-! ## Two phases -/

/-- What holds of a lexer on a source after the calls in `past`. -/
inductive Served (source : Source) (past : List Exchange) : Lexer → Prop
  /-- There was a token for every call to move on, and the others are still to come. -/
  | reading {lexer : Lexer}
      (unstalled : ∀ x ∈ past, ¬ x.Stalls)
      (moves : past.countP (fun x => x.call.moves) = (past.filterMap Exchange.yielded).length)
      (tokens : source.tokens.tokens =
        past.filterMap Exchange.yielded ++ (lexer.cursor.tokens lexer.ending).tokens)
      (stop : source.tokens.stop = (lexer.cursor.tokens lexer.ending).stop)
      (current : lexer.current = (past.filterMap Exchange.yielded).getLastD (.eof .start))
      (kept : past.filterMap Exchange.handedOut = [])
      (unharmed : lexer.error? = none)
      (unfinished : lexer.finished = false) : Served source past lexer
  /-- There are no more tokens. The error, if there is one, is there or has been handed out. -/
  | past {lexer : Lexer}
      (stalled : ∃ x ∈ past, x.Stalls)
      (moves : source.tokens.tokens.length < past.countP (fun x => x.call.moves))
      (tokens : past.filterMap Exchange.yielded = source.tokens.tokens)
      (current : lexer.current = source.tokens.last)
      (error : past.filterMap Exchange.handedOut = [] ∧ lexer.error? = source.tokens.error? ∨
        past.filterMap Exchange.handedOut = source.tokens.error?.toList ∧ lexer.error? = none)
      (finished : lexer.finished = true) : Served source past lexer

section Served

variable {source : Source} {past : List Exchange} {lexer : Lexer}

/-- A lexer at the beginning has served nothing. -/
theorem served_start (source : Source) : Served source [] (start source) :=
  .reading (by simp) rfl rfl rfl rfl rfl rfl rfl

/-- One more call counts if it moves on, and adds what it yields and what it hands out. -/
theorem countP_concat (past : List Exchange) (x : Exchange) :
    (past ++ [x]).countP (fun x => x.call.moves) =
      past.countP (fun x => x.call.moves) + x.call.moves.toNat := by
  cases h : x.call.moves <;> simp [List.countP_append, h]

/-- What is yielded by one more exchange comes last. -/
theorem yielded_concat (past : List Exchange) (x : Exchange) :
    (past ++ [x]).filterMap Exchange.yielded =
      past.filterMap Exchange.yielded ++ x.yielded.toList := by
  cases h : x.yielded <;> simp [List.filterMap_append, h]

/-- So does an error that it hands out. -/
theorem handedOut_concat (past : List Exchange) (x : Exchange) :
    (past ++ [x]).filterMap Exchange.handedOut =
      past.filterMap Exchange.handedOut ++ x.handedOut.toList := by
  cases h : x.handedOut <;> simp [List.filterMap_append, h]

/-- From the first call that there is no token for, there are no more tokens. -/
theorem stalled_of_nil {x : Exchange}
    (hmoves : past.countP (fun x => x.call.moves) = (past.filterMap Exchange.yielded).length)
    (htokens : source.tokens.tokens = past.filterMap Exchange.yielded) (hstalls : x.Stalls)
    (hcurrent : x.after.current = source.tokens.last)
    (hkept : past.filterMap Exchange.handedOut = [])
    (herror : x.handedOut = none ∧ x.after.error? = source.tokens.error? ∨
      x.handedOut = source.tokens.error? ∧ x.after.error? = none)
    (hfinished : x.after.finished = true) : Served source (past ++ [x]) x.after := by
  refine .past ⟨x, by simp, hstalls⟩ ?_ ?_ hcurrent ?_ hfinished
  · rw [countP_concat, hstalls.1, hmoves, htokens]
    exact Nat.lt_succ_self _
  · rw [yielded_concat, hstalls.2, htokens, Option.toList_none, List.append_nil]
  · rw [handedOut_concat, hkept, List.nil_append]
    rcases herror with ⟨hhanded, herror⟩ | ⟨hhanded, herror⟩
    · exact .inl ⟨by rw [hhanded, Option.toList_none], herror⟩
    · exact .inr ⟨by rw [hhanded], herror⟩

/-- Every call leads from one of the phases to one of the phases. -/
theorem Served.exchange (h : Served source past lexer) (call : Call) :
    Served source (past ++ [lexer.exchange call]) (lexer.exchange call).after := by
  cases h with
  | past stalled moves tokens current error finished =>
    obtain ⟨hyielded, hcurrent, hfinished, -, -, hhanded⟩ := exchange_of_finished call finished
    refine .past ?_ ?_ ?_ (hcurrent.trans current) ?_ hfinished
    · obtain ⟨x, hx, hstalls⟩ := stalled
      exact ⟨x, List.mem_append_left _ hx, hstalls⟩
    · rw [countP_concat]
      omega
    · rw [yielded_concat, hyielded, tokens]
      simp
    · rw [handedOut_concat]
      rcases hhanded with ⟨hhanded, herror⟩ | ⟨hhanded, herror⟩
      · rw [hhanded, herror]
        simpa using error
      · rw [hhanded, herror]
        rcases error with ⟨hkept, herror⟩ | ⟨hgone, herror⟩
        · exact .inr ⟨by rw [hkept, herror, List.nil_append], rfl⟩
        · exact .inr ⟨by simp [hgone, herror], rfl⟩
  | reading unstalled moves tokens stop current kept unharmed unfinished =>
    have hkept : ∀ x : Exchange, x.handedOut = none →
        (past ++ [x]).filterMap Exchange.handedOut = [] := by
      intro x hx
      rw [handedOut_concat, hx, kept]
      rfl
    cases hmoves : call.moves with
    | false =>
      obtain ⟨hyielded, hhanded, hafter, -⟩ := exchange_of_not_moves hmoves unharmed
      have hyields : (past ++ [lexer.exchange call]).filterMap Exchange.yielded =
          past.filterMap Exchange.yielded := by
        rw [yielded_concat, hyielded, Option.toList_none, List.append_nil]
      rw [hafter]
      refine .reading ?_ ?_ ?_ stop ?_ (hkept _ hhanded) unharmed unfinished
      · refine List.forall_mem_append.mpr ⟨unstalled, ?_⟩
        rw [List.forall_mem_singleton]
        rintro ⟨hmove, -⟩
        exact absurd hmove (by simp [Lexer.exchange, hmoves])
      · rw [countP_concat, hyields, moves, Lexer.exchange, hmoves]
        rfl
      · rw [hyields, tokens]
      · rw [hyields, current]
    | true =>
      cases hscan : scan lexer.ending lexer.cursor with
      | token t rest =>
        obtain ⟨hyielded, hhanded, hafter⟩ := exchange_of_token hmoves unfinished hscan
        rw [Cursor.tokens_of_token hscan] at tokens stop
        rw [hafter]
        refine .reading ?_ ?_ ?_ stop ?_ (hkept _ hhanded) unharmed unfinished
        · refine List.forall_mem_append.mpr ⟨unstalled, ?_⟩
          rw [List.forall_mem_singleton]
          rintro ⟨-, hnone⟩
          exact absurd (hnone.symm.trans hyielded) (by simp)
        · rw [countP_concat, yielded_concat, hyielded, moves, Lexer.exchange, hmoves]
          simp
        · rw [yielded_concat, hyielded, tokens]
          simp
        · rw [yielded_concat, hyielded]
          simp
      | finished pos =>
        obtain ⟨hyielded, hhanded, hafter⟩ := exchange_of_finish hmoves unfinished unharmed hscan
        rw [Cursor.tokens_of_finished hscan] at tokens stop
        have herror : source.tokens.error? = none := by rw [TokenStream.error?, stop]
        rw [List.append_nil] at tokens
        refine stalled_of_nil moves tokens ⟨hmoves, hyielded⟩ ?_ kept (.inl ⟨hhanded, ?_⟩) ?_
        · rw [hafter, TokenStream.last, stop]
        · rw [hafter, herror]
          exact unharmed
        · rw [hafter]
      | failed error =>
        obtain ⟨hyielded, hcurrent, hfinished, hhanded⟩ :=
          exchange_of_failure hmoves unfinished hscan
        rw [Cursor.tokens_of_failed hscan] at tokens stop
        rw [List.append_nil] at tokens
        have herror : source.tokens.error? = some error := by rw [TokenStream.error?, stop]
        refine stalled_of_nil moves tokens ⟨hmoves, hyielded⟩ ?_ kept ?_ hfinished
        · rw [hcurrent, current, TokenStream.last, stop, tokens]
        · rw [herror]
          exact hhanded

/-- What holds after some calls holds, of more of them, after further ones. -/
theorem Served.trace (h : Served source past lexer) (calls : List Call) :
    ∃ final, Served source (past ++ lexer.trace calls) final := by
  induction calls generalizing past lexer with
  | nil => exact ⟨lexer, by rwa [Lexer.trace, List.append_nil]⟩
  | cons call calls ih =>
    obtain ⟨final, hfinal⟩ := ih (h.exchange call)
    refine ⟨final, ?_⟩
    rwa [List.append_assoc, List.singleton_append] at hfinal

/-- Any one of the calls finds the lexer as the calls before it have left it. -/
theorem Served.split (h : Served source past lexer) {calls : List Call}
    {earlier later : List Exchange} {x : Exchange}
    (htrace : lexer.trace calls = earlier ++ x :: later) :
    ∃ before, Served source (past ++ earlier) before ∧ x = before.exchange x.call := by
  induction calls generalizing past lexer earlier with
  | nil => simp [Lexer.trace] at htrace
  | cons call calls ih =>
    rw [Lexer.trace] at htrace
    cases earlier with
    | nil =>
      obtain ⟨rfl, -⟩ := List.cons.inj htrace
      exact ⟨lexer, by rwa [List.append_nil], rfl⟩
    | cons y earlier =>
      obtain ⟨rfl, hrest⟩ := List.cons.inj htrace
      obtain ⟨before, hbefore, hx⟩ := ih (h.exchange call) hrest
      refine ⟨before, ?_, hx⟩
      rwa [List.append_assoc, List.singleton_append] at hbefore

/-! ## What is known after a stall, and after the error is gone -/

/-- After a call that there was no token for, the lexer is finished for good. -/
theorem Served.of_stalled (h : Served source past lexer) (hstalled : ∃ x ∈ past, x.Stalls) :
    lexer.finished = true ∧ lexer.current = source.tokens.last := by
  cases h with
  | reading unstalled =>
    obtain ⟨x, hx, hstalls⟩ := hstalled
    exact absurd hstalls (unstalled x hx)
  | past _ _ _ current _ finished => exact ⟨finished, current⟩

/-- An error that was handed out is gone. -/
theorem Served.of_handedOut (h : Served source past lexer)
    (hgone : past.filterMap Exchange.handedOut ≠ []) :
    lexer.finished = true ∧ lexer.error? = none := by
  cases h with
  | reading _ _ _ _ _ kept => exact absurd kept hgone
  | past _ _ _ _ error finished =>
    rcases error with ⟨hkept, -⟩ | ⟨-, herror⟩
    · exact absurd hkept hgone
    · exact ⟨finished, herror⟩

/-- An error that was met and not handed out is there. -/
theorem Served.of_kept (h : Served source past lexer) (hstalled : ∃ x ∈ past, x.Stalls)
    (hkept : past.filterMap Exchange.handedOut = []) :
    lexer.finished = true ∧ lexer.error? = source.tokens.error? := by
  cases h with
  | reading unstalled =>
    obtain ⟨x, hx, hstalls⟩ := hstalled
    exact absurd hstalls (unstalled x hx)
  | past _ _ _ _ error finished =>
    rcases error with ⟨-, herror⟩ | ⟨hgone, herror⟩
    · exact ⟨finished, herror⟩
    · rw [hkept, eq_comm, Option.toList_eq_nil_iff] at hgone
      exact ⟨finished, by rw [herror, hgone]⟩

/-- There is no error as long as none was met. -/
theorem Served.of_unstalled (h : Served source past lexer)
    (hunstalled : (∀ x ∈ past, ¬ x.Stalls) ∨ source.tokens.error? = none) :
    lexer.error? = none := by
  cases h with
  | reading _ _ _ _ _ _ unharmed => exact unharmed
  | past stalled _ _ _ error _ =>
    obtain ⟨x, hx, hstalls⟩ := stalled
    rcases hunstalled with hunstalled | hnone
    · exact absurd hstalls (hunstalled x hx)
    · rcases error with ⟨-, herror⟩ | ⟨-, herror⟩
      · rw [herror, hnone]
      · exact herror

/-- The tokens yielded are the first ones of the source, as many as were asked for. -/
theorem Served.yielded_eq (h : Served source past lexer) :
    past.filterMap Exchange.yielded =
      source.tokens.tokens.take (past.countP fun x => x.call.moves) := by
  cases h with
  | reading _ moves tokens => rw [moves, tokens, List.take_left]
  | past _ moves tokens => rw [tokens, List.take_of_length_le (Nat.le_of_lt moves)]

/-- The error of the source is handed out at most once. -/
theorem Served.handedOut_prefix (h : Served source past lexer) :
    past.filterMap Exchange.handedOut <+: source.tokens.error?.toList := by
  cases h with
  | reading _ _ _ _ _ kept =>
    rw [kept]
    exact List.nil_prefix
  | past _ _ _ _ error _ =>
    rcases error with ⟨hkept, -⟩ | ⟨hgone, -⟩
    · rw [hkept]
      exact List.nil_prefix
    · exact ⟨[], by rw [List.append_nil, hgone]⟩

end Served

/-- Calls of all kinds, in any order, on a lexer at the beginning of a source. The calls that move
on yield the tokens of the source in turn, until there are none. After a call that there was no
token for, no call yields one, and the current token stays the last one that the source has to show.
No error is told of before it is met. It is handed out at most once: until then every call that can
tell of it does, and afterwards none does. -/
theorem calls_in_any_order (source : Source) (calls : List Call) :
    let trace := (start source).trace calls
    trace.filterMap Exchange.yielded = source.tokens.tokens.take (calls.countP Call.moves) ∧
    trace.filterMap Exchange.handedOut <+: source.tokens.error?.toList ∧
    ∀ earlier x later, trace = earlier ++ x :: later →
      (x.Stalls → x.after.current = source.tokens.last ∧
        ∀ y ∈ later, y.yielded = none ∧ y.after.current = source.tokens.last ∧
          (y.call = .current → y.reply = .token source.tokens.last)) ∧
      ((∀ y ∈ earlier, ¬ y.Stalls) ∨ source.tokens.error? = none →
        x.call = .lastError → x.reply = .error none) ∧
      ((∃ y ∈ earlier, y.Stalls) → (∀ y ∈ earlier, y.handedOut = none) →
        x.Reports source.tokens.error?) ∧
      (x.handedOut ≠ none → ∀ y ∈ later, y.Reports none) := by
  intro trace
  have hstart : Served source [] (start source) := served_start source
  obtain ⟨final, hfinal⟩ := hstart.trace calls
  rw [List.nil_append] at hfinal
  refine ⟨?_, hfinal.handedOut_prefix, fun earlier x later htrace => ?_⟩
  · rw [hfinal.yielded_eq, countP_trace]
  · obtain ⟨before, hbefore, hx⟩ := hstart.split htrace
    -- A later call finds the lexer after calls among which the present one is.
    have hlater : ∀ y ∈ later, ∃ past before, x ∈ past ∧ Served source past before ∧
        y = before.exchange y.call := by
      intro y hy
      obtain ⟨between, rest, rfl⟩ := List.append_of_mem hy
      have hsplit : trace = (earlier ++ x :: between) ++ y :: rest := by simp [htrace]
      obtain ⟨before, hbefore, hy⟩ := hstart.split hsplit
      exact ⟨_, before, by simp, hbefore, hy⟩
    refine ⟨fun hstalls => ⟨?_, fun y hy => ?_⟩, fun hunstalled hcall => ?_,
      fun hstalled hkept => ?_, fun hhanded y hy => ?_⟩
    · have hafter := hbefore.exchange x.call
      rw [← hx] at hafter
      exact (hafter.of_stalled ⟨x, by simp, hstalls⟩).2
    · obtain ⟨past, before, hmem, hbefore, hy⟩ := hlater y hy
      obtain ⟨hfinished, hcurrent⟩ := hbefore.of_stalled ⟨x, hmem, hstalls⟩
      obtain ⟨hyielded, hsame, -, -, htoken, -⟩ := exchange_of_finished y.call hfinished
      rw [← hy, hcurrent] at hsame htoken
      rw [← hy] at hyielded
      exact ⟨hyielded, hsame, htoken⟩
    · have herror := hbefore.of_unstalled hunstalled
      rw [hx, hcall, ← herror]
      rfl
    · have hnone : earlier.filterMap Exchange.handedOut = [] := by
        rwa [List.filterMap_eq_nil_iff]
      obtain ⟨hfinished, herror⟩ := hbefore.of_kept hstalled hnone
      rw [hx, ← herror]
      exact (exchange_of_finished x.call hfinished).2.2.2.1
    · obtain ⟨past, before, hmem, hbefore, hy⟩ := hlater y hy
      have hgone : past.filterMap Exchange.handedOut ≠ [] := by
        intro hnil
        exact hhanded (List.filterMap_eq_nil_iff.mp hnil x hmem)
      obtain ⟨hfinished, herror⟩ := hbefore.of_handedOut hgone
      rw [hy, ← herror]
      exact (exchange_of_finished y.call hfinished).2.2.2.1

end Lexer

end Midl
