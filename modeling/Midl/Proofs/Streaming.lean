import Midl.Compilation
import Midl.Proofs.Continuation
import Midl.Proofs.Online
import Midl.Proofs.Pulling

/-!
# Sources that break off

Bytes arrive in reads, and a read may fail. How the bytes were parted makes no difference, and bytes
that were not read make none either: what was found before a failure is found in every source that
begins with the bytes that were read. The failure itself is never passed over.

Pulling tokens from a reader comes down to the source that the reader hands out (`Reader.lex_eq`).
There the lexer brings the tokens of two sources together, the parser what they are read as. A
parser that has not come to the end of the tokens cannot tell the sources apart; one that has come
to their end has met the failure.
-/

namespace Midl

/-! ## Reads -/

namespace ReadEvent

/-- The bytes that a read brings. -/
def bytes : ReadEvent → List UInt8
  | data bytes => bytes
  | interrupt => []
  | failure _ => []

/-- The bytes that reads bring, if none of them fails. -/
def received (events : List ReadEvent) : List UInt8 := events.flatMap bytes

/-- Reads that do not fail bring their bytes, and then what the reads after them bring. -/
theorem unread_append {events : List ReadEvent} (h : ∀ message, .failure message ∉ events)
    (later : List ReadEvent) :
    unread (events ++ later) = ⟨received events ++ (unread later).bytes, (unread later).ending⟩ := by
  induction events with
  | nil => rfl
  | cons event events ih =>
    have hevents := ih fun message hmem => h message (List.mem_cons_of_mem event hmem)
    cases event with
    | data bytes =>
      have hreceived : received (.data bytes :: events) = bytes ++ received events :=
        List.flatMap_cons
      rw [List.cons_append, unread, hevents, hreceived, List.append_assoc]
    | interrupt =>
      rw [List.cons_append, unread, hevents]
      rfl
    | failure message => exact absurd List.mem_cons_self (h message)

/-- Reads that do not fail bring their bytes, up to the end of the input. -/
theorem unread_eq_ofBytes {events : List ReadEvent} (h : ∀ message, .failure message ∉ events) :
    unread events = .ofBytes (received events) := by
  have hsource := unread_append h []
  rw [List.append_nil] at hsource
  rw [hsource]
  exact congrArg Source.ofBytes (List.append_nil _)

/-- Reads of which one fails bring the bytes before the failure. -/
theorem unread_failure {events : List ReadEvent} (h : ∀ message, .failure message ∉ events)
    (message : String) (later : List ReadEvent) :
    unread (events ++ .failure message :: later) = ⟨received events, .failure message⟩ := by
  rw [unread_append h, unread, List.append_nil]

end ReadEvent

/-! ## Streams that end in an error -/

namespace TokenStream

variable {stream stream' : TokenStream} {error : LexError}

/-- Whoever comes to the end of a stream that ends in an error fails with that error. -/
theorem error_of_nil (hstop : stream.stop = .failed error)
    (hnil : (Parser.state (declarations stream.tokens.length stream.initial)).tokens = []) :
    ∃ s, declarations stream.tokens.length stream.initial = .error (.lexical error) s := by
  by_cases htokens : stream.tokens = []
  · have harrive : Parser.arrive stream.initial = .error (.lexical error) stream.initial :=
      Parser.arrive_of_failed htokens hstop
    exact ⟨_, Parser.bind_of_error harrive⟩
  · have honline : Parser.Online stream.tokens.length Eq _ _ :=
      online_declarations (fun pos => ⟨pos, rfl⟩) (Nat.le_refl _) (Nat.le_refl _)
    exact (honline stream.initial (Nat.le_refl _)).settled error hstop htokens hnil

/-- A stream that ends in an error is not read as declarations. -/
theorem exists_error_of_failed (hstop : stream.stop = .failed error)
    (hkinds : ∀ t ∈ stream.tokens, t.kind ≠ .eof) : ∃ e, stream.read.result = .error e := by
  obtain ⟨ds, s, hrun, -⟩ | ⟨e, -, -, hresult⟩ := stream.read_result
  · exfalso
    have honline : Parser.Online stream.tokens.length Eq _ _ :=
      online_declarations (fun pos => ⟨pos, rfl⟩) (Nat.le_refl _) (Nat.le_refl _)
    have hsuffix := (honline stream.initial (Nat.le_refl _)).narrows
    have hnil := error_of_nil hstop
    rw [hrun] at hsuffix hnil
    cases htokens : s.tokens with
    | nil =>
      obtain ⟨_, heq⟩ := hnil htokens
      cases heq
    | cons t ts =>
      have hmem : t ∈ stream.tokens := hsuffix.subset (by simp [Parser.state, htokens])
      have hend : s.current.kind = .eof := eof_of_declarations hrun
      rw [Parser.State.current_of_cons htokens] at hend
      exact hkinds t hmem hend
  · exact ⟨e, hresult⟩

/-- A stream that begins like one that ends in an error fails like that one, unless it was the
error that was met. -/
theorem read_of_begins (hstop : stream.stop = .failed error)
    (hbegins : stream.tokens <+: stream'.tokens) {e : ParseError}
    (hresult : stream.read.result = .error e) (he : e ≠ .lexical error) :
    stream'.read.result = .error e := by
  obtain ⟨ds, s, -, hok⟩ | ⟨_, s, hrun, herror⟩ := stream.read_result
  · rw [hok] at hresult
    cases hresult
  · obtain rfl : _ = e := Except.error.inj (herror.symm.trans hresult)
    have hnil := error_of_nil hstop
    obtain ⟨us, hus⟩ := hbegins
    have honline : Parser.Online stream.tokens.length Eq
        (declarations stream.tokens.length) (declarations stream'.tokens.length) :=
      online_declarations (fun pos => ⟨pos, rfl⟩) (Nat.le_refl _) (by rw [← hus]; simp)
    have hsame := (honline stream.initial (Nat.le_refl _)).same stream'.initial us
      ⟨stream.tokens, hus.symm, List.forall₂_same.mpr fun _ _ => ⟨rfl, rfl⟩⟩
    rw [hrun] at hnil hsame
    have hrest : s.tokens ≠ [] := by
      intro htokens
      obtain ⟨_, heq⟩ := hnil htokens
      exact he (EStateM.Result.error.inj heq).1
    obtain ⟨hsame, -⟩ := hsame (.inl hrest)
    obtain ⟨ds, t, hrun', -⟩ | ⟨e, t, hrun', hresult'⟩ := stream'.read_result
    · rw [hrun'] at hsame
      cases hsame
    · rw [hrun'] at hsame
      cases hsame with
      | error herror _ => rw [hresult', herror.eq]

end TokenStream

/-! ## Sources -/

namespace Source

/-- The end of the input is not one of the tokens of a source. -/
theorem kind_ne_eof {source : Source} {t : Token} (h : t ∈ source.tokens.tokens) :
    t.kind ≠ .eof := by
  intro heof
  have hlexed := Cursor.lexed_of_mem_tokens h
  rw [heof] at hlexed
  exact hlexed

section Failure

variable (bytes : List UInt8) (message : String)

/-- A failure to read ends the tokens in an error, if only that of the failure. -/
theorem exists_stop_of_failure : ∃ error, (Source.mk bytes (.failure message)).tokens.stop =
    .failed error := by
  obtain ⟨error, hstop, -⟩ := Cursor.tokens_failure message (Cursor.start bytes) []
  exact ⟨error, hstop⟩

/-- A source that breaks off is not read to any declarations. -/
theorem exists_parse_of_failure : ∃ error, (Source.mk bytes (.failure message)).parse =
    .error error := by
  obtain ⟨error, hstop⟩ := exists_stop_of_failure bytes message
  exact TokenStream.exists_error_of_failed hstop fun _ => kind_ne_eof

variable {bytes message} (more : List UInt8)

/-- The tokens before a failure to read are the first of any source that goes on. -/
theorem begins_of_failure : (Source.mk bytes (.failure message)).tokens.tokens <+:
    (ofBytes (bytes ++ more)).tokens.tokens := by
  obtain ⟨error, -, hbegins, -⟩ := Cursor.tokens_failure message (Cursor.start bytes) more
  exact hbegins

/-- If the failure is not what kept further tokens from being read, then there are none in any
source that goes on. -/
theorem tokens_of_failure {error : LexError}
    (hstop : (Source.mk bytes (.failure message)).tokens.stop = .failed error)
    (hne : error ≠ .readFailure message) :
    (ofBytes (bytes ++ more)).tokens = (Source.mk bytes (.failure message)).tokens := by
  obtain ⟨error', hstop', -, hsame⟩ := Cursor.tokens_failure message (Cursor.start bytes) more
  obtain rfl : error' = error := Stop.failed.inj (hstop'.symm.trans hstop)
  exact hsame hne

/-- If the failure is not what kept the source from being read as declarations, then no source that
goes on can be. -/
theorem parse_of_failure {error : ParseError}
    (h : (Source.mk bytes (.failure message)).parse = .error error)
    (hne : error ≠ .lexical (.readFailure message)) :
    (ofBytes (bytes ++ more)).parse = .error error := by
  obtain ⟨error', hstop⟩ := exists_stop_of_failure bytes message
  by_cases hread : error' = .readFailure message
  · subst hread
    exact TokenStream.read_of_begins hstop (begins_of_failure more) h hne
  · unfold parse read
    rw [tokens_of_failure more hstop hread]
    exact h

end Failure

end Source

/-! ## Readers -/

namespace Reader

/-- The declarations of what a reader hands out are those of the source that it hands out. -/
theorem parse_eq {ρ : Type} [Reader ρ] (r : ρ) : parse r = (unread r).parse := by
  rw [parse, lex_eq]
  rfl

/-- So is the output. -/
theorem translate_eq {ρ : Type} [Reader ρ] (settings : Output.Settings) (r : ρ) :
    translate settings r = compile settings (unread r) := by
  rw [translate, lex_eq]
  rfl

/-- The tokens of bytes that are at hand all at once are those of the source with these bytes. -/
theorem lex_bytes (bytes : List UInt8) : lex bytes = (Source.ofBytes bytes).tokens := lex_eq bytes

@[inherit_doc lex_bytes]
theorem parse_bytes (bytes : List UInt8) : parse bytes = (Source.ofBytes bytes).parse :=
  parse_eq bytes

/-- What is read from a reader depends on the bytes that have been read, however they came. Before a
failure to read, what is found is found in any input that begins with the same bytes, and the
failure is not lost. -/
theorem read_online {events : List ReadEvent} (h : ∀ message, .failure message ∉ events) :
    let bytes := ReadEvent.received events
    lex events = lex bytes ∧ parse events = parse bytes ∧
    ∀ (message : String) (later : List ReadEvent),
      let failing := events ++ .failure message :: later
      (∃ error, (lex failing).error? = some error) ∧
      (∃ error, parse failing = .error error) ∧
      ∀ more : List UInt8,
        let whole := bytes ++ more
        (lex failing).tokens <+: (lex whole).tokens ∧
        (∀ error, (lex failing).error? = some error → error ≠ .readFailure message →
          (lex whole).tokens = (lex failing).tokens ∧ (lex whole).error? = some error) ∧
        ∀ error, parse failing = .error error → error ≠ .lexical (.readFailure message) →
          parse whole = .error error := by
  intro bytes
  have hevents : unread events = .ofBytes bytes := ReadEvent.unread_eq_ofBytes h
  refine ⟨by rw [lex_eq, hevents, lex_bytes], by rw [parse_eq, hevents, parse_bytes],
    fun message later => ?_⟩
  intro failing
  have hfailing : unread failing = ⟨bytes, .failure message⟩ :=
    ReadEvent.unread_failure h message later
  rw [lex_eq, parse_eq, hfailing]
  obtain ⟨error, hstop⟩ := Source.exists_stop_of_failure bytes message
  have herror : (Source.mk bytes (.failure message)).tokens.error? = some error := by
    unfold TokenStream.error?
    rw [hstop]
  refine ⟨⟨error, herror⟩, Source.exists_parse_of_failure bytes message, fun more => ?_⟩
  intro whole
  rw [lex_bytes, parse_bytes]
  refine ⟨Source.begins_of_failure more, fun error' herror' hne => ?_,
    fun _ => Source.parse_of_failure more⟩
  obtain rfl : error = error' := Option.some.inj (herror.symm.trans herror')
  rw [Source.tokens_of_failure more hstop hne]
  exact ⟨rfl, herror⟩

/-- Reads that bring an interface whose parent is given by a number. -/
def brokenOff : List ReadEvent :=
  [.data (Utf8.encode "interface I\r\n: ".toList), .interrupt, .data [],
    .data (Utf8.encode "5 ".toList)]

/-- The failure after these reads ends the tokens, and yet it is told why they are no declarations,
which holds whatever might have come after them. -/
theorem read_online_brokenOff :
    (∀ message, .failure message ∉ brokenOff) ∧
    (lex (brokenOff ++ [.failure "gone"])).error? = some (.readFailure "gone") ∧
    parse (brokenOff ++ [.failure "gone"]) =
      .error (.mismatch "parent interface name" "number 5" ⟨15, 2, 3⟩) ∧
    ∀ more, parse (ReadEvent.received brokenOff ++ more) =
      .error (.mismatch "parent interface name" "number 5" ⟨15, 2, 3⟩) := by
  have hevents : ∀ message, .failure message ∉ brokenOff := by simp [brokenOff]
  have hparse : parse (brokenOff ++ [.failure "gone"]) =
      .error (.mismatch "parent interface name" "number 5" ⟨15, 2, 3⟩) := by
    have herror : (unread (brokenOff ++ [.failure "gone"])).parse.map (fun _ => ()) =
        .error (.mismatch "parent interface name" "number 5" ⟨15, 2, 3⟩) := by
      decide +kernel
    rw [parse_eq]
    cases h : (unread (brokenOff ++ [.failure "gone"])).parse with
    | ok ds =>
      rw [h] at herror
      cases herror
    | error error =>
      rw [h] at herror
      rw [Except.error.inj herror]
  have hlex : (lex (brokenOff ++ [.failure "gone"])).error? = some (.readFailure "gone") := by
    rw [lex_eq]
    decide +kernel
  refine ⟨hevents, hlex, hparse, fun more => ?_⟩
  exact ((read_online hevents).2.2 "gone" []).2.2 more |>.2.2 _ hparse nofun

end Reader

end Midl
