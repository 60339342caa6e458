import Midl.Token.Scan

/-!
# Token streams

All tokens of a source in order, and how the reading of them ended. Since scanning depends on
nothing but the source, the whole stream can be laid out before anything is parsed; whoever
consumes it meets the final error only after all tokens before it.
-/

namespace Midl

/-- How the reading of tokens ended. -/
inductive Stop where
  /-- At the end of the input, which is at `pos`. -/
  | finished (pos : Position)
  /-- At an error. -/
  | failed (error : LexError)
deriving DecidableEq

/-- The tokens of a source. -/
structure TokenStream where
  /-- The tokens, in order. None of them is the end of the input. -/
  tokens : List Token
  /-- What came after the last one. -/
  stop : Stop
deriving DecidableEq

namespace Cursor

/-- All tokens from a cursor on. -/
def tokens (ending : Ending) (cursor : Cursor) : TokenStream :=
  match _ : scan ending cursor with
  | .token t rest =>
    let later := tokens ending rest
    ⟨t :: later.tokens, later.stop⟩
  | .finished pos => ⟨[], .finished pos⟩
  | .failed error => ⟨[], .failed error⟩
termination_by cursor.rest.length
decreasing_by exact scan_length_lt ‹_›

end Cursor

/-- All tokens of a source. -/
def Source.tokens (source : Source) : TokenStream :=
  (Cursor.start source.bytes).tokens source.ending

namespace TokenStream

/-- The error that ended the stream, if one did. -/
def error? (stream : TokenStream) : Option LexError :=
  match stream.stop with
  | .finished _ => none
  | .failed error => some error

/-- The token that is current when the stream has been read to its end: the end of the input, or
the last token before an error. Before any token the end of the input stands at the start. -/
def last (stream : TokenStream) : Token :=
  match stream.stop with
  | .finished pos => .eof pos
  | .failed _ => stream.tokens.getLastD (.eof .start)

end TokenStream

end Midl
