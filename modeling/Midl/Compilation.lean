import Midl.Output.Session
import Midl.Parser.Declaration

/-!
# From source to output

Reading a source and generating its output, in one go and with one log.
-/

namespace Midl

/-- Reasons why there is no output. -/
inductive Failure where
  /-- The source could not be read. -/
  | source (error : ParseError)
  /-- Generating the output was given up. -/
  | fault (fault : Fault)
deriving DecidableEq

/-- What came of a source. -/
structure Compilation where
  /-- The output, or why there is none. -/
  result : Except Failure Output.Generated
  /-- What happened on the way. -/
  log : Array Event

/-- Turns a token stream into output. Source: `translate`. -/
def TokenStream.compile (settings : Output.Settings) (stream : TokenStream) : Compilation :=
  let reading := stream.read
  match reading.result with
  | .error error => ⟨.error (.source error), reading.log⟩
  | .ok ds =>
    let (result, session) := Output.Session.generate ⟨settings, {}⟩ ds
    ⟨result.mapError .fault, reading.log ++ session.draft.log⟩

/-- Turns a source into output. -/
def compile (settings : Output.Settings) (source : Source) : Compilation :=
  source.tokens.compile settings

/-- A source that cannot be read has no output. -/
theorem compile_of_error {settings : Output.Settings} {source : Source} {error : ParseError}
    (h : source.read.result = .error error) :
    compile settings source = ⟨.error (.source error), source.read.log⟩ := by
  change source.tokens.read.result = _ at h
  rw [compile, TokenStream.compile, h]
  rfl

/-- A source that can be read has the output of its declarations. -/
theorem compile_of_ok {settings : Output.Settings} {source : Source} {ds : List Declaration}
    (h : source.read.result = .ok ds) :
    compile settings source =
      ⟨(Output.Session.generate ⟨settings, {}⟩ ds).1.mapError .fault,
        source.read.log ++ (Output.Session.generate ⟨settings, {}⟩ ds).2.draft.log⟩ := by
  change source.tokens.read.result = _ at h
  rw [compile, TokenStream.compile, h]
  rfl

/-- Turns what a reader hands out into output. Source: `translate`. -/
def Reader.translate {ρ : Type} [Reader ρ] (settings : Output.Settings) (r : ρ) : Compilation :=
  (Reader.lex r).compile settings

end Midl
