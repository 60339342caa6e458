/-!
# Names in the output

The output is Rust source. Most names can be kept; those that are reserved there are written as
raw identifiers, and the few that cannot be raw get an underscore.
-/

namespace Midl.Output

/-- Reserved words that cannot be written as raw identifiers. Source: `rust_ident`. -/
def pathWords : List String := ["self", "Self", "super", "crate"]

/-- Reserved words that can be written as raw identifiers. Source: `rust_ident`. -/
def reservedWords : List String :=
  ["abstract", "as", "async", "await", "become", "box", "break", "const", "continue", "do", "dyn",
    "else", "enum", "extern", "false", "final", "fn", "for", "gen", "if", "impl", "in", "let",
    "loop", "macro", "match", "mod", "move", "mut", "override", "priv", "pub", "ref", "return",
    "static", "struct", "trait", "true", "try", "type", "typeof", "unsafe", "unsized", "use",
    "virtual", "where", "while", "yield"]

/-- A name as it is written in the output. Source: `rust_ident`. -/
def identifier (name : String) : String :=
  if name ∈ pathWords then name ++ "_"
  else if name ∈ reservedWords then "r#" ++ name
  else name

end Midl.Output
