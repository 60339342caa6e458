import Midl.Declaration
import Midl.Fault
import Midl.Output.Identifier
import Midl.Text.Blank

/-!
# Types in the output

A type is written as its pointers, outermost first, and then what they point to. Base types have
counterparts of a fixed width; any other name is taken for a type that is defined elsewhere. The
word `const` may stand anywhere among the words and concerns the innermost pointer only.
-/

namespace Midl.Output

/-- The counterpart of a type without its pointers, given by its words other than `const`. Source:
`rust_type`. -/
def baseType (words : String) : String :=
  match words with
  | "long" | "int" | "long int" | "signed" | "signed long" | "signed int" | "__int32" => "i32"
  | "unsigned" | "unsigned long" | "unsigned int" | "unsigned long int" | "unsigned __int32" =>
    "u32"
  | "short" | "short int" | "signed short" => "i16"
  | "unsigned short" | "unsigned short int" | "wchar_t" => "u16"
  | "char" | "signed char" | "small" => "i8"
  | "unsigned char" | "unsigned small" | "byte" | "boolean" => "u8"
  | "hyper" | "long long" | "__int64" => "i64"
  | "unsigned hyper" | "unsigned long long" | "unsigned __int64" => "u64"
  | "float" => "f32"
  | "double" => "f64"
  | "void" => "c_void"
  | other => identifier other

/-- Pointers to a type: one that is constant if `isConst` is set, then others to it that are not.
Source: `rust_type`. -/
def pointers (isConst : Bool) (type : String) : Nat → String
  | 0 => type
  | 1 => if isConst then "*const " ++ type else "*mut " ++ type
  | depth + 2 => "*mut " ++ pointers isConst type (depth + 1)

/-- A type with a number of pointers. Source: `rust_type`. -/
def typeText (typeName : String) (indirection : Nat) : String :=
  let words := Text.words typeName
  let base := baseType (" ".intercalate (words.filter (· ≠ "const")))
  pointers (words.contains "const") base indirection

/-- Parts the stars at the end of a type from the words before them. Source: `split_pointer_suffix`.
-/
def splitStars (typeName : String) : String × Nat :=
  let reversed := typeName.toList.reverse
  (String.ofList (reversed.dropWhile (· = '*')).reverse, (reversed.takeWhile (· = '*')).length)

/-- The result of a method, which is left out if it is `void`. Source: `method_slot`. -/
def resultText (returnType : String) : String :=
  match splitStars returnType with
  | ("void", 0) => ""
  | (typeName, indirection) => " -> " ++ typeText typeName indirection

/-- The greatest number of pointers that can be counted. -/
def maxDepth : Nat := 0xFFFFFFFFFFFFFFFF

/-- The number of pointers of a parameter. Arrays are passed as pointers, and with one more than can
be counted, counting is given up. Source: `method_slot`. -/
def parameterDepth (v : Variable) : Except Fault Nat :=
  if v.isArray ∧ maxDepth ≤ v.indirection then .error .indirection
  else .ok (v.indirection + v.isArray.toNat)

/-- A parameter. Source: `method_slot`. -/
def parameterText (v : Variable) : Except Fault String := do
  let depth ← parameterDepth v
  return identifier v.name ++ ": " ++ typeText v.typeName depth

/-- The type of a slot: a pointer to the method as a function of the object and the parameters.
Source: `method_slot`. -/
def slotText (interfaceName : String) (m : Method) : Except Fault String := do
  let params ← m.params.mapM parameterText
  return "unsafe extern \"system\" fn("
    ++ ", ".intercalate (("this: *mut " ++ identifier interfaceName) :: params) ++ ")"
    ++ resultText m.returnType

/-- A field. An array at the end of a struct has no elements of its own. Source: `generate_struct`.
-/
def fieldText (v : Variable) : String :=
  let type := typeText v.typeName v.indirection
  "pub " ++ identifier v.name ++ ": " ++ (if v.isArray then "[" ++ type ++ "; 0]" else type) ++ ","

end Midl.Output
