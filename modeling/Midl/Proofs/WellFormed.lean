import Midl.Parser.Type
import Midl.Proofs.Walk

/-!
# Well-formed declarations

What can be told of the texts in a declaration: which of them are single tokens, which are
sequences of tokens, and where something has to be absent. Everything is stated for a vocabulary
`ok`, the kinds of tokens that may occur, so that one definition serves for the tokens that are
found in sources and for those that can be written.
-/

namespace Midl

/-- The token that a word of a type is. -/
def Parser.Word.kind : Parser.Word → TokenKind
  | name text => .identifier text
  | long => .keyword .long
  | const => .keyword .const

/-- How many parentheses are open after a token, if `depth` are before it. -/
def TokenKind.openAfter (depth : Nat) : TokenKind → Nat
  | .mark .openParen => depth + 1
  | .mark .closeParen => depth - 1
  | _ => depth

/-- Whether tokens close `depth` parentheses that are open, the last of them with the last token. -/
def TokenKind.closes : Nat → List TokenKind → Bool
  | 0, kinds => kinds.isEmpty
  | _ + 1, [] => false
  | depth + 1, kind :: kinds => closes (kind.openAfter (depth + 1)) kinds

section Vocabulary

variable (ok : TokenKind → Prop)

/-- Words that make a type. The word `const` alone does not. -/
structure IsTypeWords (words : List Parser.Word) : Prop where
  kinds : ∀ word ∈ words, ok word.kind
  type : ∃ word ∈ words, word ≠ .const

/-- The text of a type: its words, separated by single spaces. -/
def IsTypeText (text : String) : Prop :=
  ∃ words, IsTypeWords ok words ∧ text = " ".intercalate (words.map Parser.Word.text)

/-- The text of a type with the stars after it. -/
def IsPointerText (text : String) : Prop :=
  ∃ type : Parser.TypeRef, IsTypeText ok type.typeName ∧ text = type.suffixed

/-- An operand: a name or a number. -/
def IsOperand (text : String) : Prop := ok (.identifier text) ∨ ok (.number text)

/-- Operands, of which there is at least one. -/
structure AreOperands (operands : List String) : Prop where
  ne_nil : operands ≠ []
  operand : ∀ operand ∈ operands, IsOperand ok operand

/-- The text of a pragma: a name and tokens in parentheses, separated by single spaces. -/
def IsPragmaText (text : String) : Prop :=
  ∃ name inside, ok (.identifier name) ∧ (∀ kind ∈ inside, ok kind) ∧
    TokenKind.closes 1 inside = true ∧
    text = " ".intercalate (name :: "(" :: inside.map TokenKind.text)

/-- The argument of an attribute can stand in quotes. -/
def Attribute.WellFormed (a : Attribute) : Prop := ∀ value ∈ a.value, ok (.string value)

/-- Attributes of a declaration, none of which describes a parameter. -/
structure AreDeclarative (attributes : List Attribute) : Prop where
  wellFormed : ∀ a ∈ attributes, a.WellFormed ok
  declarative : ∀ a ∈ attributes, a.kind.isParameter = false

section Decidable

variable [DecidablePred ok]

instance (text : String) : Decidable (IsOperand ok text) := inferInstanceAs (Decidable (_ ∨ _))

instance (values : List String) : Decidable (AreOperands ok values) :=
  decidable_of_iff (values ≠ [] ∧ ∀ value ∈ values, IsOperand ok value)
    ⟨fun h => ⟨h.1, h.2⟩, fun h => ⟨h.1, h.2⟩⟩

instance (a : Attribute) : Decidable (a.WellFormed ok) :=
  inferInstanceAs (Decidable (∀ value ∈ a.value, ok (.string value)))

instance (as : List Attribute) : Decidable (AreDeclarative ok as) :=
  decidable_of_iff ((∀ a ∈ as, a.WellFormed ok) ∧ ∀ a ∈ as, a.kind.isParameter = false)
    ⟨fun h => ⟨h.1, h.2⟩, fun h => ⟨h.1, h.2⟩⟩

end Decidable

structure Variable.WellFormed (v : Variable) : Prop where
  attributes : ∀ a ∈ v.attributes, a.WellFormed ok
  typeName : IsTypeText ok v.typeName
  name : ok (.identifier v.name)

structure Method.WellFormed (m : Method) : Prop where
  attributes : ∀ a ∈ m.attributes, a.WellFormed ok
  returnType : IsPointerText ok m.returnType
  name : ok (.identifier m.name)
  params : ∀ v ∈ m.params, v.WellFormed ok

structure Interface.WellFormed (i : Interface) : Prop where
  attributes : AreDeclarative ok i.attributes
  name : ok (.identifier i.name)
  parent : ∀ parent ∈ i.parent, ok (.identifier parent)
  methods : ∀ m ∈ i.methods, m.WellFormed ok

/-- A mention of an interface in a component class. -/
structure Interface.IsMention (i : Interface) : Prop where
  attributes : ∀ a ∈ i.attributes, a.WellFormed ok
  name : ok (.identifier i.name)
  parent : i.parent = none
  methods : i.methods = []

structure Member.WellFormed (m : Member) : Prop where
  name : ok (.identifier m.name)
  value : ∀ operands ∈ m.value, AreOperands ok operands

instance [DecidablePred ok] (m : Member) : Decidable (m.WellFormed ok) :=
  decidable_of_iff (ok (.identifier m.name) ∧ ∀ values ∈ m.value, AreOperands ok values)
    ⟨fun h => ⟨h.1, h.2⟩, fun h => ⟨h.1, h.2⟩⟩

structure Enumeration.WellFormed (e : Enumeration) : Prop where
  attributes : ∀ a ∈ e.attributes, a.WellFormed ok
  name : ok (.identifier e.name)
  members : ∀ m ∈ e.members, m.WellFormed ok

structure Record.WellFormed (r : Record) : Prop where
  attributes : ∀ a ∈ r.attributes, a.WellFormed ok
  name : ok (.identifier r.name)
  fields : ∀ v ∈ r.fields, v.WellFormed ok

structure Typedef.WellFormed (t : Typedef) : Prop where
  attributes : ∀ a ∈ t.attributes, a.WellFormed ok
  typeName : IsTypeText ok t.typeName
  name : ok (.identifier t.name)

structure CoClass.WellFormed (c : CoClass) : Prop where
  attributes : AreDeclarative ok c.attributes
  name : ok (.identifier c.name)
  interfaces : ∀ i ∈ c.interfaces, i.IsMention ok

def ConstantValue.WellFormed : ConstantValue → Prop
  | text value => ok (.string value)
  | operands values => AreOperands ok values

instance [DecidablePred ok] : (value : ConstantValue) → Decidable (value.WellFormed ok)
  | .text value => inferInstanceAs (Decidable (ok (.string value)))
  | .operands values => inferInstanceAs (Decidable (AreOperands ok values))

structure Constant.WellFormed (c : Constant) : Prop where
  name : ok (.identifier c.name)
  typeName : IsPointerText ok c.typeName
  value : c.value.WellFormed ok

mutual

/-- A declaration is well formed. Type libraries and constants have to stand in a library or
module, which is what `nested` tells. -/
def Declaration.WellFormed (nested : Bool) : Declaration → Prop
  | .imports files => files ≠ [] ∧ ∀ file ∈ files, ok (.string file)
  | .interface i => i.WellFormed ok
  | .enumeration e => e.WellFormed ok
  | .record r => r.WellFormed ok
  | .typedef t => t.WellFormed ok
  | .coclass c => c.WellFormed ok
  | .group _ name attributes body =>
    ok (.identifier name) ∧ AreDeclarative ok attributes ∧ Declaration.AllWellFormed true body
  | .importLibrary file => nested = true ∧ ok (.string file)
  | .constant c => nested = true ∧ c.WellFormed ok
  | .directive .cppQuote text => ok (.string text)
  | .directive .midlPragma text => IsPragmaText ok text

/-- All declarations of a list are well formed. -/
def Declaration.AllWellFormed (nested : Bool) : List Declaration → Prop
  | [] => True
  | d :: ds => d.WellFormed nested ∧ Declaration.AllWellFormed nested ds

end

end Vocabulary

namespace Declaration

variable {ok : TokenKind → Prop}

/-- Declarations are well-formed if each of them is. -/
theorem allWellFormed_iff {nested : Bool} {ds : List Declaration} :
    AllWellFormed ok nested ds ↔ ∀ d ∈ ds, d.WellFormed ok nested := by
  induction ds with
  | nil => simp [AllWellFormed]
  | cons d ds ih => simp [AllWellFormed, ih]

/-- Declarations put together from well-formed ones are well-formed. -/
theorem allWellFormed_flatten {nested : Bool} {dss : List (List Declaration)}
    (h : ∀ ds ∈ dss, AllWellFormed ok nested ds) : AllWellFormed ok nested dss.flatten := by
  rw [allWellFormed_iff]
  intro d hd
  obtain ⟨ds, hds, hd⟩ := List.mem_flatten.mp hd
  exact allWellFormed_iff.mp (h ds hds) d hd

mutual

/-- What is met in a well-formed declaration is well formed. -/
theorem wellFormed_of_mem_parts {nested : Bool} {d x : Declaration}
    (h : d.WellFormed ok nested) (hx : x ∈ d.parts) : ∃ nested', x.WellFormed ok nested' := by
  cases d with
  | group kind name attributes body =>
    rw [parts_group] at hx
    rcases List.mem_cons.mp hx with rfl | hx
    · exact ⟨nested, h⟩
    · exact wellFormed_of_mem_preorder h.2.2 hx
  | _ =>
    obtain rfl : x = _ := by simpa [parts, outline] using hx
    exact ⟨nested, h⟩

/-- What stands inside well-formed declarations is well-formed where it stands. -/
theorem wellFormed_of_mem_preorder {nested : Bool} {ds : List Declaration} {x : Declaration}
    (h : AllWellFormed ok nested ds) (hx : x ∈ preorder ds) :
    ∃ nested', x.WellFormed ok nested' := by
  cases ds with
  | nil => simp at hx
  | cons d ds =>
    rw [preorder_cons] at hx
    rcases List.mem_append.mp hx with hx | hx
    · exact wellFormed_of_mem_parts h.1 hx
    · exact wellFormed_of_mem_preorder h.2 hx

end

/-- Every enumeration among well-formed declarations is well formed. -/
theorem wellFormed_of_mem_enumerations {ds : List Declaration} {nested : Bool} {e : Enumeration}
    (h : AllWellFormed ok nested ds) (he : e ∈ enumerations ds) : e.WellFormed ok := by
  obtain ⟨x, hx, hxe⟩ := List.mem_filterMap.mp he
  obtain ⟨nested', hwf⟩ := wellFormed_of_mem_preorder h hx
  cases x with
  | enumeration e' =>
    obtain rfl : e' = e := by simpa [enumeration?] using hxe
    exact hwf
  | _ => simp [enumeration?] at hxe

end Declaration

end Midl
