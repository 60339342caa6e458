import Midl.Output.Operand
import Midl.Proofs.Literal
import Midl.Proofs.WellFormed
import Midl.Proofs.Lexing

/-!
# The expressions of the output, evaluated

The value of a constant in the output is an expression: operands joined by bars, each a literal, a
literal converted from an unsigned one, a name, or a name and a distance. `Expression.value?`
evaluates the text of such an expression in 32 bits, where overflow wraps around, given the
constants that come before; `Expression.mentions` lists the names in it. Neither knows how the
text came about. What the output writes for an operand has the value of that operand.
-/

namespace Midl.Output

/-- The values of constants, the latest first. -/
abbrev Constants := List (String × BitVec 32)

/-- A number modulo `2 ^ 32`. -/
def word (n : Int64) : BitVec 32 := BitVec.ofInt 32 n.toInt

namespace Expression

/-- The parts of an expression between the bars. -/
def parts : List Char → List (List Char)
  | [] => [[]]
  | ' ' :: '|' :: ' ' :: cs => [] :: parts cs
  | c :: cs => (parts cs).modifyHead (c :: ·)

/-- The literal that is converted, if a part is a conversion of an unsigned literal. -/
def unconverted? : List Char → Option (List Char)
  | '(' :: cs =>
    let length := cs.length - "u32 as i32)".length
    if cs.drop length = "u32 as i32)".toList then some (cs.take length) else none
  | _ => none

/-- The value of a literal. -/
def literal? (cs : List Char) : Option (BitVec 32) :=
  match Integer.read (String.ofList cs) with
  | .ok (some n) => some (word n)
  | _ => none

/-- The value of a name, or of a name and a distance. -/
def named? (constants : Constants) (cs : List Char) : Option (BitVec 32) := do
  let base ← constants.lookup (String.ofList (cs.takeWhile (· ≠ ' ')))
  match cs.dropWhile (· ≠ ' ') with
  | [] => return base
  | ' ' :: '+' :: ' ' :: distance => return base + (← literal? distance)
  | _ => none

/-- The value of a part. -/
def part? (constants : Constants) (cs : List Char) : Option (BitVec 32) :=
  match unconverted? cs with
  | some literal => literal? literal
  | none => literal? cs <|> named? constants cs

/-- The value of an expression. -/
def value? (constants : Constants) (text : String) : Option (BitVec 32) :=
  (parts text.toList).foldlM (fun value cs => (value ||| ·) <$> part? constants cs) 0

/-- The name in a part, if there is one. -/
def mention? (cs : List Char) : Option String :=
  if (unconverted? cs).isSome || (literal? cs).isSome then none
  else some (String.ofList (cs.takeWhile (· ≠ ' ')))

/-- The names in an expression. -/
def mentions (text : String) : List String := (parts text.toList).filterMap mention?

/-! ## Parts -/

/-- A character that no bar follows belongs to the first part. -/
theorem parts_cons (c : Char) {cs : List Char} (h : cs.head? ≠ some '|') :
    parts (c :: cs) = (parts cs).modifyHead (c :: ·) := by
  rw [parts]
  rintro rest - rfl
  exact h rfl

/-- An expression without bars has one part. -/
theorem parts_of_no_bar {cs : List Char} (h : '|' ∉ cs) : parts cs = [cs] := by
  induction cs with
  | nil => rfl
  | cons c cs ih =>
    have hcs : '|' ∉ cs := fun hmem => h (List.mem_cons_of_mem _ hmem)
    rw [parts_cons c fun hhead => hcs (List.mem_of_head? hhead), ih hcs]
    rfl

/-- The first part ends at the first bar. -/
theorem parts_append {cs : List Char} (h : '|' ∉ cs) (others : List Char) :
    parts (cs ++ ' ' :: '|' :: ' ' :: others) = cs :: parts others := by
  induction cs with
  | nil => rw [List.nil_append, parts]
  | cons c cs ih =>
    have hcs : '|' ∉ cs := fun hmem => h (List.mem_cons_of_mem _ hmem)
    have hhead : (cs ++ ' ' :: '|' :: ' ' :: others).head? ≠ some '|' := by
      intro hhead
      cases cs with
      | nil => simp at hhead
      | cons c' cs =>
        obtain rfl : c' = '|' := by simpa using hhead
        exact hcs List.mem_cons_self
    rw [List.cons_append, parts_cons c hhead, ih hcs, List.modifyHead_cons]

/-- Operands joined by bars are the parts of what they are joined to. -/
theorem parts_joinOperands {texts : List String} (hne : texts ≠ [])
    (h : ∀ text ∈ texts, '|' ∉ text.toList) :
    parts (joinOperands texts).toList = texts.map String.toList := by
  induction texts with
  | nil => exact absurd rfl hne
  | cons text texts ih =>
    have htext := h text List.mem_cons_self
    by_cases hnil : texts = []
    · subst hnil
      rw [joinOperands, String.intercalate_singleton, parts_of_no_bar htext]
      rfl
    · have hrest := ih hnil fun t ht => h t (List.mem_cons_of_mem _ ht)
      rw [joinOperands] at hrest ⊢
      rw [String.intercalate_cons_of_ne_nil hnil, String.toList_append, String.toList_append,
        List.append_assoc]
      show parts (text.toList ++ ' ' :: '|' :: ' ' :: (" | ".intercalate texts).toList) = _
      rw [parts_append htext, hrest, List.map_cons]

/-! ## Plain texts

The literals and names in an expression hold no character that means something in it. -/

/-- A text without spaces, bars and parentheses. -/
def Plain (text : String) : Prop := ∀ c ∈ text.toList, c ≠ ' ' ∧ c ≠ '|' ∧ c ≠ '('

/-- A literal run is plain. -/
theorem plain_of_kindOf? {bytes : List UInt8} {k : TokenKind} (h : Run.kindOf? bytes = some k) :
    Plain k.text := by
  intro c hc
  obtain ⟨b, hb, rfl⟩ := Run.isLiteral_of_mem_text h hc
  exact (Byte.toChar_ne_of_isLiteral b hb).2

/-- So is an identifier. -/
theorem plain_of_identifier {text : String} (h : (TokenKind.identifier text).Lexed) :
    Plain text := by
  obtain ⟨bytes, hbytes⟩ := h
  exact plain_of_kindOf? hbytes

/-- So is an operand. -/
theorem plain_of_isOperand {text : String} (h : IsOperand TokenKind.Lexed text) : Plain text := by
  rcases h with h | ⟨bytes, hbytes⟩
  · exact plain_of_identifier h
  · exact plain_of_kindOf? hbytes

/-- So is a literal without the letters that follow it. -/
theorem plain_stemText {text : String} (h : Plain text) : Plain (Integer.stemText text) := by
  intro c hc
  rw [Integer.stemText, String.toList_ofList] at hc
  exact h c (Integer.mem_of_mem_stem hc)

/-- So is a number. -/
theorem plain_toString (n : Int) : Plain (toString n) := by
  intro c hc
  have hne : ∀ x, x.isDigit = false → x ≠ '-' → c ≠ x := by
    rintro x hx hdash rfl
    rcases Integer.mem_toString hc with rfl | hdigit
    · exact hdash rfl
    · rw [hdigit] at hx
      cases hx
  exact ⟨hne ' ' rfl (by decide), hne '|' rfl (by decide), hne '(' rfl (by decide)⟩

/-- So are two plain texts, one after the other. -/
theorem plain_append {x y : String} (hx : Plain x) (hy : Plain y) : Plain (x ++ y) := by
  intro c hc
  rw [String.toList_append] at hc
  rcases List.mem_append.mp hc with hc | hc
  · exact hx c hc
  · exact hy c hc

/-- So is a plain name as it is written. -/
theorem plain_identifier {name : String} (h : Plain name) : Plain (identifier name) := by
  have hmark : Plain "_" := by simp [Plain]
  have hraw : Plain "r#" := by simp [Plain]
  unfold identifier
  split
  · exact plain_append h hmark
  · split
    · exact plain_append hraw h
    · exact h

/-- A plain text has no bars. -/
theorem Plain.no_bar {text : String} (h : Plain text) : '|' ∉ text.toList :=
  fun hmem => (h _ hmem).2.1 rfl

/-- What holds no parenthesis is no conversion. -/
theorem unconverted?_of_not_mem {cs : List Char} (h : '(' ∉ cs) : unconverted? cs = none := by
  unfold unconverted?
  split
  · exact absurd List.mem_cons_self h
  · rfl

/-- It is no conversion. -/
theorem Plain.unconverted? {text : String} (h : Plain text) :
    Expression.unconverted? text.toList = none :=
  unconverted?_of_not_mem fun hmem => (h _ hmem).2.2 rfl

/-- It is one word. -/
theorem Plain.takeWhile {text : String} (h : Plain text) :
    text.toList.takeWhile (· ≠ ' ') = text.toList := by
  rw [List.takeWhile_eq_self_iff]
  intro c hc
  simpa using (h c hc).1

/-- Nothing stands after that word. -/
theorem Plain.dropWhile {text : String} (h : Plain text) :
    text.toList.dropWhile (· ≠ ' ') = [] := by
  rw [List.dropWhile_eq_nil_iff]
  intro c hc
  simpa using (h c hc).1

/-! ## What parts mean -/

/-- A literal stands for the bits of its value. -/
theorem literal?_of_read {text : String} {n : Int64} (h : Integer.read text = .ok (some n)) :
    literal? text.toList = some (word n) := by
  rw [literal?, String.ofList_toList, h]

/-- A text without a value is no literal. -/
theorem literal?_of_read_none {text : String} (h : Integer.read text = .ok none) :
    literal? text.toList = none := by
  rw [literal?, String.ofList_toList, h]

/-- A part that is a number, whatever the constants are. -/
structure IsNumber (text : String) (n : Int64) : Prop where
  no_bar : '|' ∉ text.toList
  mention : mention? text.toList = none
  value : ∀ constants, part? constants text.toList = some (word n)

/-- A plain literal is a number. -/
theorem isNumber_of_plain {text : String} {n : Int64} (h : Plain text)
    (hread : Integer.read text = .ok (some n)) : IsNumber text n where
  no_bar := h.no_bar
  mention := by simp [mention?, literal?_of_read hread]
  value constants := by simp [part?, h.unconverted?, literal?_of_read hread]

/-- A converted literal is told from others, and given back. -/
theorem unconverted?_converted (literal : String) :
    unconverted? (converted literal).toList = some literal.toList := by
  have hlist : (converted literal).toList = '(' :: (literal.toList ++ "u32 as i32)".toList) := by
    rw [converted, String.toList_append, String.toList_append]
    rfl
  have hlength : (literal.toList ++ "u32 as i32)".toList).length - "u32 as i32)".length =
      literal.toList.length := by
    rw [List.length_append, String.length_toList, String.length_toList, Nat.add_sub_cancel]
  rw [hlist, unconverted?, hlength, List.drop_left, List.take_left, if_pos rfl]

/-- It is a number of the same value. -/
theorem isNumber_converted {literal : String} {n : Int64} (h : Plain literal)
    (hread : Integer.read literal = .ok (some n)) : IsNumber (converted literal) n where
  no_bar := by
    rw [converted, String.toList_append, String.toList_append]
    intro hmem
    rcases List.mem_append.mp hmem with hmem | hmem
    · rcases List.mem_append.mp hmem with hmem | hmem
      · exact absurd hmem (by decide)
      · exact h.no_bar hmem
    · exact absurd hmem (by decide)
  mention := by simp [mention?, unconverted?_converted]
  value constants := by simp [part?, unconverted?_converted, literal?_of_read hread]

/-- A plain text that is no literal is a name. -/
theorem part?_of_name {text : String} (h : Plain text) (hread : Integer.read text = .ok none)
    (constants : Constants) : part? constants text.toList = constants.lookup text := by
  have hlookup : named? constants text.toList = constants.lookup text := by
    rw [named?, h.takeWhile, h.dropWhile, String.ofList_toList]
    cases constants.lookup text <;> rfl
  rw [part?, h.unconverted?, literal?_of_read_none hread, ← hlookup]
  rfl

/-- A plain text that is no literal mentions a name. -/
theorem mention?_of_name {text : String} (h : Plain text) (hread : Integer.read text = .ok none) :
    mention? text.toList = some text := by
  rw [mention?, h.unconverted?, literal?_of_read_none hread, h.takeWhile, String.ofList_toList]
  rfl

/-- A sum mentions its base. -/
theorem mentions_sum {base : String} (h : Plain base) (distance : Int) :
    mentions (base ++ " + " ++ toString distance) = [base] := by
  have hlist : (base ++ " + " ++ toString distance).toList =
      base.toList ++ ' ' :: '+' :: ' ' :: (toString distance).toList := by
    rw [String.toList_append, String.toList_append, List.append_assoc]
    rfl
  have hmem : ∀ c ∈ (base ++ " + " ++ toString distance).toList, c ≠ '|' ∧ c ≠ '(' := by
    intro c hc
    rw [hlist] at hc
    rcases List.mem_append.mp hc with hc | hc
    · exact (h c hc).2
    · rcases List.mem_cons.mp hc with rfl | hc
      · decide
      rcases List.mem_cons.mp hc with rfl | hc
      · decide
      rcases List.mem_cons.mp hc with rfl | hc
      · decide
      exact (plain_toString distance c hc).2
  have hspace : Integer.read (base ++ " + " ++ toString distance) = .ok none := by
    apply Integer.read_of_space
    simp
  have htake : (base ++ " + " ++ toString distance).toList.takeWhile (· ≠ ' ') = base.toList := by
    rw [hlist, List.takeWhile_append_of_pos]
    · simp
    · intro c hc
      simpa using (h c hc).1
  have hmention : mention? (base ++ " + " ++ toString distance).toList = some base := by
    rw [mention?, unconverted?_of_not_mem fun hparen => (hmem _ hparen).2 rfl,
      literal?_of_read_none hspace, htake, String.ofList_toList]
    rfl
  rw [mentions, parts_of_no_bar fun hbar => (hmem _ hbar).1 rfl,
    List.filterMap_cons_some hmention, List.filterMap_nil]

/-! ## What the output writes for operands -/

/-- What is no literal does not become one by being written as a name. -/
theorem read_identifier {name : String} (h : Integer.read name = .ok none) :
    Integer.read (identifier name) = .ok none := by
  have hpath : ∀ name ∈ pathWords, Integer.read (name ++ "_") = .ok none := by decide +kernel
  have hraw : ∀ name ∈ reservedWords, Integer.read ("r#" ++ name) = .ok none := by decide +kernel
  unfold identifier
  split
  · exact hpath name ‹_›
  · split
    · exact hraw name ‹_›
    · exact h

/-- A literal in an enumeration is kept as it is, or converted. -/
theorem literalText?_cases {literal text : String} {n : Int64}
    (h : literalText? literal n = some text) : text = literal ∨ text = converted literal := by
  have hkept : (if isSigned32 n = true then some literal else none) = some text →
      text = literal := by
    intro h
    split at h
    · exact (Option.some.inj h).symm
    · cases h
  have hunsigned : ∀ c : Bool, (if c = true then some (converted literal)
      else if isSigned32 n = true then some literal else none) = some text →
      text = literal ∨ text = converted literal := by
    intro c h
    split at h
    · exact .inr (Option.some.inj h).symm
    · exact .inl (hkept h)
  unfold literalText? at h
  split at h
  · exact .inl (hkept h)
  · exact hunsigned _ h

/-- A literal in an enumeration is a number of its value. -/
theorem isNumber_of_literalText? {literal text : String} {n : Int64} (h : Plain literal)
    (hread : Integer.read literal = .ok (some n)) (htext : literalText? literal n = some text) :
    IsNumber text n := by
  rcases literalText?_cases htext with rfl | rfl
  · exact isNumber_of_plain h hread
  · exact isNumber_converted h hread

/-- What fits in 32 bits lies between the least signed and the greatest unsigned number. -/
theorem fitsIn32_iff {n : Int64} :
    fitsIn32 n = true ↔ -0x80000000 ≤ n.toInt ∧ n.toInt < 0x100000000 := by
  have hmin : minSigned.toInt = -0x80000000 := by decide
  have hmax : maxUnsigned.toInt = 0xFFFFFFFF := by decide
  rw [fitsIn32, Bool.and_eq_true, decide_eq_true_eq, decide_eq_true_eq, Int64.le_iff_toInt_le,
    Int64.le_iff_toInt_le, hmin, hmax]
  omega

/-- A number that fits is written as a number of its value. -/
theorem isNumber_numberText {n : Int64} (h : fitsIn32 n = true) : IsNumber (numberText n) n := by
  have hne : n ≠ Int64.minValue := by
    rintro rfl
    exact absurd h (by decide)
  have hread := Integer.read_toString hne
  unfold numberText
  dsimp only
  split
  · exact isNumber_converted (plain_toString _) hread
  · exact isNumber_of_plain (plain_toString _) hread

end Expression

end Midl.Output
