import Midl.Output.Item
import Midl.Proofs.Declarator

/-!
# Pointer types

The stars of a type are counted where the type stands before a parameter, a field or a further name
for it, and are kept as the end of a text where it is the result of a method or the type of a
constant. They are parted from the text again before it is written (`splitStars_suffixed`), so that
a type is written the same way everywhere (`WrittenAs`).

What is written can be told from the words of the type (`typeText_spelled`): one pointer for each
star, and then what the words other than `const` stand for.
-/

namespace Midl

namespace Output

open Midl.Parser (Word TypeRef spelled)

/-! ## Stars at the end of a text -/

/-- A text without stars has none to take away. -/
theorem dropWhile_star {cs : List Char} (h : '*' ∉ cs) :
    cs.dropWhile (· = '*') = cs ∧ cs.takeWhile (· = '*') = [] := by
  cases cs with
  | nil => exact ⟨rfl, rfl⟩
  | cons c cs =>
    have hc : ¬(decide (c = '*') = true) := by
      rw [decide_eq_true_iff]
      rintro rfl
      exact h List.mem_cons_self
    exact ⟨List.dropWhile_cons_of_neg hc, List.takeWhile_cons_of_neg hc⟩

/-- The stars that were put at the end of a type are parted from it again. -/
theorem splitStars_suffixed {type : TypeRef} (h : '*' ∉ type.typeName.toList) :
    splitStars type.suffixed = (type.typeName, type.indirection) := by
  have hreversed : type.suffixed.toList.reverse =
      List.replicate type.indirection '*' ++ type.typeName.toList.reverse := by
    simp [TypeRef.suffixed, String.toList_append]
  have hstars : ∀ c ∈ List.replicate type.indirection '*', decide (c = '*') = true := by
    intro c hc
    simp [List.eq_of_mem_replicate hc]
  obtain ⟨hdrop, htake⟩ := @dropWhile_star type.typeName.toList.reverse (by simpa using h)
  rw [splitStars, hreversed, List.dropWhile_append_of_pos hstars,
    List.takeWhile_append_of_pos hstars, hdrop, htake]
  simp

/-! ## The text of a type -/

/-- The pointers of a type, outermost first: the innermost one is to a constant if `const` is among
the words, and no other one is. -/
def pointerPrefixes (words : List Word) (depth : Nat) : List String :=
  (List.range depth).map fun n =>
    if n + 1 = depth ∧ Word.const ∈ words then "*const " else "*mut "

/-- All pointers but the innermost are written alike. -/
theorem pointerPrefixes_succ (words : List Word) (depth : Nat) :
    pointerPrefixes words (depth + 2) = "*mut " :: pointerPrefixes words (depth + 1) := by
  rw [pointerPrefixes, List.range_succ_eq_map, List.map_cons, List.map_map]
  refine congrArg₂ _ (if_neg (by simp)) (List.map_congr_left fun n _ => ?_)
  simp

/-- A type is written as its pointers, the innermost one last, and then what they point to. -/
theorem pointers_eq (words : List Word) (type : String) (depth : Nat) :
    pointers (decide (Word.const ∈ words)) type depth =
      String.join (pointerPrefixes words depth) ++ type := by
  induction depth with
  | zero => simp [pointers, pointerPrefixes]
  | succ depth ih =>
    cases depth with
    | zero => by_cases hconst : Word.const ∈ words <;> simp [pointers, pointerPrefixes, hconst]
    | succ depth =>
      rw [pointers, ih, pointerPrefixes_succ, String.join_cons, String.append_assoc]

/-- A type is written with one pointer for each star, and then what its words but for `const`
stand for. -/
theorem typeText_spelled {words : List Word} (h : ∀ w ∈ words, w.kind.Lexed) (depth : Nat) :
    typeText (spelled words) depth = String.join (pointerPrefixes words depth) ++
      baseType (spelled (words.filter (· ≠ .const))) := by
  have hfilter : (words.map Word.text).filter (· ≠ "const") =
      (words.filter (· ≠ .const)).map Word.text := by
    rw [List.filter_map]
    refine congrArg _ (List.filter_congr fun w hw => ?_)
    simp [Word.text_eq_const_iff (h w hw)]
  have hconst : (words.map Word.text).contains "const" = decide (Word.const ∈ words) := by
    rw [Bool.eq_iff_iff, List.contains_iff_mem, decide_eq_true_iff, List.mem_map]
    constructor
    · rintro ⟨w, hw, htext⟩
      rwa [← (Word.text_eq_const_iff (h w hw)).mp htext]
    · intro hmem
      exact ⟨.const, hmem, rfl⟩
  rw [typeText, Parser.words_spelled h, hfilter, hconst, pointers_eq]
  rfl

/-! ## The places where a type stands -/

section Places

variable {s s' s₀ s₁ s₂ : Parser.State} {type : TypeRef} {name? : Option String}
  {as : List Attribute}

/-- Where a type and a name are read, there is a name. -/
theorem named_of_typed (h : Parser.typed s = .ok (type, name?) s') {expected : String}
    {found : TypeRef × String} (hnamed : Parser.named expected s = .ok found s₁) :
    found.1 = type ∧ name? = some found.2 := by
  rw [Parser.named, Parser.bind_of_ok h] at hnamed
  cases name? with
  | none => cases hnamed
  | some name =>
    obtain ⟨rfl, -⟩ := EStateM.Result.ok.inj hnamed
    exact ⟨rfl, rfl⟩

/-- A method keeps its type with the stars at the end. -/
theorem returnType_of_method (h : Parser.typed s = .ok (type, name?) s')
    (has : Parser.attributes s₀ = .ok as s) {m : Method} (hm : Parser.method s₀ = .ok m s₁) :
    m.returnType = type.suffixed := by
  rw [Parser.method, Parser.bind_of_ok has] at hm
  obtain ⟨found, _, hnamed, hm⟩ := Parser.ok_of_bind hm
  obtain ⟨params, _, -, hm⟩ := Parser.ok_of_bind hm
  obtain ⟨_, _, -, hm⟩ := Parser.ok_of_bind hm
  obtain ⟨rfl, -⟩ := EStateM.Result.ok.inj hm
  rw [← (named_of_typed h hnamed).1]

/-- So does a constant. -/
theorem typeName_of_constant (h : Parser.typed s = .ok (type, name?) s')
    (hadvance : Parser.advance s₀ = .ok () s) {c : Constant}
    (hc : Parser.constant s₀ = .ok (.constant c) s₁) : c.typeName = type.suffixed := by
  rw [Parser.constant, Parser.bind_of_ok hadvance] at hc
  obtain ⟨found, _, hnamed, hc⟩ := Parser.ok_of_bind hc
  obtain ⟨_, _, -, hc⟩ := Parser.ok_of_bind hc
  obtain ⟨_, _, -, hc⟩ := Parser.ok_of_bind hc
  rw [← (named_of_typed h hnamed).1]
  -- whichever way the value is read, it is put beside the type at the end
  have hend : ∀ (value : ConstantValue) {t t' : Parser.State},
      (do
        Parser.expect (.mark .semicolon)
        return Declaration.constant ⟨found.2, found.1.suffixed, value⟩) t =
          .ok (.constant c) t' → c.typeName = found.1.suffixed := by
    intro value t t' hrun
    obtain ⟨_, _, -, hrun⟩ := Parser.ok_of_bind hrun
    obtain ⟨hrun, -⟩ := EStateM.Result.ok.inj hrun
    obtain rfl := Declaration.constant.inj hrun
    rfl
  dsimp only at hc
  split at hc
  · obtain ⟨_, _, -, hc⟩ := Parser.ok_of_bind hc
    obtain ⟨value, _, -, hc⟩ := Parser.ok_of_bind hc
    exact hend value hc
  · obtain ⟨value, _, -, hc⟩ := Parser.ok_of_bind hc
    exact hend value hc

/-- A parameter keeps the words of its type and counts the stars. -/
theorem type_of_parameter (h : Parser.typed s = .ok (type, name?) s')
    (has : Parser.attributes s₀ = .ok as s) {alone : Bool} {v : Variable}
    (hv : Parser.parameter alone s₀ = .ok (some v) s₁) :
    v.typeName = type.typeName ∧ v.indirection = type.indirection := by
  rw [Parser.parameter, Parser.bind_of_ok has, Parser.bind_of_ok h] at hv
  cases name? with
  | some name =>
    obtain ⟨isArray, _, -, hv⟩ := Parser.ok_of_bind hv
    obtain ⟨hv, -⟩ := EStateM.Result.ok.inj hv
    obtain rfl := Option.some.inj hv
    exact ⟨rfl, rfl⟩
  | none =>
    obtain ⟨_, _, -, hv⟩ := Parser.ok_of_bind hv
    dsimp only at hv
    split at hv <;> cases hv

/-- So does a field. -/
theorem type_of_field (h : Parser.typed s = .ok (type, name?) s')
    (has : Parser.attributes s₀ = .ok as s) {v : Variable}
    (hv : Parser.field s₀ = .ok v s₁) :
    v.typeName = type.typeName ∧ v.indirection = type.indirection := by
  rw [Parser.field, Parser.bind_of_ok has] at hv
  obtain ⟨found, _, hnamed, hv⟩ := Parser.ok_of_bind hv
  obtain ⟨isArray, _, -, hv⟩ := Parser.ok_of_bind hv
  obtain ⟨_, _, -, hv⟩ := Parser.ok_of_bind hv
  obtain ⟨rfl, -⟩ := EStateM.Result.ok.inj hv
  rw [← (named_of_typed h hnamed).1]
  exact ⟨rfl, rfl⟩

/-- A further name for a type keeps its words and counts the stars. -/
theorem type_of_typedefs (h : Parser.typed s = .ok (type, name?) s')
    (hadvance : Parser.advance s₀ = .ok () s₁) (has : Parser.attributes s₁ = .ok as s)
    {ds : List Declaration} (hds : Parser.typedefs s₀ = .ok ds s₂) :
    ∃ name others, ds = .typedef ⟨name, type.typeName, type.indirection, as⟩ :: others := by
  obtain ⟨w, hword⟩ := Parser.exists_word_of_typed h
  rw [Parser.typedefs, Parser.bind_of_ok hadvance, Parser.bind_of_ok has] at hds
  obtain ⟨kind, _, hpeek, hds⟩ := Parser.ok_of_bind hds
  obtain ⟨rfl, rfl⟩ := EStateM.Result.ok.inj hpeek
  dsimp only at hds
  generalize hkind : s.current.kind = kind at hds
  split at hds
  next => cases w <;> cases hkind.symm.trans hword
  next => cases w <;> cases hkind.symm.trans hword
  next =>
    obtain ⟨found, _, hnamed, hds⟩ := Parser.ok_of_bind hds
    obtain ⟨_, _, hpair, hds⟩ := Parser.ok_of_bind hds
    obtain ⟨rfl, rfl⟩ := EStateM.Result.ok.inj hpair
    obtain ⟨others, _, -, hds⟩ := Parser.ok_of_bind hds
    obtain ⟨_, _, -, hds⟩ := Parser.ok_of_bind hds
    obtain ⟨rfl, -⟩ := EStateM.Result.ok.inj hds
    exact ⟨found.2, others, by rw [(named_of_typed h hnamed).1]⟩

/-- A type that is read at `s` is written as `text` wherever it stands. -/
structure WrittenAs (s : Parser.State) (type : TypeRef) (text : String) : Prop where
  /-- As the result of a method. A `void` without stars is left out, with the arrow before it. -/
  result {s₀ s₁ : Parser.State} {as : List Attribute} {m : Method} (object : String) :
    Parser.attributes s₀ = .ok as s → Parser.method s₀ = .ok m s₁ →
    slotText object m = (m.params.mapM parameterText).map fun params =>
      "unsafe extern \"system\" fn(" ++
        ", ".intercalate (("this: *mut " ++ identifier object) :: params) ++ ")" ++
        (if type = ⟨"void", 0⟩ then "" else " -> " ++ text)
  /-- As the type of a constant that is not a string. -/
  constant {s₀ s₁ : Parser.State} {c : Constant} {operands : List String} :
    Parser.advance s₀ = .ok () s → Parser.constant s₀ = .ok (.constant c) s₁ →
    c.value = .operands operands →
    Output.constant c = do
      Drafting.blank
      let value ← Drafting.attempt (operands.mapM constantOperand)
      Drafting.line ("pub const " ++ identifier c.name ++ ": " ++ text ++ " = " ++
        joinOperands value ++ ";")
  /-- As the type of a parameter. -/
  parameter {s₀ s₁ : Parser.State} {as : List Attribute} {alone : Bool} {v : Variable} :
    Parser.attributes s₀ = .ok as s → Parser.parameter alone s₀ = .ok (some v) s₁ →
    v.isArray = false → parameterText v = .ok (identifier v.name ++ ": " ++ text)
  /-- As the type of a field. -/
  field {s₀ s₁ : Parser.State} {as : List Attribute} {v : Variable} :
    Parser.attributes s₀ = .ok as s → Parser.field s₀ = .ok v s₁ →
    v.isArray = false → fieldText v = "pub " ++ identifier v.name ++ ": " ++ text ++ ","
  /-- As what a name is given to, unless the name says nothing new. -/
  typedef {s₀ s₁ s₂ : Parser.State} {as : List Attribute} {ds : List Declaration} :
    Parser.advance s₀ = .ok () s₁ → Parser.attributes s₁ = .ok as s →
    Parser.typedefs s₀ = .ok ds s₂ →
    ∃ t others, ds = .typedef t :: others ∧ (t.isSelf = false → Output.typedef t = do
      Drafting.blank
      docs as
      Drafting.line ("pub type " ++ identifier t.name ++ " = " ++ text ++ ";"))

/-- A result is written as its type, unless it is `void`. -/
theorem resultText_suffixed (h : '*' ∉ type.typeName.toList) :
    resultText type.suffixed =
      if type = ⟨"void", 0⟩ then "" else " -> " ++ typeText type.typeName type.indirection := by
  obtain ⟨typeName, indirection⟩ := type
  rw [resultText, splitStars_suffixed h]
  split
  next heq =>
    obtain ⟨rfl, rfl⟩ := Prod.mk.inj heq
    rw [if_pos rfl]
  next typeName' indirection' hne heq =>
    obtain ⟨rfl, rfl⟩ := Prod.mk.inj heq
    rw [if_neg]
    intro hvoid
    obtain ⟨rfl, rfl⟩ := TypeRef.mk.inj hvoid
    exact hne rfl rfl

/-- A type is written in the same way wherever it stands. -/
theorem writtenAs_typeText (h : Parser.typed s = .ok (type, name?) s')
    (hstar : '*' ∉ type.typeName.toList) :
    WrittenAs s type (typeText type.typeName type.indirection) where
  result object has hm := by
    unfold slotText
    rw [returnType_of_method h has hm, resultText_suffixed hstar]
    exact bind_pure_comp _ _
  constant hadvance hc hvalue := by
    simp only [Output.constant, hvalue, typeName_of_constant h hadvance hc,
      splitStars_suffixed hstar]
  parameter has hv harray := by
    obtain ⟨htype, hdepth⟩ := type_of_parameter h has hv
    simp only [parameterText, parameterDepth, htype, hdepth, harray, Bool.false_eq_true, false_and,
      if_false]
    rfl
  field has hv harray := by
    obtain ⟨htype, hdepth⟩ := type_of_field h has hv
    simp [fieldText, htype, hdepth, harray]
  typedef hadvance has hds := by
    obtain ⟨name, others, rfl⟩ := type_of_typedefs h hadvance has hds
    refine ⟨_, others, rfl, fun hself => ?_⟩
    rw [Output.typedef, if_neg (by simp [hself])]

end Places

/-- Every type that is read somewhere in a source is written the same way in all places: with as
many pointers as there are stars, of which only the innermost can be to a constant, which it is if
`const` is anywhere among the words, and then what the other words stand for. So the word `const`
can stand elsewhere, or more than once. -/
theorem pointer_type_everywhere {source : Source} {s s' : Parser.State} {type : TypeRef}
    {name? : Option String} (hs : s.tokens <:+ source.tokens.tokens)
    (h : Parser.typed s = .ok (type, name?) s') :
    ∃ words taken, s.kinds = taken ++ s'.kinds ∧
      Parser.IsDeclarator words type.indirection name? taken ∧ type.typeName = spelled words ∧
      WrittenAs s type (typeText type.typeName type.indirection) ∧
      (∀ depth, typeText type.typeName depth = String.join (pointerPrefixes words depth) ++
        baseType (spelled (words.filter (· ≠ .const)))) ∧
      ∀ words' : List Word, words'.filter (· ≠ .const) = words.filter (· ≠ .const) →
        (Word.const ∈ words' ↔ Word.const ∈ words) →
        ∀ depth, typeText (spelled words') depth = typeText type.typeName depth := by
  obtain ⟨taken, htaken, words, hdeclarator, htype⟩ := Parser.takes_typed s _ s' h
  have hlexed : ∀ w ∈ words, w.kind.Lexed := by
    intro w hw
    obtain ⟨-, stars, -, rfl⟩ := hdeclarator
    have hmem : w.kind ∈ s.kinds := by
      rw [htaken, List.append_assoc]
      exact List.mem_append_left _ (List.mem_map_of_mem hw)
    obtain ⟨t, ht, hkind⟩ := List.mem_map.mp hmem
    exact hkind ▸ Cursor.lexed_of_mem_tokens (hs.subset ht)
  have hstar : '*' ∉ type.typeName.toList := by
    rw [htype]
    exact Parser.star_not_mem_spelled hlexed
  refine ⟨words, taken, htaken, hdeclarator, htype, writtenAs_typeText h hstar, ?_, ?_⟩
  · rw [htype]
    exact typeText_spelled hlexed
  · intro words' hsame hconst depth
    have hlexed' : ∀ w ∈ words', w.kind.Lexed := by
      intro w hw
      by_cases hne : w = .const
      · rw [hne]
        exact hlexed _ (hconst.mp (hne ▸ hw))
      · have hmem : w ∈ words'.filter (· ≠ .const) := by simp [hw, hne]
        rw [hsame] at hmem
        exact hlexed w (List.mem_of_mem_filter hmem)
    have hprefixes : pointerPrefixes words' depth = pointerPrefixes words depth := by
      simp only [pointerPrefixes, hconst]
    rw [htype, typeText_spelled hlexed', typeText_spelled hlexed, hsame, hprefixes]

namespace Pointing

/-- A method that gives a pointer to pointers to constant bytes. -/
def source : Source := .ofText "unsigned const char*const*f();"

/-- The place where its type is read. -/
def start : Parser.State := ⟨source.tokens.tokens, _, rfl, source.tokens.stop, #[]⟩

/-- A parser can be told to have come to its end from its result. -/
theorem exists_of_run {p : Parser α} {a : α} {s : Parser.State}
    (h : EStateM.run' p s = some a) : ∃ s', p s = .ok a s' := by
  unfold EStateM.run' EStateM.run at h
  split at h
  next a' s' hrun => exact ⟨s', by rw [hrun, Option.some.inj h]⟩
  next => cases h

end Pointing

open Pointing in
/-- Pointers to pointers to constant bytes, as the result of a method. -/
theorem pointer_type_everywhere_bytes : ∃ s' s₁,
    start.tokens <:+ source.tokens.tokens ∧
    Parser.typed start = .ok (⟨"unsigned const char", 2⟩, some "f") s' ∧
    Parser.attributes start = .ok [] start ∧
    Parser.method start = .ok ⟨"f", "unsigned const char**", [], []⟩ s₁ ∧
    slotText "I" ⟨"f", "unsigned const char**", [], []⟩ =
      .ok "unsafe extern \"system\" fn(this: *mut I) -> *mut *const u8" := by
  obtain ⟨s', htyped⟩ := @exists_of_run _ Parser.typed (⟨"unsigned const char", 2⟩, some "f") start
    (by decide +kernel)
  obtain ⟨s₁, hmethod⟩ := @exists_of_run _ Parser.method ⟨"f", "unsigned const char**", [], []⟩ start
    (by decide +kernel)
  have hkind : start.current.kind = .identifier "unsigned" := by decide +kernel
  have hattributes : Parser.attributes start = .ok [] start := by
    rw [Parser.attributes, Parser.ifSees, Parser.peekBind, hkind]
    rfl
  obtain ⟨words, taken, -, -, -, hwritten, -, -⟩ := pointer_type_everywhere List.suffix_rfl htyped
  have htext : typeText "unsigned const char" 2 = "*mut *const u8" := by decide +kernel
  have hslot := hwritten.result "I" hattributes hmethod
  rw [htext] at hslot
  refine ⟨s', s₁, List.suffix_rfl, htyped, hattributes, hmethod, hslot.trans ?_⟩
  decide +kernel

end Output

end Midl
