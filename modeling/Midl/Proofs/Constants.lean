import Midl.Output.Item
import Midl.Proofs.Drafting
import Midl.Proofs.Enumeration
import Midl.Proofs.Expression
import Midl.Proofs.Parsed

/-!
# The constants of an enumeration

Every member of an enumeration becomes a constant or is reported. A `Row` records which, and a
list of rows is read from the first to the last: the constants so far have the values that their
expressions evaluate to, and the members reported so far have none. The main statement is that no
expression mentions a member that was reported before it, and that the expression of a member
whose value is known evaluates to that value.
-/

namespace Midl.Output

open Drafting Expression

/-- What becomes of a member. -/
structure Row where
  member : Member
  /-- What is known of its value. -/
  resolved : Resolved
  /-- The expression of its constant, or nothing if the member is reported. -/
  text? : Option String

/-- The names of the members that are reported. -/
def reported (rows : List Row) : List String :=
  rows.filterMap fun row => if row.text?.isNone then some row.member.name else none

/-- The constants, with one more if its expression has a value. -/
def Row.declare (constants : Constants) (row : Row) : Constants :=
  match row.text?.bind (value? constants) with
  | some value => (identifier row.member.name, value) :: constants
  | none => constants

/-- The values of the constants among some rows, each worked out from those before it. -/
def constants (rows : List Row) : Constants := rows.foldl Row.declare []

/-- Whether an operand is a literal. -/
def isLiteral (operand : String) : Bool :=
  match Integer.read operand with
  | .ok (some _) => true
  | _ => false

/-- The names that the value of a member refers to: the operands that are not literals, or the
member that it is counted from. -/
def Row.names (row : Row) : List String :=
  match row.member.value, row.resolved with
  | some operands, _ => operands.filter fun operand => !isLiteral operand
  | none, .offset base _ => [base]
  | none, _ => []

/-- The expression of a constant that comes after some rows is as it should be. -/
structure Row.Agrees (earlier : List Row) (row : Row) (text : String) : Prop where
  /-- It mentions the names that the member's value refers to, as they are written in the output. -/
  mentions : mentions text = row.names.map identifier
  /-- None of them is that of a member that has no constant. -/
  declared : ∀ name ∈ reported earlier, name ∉ row.names
  /-- A known value fits in 32 bits, with or without a sign. -/
  fits : ∀ n, row.resolved = .known n → -2 ^ 31 ≤ n.toInt ∧ n.toInt < 2 ^ 32
  /-- A known value is that of the expression, modulo `2 ^ 32`. -/
  value : ∀ n, row.resolved = .known n →
    value? (constants earlier) text = some (BitVec.ofInt 32 n.toInt)

/-- There is a reason for a member not to become a constant: its value does not fit in 32 bits, the
member it is counted from has been reported, or so has an operand, or an operand has no form. -/
def Row.Unwritable (earlier : List Row) (row : Row) : Prop :=
  (∃ n, row.resolved = .known n ∧ ¬ (-2 ^ 31 ≤ n.toInt ∧ n.toInt < 2 ^ 32)) ∨
  (∃ base distance, row.resolved = .offset base distance ∧ base ∈ reported earlier) ∨
  ∃ operands ∈ row.member.value, ∃ operand ∈ operands,
    operand ∈ reported earlier ∨ memberOperand operand = .ok none

/-- A row that comes after some others is as it should be. -/
def Row.Correct (earlier : List Row) (row : Row) : Prop :=
  match row.text? with
  | some text => row.Agrees earlier text
  | none => row.Unwritable earlier

/-- The help string among some attributes, line by line. -/
def docTexts (attributes : List Attribute) : List String :=
  match Attribute.valueOf .helpString attributes with
  | none => []
  | some help => (Text.lines help).map ("/// " ++ ·)

/-- The lines before the constants of an enumeration. -/
def headLines (level : Nat) (e : Enumeration) : List Line :=
  .blank :: (docTexts e.attributes).map (.content level) ++
    [.content level ("pub type " ++ identifier e.name ++ " = i32;")]

/-- The line of a constant. -/
def constantLine (level : Nat) (enumName name text : String) : Line :=
  .content level ("pub const " ++ identifier name ++ ": " ++ identifier enumName ++ " = " ++ text
    ++ ";")

/-- What is written for rows: a line for each constant, a diagnostic for each other member. -/
def rowsWritten (level : Nat) (enumName : String) (rows : List Row) : Addition where
  lines := rows.filterMap fun row => row.text?.map (constantLine level enumName row.member.name)
  diagnostics := (reported rows).map (tooWide enumName)
  log := (reported rows).map fun name => .skipped (tooWide enumName name)

/-! ## Rows -/

/-- Members are reported in order. -/
theorem reported_append (xs ys : List Row) : reported (xs ++ ys) = reported xs ++ reported ys :=
  List.filterMap_append

/-- A member with an expression is not reported. -/
theorem reported_of_text {row : Row} {text : String} (h : row.text? = some text) :
    reported [row] = [] := by
  simp [reported, h]

/-- A member without one is. -/
theorem reported_of_none {row : Row} (h : row.text? = none) :
    reported [row] = [row.member.name] := by
  simp [reported, h]

/-- The last row is declared last. -/
theorem constants_append_singleton (rows : List Row) (row : Row) :
    constants (rows ++ [row]) = row.declare (constants rows) := by
  rw [constants, constants, List.foldl_append]
  rfl

/-! ## Operands -/

/-- The bits of a disjunction are those of its parts. -/
theorem word_or (m n : Int64) : word (m ||| n) = word m ||| word n :=
  BitVec.signExtend_or

/-- What is written for an operand is a number of its value, or the name as it is written in the
output. -/
theorem memberOperand_cases {operand text : String} (hop : IsOperand TokenKind.Lexed operand)
    (h : memberOperand operand = .ok (some text)) :
    (∃ n, Integer.read operand = .ok (some n) ∧ IsNumber text n) ∨
    (Integer.read operand = .ok none ∧ text = identifier operand ∧ Plain text ∧
      Integer.read text = .ok none) := by
  have hplain := plain_of_isOperand hop
  unfold memberOperand at h
  cases hread : Integer.read operand with
  | error fault =>
    rw [hread] at h
    cases h
  | ok value? =>
    rw [hread] at h
    cases value? with
    | none =>
      obtain rfl : identifier operand = text := Option.some.inj (Except.ok.inj h)
      exact .inr ⟨rfl, rfl, plain_identifier hplain, read_identifier hread⟩
    | some n =>
      have htext : literalText? (Integer.stemText operand) n = some text := Except.ok.inj h
      refine .inl ⟨n, rfl, isNumber_of_literalText? (plain_stemText hplain) ?_ htext⟩
      rw [Integer.read_stemText, hread]

/-- An operand with a value is a literal. -/
theorem isLiteral_of_read {operand : String} {n : Int64}
    (h : Integer.read operand = .ok (some n)) : isLiteral operand = true := by
  rw [isLiteral, h]

/-- An operand without one is none. -/
theorem not_isLiteral_of_read {operand : String} (h : Integer.read operand = .ok none) :
    isLiteral operand = false := by
  rw [isLiteral, h]

/-- What becomes of operands is settled by the first that has been reported or has no form, and
otherwise by those after the first. -/
theorem memberOperands_cons {skipped operands : List String} {operand : String}
    {texts? : Option (List String)}
    (h : memberOperands skipped (operand :: operands) = .ok texts?) :
    (texts? = none ∧ (operand ∈ skipped ∨ memberOperand operand = .ok none)) ∨
    ∃ text others?, operand ∉ skipped ∧ memberOperand operand = .ok (some text) ∧
      memberOperands skipped operands = .ok others? ∧ texts? = others?.map (text :: ·) := by
  rw [memberOperands] at h
  by_cases hskipped : operand ∈ skipped
  · rw [if_pos hskipped] at h
    exact .inl ⟨(Except.ok.inj h).symm, .inl hskipped⟩
  · rw [if_neg hskipped] at h
    cases hop : memberOperand operand with
    | error fault =>
      rw [hop] at h
      cases h
    | ok text? =>
      rw [hop] at h
      cases text? with
      | none => exact .inl ⟨(Except.ok.inj h).symm, .inr rfl⟩
      | some text =>
        cases hrest : memberOperands skipped operands with
        | error fault =>
          simp only [Bind.bind, Except.bind, hrest] at h
          cases h
        | ok others? =>
          simp only [Bind.bind, Except.bind, hrest] at h
          exact .inr ⟨text, others?, hskipped, rfl, rfl, (Except.ok.inj h).symm⟩

/-- Operands are written one by one, and none of them has been reported. -/
theorem forall₂_of_memberOperands {skipped operands texts : List String}
    (h : memberOperands skipped operands = .ok (some texts)) :
    List.Forall₂ (fun operand text => operand ∉ skipped ∧ memberOperand operand = .ok (some text))
      operands texts := by
  induction operands generalizing texts with
  | nil =>
    obtain rfl : [] = texts := Option.some.inj (Except.ok.inj h)
    exact .nil
  | cons operand operands ih =>
    rcases memberOperands_cons h with ⟨hnone, -⟩ | ⟨text, others?, hskipped, hop, hrest, heq⟩
    · cases hnone
    · obtain ⟨others, rfl, rfl⟩ := Option.map_eq_some_iff.mp heq.symm
      exact .cons ⟨hskipped, hop⟩ (ih hrest)

/-- Operands are not written if one of them has been reported or has no form. -/
theorem exists_of_memberOperands_none {skipped operands : List String}
    (h : memberOperands skipped operands = .ok none) :
    ∃ operand ∈ operands, operand ∈ skipped ∨ memberOperand operand = .ok none := by
  induction operands with
  | nil => cases h
  | cons operand operands ih =>
    rcases memberOperands_cons h with ⟨-, hreason⟩ | ⟨text, others?, -, -, hrest, heq⟩
    · exact ⟨operand, List.mem_cons_self, hreason⟩
    · obtain rfl := Option.map_eq_none_iff.mp heq.symm
      obtain ⟨o, ho, hreason⟩ := ih hrest
      exact ⟨o, List.mem_cons_of_mem _ ho, hreason⟩

/-- An operand that is written has not been reported. -/
theorem not_mem_of_memberOperands {skipped operands texts : List String}
    (h : memberOperands skipped operands = .ok (some texts)) :
    ∀ operand ∈ operands, operand ∉ skipped := by
  have hpairs := forall₂_of_memberOperands h
  clear h
  induction hpairs with
  | nil => simp
  | cons hpair _ ih =>
    intro operand hmem
    rcases List.mem_cons.mp hmem with rfl | hmem
    · exact hpair.1
    · exact ih operand hmem

/-- Writing operands does not fail if they can be read. -/
theorem memberOperands_isOk (skipped : List String) {operands : List String}
    (h : ∀ operand ∈ operands, ∃ value?, Integer.read operand = .ok value?) :
    ∃ texts?, memberOperands skipped operands = .ok texts? := by
  induction operands with
  | nil => exact ⟨_, rfl⟩
  | cons operand operands ih =>
    rw [memberOperands]
    split
    · exact ⟨_, rfl⟩
    · have hop : ∃ text?, memberOperand operand = .ok text? := by
        obtain ⟨value?, hread⟩ := h operand List.mem_cons_self
        rw [memberOperand, hread]
        cases value? with
        | none => exact ⟨_, rfl⟩
        | some n => exact ⟨_, rfl⟩
      obtain ⟨text?, hop⟩ := hop
      rw [hop]
      cases text? with
      | none => exact ⟨_, rfl⟩
      | some text =>
        obtain ⟨texts?, hrest⟩ := ih fun o ho => h o (List.mem_cons_of_mem _ ho)
        simp only [Bind.bind, Except.bind, hrest]
        exact ⟨_, rfl⟩

section Operands

variable {skipped operands texts : List String}
  (hops : ∀ operand ∈ operands, IsOperand TokenKind.Lexed operand)
  (htexts : memberOperands skipped operands = .ok (some texts))

include hops htexts

/-- Operands are written without bars. -/
theorem no_bar_of_memberOperands : ∀ text ∈ texts, '|' ∉ text.toList := by
  have hpairs := forall₂_of_memberOperands htexts
  clear htexts
  induction hpairs with
  | nil => simp
  | cons hpair _ ih =>
    intro text htext
    rcases List.mem_cons.mp htext with rfl | htext
    · rcases memberOperand_cases (hops _ List.mem_cons_self) hpair.2 with
        ⟨n, -, hnumber⟩ | ⟨-, -, hplain, -⟩
      · exact hnumber.no_bar
      · exact hplain.no_bar
    · exact ih (fun o ho => hops o (List.mem_cons_of_mem _ ho)) text htext

/-- The names that are mentioned are the operands that are not literals. -/
theorem mentions_of_memberOperands :
    (texts.map String.toList).filterMap mention? =
      (operands.filter fun operand => !isLiteral operand).map identifier := by
  have hpairs := forall₂_of_memberOperands htexts
  clear htexts
  induction hpairs with
  | nil => rfl
  | @cons operand text operands texts hpair _ ih =>
    have hrest := ih fun o ho => hops o (List.mem_cons_of_mem _ ho)
    rcases memberOperand_cases (hops _ List.mem_cons_self) hpair.2 with
      ⟨n, hread, hnumber⟩ | ⟨hread, rfl, hplain, hname⟩
    · rw [List.map_cons, List.filterMap_cons_none hnumber.mention, hrest,
        List.filter_cons_of_neg (by simp [isLiteral_of_read hread])]
    · rw [List.map_cons, List.filterMap_cons_some (mention?_of_name hplain hname), hrest,
        List.filter_cons_of_pos (by simp [not_isLiteral_of_read hread]), List.map_cons]

/-- Operands that can be worked out are written as expressions of the value they make up, if the
constants have the values that are known. -/
theorem value_of_memberOperands {earlier : List ResolvedMember} {constants : Constants}
    (hknown : ∀ name n, (name, Resolved.known n) ∈ earlier → name ∉ skipped →
      constants.lookup (identifier name) = some (word n))
    {value result : Int64}
    (h : Enumeration.combine earlier value operands = .ok (some result)) :
    (texts.map String.toList).foldlM
      (fun value cs => (value ||| ·) <$> part? constants cs) (word value) = some (word result) := by
  have hpairs := forall₂_of_memberOperands htexts
  clear htexts
  induction hpairs generalizing value with
  | nil =>
    obtain rfl : value = result := Option.some.inj (Except.ok.inj h)
    rfl
  | @cons operand text operands texts hpair _ ih =>
    obtain ⟨n, hvalue, hrest⟩ := Enumeration.combine_cons h
    have hpart : part? constants text.toList = some (word n) := by
      rcases memberOperand_cases (hops _ List.mem_cons_self) hpair.2 with
        ⟨m, hread, hnumber⟩ | ⟨hread, rfl, hplain, hname⟩
      · rw [Enumeration.operandValue_of_read hread] at hvalue
        obtain rfl : m = n := by simpa using hvalue
        exact hnumber.value constants
      · rw [Enumeration.operandValue_of_read hread] at hvalue
        have hlookup : Enumeration.lookup? earlier operand = some n := by simpa using hvalue
        rw [part?_of_name hplain hname]
        exact hknown operand n (Enumeration.mem_of_lookup? hlookup) hpair.1
    have hothers := ih (fun o ho => hops o (List.mem_cons_of_mem _ ho)) hrest
    rw [List.map_cons, List.foldlM_cons, hpart, ← hothers, word_or]
    rfl

end Operands

/-! ## One member -/

/-- What has been written follows from what is known of the members so far: those that are known
have a constant of that value, unless they are reported. -/
structure Follows (done : List Row) (earlier : List ResolvedMember) : Prop where
  known : ∀ name n, (name, Resolved.known n) ∈ earlier → name ∉ reported done →
    (constants done).lookup (identifier name) = some (word n)
  plain : ∀ x ∈ earlier, Plain x.1
  base : ∀ name base distance, (name, Resolved.offset base distance) ∈ earlier → Plain base

/-- Nothing is written before the first member. -/
theorem follows_nil : Follows [] [] where
  known := by simp
  plain := by simp
  base := by simp

section Member

variable {done : List Row} {earlier : List ResolvedMember} {row : Row}

/-- A number that fits. -/
theorem agrees_of_number {n : Int64} (hvalue : row.member.value = none)
    (hresolved : row.resolved = .known n) (hfits : fitsIn32 n = true) :
    row.Agrees done (numberText n) := by
  have hnumber := isNumber_numberText hfits
  have hparts := parts_of_no_bar hnumber.no_bar
  have hnames : row.names = [] := by rw [Row.names, hvalue, hresolved]
  constructor
  · rw [hnames, Expression.mentions, hparts, List.filterMap_cons_none hnumber.mention]
    rfl
  · simp [hnames]
  · intro m hm
    obtain rfl : n = m := by simpa using hresolved.symm.trans hm
    exact fitsIn32_iff.mp hfits
  · intro m hm
    obtain rfl : n = m := by simpa using hresolved.symm.trans hm
    rw [value?, hparts, List.foldlM_cons, hnumber.value]
    show some (0#32 ||| word n) = some (word n)
    rw [BitVec.zero_or]

/-- A distance from a member that has a constant. -/
theorem agrees_of_offset {base : String} {distance : Int64} (hvalue : row.member.value = none)
    (hresolved : row.resolved = .offset base distance) (hplain : Plain base)
    (hbase : base ∉ reported done) :
    row.Agrees done (identifier base ++ " + " ++ toString distance) := by
  have hnames : row.names = [base] := by rw [Row.names, hvalue, hresolved]
  constructor
  · rw [hnames]
    exact mentions_sum (plain_identifier hplain) distance.toInt
  · intro name hname
    rw [hnames, List.mem_singleton]
    rintro rfl
    exact hbase hname
  · intro n hn
    rw [hresolved] at hn
    cases hn
  · intro n hn
    rw [hresolved] at hn
    cases hn

/-- Operands that can be written. -/
theorem agrees_of_operands {operands texts : List String} (hfollows : Follows done earlier)
    (hvalue : row.member.value = some operands) (hops : AreOperands TokenKind.Lexed operands)
    (htexts : memberOperands (reported done).reverse operands = .ok (some texts))
    (hknown : ∀ n, row.resolved = .known n →
      fitsIn32 n = true ∧ Enumeration.combine earlier 0 operands = .ok (some n)) :
    row.Agrees done (joinOperands texts) := by
  have hnames : row.names = operands.filter fun operand => !isLiteral operand := by
    rw [Row.names, hvalue]
  have hpairs := forall₂_of_memberOperands htexts
  have hne : texts ≠ [] := by
    rintro rfl
    cases hpairs
    exact hops.ne_nil rfl
  have hparts := parts_joinOperands hne (no_bar_of_memberOperands hops.operand htexts)
  constructor
  · rw [hnames, Expression.mentions, hparts, mentions_of_memberOperands hops.operand htexts]
  · intro name hname hmem
    rw [hnames] at hmem
    exact not_mem_of_memberOperands htexts name (List.mem_of_mem_filter hmem)
      (List.mem_reverse.mpr hname)
  · intro n hn
    exact fitsIn32_iff.mp (hknown n hn).1
  · intro n hn
    rw [value?, hparts]
    refine value_of_memberOperands hops.operand htexts ?_ (hknown n hn).2
    intro name m hm hskipped
    exact hfollows.known name m hm fun hmem => hskipped (List.mem_reverse.mpr hmem)

/-- A default value is known, or is a distance from an earlier member. -/
theorem default_cases {m : Member} {resolved : Resolved} (hfollows : Follows done earlier)
    (hvalue : m.value = none) (hresolved : Enumeration.resolveMember earlier m = .ok resolved) :
    (∃ n, resolved = .known n) ∨
      ∃ base distance, resolved = .offset base distance ∧ Plain base := by
  cases earlier with
  | nil =>
    rw [Enumeration.resolveMember_first hvalue] at hresolved
    exact .inl ⟨0, (Except.ok.inj hresolved).symm⟩
  | cons x earlier =>
    obtain ⟨name, before⟩ := x
    rw [Enumeration.resolveMember_later hvalue] at hresolved
    obtain rfl := Except.ok.inj hresolved
    rcases Enumeration.successor_cases name before with ⟨n, next, -, -, hsucc⟩ |
      ⟨base, distance, next, rfl, -, hsucc⟩ | ⟨-, hsucc⟩
    · exact .inl ⟨next, hsucc⟩
    · exact .inr ⟨base, next, hsucc, hfollows.base name base distance List.mem_cons_self⟩
    · exact .inr ⟨name, 1, hsucc, hfollows.plain _ List.mem_cons_self⟩

/-- The member that others are counted from has a plain name. -/
theorem plain_base {m : Member} {base : String} {distance : Int64}
    (hfollows : Follows done earlier) (hread : m.Readable)
    (hresolved : Enumeration.resolveMember earlier m = .ok (.offset base distance)) :
    Plain base := by
  cases hvalue : m.value with
  | some operands =>
    rcases @Enumeration.resolveMember_explicit earlier _ _ hvalue (hread operands hvalue) with
      ⟨-, n, -, hknown⟩ | ⟨-, hverbatim⟩
    · cases hknown.symm.trans hresolved
    · cases hverbatim.symm.trans hresolved
  | none =>
    rcases default_cases hfollows hvalue hresolved with ⟨n, hn⟩ | ⟨base', distance', heq, hplain⟩
    · cases hn
    · cases heq
      exact hplain

/-- A member is written as an expression that is as it should be, or there is a reason to report
it. -/
theorem exists_memberText {m : Member} {resolved : Resolved} (hfollows : Follows done earlier)
    (hm : m.WellFormed TokenKind.Lexed) (hread : m.Readable)
    (hresolved : Enumeration.resolveMember earlier m = .ok resolved) :
    ∃ text?, memberText (reported done).reverse m.value resolved = .ok text? ∧
      Row.Correct done ⟨m, resolved, text?⟩ := by
  have hunfit : ∀ n, resolved = .known n → fitsIn32 n ≠ true →
      Row.Correct done ⟨m, resolved, none⟩ :=
    fun n hn hfits => .inl ⟨n, hn, fun hbounds => hfits (fitsIn32_iff.mpr hbounds)⟩
  cases hvalue : m.value with
  | some operands =>
    have hops := hm.value operands hvalue
    obtain ⟨texts?, htexts⟩ :=
      memberOperands_isOk (reported done).reverse (hread operands hvalue)
    have hjoined : memberText.joined (reported done).reverse operands =
        .ok (texts?.map joinOperands) := by
      rw [memberText.joined, htexts]
      rfl
    have hcorrect : (∀ n, resolved = .known n →
        fitsIn32 n = true ∧ Enumeration.combine earlier 0 operands = .ok (some n)) →
        Row.Correct done ⟨m, resolved, texts?.map joinOperands⟩ := by
      intro hknown
      cases texts? with
      | some texts => exact agrees_of_operands hfollows hvalue hops htexts hknown
      | none =>
        obtain ⟨operand, hmem, hreason⟩ := exists_of_memberOperands_none htexts
        rw [List.mem_reverse] at hreason
        exact .inr (.inr ⟨operands, hvalue, operand, hmem, hreason⟩)
    rcases @Enumeration.resolveMember_explicit earlier _ _ hvalue (hread operands hvalue) with
      ⟨-, n, hcombine, hknown⟩ | ⟨-, hverbatim⟩
    · obtain rfl : Resolved.known n = resolved := Except.ok.inj (hknown.symm.trans hresolved)
      by_cases hfits : fitsIn32 n = true
      · refine ⟨texts?.map joinOperands, ?_, hcorrect ?_⟩
        · rw [memberText, if_pos hfits, hjoined]
        · rintro _ ⟨⟩
          exact ⟨hfits, hcombine⟩
      · exact ⟨none, by rw [memberText, if_neg hfits], hunfit n rfl hfits⟩
    · obtain rfl : Resolved.verbatim _ = resolved := Except.ok.inj (hverbatim.symm.trans hresolved)
      refine ⟨texts?.map joinOperands, hjoined, hcorrect ?_⟩
      rintro _ ⟨⟩
  | none =>
    rcases default_cases hfollows hvalue hresolved with ⟨n, rfl⟩ | ⟨base, distance, rfl, hplain⟩
    · by_cases hfits : fitsIn32 n = true
      · exact ⟨some (numberText n), by rw [memberText, if_pos hfits],
          agrees_of_number hvalue rfl hfits⟩
      · exact ⟨none, by rw [memberText, if_neg hfits], hunfit n rfl hfits⟩
    · by_cases hbase : base ∈ (reported done).reverse
      · refine ⟨none, by rw [memberText, if_pos hbase], ?_⟩
        exact .inr (.inl ⟨base, distance, rfl, List.mem_reverse.mp hbase⟩)
      · refine ⟨_, by rw [memberText, if_neg hbase], ?_⟩
        exact agrees_of_offset hvalue rfl hplain fun hmem => hbase (List.mem_reverse.mpr hmem)

/-- What is written for one more member follows from what is known of it. -/
theorem Follows.step {m : Member} {resolved : Resolved} {text? : Option String}
    (hfollows : Follows done earlier) (hm : m.WellFormed TokenKind.Lexed) (hread : m.Readable)
    (hresolved : Enumeration.resolveMember earlier m = .ok resolved)
    (hdistinct : ∀ x ∈ earlier, identifier x.1 ≠ identifier m.name)
    (hcorrect : Row.Correct done ⟨m, resolved, text?⟩) :
    Follows (done ++ [⟨m, resolved, text?⟩]) ((m.name, resolved) :: earlier) := by
  constructor
  · intro name n hmem hreported
    rw [reported_append, List.mem_append, not_or] at hreported
    rw [constants_append_singleton]
    rcases List.mem_cons.mp hmem with heq | hmem
    · obtain ⟨rfl, rfl⟩ := Prod.mk.inj heq
      cases text? with
      | none => exact absurd (by simp [reported]) hreported.2
      | some text =>
        have hvalue := Row.Agrees.value hcorrect n rfl
        rw [Row.declare, Option.bind_some, hvalue]
        exact List.lookup_cons_self
    · have hearlier := hfollows.known name n hmem hreported.1
      rw [Row.declare]
      split
      · have hne := hdistinct _ hmem
        rw [List.lookup_cons, beq_false_of_ne hne]
        exact hearlier
      · exact hearlier
  · intro x hx
    rcases List.mem_cons.mp hx with rfl | hx
    · exact plain_of_identifier hm.name
    · exact hfollows.plain x hx
  · intro name base distance hmem
    rcases List.mem_cons.mp hmem with heq | hmem
    · obtain ⟨rfl, rfl⟩ := Prod.mk.inj heq
      exact plain_base hfollows hread hresolved
    · exact hfollows.base name base distance hmem

end Member

/-! ## All members -/

/-- Rows are written one after the other. -/
theorem rowsWritten_cons (level : Nat) (enumName : String) (row : Row) (rows : List Row) :
    rowsWritten level enumName (row :: rows) =
      rowsWritten level enumName [row] ++ rowsWritten level enumName rows := by
  ext1
  · simp only [rowsWritten, Addition.append_lines]
    rw [← List.filterMap_append, List.singleton_append]
  · show (reported ([row] ++ rows)).map _ = _
    rw [reported_append, List.map_append]
    rfl
  · show (reported ([row] ++ rows)).map _ = _
    rw [reported_append, List.map_append]
    rfl

/-- The members of an enumeration from some point on, after the rows for those before. -/
theorem exists_rows {enumName : String} {members : List Member} {done : List Row}
    {earlier entries : List ResolvedMember}
    (hresolve : Enumeration.resolveFrom earlier members = .ok entries)
    (hwf : ∀ m ∈ members, m.WellFormed TokenKind.Lexed) (hread : ∀ m ∈ members, m.Readable)
    (hnodup : (members.map fun m => identifier m.name).Nodup)
    (hdistinct : ∀ m ∈ members, ∀ x ∈ earlier, identifier x.1 ≠ identifier m.name)
    (hfollows : Follows done earlier) :
    ∃ rows, rows.map Row.member = members ∧
      rows.map (fun row => (row.member.name, row.resolved)) = entries ∧
      (∀ level, Writes
        (memberLines enumName (reported done).reverse (members.zip (entries.map Prod.snd)))
        level () (rowsWritten level enumName rows)) ∧
      ∀ before row after, rows = before ++ row :: after → row.Correct (done ++ before) := by
  induction members generalizing done earlier entries with
  | nil =>
    obtain rfl : entries = [] := (Except.ok.inj hresolve).symm
    exact ⟨[], rfl, rfl, fun _ => Writes.pure (), by simp⟩
  | cons m members ih =>
    obtain ⟨resolved, others, hmember, hrest, rfl⟩ := Enumeration.resolveFrom_cons hresolve
    have hm := hwf m List.mem_cons_self
    have hmread := hread m List.mem_cons_self
    obtain ⟨text?, htext, hcorrect⟩ := exists_memberText hfollows hm hmread hmember
    have hstep := hfollows.step hm hmread hmember (hdistinct m List.mem_cons_self) hcorrect
    have hnodup' := List.nodup_cons.mp hnodup
    have hdistinct' : ∀ m' ∈ members, ∀ x ∈ (m.name, resolved) :: earlier,
        identifier x.1 ≠ identifier m'.name := by
      intro m' hm' x hx
      rcases List.mem_cons.mp hx with rfl | hx
      · intro heq
        exact hnodup'.1 (List.mem_map.mpr ⟨m', hm', heq.symm⟩)
      · exact hdistinct m' (List.mem_cons_of_mem _ hm') x hx
    obtain ⟨rows, hmembers, hentries, hwrites, hrows⟩ :=
      ih hrest (fun m' hm' => hwf m' (List.mem_cons_of_mem _ hm'))
        (fun m' hm' => hread m' (List.mem_cons_of_mem _ hm')) hnodup'.2 hdistinct' hstep
    refine ⟨⟨m, resolved, text?⟩ :: rows, by simp [hmembers], by simp [hentries], ?_, ?_⟩
    · intro level
      have hothers := hwrites level
      rw [rowsWritten_cons]
      refine Writes.attemptBind htext ?_
      cases text? with
      | some text =>
        rw [reported_append, reported_of_text rfl, List.append_nil] at hothers
        exact Writes.seq (Writes.line _) hothers
      | none =>
        rw [reported_append, reported_of_none rfl, List.reverse_append] at hothers
        exact Writes.seq (Writes.report _) hothers
    · intro before row after hsplit
      rcases List.cons_eq_append_iff.mp hsplit with ⟨rfl, hhead⟩ | ⟨before', rfl, hsplit⟩
      · obtain ⟨rfl, -⟩ := List.cons.inj hhead
        rw [List.append_nil]
        exact hcorrect
      · have := hrows before' row after (List.cons.inj hsplit).2
        rwa [List.append_assoc, List.singleton_append] at this

/-- Comments are written as lines. -/
theorem docs_writes (level : Nat) (attributes : List Attribute) :
    Writes (docs attributes) level () { lines := (docTexts attributes).map (.content level) } := by
  unfold docs docTexts
  cases Attribute.valueOf .helpString attributes with
  | none => exact Writes.pure ()
  | some help => exact Writes.lines _

/-- Every member of an enumeration that is read off a source becomes a constant or is reported, in
order, and is reported only for a reason. A constant mentions no member that was reported before
it, and its expression evaluates to the value of the member, if that is known. -/
theorem enumeration_constants_agree {source : Source} {ds : List Declaration} {e : Enumeration}
    (hparse : source.parse = .ok ds) (he : e ∈ Declaration.enumerations ds)
    (hdistinct : (e.members.map fun m => identifier m.name).Nodup) (hread : e.Readable) :
    ∃ rows : List Row, rows.map Row.member = e.members ∧
      e.resolve = .ok (rows.map fun row => (row.member.name, row.resolved)) ∧
      (∀ level, Writes (enumeration e) level ()
        ({ lines := headLines level e } ++ rowsWritten level e.name rows)) ∧
      ∀ before row after, rows = before ++ row :: after → row.Correct before := by
  have hwf := Declaration.wellFormed_of_mem_enumerations
    (Source.allWellFormed_of_parse hparse) he
  obtain ⟨entries, hentries⟩ := @Enumeration.resolveFrom_isOk [] _ hread
  obtain ⟨rows, hmembers, hrows, hwrites, hcorrect⟩ :=
    @exists_rows e.name _ [] _ _ hentries hwf.members hread hdistinct (by simp) follows_nil
  subst hrows
  refine ⟨rows, hmembers, hentries, ?_, hcorrect⟩
  intro level
  have hall : Writes (enumeration e) level () _ :=
    Writes.seq Writes.blank <| Writes.seq (docs_writes level e.attributes) <|
      Writes.seq (Writes.line _) <| Writes.attemptBind hentries (hwrites level)
  have hsplit : { lines := headLines level e } ++ rowsWritten level e.name rows =
      ({ lines := [.blank] } : Addition) ++
        ({ lines := (docTexts e.attributes).map (.content level) } ++
          ({ lines := [.content level ("pub type " ++ identifier e.name ++ " = i32;")] } ++
            rowsWritten level e.name rows)) := by
    ext1
    · simp [headLines]
    · simp
    · simp
  rw [hsplit]
  exact hall

/-- An enumeration with bit patterns, numbers that do not fit, names that are not declared, and a
name that is reserved in the output. -/
def assorted : Enumeration where
  name := "Assorted"
  members :=
    [⟨"ALL", some ["0xFFFFFFFF"]⟩, ⟨"NONE", none⟩, ⟨"MIXED", some ["ALL", "0x10u", "NONE"]⟩,
      ⟨"HUGE", some ["0x100000000"]⟩, ⟨"HUGER", none⟩, ⟨"SAME", some ["HUGE"]⟩,
      ⟨"OTHER", some ["ELSEWHERE"]⟩, ⟨"NEXT", none⟩, ⟨"LOW", some ["-5"]⟩,
      ⟨"type", some ["2147483648"]⟩, ⟨"LAST", some ["type", "1"]⟩]

/-- A source with that enumeration in a library. -/
def assortedSource : Source :=
  .ofText "library L \x7b enum Assorted \x7b ALL = 0xFFFFFFFF, NONE, MIXED = ALL | 0x10u | NONE,
    HUGE = 0x100000000, HUGER, SAME = HUGE, OTHER = ELSEWHERE, NEXT, LOW = -5, type = 2147483648,
    LAST = type | 1 \x7d \x7d;"

/-- The source declares the assorted enumeration and no other. -/
theorem enumerations_assortedSource :
    assortedSource.parse.toOption.map Declaration.enumerations = some [assorted] := by
  decide +kernel

/-- Members of every sort, one of which does not fit in 32 bits. -/
theorem enumeration_constants_agree_assorted :
    ∃ ds, assortedSource.parse = .ok ds ∧ assorted ∈ Declaration.enumerations ds ∧
      (assorted.members.map fun m => identifier m.name).Nodup ∧ assorted.Readable ∧
      ∃ rows : List Row, rows.map Row.member = assorted.members ∧
        assorted.resolve = .ok (rows.map fun row => (row.member.name, row.resolved)) ∧
        (∀ level, Writes (enumeration assorted) level ()
          ({ lines := headLines level assorted } ++ rowsWritten level assorted.name rows)) ∧
        ∀ before row after, rows = before ++ row :: after → row.Correct before := by
  have hmap := enumerations_assortedSource
  cases hparse : assortedSource.parse with
  | error error =>
    rw [hparse] at hmap
    cases hmap
  | ok ds =>
    rw [hparse] at hmap
    have hds : Declaration.enumerations ds = [assorted] := Option.some.inj hmap
    have he : assorted ∈ Declaration.enumerations ds := by simp [hds]
    have hdistinct : (assorted.members.map fun m => identifier m.name).Nodup := by decide +kernel
    have hread : assorted.Readable := by decide +kernel
    exact ⟨ds, rfl, he, hdistinct, hread, enumeration_constants_agree hparse he hdistinct hread⟩

end Midl.Output
