import Midl.Proofs.WellFormed

/-!
# Words of brackets

A word of brackets is well nested if every bracket has its partner, with a well-nested word in
between. `Closes` speaks of what may come while some brackets are still open, so that a word can be
followed from its beginning to its end.

The brackets of a source make up such a word, but for the groups of pragmas: any tokens may stand in
them, and only their parentheses count. `Splits` takes tokens apart into pragmas and other tokens,
which can be done in one way only (`Splits.unique`). `Settled` says of tokens what `Closes` says of
words.
-/

namespace Midl

/-! ## Words of brackets -/

namespace Mark

/-- The bracket that closes what a bracket opens, if it opens anything. -/
def closing? : Mark → Option Mark
  | openParen => some closeParen
  | openBracket => some closeBracket
  | openBrace => some closeBrace
  | _ => none

/-- The brackets of all three pairs. -/
def isBracket : Mark → Bool
  | openParen | closeParen | openBracket | closeBracket | openBrace | closeBrace => true
  | _ => false

/-- Words in which every bracket has its partner, with a well-nested word in between. -/
inductive WellNested : List Mark → Prop
  | nil : WellNested []
  | enclosed {opening closing : Mark} (h : opening.closing? = some closing)
      {inner rest : List Mark} (hinner : WellNested inner) (hrest : WellNested rest) :
      WellNested (opening :: (inner ++ closing :: rest))

/-- Words that close the brackets that are pending, one after the other, and everything else that
they open. -/
def Closes : List Mark → List Mark → Prop
  | [], word => WellNested word
  | closing :: pending, word =>
    ∃ inner rest, word = inner ++ closing :: rest ∧ WellNested inner ∧ Closes pending rest

variable {pending word word' : List Mark} {left right : Mark}

/-- Two well-nested words make one. -/
theorem WellNested.append (h : WellNested word) (h' : WellNested word') :
    WellNested (word ++ word') := by
  induction h with
  | nil => exact h'
  | enclosed hpair hinner _ _ ih =>
    rw [List.cons_append, List.append_assoc, List.cons_append]
    exact .enclosed hpair hinner ih

/-- A well-nested word before others closes no bracket of theirs. -/
theorem WellNested.closes (h : WellNested word) (h' : Closes pending word') :
    Closes pending (word ++ word') := by
  cases pending with
  | nil => exact h.append h'
  | cons mark pending =>
    obtain ⟨inner, rest, rfl, hinner, hrest⟩ := h'
    exact ⟨word ++ inner, rest, by rw [List.append_assoc], h.append hinner, hrest⟩

/-- An opening bracket is closed by what closes one bracket more. -/
theorem Closes.opening (hpair : left.closing? = some right)
    (h : Closes (right :: pending) word) : Closes pending (left :: word) := by
  obtain ⟨inner, rest, rfl, hinner, hrest⟩ := h
  have hpart : WellNested (left :: (inner ++ [right])) := .enclosed hpair hinner .nil
  have hall := hpart.closes hrest
  rwa [List.cons_append, List.append_assoc, List.singleton_append] at hall

/-- A closing bracket closes the one that is pending. -/
theorem Closes.closing (h : Closes pending word) : Closes (right :: pending) (right :: word) :=
  ⟨[], word, rfl, .nil, h⟩

end Mark

/-! ## Tokens with their brackets -/

namespace TokenKind

/-- The bracket that a token is, if it is one. -/
def bracket? : TokenKind → Option Mark
  | mark m => if m.isBracket then some m else none
  | _ => none

/-- The parenthesis that a token is, if it is one. -/
def paren? : TokenKind → Option Mark
  | mark .openParen => some .openParen
  | mark .closeParen => some .closeParen
  | _ => none

/-- How many more parentheses are open after some tokens than before them. -/
def balance (kinds : List TokenKind) : Int :=
  (kinds.count (.mark .openParen) : Int) - kinds.count (.mark .closeParen)

/-- The tokens of a group after the parenthesis that opens it: with the last of them, and not
before, no parenthesis is open any more. -/
structure ClosesGroup (inside : List TokenKind) : Prop where
  closed : 1 + balance inside = 0
  open_before : ∀ taken kind rest, inside = taken ++ kind :: rest → 1 ≤ 1 + balance taken

end TokenKind

/-- A token by itself, or a pragma. -/
inductive Portion where
  | token (kind : TokenKind)
  /-- The tokens inside are those after the parenthesis that opens the group. -/
  | pragma (name : String) (inside : List TokenKind)

namespace Portion

/-- The tokens of a portion. -/
def kinds : Portion → List TokenKind
  | token kind => [kind]
  | pragma name inside =>
    .keyword .midlPragma :: .identifier name :: .mark .openParen :: inside

/-- The brackets of a portion. Only the parentheses of a group count. -/
def brackets : Portion → List Mark
  | token kind => kind.bracket?.toList
  | pragma _ inside => .openParen :: inside.filterMap TokenKind.paren?

/-- Whether a portion is what it is said to be. The keyword of a pragma is not a token by itself. -/
def Proper : Portion → Prop
  | token kind => kind ≠ .keyword .midlPragma
  | pragma _ inside => TokenKind.ClosesGroup inside

end Portion

/-- Tokens fall into portions. -/
structure Splits (kinds : List TokenKind) (portions : List Portion) : Prop where
  kinds_eq : kinds = portions.flatMap Portion.kinds
  proper : ∀ portion ∈ portions, portion.Proper

/-- A portion is not empty. -/
theorem Portion.kinds_ne_nil (portion : Portion) : portion.kinds ≠ [] := by
  cases portion with
  | token kind => exact List.cons_ne_nil _ _
  | pragma name inside => exact List.cons_ne_nil _ _

/-- Of two groups that begin alike neither goes on beyond the other. -/
theorem TokenKind.ClosesGroup.eq_nil {inside more : List TokenKind} (h : ClosesGroup inside)
    (h' : ClosesGroup (inside ++ more)) : more = [] := by
  cases more with
  | nil => rfl
  | cons kind rest =>
    have hopen := h'.open_before inside kind rest rfl
    have hclosed := h.closed
    omega

/-- A group ends in one place only. -/
theorem TokenKind.ClosesGroup.eq_of_append_eq {inside inside' rest rest' : List TokenKind}
    (h : ClosesGroup inside) (h' : ClosesGroup inside')
    (heq : inside ++ rest = inside' ++ rest') : inside = inside' ∧ rest = rest' := by
  obtain ⟨more, rfl, rfl⟩ | ⟨more, rfl, rfl⟩ := List.append_eq_append_iff.mp heq
  · obtain rfl := h.eq_nil h'
    exact ⟨(List.append_nil _).symm, rfl⟩
  · obtain rfl := h'.eq_nil h
    exact ⟨List.append_nil _, rfl⟩

/-- Two portions that the same tokens begin with are the same. -/
theorem Portion.Proper.eq_of_append_eq {portion portion' : Portion} {rest rest' : List TokenKind}
    (h : portion.Proper) (h' : portion'.Proper)
    (heq : portion.kinds ++ rest = portion'.kinds ++ rest') :
    portion = portion' ∧ rest = rest' := by
  cases portion with
  | token kind =>
    cases portion' with
    | token kind' =>
      obtain ⟨rfl, rfl⟩ := List.cons.inj heq
      exact ⟨rfl, rfl⟩
    | pragma name' inside' => exact absurd (List.cons.inj heq).1 h
  | pragma name inside =>
    cases portion' with
    | token kind' => exact absurd (List.cons.inj heq).1.symm h'
    | pragma name' inside' =>
      simp only [kinds, List.cons_append, List.cons.injEq, TokenKind.identifier.injEq,
        true_and] at heq
      obtain ⟨rfl, heq⟩ := heq
      obtain ⟨rfl, rfl⟩ := TokenKind.ClosesGroup.eq_of_append_eq h h' heq
      exact ⟨rfl, rfl⟩

/-- Tokens fall into portions in one way only. -/
theorem Splits.unique {kinds : List TokenKind} {portions portions' : List Portion}
    (h : Splits kinds portions) (h' : Splits kinds portions') : portions = portions' := by
  induction portions generalizing kinds portions' with
  | nil =>
    cases portions' with
    | nil => rfl
    | cons portion' portions' =>
      have hnil := h.kinds_eq.symm.trans h'.kinds_eq
      exact absurd (List.append_eq_nil_iff.mp hnil.symm).1 portion'.kinds_ne_nil
  | cons portion portions ih =>
    cases portions' with
    | nil =>
      have hnil := h.kinds_eq.symm.trans h'.kinds_eq
      exact absurd (List.append_eq_nil_iff.mp hnil).1 portion.kinds_ne_nil
    | cons portion' portions' =>
      obtain ⟨hfirst, hrest⟩ := List.forall_mem_cons.mp h.proper
      obtain ⟨hfirst', hrest'⟩ := List.forall_mem_cons.mp h'.proper
      have heq := h.kinds_eq.symm.trans h'.kinds_eq
      rw [List.flatMap_cons, List.flatMap_cons] at heq
      obtain ⟨rfl, hmore⟩ := hfirst.eq_of_append_eq hfirst' heq
      rw [ih ⟨rfl, hrest⟩ ⟨hmore, hrest'⟩]

/-- Tokens that close the brackets that are pending, one after the other, and everything else that
they open. -/
def Settled (pending : List Mark) (kinds : List TokenKind) : Prop :=
  ∃ portions, Splits kinds portions ∧ Mark.Closes pending (portions.flatMap Portion.brackets)

section Settled

variable {pending : List Mark} {ks ls : List TokenKind} {kind : TokenKind} {left right : Mark}

/-- Tokens that open and close nothing, and do not begin a pragma either. -/
def TokenKind.isNeutral : TokenKind → Bool
  | keyword .midlPragma | eof => false
  | mark m => !m.isBracket
  | _ => true

/-- A neutral token is neither the end of the input nor the beginning of a pragma. -/
theorem TokenKind.ne_of_isNeutral (h : kind.isNeutral = true) :
    kind ≠ .eof ∧ kind ≠ .keyword .midlPragma := by
  constructor <;> rintro rfl <;> cases h

/-- Nor is it a bracket. -/
theorem TokenKind.bracket?_of_isNeutral (h : kind.isNeutral = true) : kind.bracket? = none := by
  cases kind with
  | mark m => simpa [bracket?, isNeutral] using h
  | _ => rfl

/-- Nothing is settled by no tokens. -/
theorem Settled.nil : Settled [] [] := ⟨[], ⟨rfl, by simp⟩, .nil⟩

/-- A portion in front of what is split is split off. -/
theorem Splits.cons (portion : Portion) {portions : List Portion} (hportion : portion.Proper)
    (h : Splits ks portions) : Splits (portion.kinds ++ ks) (portion :: portions) :=
  ⟨by rw [h.kinds_eq, List.flatMap_cons], List.forall_mem_cons.mpr ⟨hportion, h.proper⟩⟩

/-- What is split by itself is split when put together. -/
theorem Splits.append {portions portions' : List Portion} (h : Splits ks portions)
    (h' : Splits ls portions') : Splits (ks ++ ls) (portions ++ portions') :=
  ⟨by rw [h.kinds_eq, h'.kinds_eq, List.flatMap_append],
    List.forall_mem_append.mpr ⟨h.proper, h'.proper⟩⟩

/-- Tokens that settle all their brackets leave the others to what follows. -/
theorem Settled.append (h : Settled [] ks) (h' : Settled pending ls) :
    Settled pending (ks ++ ls) := by
  obtain ⟨portions, hsplits, hnested⟩ := h
  obtain ⟨portions', hsplits', hcloses⟩ := h'
  refine ⟨portions ++ portions', hsplits.append hsplits', ?_⟩
  rw [List.flatMap_append]
  exact Mark.WellNested.closes hnested hcloses

/-- A neutral token makes no difference. -/
theorem Settled.neutral (hkind : kind.isNeutral = true) (h : Settled pending ks) :
    Settled pending (kind :: ks) := by
  obtain ⟨portions, hsplits, hcloses⟩ := h
  have hproper : (Portion.token kind).Proper := (TokenKind.ne_of_isNeutral hkind).2
  refine ⟨.token kind :: portions, hsplits.cons _ hproper, ?_⟩
  rwa [List.flatMap_cons, Portion.brackets, TokenKind.bracket?_of_isNeutral hkind]

/-- An opening bracket is settled by what settles one bracket more. -/
theorem Settled.opening (hpair : left.closing? = some right) (h : Settled (right :: pending) ks) :
    Settled pending (.mark left :: ks) := by
  obtain ⟨portions, hsplits, hcloses⟩ := h
  have hleft : (TokenKind.mark left).bracket? = some left := by
    cases left <;> first | rfl | cases hpair
  refine ⟨.token (.mark left) :: portions, hsplits.cons (.token _) (by simp [Portion.Proper]), ?_⟩
  rw [List.flatMap_cons, Portion.brackets, hleft]
  exact .opening hpair hcloses

/-- A closing bracket settles the one that is pending. -/
theorem Settled.closing (hright : right.isBracket = true) (h : Settled pending ks) :
    Settled (right :: pending) (.mark right :: ks) := by
  obtain ⟨portions, hsplits, hcloses⟩ := h
  refine ⟨.token (.mark right) :: portions, hsplits.cons (.token _) (by simp [Portion.Proper]), ?_⟩
  rw [List.flatMap_cons, Portion.brackets, TokenKind.bracket?, if_pos hright]
  exact .closing hcloses

end Settled

/-! ## Groups -/

namespace TokenKind

/-- Counting does not stop at zero where a parenthesis is open. -/
theorem openAfter_eq (kind : TokenKind) (depth : Nat) :
    ((kind.openAfter (depth + 1) : Nat) : Int) = (depth + 1 : Nat) + balance [kind] := by
  unfold openAfter
  split
  · have hbalance : balance [mark .openParen] = 1 := by decide
    omega
  · have hbalance : balance [mark .closeParen] = -1 := by decide
    omega
  · rename_i hopen hclose
    have hbalance : balance [kind] = 0 := by
      rw [balance, List.count_singleton, List.count_singleton, if_neg (by simpa using hopen),
        if_neg (by simpa using hclose)]
      rfl
    omega

/-- Balances add up. -/
theorem balance_append (ks ls : List TokenKind) :
    balance (ks ++ ls) = balance ks + balance ls := by
  simp only [balance, List.count_append]
  omega

/-- Where a group is closed, as many parentheses were open as the count says, and never none. -/
theorem balance_of_closes {depth : Nat} {kinds : List TokenKind} (h : closes depth kinds = true) :
    depth + balance kinds = 0 ∧
      ∀ taken kind rest, kinds = taken ++ kind :: rest → 1 ≤ depth + balance taken := by
  induction kinds generalizing depth with
  | nil =>
    cases depth with
    | zero => simp [balance]
    | succ depth => cases h
  | cons first kinds ih =>
    cases depth with
    | zero => cases h
    | succ depth =>
      have h : closes (first.openAfter (depth + 1)) kinds = true := h
      obtain ⟨hall, hbefore⟩ := ih h
      rw [openAfter_eq] at hall hbefore
      refine ⟨?_, fun taken kind rest hkinds => ?_⟩
      · rw [← List.singleton_append, balance_append]
        omega
      · cases taken with
        | nil =>
          have hnil : balance [] = 0 := rfl
          omega
        | cons _ taken =>
          obtain ⟨rfl, hrest⟩ := List.cons.inj hkinds
          have hpositive := hbefore taken kind rest hrest
          rw [← List.singleton_append, balance_append]
          omega

/-- Tokens that close one parenthesis, and nothing before their end, close a group. -/
theorem closesGroup_of_closes {inside : List TokenKind} (h : closes 1 inside = true) :
    ClosesGroup inside := by
  obtain ⟨hclosed, hbefore⟩ := balance_of_closes h
  exact ⟨hclosed, hbefore⟩

/-- The parentheses of a group close those that are open before it. -/
theorem closes_parens {depth : Nat} {kinds : List TokenKind} (h : closes depth kinds = true) :
    Mark.Closes (List.replicate depth .closeParen) (kinds.filterMap paren?) := by
  induction kinds generalizing depth with
  | nil =>
    cases depth with
    | zero => exact .nil
    | succ depth => cases h
  | cons kind kinds ih =>
    cases depth with
    | zero => cases h
    | succ depth =>
      have h : closes (kind.openAfter (depth + 1)) kinds = true := h
      have hrest := ih h
      rw [List.filterMap_cons]
      cases hparen : kind.paren? with
      | none =>
        have hsame : kind.openAfter (depth + 1) = depth + 1 := by
          unfold openAfter paren? at *
          split <;> simp_all
        rwa [hsame] at hrest
      | some paren =>
        unfold paren? at hparen
        split at hparen
        · obtain rfl := Option.some.inj hparen
          exact .opening rfl hrest
        · obtain rfl := Option.some.inj hparen
          exact .closing hrest
        · cases hparen

end TokenKind

/-- A pragma settles its own brackets, whatever stands in its group. -/
theorem Settled.pragma (name : String) {inside : List TokenKind}
    (h : TokenKind.closes 1 inside = true) : Settled [] (Portion.pragma name inside).kinds := by
  have hproper : (Portion.pragma name inside).Proper := TokenKind.closesGroup_of_closes h
  refine ⟨[.pragma name inside], ⟨by simp, List.forall_mem_singleton.mpr hproper⟩, ?_⟩
  rw [List.flatMap_cons, List.flatMap_nil, List.append_nil]
  exact .opening rfl (TokenKind.closes_parens h)

end Midl
