import Midl.Enumeration
import Midl.Proofs.Integer

/-!
# What is known of an enumeration is true and all there is to know

The members of an enumeration define each other: an assignment of integers to names is
*consistent* with an enumeration if every member has the integer that its definition asks for.
Nothing bounds these integers, and names that are no members may stand for anything.

`resolve` never contradicts a consistent assignment, and finds a value exactly where one can be
found by looking at literals and at the members before. The proof reads the result entry by
entry: each entry is what `resolveMember` makes of its member, given the entries before it
(`resolve_entries`).
-/

namespace Midl

/-- No operand of a member makes reading it fail. -/
def Member.Readable (m : Member) : Prop :=
  ∀ operands, m.value = some operands →
    ∀ operand ∈ operands, ∃ value?, Integer.read operand = .ok value?

namespace Enumeration

/-! ## Consistent assignments -/

/-- The integer that an operand stands for. -/
def operandMeaning (s : String → Int) (operand : String) : Int :=
  match Integer.read operand with
  | .ok (some value) => value.toInt
  | _ => s operand

/-- The integer that operands stand for together. -/
def operandsMeaning (s : String → Int) (operands : List String) : Int :=
  operands.foldl (fun n operand => Int.lor n (operandMeaning s operand)) 0

/-- Every member has the integer that its definition asks for. -/
structure Consistent (s : String → Int) (e : Enumeration) : Prop where
  /-- The first member is zero by default. -/
  first : ∀ m, e.members[0]? = some m → m.value = none → s m.name = 0
  /-- A later member is by default one more than the member before it. -/
  later : ∀ k p m, e.members[k]? = some p → e.members[k + 1]? = some m → m.value = none →
    s m.name = s p.name + 1
  /-- An explicit value is that of its operands. -/
  explicit : ∀ m ∈ e.members, ∀ operands, m.value = some operands →
    s m.name = operandsMeaning s operands

/-- No operand makes reading it fail. -/
def Readable (e : Enumeration) : Prop := ∀ m ∈ e.members, m.Readable

instance (e : Enumeration) : Decidable e.Readable :=
  decidable_of_iff (∀ m ∈ e.members, ∀ operands ∈ m.value, ∀ operand ∈ operands,
      (Integer.read operand).isOk = true) <| by
    have hok : ∀ operand, (Integer.read operand).isOk = true ↔
        ∃ value?, Integer.read operand = .ok value? := by
      intro operand
      cases Integer.read operand <;> simp [Except.isOk, Except.toBool]
    simp only [Readable, Member.Readable, Option.mem_def, hok]

end Enumeration

/-- What is known of the member `name` agrees with an assignment. -/
def Resolved.Agrees (s : String → Int) (name : String) : Resolved → Prop
  | known value => s name = value.toInt
  | verbatim _ => True
  | offset base distance => s name = s base + distance.toInt

namespace Enumeration

/-- The value of the `k`-th member can be found from literals and from what is known of the members
before it. -/
def Determined (entries : List ResolvedMember) (k : Nat) (m : Member) : Prop :=
  match m.value with
  | none => k = 0 ∨ ∃ j name value, k = j + 1 ∧ entries[j]? = some (name, .known value) ∧
      value.toInt < 2 ^ 63 - 1
  | some operands => ∀ operand ∈ operands, (∃ value, Integer.read operand = .ok (some value)) ∨
      ∃ j value, j < k ∧ entries[j]? = some (operand, .known value)

/-! ## Operands -/

variable {earlier : List ResolvedMember}

/-- A name can be looked up if it is that of a member whose value is known. -/
theorem lookup?_isSome_iff {name : String} :
    (lookup? earlier name).isSome ↔ ∃ value, (name, Resolved.known value) ∈ earlier := by
  rw [lookup?, List.findSome?_isSome_iff]
  constructor
  · rintro ⟨⟨other, resolved⟩, hmem, h⟩
    cases resolved with
    | known value =>
      by_cases hname : other = name
      · exact ⟨value, hname ▸ hmem⟩
      · simp [hname] at h
    | verbatim text => simp [Resolved.known?] at h
    | offset base distance => simp [Resolved.known?] at h
  · rintro ⟨value, hmem⟩
    exact ⟨_, hmem, by simp [Resolved.known?]⟩

/-- What is found is known of a member of that name. -/
theorem mem_of_lookup? {name : String} {value : Int64} (h : lookup? earlier name = some value) :
    (name, Resolved.known value) ∈ earlier := by
  obtain ⟨⟨other, resolved⟩, hmem, h⟩ := List.exists_of_findSome?_eq_some h
  by_cases hname : other = name
  · cases resolved with
    | known value' =>
      obtain rfl : value' = value := by simpa [hname, Resolved.known?] using h
      exact hname ▸ hmem
    | verbatim text => simp [Resolved.known?] at h
    | offset base distance => simp [Resolved.known?] at h
  · simp [hname] at h

/-- An operand is read as a literal or else looked up. -/
theorem operandValue_of_read {operand : String} {value? : Option Int64}
    (h : Integer.read operand = .ok value?) :
    operandValue earlier operand = .ok (value? <|> lookup? earlier operand) := by
  rw [operandValue, h]
  cases value? with
  | none => rfl
  | some value => rfl

/-- What an operand is worked out to be is what it stands for. -/
theorem toInt_eq_operandMeaning {s : String → Int} {operand : String} {value : Int64}
    (hs : ∀ x ∈ earlier, x.2.Agrees s x.1)
    (h : operandValue earlier operand = .ok (some value)) :
    value.toInt = operandMeaning s operand := by
  cases hread : Integer.read operand with
  | error fault =>
    rw [operandValue, hread] at h
    cases h
  | ok value? =>
    rw [operandValue_of_read hread] at h
    rw [operandMeaning, hread]
    cases value? with
    | some value' =>
      obtain rfl : value' = value := by simpa using h
      rfl
    | none =>
      have hlook : lookup? earlier operand = some value := by simpa using h
      exact (hs _ (mem_of_lookup? hlook)).symm

/-- An operand is a literal, or the name of a member whose value is known. -/
def HasValue (earlier : List ResolvedMember) (operand : String) : Prop :=
  (∃ value, Integer.read operand = .ok (some value)) ∨
    ∃ value, (operand, Resolved.known value) ∈ earlier

/-- An operand that can be read is worked out exactly if it has a value. -/
theorem operandValue_isSome_iff {operand : String} {value? : Option Int64}
    (h : Integer.read operand = .ok value?) :
    ∃ found, operandValue earlier operand = .ok found ∧
      (found.isSome ↔ HasValue earlier operand) := by
  refine ⟨_, operandValue_of_read h, ?_⟩
  cases value? with
  | some value => simp [HasValue, h]
  | none =>
    rw [HasValue, h, ← lookup?_isSome_iff]
    simp

/-- Operands that can be read are worked out exactly if each of them has a value. -/
theorem combine_isSome_iff {operands : List String} (value : Int64)
    (hread : ∀ operand ∈ operands, ∃ value?, Integer.read operand = .ok value?) :
    ∃ found, combine earlier value operands = .ok found ∧
      (found.isSome ↔ ∀ operand ∈ operands, HasValue earlier operand) := by
  induction operands generalizing value with
  | nil => exact ⟨some value, rfl, by simp⟩
  | cons operand operands ih =>
    obtain ⟨value?, hvalue⟩ := hread operand List.mem_cons_self
    obtain ⟨found, hfound, hiff⟩ := @operandValue_isSome_iff earlier _ _ hvalue
    rw [combine, hfound]
    cases found with
    | none =>
      refine ⟨none, rfl, ?_⟩
      have hno : ¬ HasValue earlier operand := by simpa using hiff
      simp [hno]
    | some v =>
      have hyes : HasValue earlier operand := by simpa using hiff
      obtain ⟨found, hfound, hiff⟩ :=
        ih (value ||| v) fun o ho => hread o (List.mem_cons_of_mem _ ho)
      exact ⟨found, hfound, by rw [hiff]; simp [hyes]⟩

/-- Operands are worked out one by one. -/
theorem combine_cons {operand : String} {operands : List String} {value result : Int64}
    (h : combine earlier value (operand :: operands) = .ok (some result)) :
    ∃ v, operandValue earlier operand = .ok (some v) ∧
      combine earlier (value ||| v) operands = .ok (some result) := by
  rw [combine] at h
  cases hv : operandValue earlier operand with
  | error fault =>
    rw [hv] at h
    cases h
  | ok found =>
    rw [hv] at h
    cases found with
    | none => cases h
    | some v => exact ⟨v, rfl, h⟩

/-- What operands are worked out to be is what they stand for. -/
theorem toInt_combine {s : String → Int} {operands : List String} {value result : Int64}
    (hs : ∀ x ∈ earlier, x.2.Agrees s x.1)
    (h : combine earlier value operands = .ok (some result)) :
    result.toInt =
      operands.foldl (fun n operand => Int.lor n (operandMeaning s operand)) value.toInt := by
  induction operands generalizing value with
  | nil =>
    obtain rfl : value = result := by simpa [combine] using h
    rfl
  | cons operand operands ih =>
    obtain ⟨v, hv, hrest⟩ := combine_cons h
    rw [ih hrest, List.foldl_cons, Integer.toInt_or_eq_lor, toInt_eq_operandMeaning hs hv]

/-! ## One member -/

/-- What is known of an explicit value: the value, if each operand has one, and otherwise how it
is written. -/
theorem resolveMember_explicit {m : Member} {operands : List String}
    (hm : m.value = some operands)
    (hread : ∀ operand ∈ operands, ∃ value?, Integer.read operand = .ok value?) :
    ((∀ operand ∈ operands, HasValue earlier operand) ∧
      ∃ value, combine earlier 0 operands = .ok (some value) ∧
        resolveMember earlier m = .ok (.known value)) ∨
    ((¬ ∀ operand ∈ operands, HasValue earlier operand) ∧
      resolveMember earlier m = .ok (.verbatim (joinOperands operands))) := by
  obtain ⟨found, hfound, hiff⟩ := @combine_isSome_iff earlier _ 0 hread
  unfold resolveMember
  rw [hm]
  simp only
  rw [hfound]
  cases found with
  | none => exact .inr ⟨fun h => by simpa using hiff.mpr h, rfl⟩
  | some value => exact .inl ⟨hiff.mp rfl, value, rfl, rfl⟩

/-- The first member is zero by default. -/
theorem resolveMember_first {m : Member} (hm : m.value = none) :
    resolveMember [] m = .ok (.known 0) := by
  unfold resolveMember
  rw [hm]

/-- Another member is by default resolved from the member before it. -/
theorem resolveMember_later {m : Member} {name : String} {resolved : Resolved}
    (hm : m.value = none) :
    resolveMember ((name, resolved) :: earlier) m = .ok (resolved.successor name) := by
  unfold resolveMember
  rw [hm]

/-- Resolving a member does not fail if its operands can be read. -/
theorem resolveMember_isOk {m : Member} (hread : m.Readable) :
    ∃ resolved, resolveMember earlier m = .ok resolved := by
  cases hm : m.value with
  | some operands =>
    rcases @resolveMember_explicit earlier _ _ hm (hread operands hm) with h | h
    · obtain ⟨-, value, -, h⟩ := h
      exact ⟨_, h⟩
    · exact ⟨_, h.2⟩
  | none =>
    cases earlier with
    | nil => exact ⟨_, resolveMember_first hm⟩
    | cons x earlier => exact ⟨_, resolveMember_later hm⟩

/-- The default after a member is its value or its distance and one more, or else a new distance
from the member itself. -/
theorem successor_cases (name : String) (resolved : Resolved) :
    (∃ value next, resolved = .known value ∧ Integer.increment? value = some next ∧
      resolved.successor name = .known next) ∨
    (∃ base distance next, resolved = .offset base distance ∧
      Integer.increment? distance = some next ∧ resolved.successor name = .offset base next) ∨
    ((∀ value, resolved = .known value → value = Int64.maxValue) ∧
      resolved.successor name = .offset name 1) := by
  cases resolved with
  | known value =>
    rw [Resolved.successor]
    split
    · rename_i next h
      exact .inl ⟨value, next, rfl, h, rfl⟩
    · rename_i h
      refine .inr (.inr ⟨?_, rfl⟩)
      rintro _ ⟨⟩
      exact Integer.increment?_eq_none_iff.mp h
  | verbatim text => exact .inr (.inr ⟨by simp, rfl⟩)
  | offset base distance =>
    rw [Resolved.successor]
    split
    · rename_i next h
      exact .inr (.inl ⟨base, distance, next, rfl, h, rfl⟩)
    · exact .inr (.inr ⟨by simp, rfl⟩)

/-- The default after a member is known exactly if the member is, and is not the greatest. -/
theorem successor_known_iff {name : String} {resolved : Resolved} :
    (∃ value, resolved.successor name = .known value) ↔
      ∃ value, resolved = .known value ∧ value.toInt < 2 ^ 63 - 1 := by
  rcases successor_cases name resolved with ⟨value, next, rfl, hinc, hsucc⟩ |
    ⟨base, distance, next, rfl, -, hsucc⟩ | ⟨hmax, hsucc⟩
  · have hne : value ≠ Int64.maxValue := by
      intro heq
      rw [Integer.increment?_eq_none_iff.mpr heq] at hinc
      cases hinc
    simp only [hsucc]
    exact ⟨fun _ => ⟨value, rfl, Integer.toInt_lt_maxValue hne⟩, fun _ => ⟨next, rfl⟩⟩
  · simp [hsucc]
  · simp only [hsucc]
    constructor
    · rintro ⟨value, ⟨⟩⟩
    · rintro ⟨value, hvalue, hlt⟩
      rw [hmax value hvalue] at hlt
      exact absurd hlt (by decide)

/-- The default after a member is one more. -/
theorem agrees_successor {s : String → Int} {name next : String} {resolved : Resolved}
    (h : resolved.Agrees s name) (hnext : s next = s name + 1) :
    (resolved.successor name).Agrees s next := by
  rcases successor_cases name resolved with ⟨value, value', rfl, hinc, hsucc⟩ |
    ⟨base, distance, distance', rfl, hinc, hsucc⟩ | ⟨-, hsucc⟩
  · have hname : s name = value.toInt := h
    rw [hsucc]
    show s next = value'.toInt
    rw [Integer.toInt_of_increment? hinc, hnext, hname]
  · have hname : s name = s base + distance.toInt := h
    rw [hsucc]
    show s next = s base + distance'.toInt
    rw [Integer.toInt_of_increment? hinc, hnext, hname, add_assoc]
  · rw [hsucc]
    exact hnext

/-! ## All members -/

/-- The entries before the `k`-th, the last of them first. -/
def before (entries : List ResolvedMember) (k : Nat) : List ResolvedMember :=
  (entries.take k).reverse

/-- One more member is before the next one. -/
theorem before_succ {entries : List ResolvedMember} {k : Nat} {x : ResolvedMember}
    (h : entries[k]? = some x) : before entries (k + 1) = x :: before entries k := by
  rw [before, List.take_add_one, h, Option.toList_some, List.reverse_append]
  rfl

/-- The members before a member are those with a smaller number. -/
theorem mem_before {entries : List ResolvedMember} {k : Nat} {x : ResolvedMember} :
    x ∈ before entries k ↔ ∃ j, j < k ∧ entries[j]? = some x := by
  rw [before, List.mem_reverse, List.mem_iff_getElem?]
  simp only [List.getElem?_take]
  constructor
  · rintro ⟨j, h⟩
    split at h
    · exact ⟨j, ‹_›, h⟩
    · cases h
  · rintro ⟨j, hj, h⟩
    exact ⟨j, by rw [if_pos hj, h]⟩

/-- Members are resolved one by one. -/
theorem resolveFrom_cons {member : Member} {members : List Member}
    {entries : List ResolvedMember}
    (h : resolveFrom earlier (member :: members) = .ok entries) :
    ∃ resolved others, resolveMember earlier member = .ok resolved ∧
      resolveFrom ((member.name, resolved) :: earlier) members = .ok others ∧
      entries = (member.name, resolved) :: others := by
  rw [resolveFrom] at h
  cases hm : resolveMember earlier member with
  | error fault =>
    rw [hm] at h
    cases h
  | ok resolved =>
    rw [hm] at h
    cases hrest : resolveFrom ((member.name, resolved) :: earlier) members with
    | error fault =>
      simp only [Bind.bind, Except.bind, hrest] at h
      cases h
    | ok others =>
      simp only [Bind.bind, Except.bind, hrest] at h
      exact ⟨resolved, others, rfl, hrest, (Except.ok.inj h).symm⟩

/-- Each entry is what its member is resolved to, given the entries before it. -/
theorem resolveFrom_entries {members : List Member} {entries : List ResolvedMember}
    (h : resolveFrom earlier members = .ok entries) :
    entries.map Prod.fst = members.map Member.name ∧
    ∀ k m, members[k]? = some m → ∃ resolved, entries[k]? = some (m.name, resolved) ∧
      resolveMember (before entries k ++ earlier) m = .ok resolved := by
  induction members generalizing earlier entries with
  | nil =>
    obtain rfl : entries = [] := by simpa [resolveFrom] using h.symm
    exact ⟨rfl, by simp⟩
  | cons member members ih =>
    obtain ⟨resolved, others, hm, hrest, rfl⟩ := resolveFrom_cons h
    obtain ⟨hnames, hentries⟩ := ih hrest
    refine ⟨by simp [hnames], ?_⟩
    intro k m hk
    cases k with
    | zero =>
      obtain rfl : member = m := by simpa using hk
      exact ⟨resolved, rfl, hm⟩
    | succ k =>
      obtain ⟨r, hr, hstep⟩ := hentries k m (by simpa using hk)
      refine ⟨r, by simpa using hr, ?_⟩
      simpa [before] using hstep

/-- Resolving members does not fail if their operands can be read. -/
theorem resolveFrom_isOk {members : List Member} (hread : ∀ m ∈ members, m.Readable) :
    ∃ entries, resolveFrom earlier members = .ok entries := by
  induction members generalizing earlier with
  | nil => exact ⟨[], rfl⟩
  | cons member members ih =>
    obtain ⟨resolved, hm⟩ := @resolveMember_isOk earlier _ (hread member List.mem_cons_self)
    obtain ⟨others, hrest⟩ := @ih ((member.name, resolved) :: earlier)
      fun m hmem => hread m (List.mem_cons_of_mem _ hmem)
    refine ⟨(member.name, resolved) :: others, ?_⟩
    rw [resolveFrom, hm]
    simp only [Bind.bind, Except.bind, hrest]
    rfl

section Resolve

variable {e : Enumeration} {entries : List ResolvedMember}

/-- Each member is resolved by the members before it. -/
theorem resolve_entries (h : e.resolve = .ok entries) {k : Nat} {m : Member}
    (hk : e.members[k]? = some m) :
    ∃ resolved, entries[k]? = some (m.name, resolved) ∧
      resolveMember (before entries k) m = .ok resolved := by
  simpa using (resolveFrom_entries h).2 k m hk

/-- Every entry has a member. -/
theorem exists_member (h : e.resolve = .ok entries) {k : Nat} {x : ResolvedMember}
    (hk : entries[k]? = some x) : ∃ m, e.members[k]? = some m := by
  have hlen : entries.length = e.members.length := by
    simpa using congrArg List.length (resolveFrom_entries h).1
  have hlt : k < e.members.length := hlen ▸ (List.getElem?_eq_some_iff.mp hk).1
  exact ⟨_, List.getElem?_eq_getElem hlt⟩

/-- What is known of a member agrees with every consistent assignment. -/
theorem agrees_of_consistent {s : String → Int} (h : e.resolve = .ok entries) (hread : e.Readable)
    (hs : Consistent s e) (k : Nat) (x : ResolvedMember) (hk : entries[k]? = some x) :
    x.2.Agrees s x.1 := by
  -- All entries before the `k`-th agree, and those are what it is made from.
  induction k using Nat.strongRecOn generalizing x with
  | ind k ih =>
    have hbefore : ∀ y ∈ before entries k, y.2.Agrees s y.1 := by
      intro y hy
      obtain ⟨j, hj, hy⟩ := mem_before.mp hy
      exact ih j hj y hy
    obtain ⟨m, hm⟩ := exists_member h hk
    obtain ⟨resolved, hentry, hstep⟩ := resolve_entries h hm
    obtain rfl : (m.name, resolved) = x := Option.some.inj (hentry.symm.trans hk)
    cases hvalue : m.value with
    | some operands =>
      have hmem : m ∈ e.members := List.mem_of_getElem? hm
      rcases resolveMember_explicit hvalue (hread m hmem operands hvalue) with
        ⟨-, value, hcombine, hres⟩ | ⟨-, hres⟩
      · obtain rfl := Except.ok.inj (hres.symm.trans hstep)
        show s m.name = value.toInt
        rw [toInt_combine hbefore hcombine, hs.explicit m hmem operands hvalue]
        rfl
      · obtain rfl := Except.ok.inj (hres.symm.trans hstep)
        trivial
    | none =>
      cases k with
      | zero =>
        obtain rfl := Except.ok.inj ((resolveMember_first hvalue).symm.trans hstep)
        exact hs.first m hm hvalue
      | succ j =>
        have hlt : j < e.members.length := Nat.lt_of_succ_lt (List.getElem?_eq_some_iff.mp hm).1
        have hp := List.getElem?_eq_getElem hlt
        obtain ⟨r, hr, -⟩ := resolve_entries h hp
        rw [before_succ hr] at hstep
        obtain rfl := Except.ok.inj ((resolveMember_later hvalue).symm.trans hstep)
        exact agrees_successor (ih j (Nat.lt_succ_self j) _ hr) (hs.later j _ m hp hm hvalue)

/-- A value is known exactly where it can be found. -/
theorem known_iff_determined (h : e.resolve = .ok entries) (hread : e.Readable) {k : Nat}
    {m : Member} {resolved : Resolved} (hm : e.members[k]? = some m)
    (hk : entries[k]? = some (m.name, resolved)) :
    (∃ value, resolved = .known value) ↔ Determined entries k m := by
  obtain ⟨resolved', hentry, hstep⟩ := resolve_entries h hm
  obtain rfl : resolved' = resolved := by
    simpa using Option.some.inj (hentry.symm.trans hk)
  unfold Determined
  cases hvalue : m.value with
  | some operands =>
    have hmem : m ∈ e.members := List.mem_of_getElem? hm
    have hiff : (∀ operand ∈ operands, HasValue (before entries k) operand) ↔
        ∀ operand ∈ operands, (∃ value, Integer.read operand = .ok (some value)) ∨
          ∃ j value, j < k ∧ entries[j]? = some (operand, .known value) := by
      simp only [HasValue, mem_before]
      grind
    simp only
    rw [← hiff]
    rcases resolveMember_explicit hvalue (hread m hmem operands hvalue) with
      ⟨hall, value, -, hres⟩ | ⟨hnot, hres⟩
    · obtain rfl := Except.ok.inj (hres.symm.trans hstep)
      exact ⟨fun _ => hall, fun _ => ⟨value, rfl⟩⟩
    · obtain rfl := Except.ok.inj (hres.symm.trans hstep)
      exact ⟨by rintro ⟨value, ⟨⟩⟩, fun hall => absurd hall hnot⟩
  | none =>
    cases k with
    | zero =>
      obtain rfl := Except.ok.inj ((resolveMember_first hvalue).symm.trans hstep)
      exact ⟨fun _ => .inl rfl, fun _ => ⟨0, rfl⟩⟩
    | succ j =>
      have hlt : j < e.members.length := Nat.lt_of_succ_lt (List.getElem?_eq_some_iff.mp hm).1
      obtain ⟨r, hr, -⟩ := resolve_entries h (List.getElem?_eq_getElem hlt)
      rw [before_succ hr] at hstep
      obtain rfl := Except.ok.inj ((resolveMember_later hvalue).symm.trans hstep)
      rw [successor_known_iff]
      constructor
      · rintro ⟨value, rfl, hlt⟩
        exact .inr ⟨j, _, value, rfl, hr, hlt⟩
      · rintro (hzero | ⟨i, name, value, hi, hentry, hlt⟩)
        · cases hzero
        · obtain rfl : j = i := Nat.succ.inj hi
          rw [hr] at hentry
          obtain ⟨-, rfl⟩ := Prod.mk.inj (Option.some.inj hentry)
          exact ⟨value, rfl, hlt⟩

/-- What is left as written is an explicit value. -/
theorem explicit_of_verbatim (h : e.resolve = .ok entries) (hread : e.Readable) {k : Nat}
    {m : Member} {text : String} (hm : e.members[k]? = some m)
    (hk : entries[k]? = some (m.name, .verbatim text)) :
    ∃ operands, m.value = some operands ∧ text = joinOperands operands := by
  obtain ⟨resolved, hentry, hstep⟩ := resolve_entries h hm
  obtain rfl : resolved = .verbatim text := by
    simpa using Option.some.inj (hentry.symm.trans hk)
  cases hvalue : m.value with
  | some operands =>
    rcases resolveMember_explicit hvalue (hread m (List.mem_of_getElem? hm) operands hvalue) with
      ⟨-, value, -, hres⟩ | ⟨-, hres⟩
    · cases hres.symm.trans hstep
    · obtain rfl := Resolved.verbatim.inj (Except.ok.inj (hres.symm.trans hstep))
      exact ⟨operands, rfl, rfl⟩
  | none =>
    cases k with
    | zero => cases (resolveMember_first hvalue).symm.trans hstep
    | succ j =>
      have hlt : j < e.members.length := Nat.lt_of_succ_lt (List.getElem?_eq_some_iff.mp hm).1
      obtain ⟨r, hr, -⟩ := resolve_entries h (List.getElem?_eq_getElem hlt)
      rw [before_succ hr] at hstep
      have hsucc := Except.ok.inj ((resolveMember_later hvalue).symm.trans hstep)
      rcases successor_cases e.members[j].name r with ⟨_, _, -, -, h'⟩ | ⟨_, _, _, -, -, h'⟩ |
        ⟨-, h'⟩ <;> cases h'.symm.trans hsucc

end Resolve

/-- If every operand can be read, then resolving gives an entry for each member. What is known of
a member agrees with every consistent assignment, only explicit values are left as written, and
the value of a member is known exactly where it can be found. -/
theorem resolve_sound_and_exact (e : Enumeration) (hread : e.Readable) :
    ∃ entries, e.resolve = .ok entries ∧
      entries.map Prod.fst = e.members.map Member.name ∧
      (∀ s, Consistent s e → ∀ x ∈ entries, x.2.Agrees s x.1) ∧
      ∀ k m resolved, e.members[k]? = some m → entries[k]? = some (m.name, resolved) →
        (∀ text, resolved = .verbatim text →
          ∃ operands, m.value = some operands ∧ text = " | ".intercalate operands) ∧
        ((∃ value, resolved = .known value) ↔ Determined entries k m) := by
  obtain ⟨entries, h⟩ := @resolveFrom_isOk [] e.members hread
  refine ⟨entries, h, (resolveFrom_entries h).1, ?_, ?_⟩
  · intro s hs x hx
    obtain ⟨k, hk⟩ := List.mem_iff_getElem?.mp hx
    exact agrees_of_consistent h hread hs k x hk
  · intro k m resolved hm hk
    refine ⟨?_, known_iff_determined h hread hm hk⟩
    rintro text rfl
    exact explicit_of_verbatim h hread hm hk

/-- Members that go through every kind of value: a mask of a literal and an earlier name, the
greatest integer and what comes after it, and a name that is no member. -/
def mixed : Enumeration where
  name := "Mixed"
  members := [⟨"A", none⟩, ⟨"B", some ["0x10", "A"]⟩, ⟨"C", none⟩,
    ⟨"D", some ["9223372036854775807"]⟩, ⟨"E", none⟩, ⟨"F", none⟩, ⟨"G", some ["OTHER", "C"]⟩,
    ⟨"H", none⟩]

/-- An assignment that is consistent with these members. -/
def mixedAssignment (name : String) : Int :=
  match name with
  | "B" => 16
  | "C" | "G" => 17
  | "D" => 9223372036854775807
  | "E" => 9223372036854775808
  | "F" => 9223372036854775809
  | "H" => 18
  | _ => 0

/-- Members with and without values, one of which counts beyond the greatest integer. -/
theorem resolve_sound_and_exact_mixed :
    mixed.Readable ∧ Consistent mixedAssignment mixed ∧
    ∃ entries, mixed.resolve = .ok entries ∧
      (∀ s, Consistent s mixed → ∀ x ∈ entries, x.2.Agrees s x.1) ∧
      entries = [("A", .known 0), ("B", .known 16), ("C", .known 17),
        ("D", .known 9223372036854775807), ("E", .offset "D" 1), ("F", .offset "D" 2),
        ("G", .verbatim "OTHER | C"), ("H", .offset "G" 1)] ∧
      ¬ Determined entries 4 ⟨"E", none⟩ ∧ Determined entries 1 ⟨"B", some ["0x10", "A"]⟩ := by
  have hread : mixed.Readable := by decide
  have hlater : ∀ k < 7, ∀ p ∈ mixed.members[k]?, ∀ m ∈ mixed.members[k + 1]?, m.value = none →
      mixedAssignment m.name = mixedAssignment p.name + 1 := by decide
  have hexplicit : ∀ m ∈ mixed.members, ∀ operands ∈ m.value,
      mixedAssignment m.name = operandsMeaning mixedAssignment operands := by decide
  have hs : Consistent mixedAssignment mixed := by
    refine ⟨by decide, ?_, hexplicit⟩
    intro k p m hp hm hvalue
    have hlt : k + 1 < 8 := (List.getElem?_eq_some_iff.mp hm).1
    exact hlater k (by omega) p hp m hm hvalue
  have hentries : mixed.resolve = .ok [("A", .known 0), ("B", .known 16), ("C", .known 17),
        ("D", .known 9223372036854775807), ("E", .offset "D" 1), ("F", .offset "D" 2),
        ("G", .verbatim "OTHER | C"), ("H", .offset "G" 1)] := by
    rfl
  obtain ⟨entries, h, -, hsound, hexact⟩ := resolve_sound_and_exact mixed hread
  obtain rfl := Except.ok.inj (hentries.symm.trans h)
  refine ⟨hread, hs, _, h, hsound, rfl, ?_, ?_⟩
  · exact fun hdet => by simpa using (hexact 4 _ _ rfl rfl).2.mpr hdet
  · exact (hexact 1 _ _ rfl rfl).2.mp ⟨16, rfl⟩

end Enumeration

end Midl
