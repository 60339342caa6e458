import Midl.Proofs.Ancestry
import Midl.Proofs.Blocks
import Midl.Proofs.Constants

/-!
# How deep output may be nested

The level of a draft goes up where something in braces begins and comes back down where it ends.
`Script.Nested` says of a script that it goes up and down in this way, and how far up it goes. Such
a script runs from a given level exactly if there is that much room above it (`Nested.perform_ok`,
`Nested.perform_error`), and it never comes down further than it went up (`Nested.staysAbove`).

The script of a declaration goes up as far as the declaration is high, if its operands can be read
and the pointers of its parameters can be counted (`declarationScript_nested`). One level is taken
by the module that holds everything. An interface with a parameter whose pointers cannot be counted
is given up wherever it stands (`generate_of_overfull`).
-/

namespace Midl

namespace Declaration

/-! ## The height of declarations -/

mutual

/-- How many levels of braces there are in a declaration. -/
def height : Declaration → Nat
  | .record _ | .interface _ => 1
  | .group _ _ _ body => heightAll body + 1
  | _ => 0

/-- The height of the highest of some declarations. -/
def heightAll : List Declaration → Nat
  | [] => 0
  | d :: ds => max d.height (heightAll ds)

end

/-- A declaration is no higher than all of them. -/
theorem le_heightAll {ds : List Declaration} {d : Declaration} (h : d ∈ ds) :
    d.height ≤ heightAll ds := by
  induction ds with
  | nil => cases h
  | cons e ds ih =>
    rw [heightAll]
    rcases List.mem_cons.mp h with rfl | h
    · exact Nat.le_max_left ..
    · exact Nat.le_trans (ih h) (Nat.le_max_right ..)

/-- Declarations are as high as one of them. -/
theorem lt_heightAll_iff {ds : List Declaration} {n : Nat} :
    n < heightAll ds ↔ ∃ d ∈ ds, n < d.height := by
  refine ⟨fun h => ?_, fun ⟨d, hd, h⟩ => Nat.lt_of_lt_of_le h (le_heightAll hd)⟩
  induction ds with
  | nil => cases h
  | cons e ds ih =>
    rw [heightAll] at h
    by_cases he : n < e.height
    · exact ⟨e, List.mem_cons_self, he⟩
    · obtain ⟨d, hd, h⟩ := ih (by omega)
      exact ⟨d, List.mem_cons_of_mem _ hd, h⟩

mutual

/-- What stands deeper inside a declaration is lower by as much. -/
theorem height_of_mem_outline {level depth : Nat} {d e : Declaration}
    (h : (level, e) ∈ d.outline depth) : level + e.height ≤ depth + d.height := by
  cases d with
  | group kind name attributes body =>
    rw [outline] at h
    rcases List.mem_cons.mp h with h | h
    · obtain ⟨rfl, rfl⟩ := Prod.mk.inj h
      exact Nat.le_refl _
    · have hbody := height_of_mem_outlineAll h
      rw [height]
      omega
  | _ =>
    obtain ⟨rfl, rfl⟩ := Prod.mk.inj (List.mem_singleton.mp h)
    exact Nat.le_refl _

/-- What stands deeper is less high. -/
theorem height_of_mem_outlineAll {level depth : Nat} {ds : List Declaration} {e : Declaration}
    (h : (level, e) ∈ outlineAll depth ds) : level + e.height ≤ depth + heightAll ds := by
  cases ds with
  | nil => cases h
  | cons d ds =>
    rw [outlineAll] at h
    rw [heightAll]
    rcases List.mem_append.mp h with h | h
    · have := height_of_mem_outline h
      omega
    · have := height_of_mem_outlineAll h
      omega

end

/-- No operand in a declaration makes reading it fail. What a library or module holds counts by
itself. -/
def Readable : Declaration → Prop
  | .enumeration e => e.Readable
  | .constant c => ∀ operands, c.value = .operands operands → ∀ operand ∈ operands,
      ∃ value?, Integer.read operand = .ok value?
  | _ => True

end Declaration

/-- A parameter whose pointers cannot be counted: an array of what has the greatest number of
pointers already. -/
def Variable.Overfull (v : Variable) : Prop := v.isArray = true ∧ Output.maxDepth ≤ v.indirection

/-- An interface with a method that has such a parameter. -/
def Interface.Overfull (i : Interface) : Prop := ∃ m ∈ i.methods, ∃ v ∈ m.params, v.Overfull

/-- Nothing in a declaration makes writing it fail: its operands can be read, and the pointers of
the parameters in its table can be counted. What a library or module holds counts by itself. -/
def Declaration.Writable (root : List Declaration) (d : Declaration) : Prop :=
  d.Readable ∧ ∀ i, d = .interface i →
    ∀ m ∈ (i.dispatchTable root).methods, ∀ v ∈ m.params, ¬v.Overfull

/-- Declarations can be written if their operands can be read and no interface is overfull, as a
table has no slots but those of declared interfaces. -/
theorem Declaration.writable_of_readable {ds : List Declaration}
    (hread : ∀ d ∈ preorder ds, d.Readable) (hfull : ∀ i ∈ interfaces ds, ¬i.Overfull) :
    ∀ d ∈ preorder ds, d.Writable ds := by
  intro d hd
  refine ⟨hread d hd, ?_⟩
  rintro i rfl m hm v hv hover
  have hi : i ∈ interfaces ds := List.mem_filterMap.mpr ⟨_, hd, rfl⟩
  obtain ⟨a, ha, hma⟩ := List.mem_flatMap.mp hm
  have hdeclared := Interface.mem_interfaces_of_mem_chain hi (List.mem_reverse.mp ha)
  exact hfull a hdeclared ⟨m, hma, v, hv, hover⟩

namespace Output

open Declaration

/-! ## Scripts that come back -/

/-- An operation that leaves the level alone and cannot fail. -/
def Operation.isPlain : Operation → Bool
  | blank | line _ | note _ | report _ => true
  | raise | lower | fail _ => false

namespace Script

/-- A script that comes back to the level it starts from, and goes that many levels up in between.
It never gives up by itself. -/
inductive Nested : Nat → Script → Prop
  | nil : Nested 0 []
  | plain {operation : Operation} (h : operation.isPlain = true) : Nested 0 [operation]
  | append {m n : Nat} {script later : Script} (h : Nested m script) (h' : Nested n later) :
      Nested (max m n) (script ++ later)
  | raised {n : Nat} {script : Script} (h : Nested n script) :
      Nested (n + 1) (.raise :: (script ++ [.lower]))

namespace Nested

variable {m n : Nat} {script later : Script}

/-- A plain operation in front does not go up. -/
theorem cons {operation : Operation} (hplain : operation.isPlain = true) (h : Nested n script) :
    Nested n (operation :: script) := by
  have hcons := (Nested.plain hplain).append h
  rwa [Nat.zero_max] at hcons

/-- What does not go up may stand before the rest. -/
theorem after (h : Nested 0 script) (h' : Nested n later) : Nested n (script ++ later) := by
  have happend := h.append h'
  rwa [Nat.zero_max] at happend

/-- What does not go up may stand after the rest. -/
theorem before (h : Nested n script) (h' : Nested 0 later) : Nested n (script ++ later) := by
  have happend := h.append h'
  rwa [Nat.max_zero] at happend

/-- Lines do not go up. -/
theorem lines (texts : List String) : Nested 0 (texts.map .line) := by
  induction texts with
  | nil => exact .nil
  | cons text texts ih => exact ih.cons rfl

/-- Braces go up by one. -/
theorem braced (head : String) (h : Nested n script) : Nested (n + 1) (braced head script) := by
  have hraised : Nested (n + 1) ((.raise :: (script ++ [.lower])) ++ [.line "\x7d"]) :=
    h.raised.before (.plain rfl)
  have hhead : (Operation.line (head ++ " \x7b")).isPlain = true := rfl
  simpa [Script.braced] using hraised.cons hhead

/-- A result that is there does not go up. -/
theorem attempt {α : Type} {result : Except Fault α} {next : α → Script} {a : α}
    (hresult : result = .ok a) (h : Nested n (next a)) : Nested n (Script.attempt result next) := by
  rw [hresult]
  exact h

end Nested

/-! ## Running them -/

/-- Performed on a draft, a script lowers the level only from above `floor`. -/
def StaysAbove (floor : Nat) : Script → Draft → Prop
  | [], _ => True
  | operation :: script, d =>
    (operation = .lower → floor < d.level) ∧
      ∀ d', operation.perform d = .ok () d' → StaysAbove floor script d'

/-- What stays above a level stays above a lower one. -/
theorem StaysAbove.mono {floor floor' : Nat} (hle : floor' ≤ floor) {script : Script} {d : Draft}
    (h : script.StaysAbove floor d) : script.StaysAbove floor' d := by
  induction script generalizing d with
  | nil => trivial
  | cons operation script ih =>
    exact ⟨fun hlower => Nat.lt_of_le_of_lt hle (h.1 hlower), fun d' hrun => ih (h.2 d' hrun)⟩

/-- A script stays above a level if both of its parts do. -/
theorem StaysAbove.append {floor : Nat} {script later : Script} {d : Draft}
    (h : script.StaysAbove floor d)
    (h' : ∀ d', script.perform d = .ok () d' → later.StaysAbove floor d') :
    (script ++ later).StaysAbove floor d := by
  induction script generalizing d with
  | nil => exact h' d rfl
  | cons operation script ih =>
    refine ⟨h.1, fun d₁ hrun => ih (h.2 d₁ hrun) fun d' hrest => h' d' ?_⟩
    rw [perform_cons_of_ok hrun, hrest]

/-- A plain operation appends. -/
theorem perform_of_isPlain {operation : Operation} (h : operation.isPlain = true) (d : Draft) :
    ∃ x, operation.perform d = .ok () (d.add x) := by
  cases operation with
  | blank => exact ⟨_, Drafting.Writes.blank d rfl⟩
  | line text => exact ⟨_, Drafting.Writes.line text d rfl⟩
  | note event => exact ⟨_, Drafting.Writes.note event d rfl⟩
  | report diagnostic => exact ⟨_, Drafting.Writes.report diagnostic d rfl⟩
  | raise => cases h
  | lower => cases h
  | fail fault => cases h

namespace Nested

variable {n : Nat} {script : Script} {d : Draft}

/-- With enough room above, a script only appends. -/
theorem perform_ok (h : Nested n script) (hroom : d.level + n ≤ maxLevel) :
    ∃ x, script.perform d = .ok () (d.add x) := by
  induction h generalizing d with
  | nil => exact ⟨{}, by rw [Draft.add_empty]; rfl⟩
  | plain hplain =>
    obtain ⟨x, hx⟩ := perform_of_isPlain hplain d
    exact ⟨x, perform_cons_of_ok hx⟩
  | @append m n script later _ _ ih ih' =>
    obtain ⟨x, hx⟩ := ih (d := d) (by omega)
    obtain ⟨y, hy⟩ := ih' (d := d.add x) (by rw [Draft.add_level]; omega)
    exact ⟨x ++ y, by rw [perform_append_of_ok hx, hy, Draft.add_add]⟩
  | @raised n script _ ih =>
    have hraise : Operation.raise.perform d = .ok () { d with level := d.level + 1 } :=
      if_pos (by omega)
    obtain ⟨x, hx⟩ := ih (d := { d with level := d.level + 1 })
      (by show d.level + 1 + n ≤ _; omega)
    refine ⟨x, ?_⟩
    rw [perform_cons_of_ok hraise, perform_append_of_ok hx]
    rfl

/-- Without enough room above, a script is given up because of that. -/
theorem perform_error (h : Nested n script) (hlevel : d.level ≤ maxLevel)
    (hroom : maxLevel < d.level + n) : ∃ d', script.perform d = .error .indentation d' := by
  induction h generalizing d with
  | nil => omega
  | plain hplain => omega
  | @append m n script later h _ ih ih' =>
    by_cases hfirst : maxLevel < d.level + m
    · obtain ⟨d', hrun⟩ := ih hlevel hfirst
      exact ⟨d', perform_append_of_error hrun⟩
    · obtain ⟨x, hx⟩ := h.perform_ok (Nat.not_lt.mp hfirst)
      rw [perform_append_of_ok hx]
      exact ih' hlevel (by rw [Draft.add_level]; omega)
  | @raised n script _ ih =>
    by_cases hfull : d.level < maxLevel
    · have hraise : Operation.raise.perform d = .ok () { d with level := d.level + 1 } :=
        if_pos hfull
      obtain ⟨d', hrun⟩ := ih (d := { d with level := d.level + 1 }) hfull
        (by show _ < d.level + 1 + n; omega)
      exact ⟨d', by rw [perform_cons_of_ok hraise, perform_append_of_error hrun]⟩
    · exact ⟨d, perform_cons_of_error (if_neg hfull)⟩

/-- A script never comes down below the level it starts from. -/
theorem staysAbove (h : Nested n script) (hroom : d.level + n ≤ maxLevel) :
    script.StaysAbove d.level d := by
  induction h generalizing d with
  | nil => trivial
  | plain hplain =>
    refine ⟨?_, fun _ _ => trivial⟩
    rintro rfl
    cases hplain
  | @append m n script later h _ ih ih' =>
    refine (ih (by omega)).append fun d' hrun => ?_
    obtain ⟨x, hx⟩ := h.perform_ok (d := d) (by omega)
    obtain rfl := (EStateM.Result.ok.inj (hx.symm.trans hrun)).2
    exact ih' (d := d.add x) (by rw [Draft.add_level]; omega)
  | @raised n script h ih =>
    have hraise : Operation.raise.perform d = .ok () { d with level := d.level + 1 } :=
      if_pos (by omega)
    have hroom' : d.level + 1 + n ≤ maxLevel := by omega
    refine ⟨nofun, fun d' hrun => ?_⟩
    obtain rfl := (EStateM.Result.ok.inj (hraise.symm.trans hrun)).2
    have habove : script.StaysAbove d.level { d with level := d.level + 1 } :=
      StaysAbove.mono (Nat.le_succ _) (ih (d := { d with level := d.level + 1 }) hroom')
    refine habove.append fun d' hrun => ⟨fun _ => ?_, fun _ _ => trivial⟩
    obtain ⟨x, hx⟩ := h.perform_ok (d := { d with level := d.level + 1 }) hroom'
    obtain rfl := (EStateM.Result.ok.inj (hx.symm.trans hrun)).2
    exact Nat.lt_succ_self _

end Nested

end Script

/-! ## The scripts of declarations -/

open Script

/-- Comments do not go up. -/
theorem docsScript_nested (attributes : List Attribute) : Nested 0 (docsScript attributes) := by
  unfold docsScript
  split
  · exact .nil
  · exact .lines _

/-- Neither does recording an event. -/
theorem emittedScript_nested (d : Declaration) : Nested 0 (emittedScript d) := by
  unfold emittedScript
  split
  · exact .plain rfl
  · exact .nil

/-- A struct goes up by one. -/
theorem recordScript_nested (r : Record) : Nested 1 (recordScript r) :=
  ((docsScript_nested _).after ((Nested.braced _ (.lines _)).cons rfl)).cons rfl

/-- A value that can be read has a text or is known to have none. -/
theorem memberText_isOk (skipped : List String) {m : Member} (hread : m.Readable)
    (resolved : Resolved) : ∃ text?, memberText skipped m.value resolved = .ok text? := by
  have hjoined : ∀ operands, m.value = some operands →
      ∃ text?, memberText.joined skipped operands = .ok text? := by
    intro operands hvalue
    obtain ⟨texts?, htexts⟩ := memberOperands_isOk skipped (hread operands hvalue)
    exact ⟨texts?.map joinOperands, by rw [memberText.joined, htexts]; rfl⟩
  unfold memberText
  split
  · exact ⟨_, rfl⟩
  · exact ⟨_, rfl⟩
  · exact ⟨_, rfl⟩
  · split
    · exact hjoined _ ‹_›
    · exact ⟨_, rfl⟩
  · exact hjoined _ ‹_›

/-- The constants of an enumeration do not go up, if their operands can be read. -/
theorem memberScript_nested (enumName : String) (skipped : List String)
    {members : List (Member × Resolved)} (hread : ∀ entry ∈ members, entry.1.Readable) :
    Nested 0 (memberScript enumName skipped members) := by
  induction members generalizing skipped with
  | nil => exact .nil
  | cons entry members ih =>
    obtain ⟨text?, htext⟩ := memberText_isOk skipped (hread entry List.mem_cons_self) entry.2
    have hothers := fun skipped => ih skipped fun e he => hread e (List.mem_cons_of_mem _ he)
    refine Nested.attempt htext ?_
    cases text? with
    | some value => exact (hothers _).cons rfl
    | none => exact (hothers _).cons rfl

/-- Neither does an enumeration. -/
theorem enumerationScript_nested {e : Enumeration} (hread : e.Readable) :
    Nested 0 (enumerationScript e) := by
  obtain ⟨resolved, hresolved⟩ := @Enumeration.resolveFrom_isOk [] e.members hread
  have hmembers : Nested 0
      (memberScript e.name [] (e.members.zip (resolved.map Prod.snd))) :=
    memberScript_nested _ _ fun entry hentry => hread _ (List.of_mem_zip hentry).1
  have hrest : Nested 0 (Script.attempt e.resolve fun resolved =>
      memberScript e.name [] (e.members.zip (resolved.map Prod.snd))) :=
    .attempt hresolved hmembers
  exact ((docsScript_nested _).after (hrest.cons rfl)).cons rfl

/-- Neither does a further name for a type. -/
theorem typedefScript_nested (t : Typedef) : Nested 0 (typedefScript t) := by
  unfold typedefScript
  split
  · exact .plain rfl
  · exact ((docsScript_nested _).after (.plain rfl)).cons rfl

/-- Parameters are written if the pointers of all of them can be counted, and given up because of
that otherwise. -/
theorem mapM_parameterText_cases (params : List Variable) :
    ((∀ v ∈ params, ¬v.Overfull) ∧ ∃ texts, params.mapM parameterText = .ok texts) ∨
    ((∃ v ∈ params, v.Overfull) ∧ params.mapM parameterText = .error .indirection) := by
  induction params with
  | nil => exact .inl ⟨nofun, [], rfl⟩
  | cons v params ih =>
    rw [List.mapM_cons]
    by_cases hover : v.Overfull
    · have hfirst : parameterText v = .error .indirection := by
        unfold Variable.Overfull at hover
        rw [parameterText, parameterDepth, if_pos hover]
        rfl
      exact .inr ⟨⟨v, List.mem_cons_self, hover⟩, by rw [hfirst]; rfl⟩
    · have hfirst : ∃ text, parameterText v = .ok text := by
        unfold Variable.Overfull at hover
        rw [parameterText, parameterDepth, if_neg hover]
        exact ⟨_, rfl⟩
      obtain ⟨text, hfirst⟩ := hfirst
      rw [hfirst]
      rcases ih with ⟨hothers, texts, htexts⟩ | ⟨⟨w, hw, hwover⟩, hfault⟩
      · exact .inl ⟨List.forall_mem_cons.mpr ⟨hover, hothers⟩, text :: texts, by rw [htexts]; rfl⟩
      · exact .inr ⟨⟨w, List.mem_cons_of_mem _ hw, hwover⟩, by rw [hfault]; rfl⟩

/-- So are slots. -/
theorem slotText_cases (object : String) (m : Method) :
    ((∀ v ∈ m.params, ¬v.Overfull) ∧ ∃ text, slotText object m = .ok text) ∨
    ((∃ v ∈ m.params, v.Overfull) ∧ slotText object m = .error .indirection) := by
  rw [slotText]
  rcases mapM_parameterText_cases m.params with ⟨hcount, texts, htexts⟩ | ⟨hover, hfault⟩
  · exact .inl ⟨hcount, by rw [htexts]; exact ⟨_, rfl⟩⟩
  · exact .inr ⟨hover, by rw [hfault]; rfl⟩

/-- Slots whose parameters can be counted are written without going up. -/
theorem slotsScript_nested (object : String) {methods : List Method}
    (hcount : ∀ m ∈ methods, ∀ v ∈ m.params, ¬v.Overfull) :
    Nested 0 (slotsScript object methods) := by
  induction methods with
  | nil => exact .nil
  | cons m methods ih =>
    rcases slotText_cases object m with ⟨-, text, htext⟩ | ⟨⟨v, hv, hover⟩, -⟩
    · exact .attempt htext ((ih fun n hn => hcount n (List.mem_cons_of_mem _ hn)).cons rfl)
    · exact absurd hover (hcount m List.mem_cons_self v hv)

/-- Slots are given up if a parameter cannot be counted. -/
theorem fail_mem_slotsScript (object : String) {methods : List Method}
    (hover : ∃ m ∈ methods, ∃ v ∈ m.params, v.Overfull) :
    Operation.fail .indirection ∈ slotsScript object methods := by
  induction methods with
  | nil =>
    obtain ⟨m, hm, -⟩ := hover
    cases hm
  | cons m methods ih =>
    rw [slotsScript]
    rcases slotText_cases object m with ⟨hcount, text, htext⟩ | ⟨-, hfault⟩
    · rw [htext]
      refine List.mem_cons_of_mem _ (ih ?_)
      obtain ⟨n, hn, v, hv, hfull⟩ := hover
      rcases List.mem_cons.mp hn with rfl | hn
      · exact absurd hfull (hcount v hv)
      · exact ⟨n, hn, v, hv, hfull⟩
    · rw [hfault]
      exact List.mem_singleton_self _

/-- An interface whose slots can be written goes up one level. -/
theorem interfaceScript_nested (root : List Declaration) {i : Interface}
    (hcount : ∀ m ∈ (i.dispatchTable root).methods, ∀ v ∈ m.params, ¬v.Overfull) :
    Nested 1 (interfaceScript root i) := by
  have hid : Nested 0 (idScript i.attributes) := by
    unfold idScript
    split
    · exact .nil
    · exact .plain rfl
  have hpointer : Nested 1 (Script.braced ("pub struct " ++ identifier i.name)
      [.line ("pub vtbl: *const " ++ tableName i.name ++ ",")]) := .braced _ (.plain rfl)
  have hbase : Nested 0 ((i.dispatchTable root).base.toList.map fun base =>
      Operation.line ("pub base: " ++ tableName base ++ ",")) := by
    cases (i.dispatchTable root).base with
    | none => exact .nil
    | some base => exact .plain rfl
  have htable : Nested 1 (Script.braced ("pub struct " ++ tableName i.name)
      (tableScript i.name (i.dispatchTable root))) :=
    .braced _ (hbase.after (slotsScript_nested i.name hcount))
  have hbody : Nested 1 (interfaceBody i.name (i.dispatchTable root)) :=
    (hpointer.cons rfl).append ((htable.cons rfl).cons rfl)
  exact ((docsScript_nested _).after (hid.after hbody)).cons rfl

/-- Operands that can be read have a text. -/
theorem mapM_constantOperand_isOk {operands : List String}
    (h : ∀ operand ∈ operands, ∃ value?, Integer.read operand = .ok value?) :
    ∃ texts, operands.mapM constantOperand = .ok texts := by
  induction operands with
  | nil => exact ⟨[], rfl⟩
  | cons operand operands ih =>
    obtain ⟨value?, hread⟩ := h operand List.mem_cons_self
    obtain ⟨texts, htexts⟩ := ih fun o ho => h o (List.mem_cons_of_mem _ ho)
    have htext : ∃ text, constantOperand operand = .ok text := by
      rw [constantOperand, hread]
      cases value? with
      | none => exact ⟨_, rfl⟩
      | some value => exact ⟨_, rfl⟩
    obtain ⟨text, htext⟩ := htext
    exact ⟨text :: texts, by rw [List.mapM_cons, htext, htexts]; rfl⟩

/-- Neither does a constant. -/
theorem constantScript_nested {c : Constant} (hread : (Declaration.constant c).Readable) :
    Nested 0 (constantScript c) := by
  unfold constantScript
  refine Nested.cons rfl ?_
  cases hvalue : c.value with
  | text value => exact .plain rfl
  | operands operands =>
    obtain ⟨texts, htexts⟩ := mapM_constantOperand_isOk (hread operands hvalue)
    exact Nested.attempt htexts (.plain rfl)

/-- Neither does a directive. -/
theorem directiveScript_nested (kind : DirectiveKind) (text : String) :
    Nested 0 (directiveScript kind text) :=
  (Nested.lines _).cons rfl

mutual

/-- The script of a declaration goes as far up as the declaration is high. -/
theorem declarationScript_nested (root : List Declaration) {d : Declaration}
    (hwrite : ∀ e ∈ d.parts, e.Writable root) : Nested d.height (declarationScript root d) := by
  cases d with
  | imports files => exact .plain rfl
  | importLibrary file => exact .plain rfl
  | coclass c => exact .plain rfl
  | directive kind text => exact directiveScript_nested kind text
  | record r => exact (recordScript_nested r).before (emittedScript_nested _)
  | enumeration e =>
    have he : e.Readable := (hwrite (.enumeration e) (by simp [parts, outline])).1
    exact (enumerationScript_nested he).before (emittedScript_nested _)
  | typedef t => exact (typedefScript_nested t).before (emittedScript_nested _)
  | interface i =>
    have hi := (hwrite (.interface i) (by simp [parts, outline])).2 i rfl
    exact (interfaceScript_nested root hi).before (emittedScript_nested _)
  | constant c =>
    have hc : (Declaration.constant c).Readable := (hwrite _ (by simp [parts, outline])).1
    exact (constantScript_nested hc).before (emittedScript_nested _)
  | group kind name attributes body =>
    have hbody : Nested (heightAll body) (declarationsScript root body) :=
      declarationsScript_nested root fun e he => hwrite e (by simp [he])
    have hbraced : Nested (heightAll body + 1) (Script.braced ("pub mod " ++ identifier name)
        (.line "use super::*;" :: declarationsScript root body)) := .braced _ (hbody.cons rfl)
    exact ((docsScript_nested _).after (hbraced.before (emittedScript_nested _))).cons rfl

/-- The script of declarations goes as far up as the highest of them. -/
theorem declarationsScript_nested (root : List Declaration) {ds : List Declaration}
    (hwrite : ∀ e ∈ preorder ds, e.Writable root) :
    Nested (heightAll ds) (declarationsScript root ds) := by
  cases ds with
  | nil => exact .nil
  | cons d ds =>
    have hfirst : Nested d.height (declarationScript root d) :=
      declarationScript_nested root fun e he => hwrite e (by simp [he])
    have hothers : Nested (heightAll ds) (declarationsScript root ds) :=
      declarationsScript_nested root fun e he => hwrite e (by simp [he])
    exact hfirst.append hothers

end

/-- The script of the program goes one level further up, for the module that holds everything. -/
theorem programScript_nested (packageName typesPath : String) {ds : List Declaration}
    (hwrite : ∀ e ∈ preorder ds, e.Writable ds) :
    Nested (heightAll ds + 1) (programScript packageName typesPath ds) :=
  .braced _ (((((declarationsScript_nested ds hwrite).cons rfl).cons rfl).cons rfl).cons rfl)

/-! ## Scripts that give up -/

/-- A script in which something is given up does not come to its end. -/
theorem Script.exists_error_of_fail_mem {script : Script} {fault : Fault}
    (h : Operation.fail fault ∈ script) (level : Nat) :
    ∃ fault', script.run level = .error fault' := by
  cases hrun : script.run level with
  | error fault' => exact ⟨fault', rfl⟩
  | ok result =>
    obtain ⟨level', x⟩ := result
    have hpart : [Operation.fail fault] <:+: script := by
      obtain ⟨before, after, rfl⟩ := List.append_of_mem h
      exact ⟨before, after, by simp⟩
    obtain ⟨_, _, _, hfail, -⟩ := Script.run_part hpart hrun
    cases hfail

/-- The script of an overfull interface has something that is given up. -/
theorem fail_mem_interfaceScript (root : List Declaration) {i : Interface} (h : i.Overfull) :
    Operation.fail .indirection ∈ interfaceScript root i := by
  obtain ⟨m, hm, hover⟩ := h
  have hslot : m ∈ (i.dispatchTable root).methods :=
    List.mem_flatMap.mpr ⟨i, List.mem_reverse.mpr (Interface.mem_chain_self ..), hm⟩
  have hfail := fail_mem_slotsScript i.name ⟨m, hslot, hover⟩
  simp [interfaceScript, interfaceBody, tableScript, Script.braced, hfail]

/-- An overfull interface is given up wherever it stands, unless something else was before. -/
theorem generate_of_overfull {ds : List Declaration} {i : Interface} (hi : i ∈ interfaces ds)
    (h : i.Overfull) (settings : Settings) : ∃ fault, generate settings ds = .error fault := by
  obtain ⟨d, hd, hdi⟩ := List.mem_filterMap.mp hi
  cases d with
  | interface j =>
    obtain rfl : j = i := Option.some.inj hdi
    have hin : interfaceScript ds j <:+: declarationScript ds (.interface j) :=
      (List.prefix_append _ _).isInfix
    have hfail := ((hin.trans (script_of_mem_preorder ds hd)).trans
      (declarationsScript_within settings.packageName settings.typesPath ds)).subset
      (fail_mem_interfaceScript ds h)
    obtain ⟨fault, hfault⟩ := Script.exists_error_of_fail_mem hfail 0
    have hne : ds ≠ [] := by
      rintro rfl
      cases hd
    exact ⟨fault, by rw [generate_eq_run settings hne, hfault]; rfl⟩
  | _ => cases hdi

/-! ## Generating output -/

/-- Work that only appends to a draft and leaves its level as it found it. On the way, the level is
never lowered where it is zero already. -/
structure ComesBack (work : Drafting Unit) (d : Draft) : Prop where
  appends : ∃ x, work d = .ok () (d.add x)
  above : ∃ script : Script, work = script.perform ∧ script.StaysAbove 0 d

/-- Work that does not go up too far appends and comes back. -/
theorem Script.Nested.comesBack {n : Nat} {script : Script} {work : Drafting Unit} {d : Draft}
    (h : Nested n script) (hwork : work = script.perform) (hroom : d.level + n ≤ maxLevel) :
    ComesBack work d where
  appends := hwork ▸ h.perform_ok hroom
  above := ⟨script, hwork, (h.staysAbove hroom).mono (Nat.zero_le _)⟩

/-- Output is given up exactly if some declaration has 255 levels of braces, or some interface a
parameter whose pointers cannot be counted; if all can, then for want of a level. Otherwise there is
output. Every declaration then appends to the draft and comes back to the level it stands at, which
is one more than the number of libraries and modules around it, and so does the program as a whole,
which starts from zero. -/
theorem fault_iff_height_or_overfull {ds : List Declaration} (hne : ds ≠ [])
    (hread : ∀ d ∈ preorder ds, d.Readable) (settings : Settings) :
    ((∃ fault, generate settings ds = .error fault) ↔
      (∃ d ∈ ds, 255 ≤ d.height) ∨ ∃ i ∈ interfaces ds, i.Overfull) ∧
    ((∀ i ∈ interfaces ds, ¬i.Overfull) →
      (generate settings ds = .error .indentation ↔ ∃ d ∈ ds, 255 ≤ d.height)) ∧
    ((∀ d ∈ ds, d.height < 255) → (∀ i ∈ interfaces ds, ¬i.Overfull) →
      (∃ g, generate settings ds = .ok g) ∧
      (∀ draft, (Session.generate ⟨settings, draft⟩ ds).2.draft.level = 0) ∧
      (∀ level d, (level, d) ∈ outlineAll 1 ds → ∀ draft : Draft, draft.level = level →
        ComesBack (declaration ds d) draft) ∧
      ComesBack (program settings.packageName settings.typesPath ds) settings.opened) := by
  have hprogram := fun hfull => programScript_nested settings.packageName settings.typesPath
    (writable_of_readable hread hfull)
  have hlow : (∀ d ∈ ds, d.height < 255) → heightAll ds < 255 := by
    intro h
    refine Nat.not_le.mp fun hle => ?_
    obtain ⟨d, hd, hheight⟩ := lt_heightAll_iff.mp hle
    exact absurd (h d hd) (Nat.not_lt.mpr hheight)
  have hreturns : (∀ i ∈ interfaces ds, ¬i.Overfull) → heightAll ds < 255 →
      ComesBack (program settings.packageName settings.typesPath ds) settings.opened :=
    fun hfull h => (hprogram hfull).comesBack (program_eq ..)
      (by show 0 + (heightAll ds + 1) ≤ 255; omega)
  have hok : (∀ i ∈ interfaces ds, ¬i.Overfull) → heightAll ds < 255 →
      ∃ g, generate settings ds = .ok g := by
    intro hfull h
    obtain ⟨x, hx⟩ := (hreturns hfull h).appends
    rw [program_eq] at hx
    exact ⟨_, generate_of_ok hne hx⟩
  have htall : (∀ i ∈ interfaces ds, ¬i.Overfull) → (∃ d ∈ ds, 255 ≤ d.height) →
      generate settings ds = .error .indentation := by
    rintro hfull ⟨d, hd, hheight⟩
    have hroom := Nat.le_trans hheight (le_heightAll hd)
    obtain ⟨d', hrun⟩ := @Script.Nested.perform_error _ _ settings.opened (hprogram hfull)
      (Nat.zero_le _) (by show 255 < 0 + (heightAll ds + 1); omega)
    exact generate_of_error hne hrun
  -- Output that is given up although everything can be counted stands too high.
  have hhigh : (∀ i ∈ interfaces ds, ¬i.Overfull) →
      ∀ fault, generate settings ds = .error fault → ∃ d ∈ ds, 255 ≤ d.height := by
    intro hfull fault hfault
    refine lt_heightAll_iff.mp (Nat.not_lt.mp fun h => ?_)
    obtain ⟨g, hg⟩ := hok hfull h
    rw [hg] at hfault
    cases hfault
  refine ⟨⟨?_, ?_⟩, fun hfull => ⟨hhigh hfull _, htall hfull⟩,
    fun h hfull => ⟨hok hfull (hlow h), ?_, ?_, hreturns hfull (hlow h)⟩⟩
  · rintro ⟨fault, hfault⟩
    by_cases hover : ∃ i ∈ interfaces ds, i.Overfull
    · exact .inr hover
    · exact .inl (hhigh (fun i hi hi' => hover ⟨i, hi, hi'⟩) fault hfault)
  · rintro (hheight | ⟨i, hi, hover⟩)
    · by_cases hover : ∃ i ∈ interfaces ds, i.Overfull
      · obtain ⟨i, hi, hover⟩ := hover
        exact generate_of_overfull hi hover settings
      · exact ⟨.indentation, htall (fun i hi hi' => hover ⟨i, hi, hi'⟩) hheight⟩
    · exact generate_of_overfull hi hover settings
  · intro draft
    obtain ⟨x, hx⟩ := (hreturns hfull (hlow h)).appends
    rw [@Session.generate_of_ok ⟨settings, draft⟩ ds _ hne hx]
    rfl
  · intro level d hmem draft hlevel
    have hwrite : ∀ e ∈ d.parts, e.Writable ds := fun e he =>
      writable_of_readable hread hfull e
        (parts_subset_preorder (mem_preorder_of_mem_outlineAll hmem) he)
    have hheight := height_of_mem_outlineAll hmem
    have hroom := hlow h
    exact (declarationScript_nested ds hwrite).comesBack (declaration_eq ds d)
      (by show draft.level + d.height ≤ 255; omega)

namespace Skyline

/-- A struct inside a number of modules. -/
def tower : Nat → Declaration
  | 0 => .record { name := "Basement", fields := [{ typeName := "long", name := "depth" }] }
  | floors + 1 => .group .module "Floor" [] [tower floors]

/-- A tower, and operands that are a literal, a name and a text with two dashes. -/
def skyline (floors : Nat) : List Declaration :=
  [tower floors, .enumeration { name := "Sky", members := [⟨"Blue", some ["0x10", "--7"]⟩] },
    .group .library "Ground" [] [.constant ⟨"Zero", "long", .operands ["Blue"]⟩]]

/-- A tower is higher by one than it has floors. -/
theorem height_tower (floors : Nat) : (tower floors).height = floors + 1 := by
  induction floors with
  | zero => rfl
  | succ floors ih => simp [tower, height, heightAll, ih]

/-- There are no operands in a tower. -/
theorem readable_tower (floors : Nat) : ∀ d ∈ (tower floors).parts, d.Readable := by
  induction floors with
  | zero => simp [tower, parts, outline, Declaration.Readable]
  | succ floors ih => simpa [tower, Declaration.Readable] using ih

/-- The operands beside a tower can be read. -/
theorem readable_skyline (floors : Nat) : ∀ d ∈ preorder (skyline floors), d.Readable := by
  have hsky : Enumeration.Readable
      { name := "Sky", members := [⟨"Blue", some ["0x10", "--7"]⟩] } := by
    decide
  have hzero : (Declaration.constant ⟨"Zero", "long", .operands ["Blue"]⟩).Readable := by
    intro operands hvalue operand hoperand
    obtain rfl := ConstantValue.operands.inj hvalue
    obtain rfl := List.mem_singleton.mp hoperand
    exact ⟨none, by decide⟩
  intro d hd
  simp only [skyline, preorder_cons, parts_group, List.mem_append] at hd
  rcases hd with hd | hd | hd | hd
  · exact readable_tower floors d hd
  · obtain rfl := List.mem_singleton.mp hd
    exact hsky
  · obtain rfl | rfl : d = _ ∨ d = _ := by simpa [parts, outline] using hd
    · trivial
    · exact hzero
  · cases hd

/-- A skyline is no higher than its tower. -/
theorem height_skyline {floors : Nat} (h : floors < 254) :
    ∀ d ∈ skyline floors, d.height < 255 := by
  intro d hd
  simp only [skyline, List.mem_cons, List.not_mem_nil, or_false] at hd
  rcases hd with rfl | rfl | rfl
  · rw [height_tower]
    omega
  · decide
  · decide

/-- There are no interfaces in it. -/
theorem interfaces_tower (floors : Nat) : (tower floors).parts.filterMap interface? = [] := by
  induction floors with
  | zero => rfl
  | succ floors ih => simpa [tower, interface?] using ih

@[inherit_doc interfaces_tower]
theorem interfaces_skyline (floors : Nat) : interfaces (skyline floors) = [] := by
  rw [interfaces, skyline, preorder_cons, List.filterMap_append, interfaces_tower]
  rfl

/-- The tower is part of the skyline. -/
theorem mem_skyline (floors : Nat) : tower floors ∈ skyline floors := List.mem_cons_self

end Skyline

open Skyline in
/-- One module more or less in a tower makes the difference. -/
theorem fault_iff_height_or_overfull_skyline :
    (∀ d ∈ preorder (skyline 254), d.Readable) ∧ (tower 254).height = 255 ∧
    generate {} (skyline 254) = .error .indentation ∧
    (∀ d ∈ skyline 253, d.height < 255) ∧ (∃ g, generate {} (skyline 253) = .ok g) ∧
    (Session.generate ⟨{}, { level := 7 }⟩ (skyline 253)).2.draft.level = 0 := by
  have hne : ∀ floors, skyline floors ≠ [] := fun floors => List.ne_nil_of_mem (mem_skyline floors)
  have htall := height_tower 254
  have hlow : ∀ d ∈ skyline 253, d.height < 255 := height_skyline (by decide)
  have hfull : ∀ floors, ∀ i ∈ interfaces (skyline floors), ¬i.Overfull := by
    intro floors i hi
    rw [interfaces_skyline] at hi
    cases hi
  obtain ⟨-, hfault, -⟩ := fault_iff_height_or_overfull (hne 254) (readable_skyline 254) {}
  obtain ⟨-, -, hreturns⟩ := fault_iff_height_or_overfull (hne 253) (readable_skyline 253) {}
  obtain ⟨hok, hlevel, -, -⟩ := hreturns hlow (hfull 253)
  have hdeep : generate {} (skyline 254) = .error .indentation :=
    (hfault (hfull 254)).mpr ⟨tower 254, mem_skyline 254, Nat.le_of_eq htall.symm⟩
  exact ⟨readable_skyline 254, htall, hdeep, hlow, hok, hlevel { level := 7 }⟩

/-- An interface with a method whose parameter is an array of what has the greatest number of
pointers. -/
def crowded : List Declaration :=
  [.interface { name := "I", methods := [{ name := "m", returnType := "void", params :=
    [{ typeName := "long", indirection := 18446744073709551615, name := "p",
       isArray := true }] }] }]

/-- Output can be given up although no declaration is high and all operands can be read. -/
theorem crowded_given_up :
    (∀ d ∈ preorder crowded, d.Readable) ∧ (∀ d ∈ crowded, d.height < 255) ∧
    generate {} crowded = .error .indirection := by
  refine ⟨?_, ?_, by decide +kernel⟩
  · intro d hd
    obtain rfl := List.mem_singleton.mp hd
    trivial
  · intro d hd
    obtain rfl := List.mem_singleton.mp hd
    decide

end Output

end Midl
