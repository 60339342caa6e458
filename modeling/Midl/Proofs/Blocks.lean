import Midl.Proofs.Script
import Midl.Proofs.Walk

/-!
# Blocks in the output

The script of every declaration is part of the script of the program, at whatever depth the
declaration stands (`script_of_mem_preorder`). So what is written for it can be found in the output:
a head with lines in braces stands there as a block, its lines one level deeper (`generate_blocks`).
-/

namespace Midl.Output

open Declaration

/-! ## Scripts in scripts -/

mutual

/-- What is written for a part of a declaration is written in one go. -/
theorem script_of_mem_parts (root : List Declaration) {d x : Declaration} (h : x ∈ d.parts) :
    declarationScript root x <:+: declarationScript root d := by
  cases d with
  | group kind name attributes body =>
    rw [parts_group] at h
    rcases List.mem_cons.mp h with rfl | h
    · exact List.infix_rfl
    · obtain ⟨before, after, hbody⟩ := script_of_mem_preorder root h
      rw [declarationScript, ← hbody]
      refine ⟨.blank :: docsScript attributes ++
        (.line ("pub mod " ++ identifier name ++ " \x7b") :: .raise :: .line "use super::*;" ::
          before), after ++ [.lower, .line "\x7d"] ++
        emittedScript (.group kind name attributes body), ?_⟩
      simp [Script.braced]
  | _ =>
    obtain rfl := List.mem_singleton.mp h
    exact List.infix_rfl

/-- What is written for a declaration at any depth is a stretch of what is written for all. -/
theorem script_of_mem_preorder (root : List Declaration) {ds : List Declaration}
    {x : Declaration} (h : x ∈ preorder ds) :
    declarationScript root x <:+: declarationsScript root ds := by
  cases ds with
  | nil => cases h
  | cons d ds =>
    rw [preorder_cons] at h
    rw [declarationsScript]
    rcases List.mem_append.mp h with h | h
    · exact (script_of_mem_parts root h).trans (List.prefix_append _ _).isInfix
    · exact (script_of_mem_preorder root h).trans (List.suffix_append _ _).isInfix

end

/-- What is written for the declarations is a stretch of the program. -/
theorem declarationsScript_within (packageName typesPath : String) (ds : List Declaration) :
    declarationsScript ds ds <:+: programScript packageName typesPath ds := by
  refine ⟨.line ("pub mod " ++ identifier packageName ++ " \x7b") :: .raise ::
    preambleScript typesPath, [.lower, .line "\x7d"], ?_⟩
  simp [programScript, Script.braced]

/-! ## What parts of a script add -/

/-- The lines of a block that stands at a level. -/
def blockLines (level : Nat) (head : String) (texts : List String) : List Line :=
  .content level (head ++ " \x7b") :: texts.map (.content (level + 1)) ++ [.content level "\x7d"]

namespace Script

variable {level level' : Nat} {x : Addition}

/-- A script that does not give up does what any part of it does. -/
theorem run_part {script part : Script} (hin : part <:+: script)
    (h : script.run level = .ok (level', x)) :
    ∃ l l' y, part.run l = .ok (l', y) ∧ y.lines <:+: x.lines := by
  obtain ⟨before, after, rfl⟩ := hin
  rw [List.append_assoc, run_append] at h
  cases hbefore : run level before with
  | error fault =>
    rw [hbefore] at h
    cases h
  | ok result =>
    obtain ⟨l, y⟩ := result
    simp only [hbefore, run_append] at h
    cases hpart : run l part with
    | error fault =>
      rw [hpart] at h
      cases h
    | ok result =>
      obtain ⟨l', z⟩ := result
      simp only [hpart] at h
      cases hafter : run l' after with
      | error fault =>
        rw [hafter] at h
        cases h
      | ok result =>
        rw [hafter] at h
        obtain ⟨-, rfl⟩ := Prod.mk.inj (Except.ok.inj h)
        exact ⟨l, l', z, hpart, y.lines, result.2.lines, by simp⟩

/-- Lines are written at the level one stands at, and nothing else happens. -/
theorem run_lines (level : Nat) (texts : List String) :
    run level (texts.map .line) = .ok (level, { lines := texts.map (.content level) }) := by
  induction texts with
  | nil => rfl
  | cons text texts ih =>
    have hline : (Operation.line text).step level =
        .ok (level, { lines := [.content level text] }) := rfl
    rw [List.map_cons, run_cons_of_ok hline, ih]
    rfl

/-- A head with lines in braces adds a block. -/
theorem lines_of_run_braced {head : String} {texts : List String}
    (h : run level (braced head (texts.map .line)) = .ok (level', x)) :
    x.lines = blockLines level head texts := by
  obtain ⟨_, _, _, hopen, hinside, rfl⟩ := ok_of_run_cons h
  obtain ⟨rfl, rfl⟩ := Prod.mk.inj (Except.ok.inj hopen)
  obtain ⟨_, _, _, hraise, hrest, rfl⟩ := ok_of_run_cons hinside
  simp only [Operation.step] at hraise
  split at hraise
  · obtain ⟨rfl, rfl⟩ := Prod.mk.inj (Except.ok.inj hraise)
    rw [run_append, run_lines] at hrest
    obtain ⟨-, rfl⟩ := Prod.mk.inj (Except.ok.inj hrest)
    simp [blockLines]
  · cases hraise

end Script

/-- Output that is not empty is laid out from lines that hold a block for every head with lines in
braces that is in the script of the program. -/
theorem generate_blocks {settings : Settings} {ds : List Declaration} {g : Generated}
    (hne : ds ≠ []) (h : generate settings ds = .ok g) :
    ∃ lines, g.source = settings.layout.render lines ∧ ∀ head texts,
      Script.braced head (texts.map .line) <:+: declarationsScript ds ds →
      ∃ level, blockLines level head texts <:+: lines := by
  rw [generate_eq_run settings hne] at h
  cases hrun : (programScript settings.packageName settings.typesPath ds).run 0 with
  | error fault =>
    rw [hrun] at h
    cases h
  | ok result =>
    obtain ⟨level', x⟩ := result
    rw [hrun] at h
    obtain rfl := Except.ok.inj h
    refine ⟨x.lines, rfl, fun head texts hin => ?_⟩
    obtain ⟨level, _, y, hpart, hlines⟩ :=
      Script.run_part (hin.trans (declarationsScript_within _ _ ds)) hrun
    exact ⟨level, Script.lines_of_run_braced hpart ▸ hlines⟩

end Midl.Output
