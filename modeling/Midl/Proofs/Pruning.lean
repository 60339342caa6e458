import Midl.Proofs.Dispatch
import Midl.Proofs.Script

/-!
# Declarations that become nothing

References to other sources, component classes and types named after themselves leave no line in the
output. `prunedAll` takes them away at every depth. The interfaces that can be looked up stay the
same (`interfaceNamed?_prunedAll`), and with them all tables, so that the two scripts differ by
notes and by the reports of component classes only (`declarationsScript_prunedAll`).
`generate_prunedAll` says what that means for the output.
-/

namespace Midl

namespace Declaration

/-- Whether nothing is written for a declaration. -/
def isMute : Declaration → Bool
  | .imports _ | .importLibrary _ | .coclass _ => true
  | .typedef t => t.isSelf
  | _ => false

mutual

/-- A declaration without the mute ones that it holds. -/
def pruned : Declaration → Declaration
  | .group kind name attributes body => .group kind name attributes (prunedAll body)
  | d => d

/-- Declarations without the mute ones, at any depth. -/
def prunedAll : List Declaration → List Declaration
  | [] => []
  | d :: ds => if d.isMute then prunedAll ds else d.pruned :: prunedAll ds

end

/-- A mute declaration holds no interface. -/
theorem interfaceIn?_of_isMute (name : String) {d : Declaration} (h : d.isMute) :
    d.interfaceIn? name = none := by
  cases d with
  | interface i => cases h
  | group kind n attributes body => cases h
  | _ => rfl

mutual

/-- Pruning a declaration takes no interface away. -/
theorem interfaceIn?_pruned (name : String) (d : Declaration) :
    d.pruned.interfaceIn? name = d.interfaceIn? name := by
  cases d with
  | group kind n attributes body => exact interfaceNamed?_prunedAll name body
  | _ => rfl

/-- No interface is lost, and none comes before another that did not before. -/
theorem interfaceNamed?_prunedAll (name : String) (ds : List Declaration) :
    interfaceNamed? name (prunedAll ds) = interfaceNamed? name ds := by
  cases ds with
  | nil => rfl
  | cons d ds =>
    rw [prunedAll]
    split
    next hmute =>
      simp [interfaceNamed?, interfaceIn?_of_isMute name hmute, interfaceNamed?_prunedAll name ds]
    next =>
      simp [interfaceNamed?, interfaceIn?_pruned name d, interfaceNamed?_prunedAll name ds]

end

end Declaration

/-- So tables stay as they are. -/
theorem Interface.dispatchTable_prunedAll (ds : List Declaration) (i : Interface) :
    i.dispatchTable (Declaration.prunedAll ds) = i.dispatchTable ds := by
  have h := @Interface.dispatchTable_map ds (Declaration.prunedAll ds) id id (fun _ => rfl)
    (fun _ => rfl) (fun i => (List.map_id i.methods).symm)
    (fun name => by rw [Declaration.interfaceNamed?_prunedAll, Option.map_id, id]) i
  simpa using h

namespace Output

open Declaration

/-- Whether an operation leaves something in the output, if only some diagnostics are `wanted`. -/
def Operation.isSeen (wanted : Diagnostic → Bool) : Operation → Bool
  | .note _ => false
  | .report diagnostic => wanted diagnostic
  | _ => true

/-- What is wanted is there in full after the operations that are seen. -/
theorem aspect_isSeen (wanted : Diagnostic → Bool) (script : Script) :
    script.aspect ([·]) wanted 0 =
      Script.aspect ([·]) (fun _ => true) 0 (script.filter (·.isSeen wanted)) := by
  refine Script.aspect_filter (fun operation hunseen => ?_) (fun diagnostic hwanted => ?_) script 0
  · cases operation with
    | note event => trivial
    | report diagnostic => exact hunseen
    | _ => cases hunseen
  · exact hwanted

/-! ## Who reports what

Apart from component classes only enumerations report anything. -/

section Reports

variable {diagnostic : Diagnostic}

/-- Lines report nothing. -/
theorem not_report_of_lines (texts : List String) :
    .report diagnostic ∉ texts.map Operation.line := by
  simp

/-- Comments report nothing. -/
theorem not_report_of_docs (attributes : List Attribute) :
    .report diagnostic ∉ docsScript attributes := by
  unfold docsScript
  split
  · exact List.not_mem_nil
  · exact not_report_of_lines _

/-- Recording an event reports nothing. -/
theorem not_report_of_emitted (d : Declaration) : .report diagnostic ∉ emittedScript d := by
  unfold emittedScript
  split <;> simp

/-- A struct reports nothing. -/
theorem not_report_of_record (r : Record) : .report diagnostic ∉ recordScript r := by
  simp [recordScript, Script.braced, not_report_of_docs]

/-- A further name for a type reports nothing. -/
theorem not_report_of_typedef (t : Typedef) : .report diagnostic ∉ typedefScript t := by
  unfold typedefScript
  split <;> simp [not_report_of_docs]

/-- Tables report nothing. -/
theorem not_report_of_table (interfaceName : String) (table : DispatchTable) :
    .report diagnostic ∉ tableScript interfaceName table := by
  intro h
  rcases mem_tableScript h with ⟨text, heq⟩ | ⟨fault, heq⟩
  · cases heq
  · cases heq

/-- Interfaces report nothing. -/
theorem not_report_of_interface (root : List Declaration) (i : Interface) :
    .report diagnostic ∉ interfaceScript root i := by
  unfold interfaceScript idScript
  split <;> simp [interfaceBody, Script.braced, not_report_of_docs, not_report_of_table]

/-- A constant reports nothing. -/
theorem not_report_of_constant (c : Constant) : .report diagnostic ∉ constantScript c := by
  unfold constantScript Script.attempt
  split
  · simp
  · split <;> simp

/-- What is reported of members is about an enumeration. -/
theorem kind_of_report_of_members {enumName : String} {skipped : List String}
    {members : List (Member × Resolved)}
    (h : .report diagnostic ∈ memberScript enumName skipped members) :
    diagnostic.kind = "enum" := by
  induction members generalizing skipped with
  | nil => cases h
  | cons entry members ih =>
    rw [memberScript] at h
    cases hvalue : memberText skipped entry.1.value entry.2 with
    | error fault => simp [hvalue, Script.attempt] at h
    | ok text? =>
      rw [hvalue] at h
      cases text? with
      | some value =>
        rcases List.mem_cons.mp h with heq | hmem
        · cases heq
        · exact ih hmem
      | none =>
        rcases List.mem_cons.mp h with heq | hmem
        · obtain rfl := Operation.report.inj heq
          rfl
        · exact ih hmem

/-- So is what is reported of a whole enumeration. -/
theorem kind_of_report_of_enumeration {e : Enumeration}
    (h : .report diagnostic ∈ enumerationScript e) : diagnostic.kind = "enum" := by
  simp only [enumerationScript, List.mem_cons, List.mem_append, reduceCtorEq, not_report_of_docs,
    List.cons_append, false_or] at h
  cases hresolve : e.resolve with
  | error fault => simp [hresolve, Script.attempt] at h
  | ok resolved =>
    rw [hresolve] at h
    exact kind_of_report_of_members h

end Reports

/-! ## The script of the declarations that are left -/

/-- Whether a diagnostic is about anything but a component class. -/
def unclassed (diagnostic : Diagnostic) : Bool := diagnostic.kind ≠ "coclass"

/-- Where only enumerations are reported, all reports are seen. -/
theorem filter_isSeen_of_kind {script : Script}
    (h : ∀ diagnostic, .report diagnostic ∈ script → diagnostic.kind = "enum") :
    script.filter (·.isSeen unclassed) = script.filter (·.isSeen fun _ => true) := by
  refine List.filter_congr fun operation hmem => ?_
  cases operation with
  | report diagnostic => simp [Operation.isSeen, unclassed, h diagnostic hmem]
  | _ => rfl

/-- Of a mute declaration nothing is seen. -/
theorem filter_declarationScript_of_isMute (root : List Declaration) {d : Declaration}
    (h : d.isMute) : (declarationScript root d).filter (·.isSeen unclassed) = [] := by
  cases d with
  | imports files => rfl
  | importLibrary file => rfl
  | coclass c => rfl
  | typedef t =>
    have hself : t.isSelf = true := h
    rw [declarationScript, typedefScript, if_pos hself]
    rfl
  | _ => cases h

mutual

/-- Any other declaration is seen as its pruned form is. -/
theorem declarationScript_pruned (root : List Declaration) {d : Declaration} (h : ¬ d.isMute) :
    (declarationScript root d).filter (·.isSeen unclassed) =
      (declarationScript (prunedAll root) d.pruned).filter (·.isSeen fun _ => true) := by
  cases d with
  | imports files => exact absurd rfl h
  | importLibrary file => exact absurd rfl h
  | coclass c => exact absurd rfl h
  | directive kind text =>
    exact filter_isSeen_of_kind fun _ hmem => by simp [declarationScript, directiveScript] at hmem
  | record r =>
    exact filter_isSeen_of_kind fun _ hmem => by
      simp [declarationScript, not_report_of_record, not_report_of_emitted] at hmem
  | enumeration e =>
    refine filter_isSeen_of_kind fun _ hmem => ?_
    rcases List.mem_append.mp hmem with hmem | hmem
    · exact kind_of_report_of_enumeration hmem
    · exact absurd hmem (not_report_of_emitted _)
  | typedef t =>
    exact filter_isSeen_of_kind fun _ hmem => by
      simp [declarationScript, not_report_of_typedef, not_report_of_emitted] at hmem
  | constant c =>
    exact filter_isSeen_of_kind fun _ hmem => by
      simp [declarationScript, not_report_of_constant, not_report_of_emitted] at hmem
  | interface i =>
    have htable : interfaceScript (prunedAll root) i = interfaceScript root i := by
      rw [interfaceScript, interfaceScript, Interface.dispatchTable_prunedAll]
    show (interfaceScript root i ++ _).filter _ = (interfaceScript (prunedAll root) i ++ _).filter _
    rw [htable]
    exact filter_isSeen_of_kind fun _ hmem => by
      simp [not_report_of_interface, not_report_of_emitted] at hmem
  | group kind name attributes body =>
    have hdocs := @filter_isSeen_of_kind (docsScript attributes)
      fun _ hmem => absurd hmem (not_report_of_docs _)
    have hbody : (Operation.line "use super::*;" :: declarationsScript root body).filter
          (·.isSeen unclassed) =
        List.filter (·.isSeen fun _ => true)
          (Operation.line "use super::*;" :: declarationsScript (prunedAll root) (prunedAll body)) :=
      congrArg (_ :: ·) (declarationsScript_prunedAll root body)
    rw [pruned, declarationScript, declarationScript, List.filter_append, List.filter_append,
      List.filter_append, List.filter_append, Script.filter_braced rfl rfl rfl rfl,
      Script.filter_braced rfl rfl rfl rfl, hbody]
    exact congrArg (_ :: · ++ _) hdocs

/-- Leaving the mute declarations out takes away notes and reports of component classes. -/
theorem declarationsScript_prunedAll (root : List Declaration) (ds : List Declaration) :
    (declarationsScript root ds).filter (·.isSeen unclassed) =
      (declarationsScript (prunedAll root) (prunedAll ds)).filter (·.isSeen fun _ => true) := by
  cases ds with
  | nil => rfl
  | cons d ds =>
    rw [declarationsScript, List.filter_append, prunedAll]
    split
    next hmute =>
      rw [filter_declarationScript_of_isMute root hmute, List.nil_append,
        declarationsScript_prunedAll root ds]
    next hmute =>
      rw [declarationsScript, List.filter_append, declarationScript_pruned root hmute,
        declarationsScript_prunedAll root ds]

end

/-- What is seen of a program is what its pruned form writes. -/
theorem programScript_prunedAll (packageName typesPath : String) (ds : List Declaration) :
    (programScript packageName typesPath ds).filter (·.isSeen unclassed) =
      (programScript packageName typesPath (prunedAll ds)).filter (·.isSeen fun _ => true) := by
  rw [programScript, programScript, Script.filter_braced rfl rfl rfl rfl,
    Script.filter_braced rfl rfl rfl rfl, List.filter_append, List.filter_append,
    declarationsScript_prunedAll]
  rfl

/-! ## Generating output -/

/-- Output with the diagnostics that are wanted. -/
def Generated.restrict (wanted : Diagnostic → Bool) (g : Generated) : Generated :=
  { g with diagnostics := g.diagnostics.filter wanted }

/-- Output that is not restricted is the same. -/
theorem Generated.restrict_true (g : Generated) : (g.restrict fun _ => true) = g := by
  rw [Generated.restrict, List.filter_eq_self.mpr fun _ _ => rfl]

/-- Output that is restricted is an aspect of its script. -/
theorem generate_restrict (wanted : Diagnostic → Bool) (settings : Settings)
    {ds : List Declaration} (hne : ds ≠ []) :
    (generate settings ds).map (·.restrict wanted) =
      ((programScript settings.packageName settings.typesPath ds).aspect ([·]) wanted 0).map
        fun (lines, diagnostics) => ⟨settings.layout.render lines, diagnostics⟩ := by
  rw [generate_eq_run settings hne, Script.aspect]
  cases (programScript settings.packageName settings.typesPath ds).run 0 with
  | ok result => simp [Except.map, Generated.restrict]
  | error fault => rfl

/-- Declarations that become nothing have no influence on the rest: without them the text is the
same, and the diagnostics are those that are not about component classes. -/
theorem generate_prunedAll {ds : List Declaration} (hne : prunedAll ds ≠ []) (settings : Settings) :
    generate settings (prunedAll ds) = (generate settings ds).map (·.restrict unclassed) := by
  have hds : ds ≠ [] := by
    rintro rfl
    exact hne rfl
  calc generate settings (prunedAll ds)
      = (generate settings (prunedAll ds)).map (·.restrict fun _ => true) := by
        simp only [Generated.restrict_true]
        exact (congrFun Except.map_id _).symm
    _ = (generate settings ds).map (·.restrict unclassed) := by
        rw [generate_restrict _ settings hne, generate_restrict _ settings hds,
          aspect_isSeen unclassed, programScript_prunedAll, ← aspect_isSeen]

/-- A parent that is declared in a module next to a component class, and a value that is too
wide. -/
def clutter : List Declaration :=
  [.imports ["oaidl.idl"],
    .group .library "Lib" [⟨.helpString, some "Things"⟩]
      [.importLibrary "stdole2.tlb",
        .coclass { name := "Thing", interfaces := [{ name := "IChild", parent := some "IStray" }] },
        .typedef { name := "Tag", typeName := "Tag" },
        .group .module "Inner" []
          [.coclass { name := "Other" },
            .interface { name := "IParent", methods := [{ name := "Go", returnType := "long" }] }]],
    .enumeration { name := "Width", members := [⟨"Wide", some ["0x100000000"]⟩] },
    .interface { name := "IChild", parent := some "IParent" },
    .typedef { name := "Alias", typeName := "Alias" }]

/-- A program with component classes and imports among the rest. -/
theorem generate_prunedAll_clutter :
    (prunedAll clutter).length = 3 ∧
    (generate {} clutter).toOption.map (·.diagnostics.map (·.kind)) =
      some ["coclass", "coclass", "enum"] ∧
    generate {} (prunedAll clutter) = (generate {} clutter).map (·.restrict unclassed) := by
  have hlength : (prunedAll clutter).length = 3 := by decide +kernel
  have hne : prunedAll clutter ≠ [] := by
    intro hnil
    rw [hnil] at hlength
    cases hlength
  exact ⟨hlength, by decide +kernel, generate_prunedAll hne {}⟩

end Output

end Midl
