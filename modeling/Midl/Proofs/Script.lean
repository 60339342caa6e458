import Midl.Output.Session
import Midl.Proofs.Drafting

/-!
# Output as a script

What is done to a draft does not depend on the draft: it can be written down beforehand as a list of
operations. `declarationScript` and its companions do so, and `declaration_eq` says that working on
a draft is performing the script. What holds of output can then be read off a list.

What a script adds depends on the level it starts from and on nothing else (`Script.run`). The
output for different declarations is compared by leaving out operations that do not show in what is
compared (`Script.aspect_filter`).
-/

namespace Midl.Output

/-- One thing that is done to a draft. -/
inductive Operation where
  | blank
  | line (text : String)
  | note (event : Event)
  | report (diagnostic : Diagnostic)
  | raise
  | lower
  /-- Giving up. -/
  | fail (fault : Fault)

/-- Things that are done one after the other. -/
abbrev Script := List Operation

/-- Does one thing. -/
def Operation.perform : Operation → Drafting Unit
  | blank => Drafting.blank
  | line text => Drafting.line text
  | note event => Drafting.note event
  | report diagnostic => Drafting.report diagnostic
  | raise => Drafting.raise
  | lower => Drafting.lower
  | fail fault => Drafting.attempt (.error fault)

namespace Script

/-- Does one thing after the other. -/
def perform : Script → Drafting Unit
  | [] => pure ()
  | operation :: script => do
    operation.perform
    perform script

@[simp] theorem perform_nil : perform [] = pure () := rfl

@[simp] theorem perform_cons (operation : Operation) (script : Script) :
    perform (operation :: script) = (do operation.perform; perform script) := rfl

@[simp] theorem perform_append (script later : Script) :
    perform (script ++ later) = (do perform script; perform later) := by
  induction script with
  | nil => simp
  | cons operation script ih => simp [ih]

/-- A script that goes on with a result, or gives up with its fault. -/
def attempt (result : Except Fault α) (next : α → Script) : Script :=
  match result with
  | .ok a => next a
  | .error fault => [.fail fault]

/-- A script for a head, and a body in braces one level deeper. -/
def braced (head : String) (body : Script) : Script :=
  .line (head ++ " \x7b") :: .raise :: (body ++ [.lower, .line "\x7d"])

/-- Leaving operations out of a body leaves them out of what stands in braces. -/
theorem filter_braced {keep : Operation → Bool} {head : String}
    (hhead : keep (.line (head ++ " \x7b"))) (hraise : keep .raise) (hlower : keep .lower)
    (hclose : keep (.line "\x7d")) (body : Script) :
    (braced head body).filter keep = braced head (body.filter keep) := by
  simp [braced, hhead, hraise, hlower, hclose]

/-- Braces around bodies that are alike in what is kept are alike in it. -/
theorem filter_braced_congr {keep : Operation → Bool} {body body' : Script} (head : String)
    (h : body.filter keep = body'.filter keep) :
    (braced head body).filter keep = (braced head body').filter keep := by
  simp [braced, List.filter_cons, h]

end Script

/-! ## Performing a script step by step -/

section Perform

variable {operation : Operation} {script later : Script} {d d' : Draft} {fault : Fault}

/-- After an operation that succeeds come the others. -/
theorem Script.perform_cons_of_ok (h : operation.perform d = .ok () d') :
    Script.perform (operation :: script) d = script.perform d' :=
  Drafting.bind_of_ok h

/-- After one that fails there is nothing. -/
theorem Script.perform_cons_of_error (h : operation.perform d = .error fault d') :
    Script.perform (operation :: script) d = .error fault d' := by
  show EStateM.bind operation.perform _ d = _
  rw [EStateM.bind, h]

/-- After a script that succeeds comes the next. -/
theorem Script.perform_append_of_ok (h : script.perform d = .ok () d') :
    Script.perform (script ++ later) d = later.perform d' := by
  rw [Script.perform_append]
  exact Drafting.bind_of_ok h

/-- After one that fails there is nothing. -/
theorem Script.perform_append_of_error (h : script.perform d = .error fault d') :
    Script.perform (script ++ later) d = .error fault d' := by
  rw [Script.perform_append]
  show EStateM.bind script.perform _ d = _
  rw [EStateM.bind, h]

end Perform

/-! ## Scripts of declarations -/

def docsScript (attributes : List Attribute) : Script :=
  match Attribute.valueOf .helpString attributes with
  | none => []
  | some help => ((Text.lines help).map ("/// " ++ ·)).map .line

def recordScript (r : Record) : Script :=
  .blank :: docsScript r.attributes ++ .line "#[repr(C)]" ::
    Script.braced ("pub struct " ++ identifier r.name) ((r.fields.map fieldText).map .line)

def memberScript (enumName : String) (skipped : List String) : List (Member × Resolved) → Script
  | [] => []
  | (member, resolved) :: members =>
    Script.attempt (memberText skipped member.value resolved) fun
      | some value =>
        .line ("pub const " ++ identifier member.name ++ ": " ++ identifier enumName ++ " = "
          ++ value ++ ";") :: memberScript enumName skipped members
      | none =>
        .report (tooWide enumName member.name) ::
          memberScript enumName (member.name :: skipped) members

def enumerationScript (e : Enumeration) : Script :=
  .blank :: docsScript e.attributes ++
    .line ("pub type " ++ identifier e.name ++ " = i32;") ::
      Script.attempt e.resolve fun resolved =>
        memberScript e.name [] (e.members.zip (resolved.map Prod.snd))

def typedefScript (t : Typedef) : Script :=
  if t.isSelf then [.note (.selfAlias t.name)]
  else .blank :: docsScript t.attributes ++
    [.line ("pub type " ++ identifier t.name ++ " = " ++ typeText t.typeName t.indirection ++ ";")]

/-- The identifier of an interface, as a comment. -/
def idScript (attributes : List Attribute) : Script :=
  match Attribute.valueOf .uuid attributes with
  | none => []
  | some uuid => [.line ("/// IID: " ++ uuid)]

/-- The slots of a table. -/
def slotsScript (interfaceName : String) : List Method → Script
  | [] => []
  | m :: methods =>
    Script.attempt (slotText interfaceName m) fun slot =>
      .line ("pub " ++ identifier m.name ++ ": " ++ slot ++ ",") ::
        slotsScript interfaceName methods

/-- The fields of a table: the table of the base, and the slots. -/
def tableScript (interfaceName : String) (table : DispatchTable) : Script :=
  (table.base.toList.map fun base => .line ("pub base: " ++ tableName base ++ ",")) ++
    slotsScript interfaceName table.methods

/-- In a table nothing happens but that lines are written, or that writing them is given up. -/
theorem mem_slotsScript {interfaceName : String} {methods : List Method} {operation : Operation}
    (h : operation ∈ slotsScript interfaceName methods) :
    (∃ text, operation = .line text) ∨ ∃ fault, operation = .fail fault := by
  induction methods with
  | nil => cases h
  | cons m methods ih =>
    rw [slotsScript] at h
    cases hslot : slotText interfaceName m with
    | error fault =>
      rw [hslot] at h
      exact .inr ⟨fault, List.mem_singleton.mp h⟩
    | ok slot =>
      rw [hslot] at h
      rcases List.mem_cons.mp h with rfl | h
      · exact .inl ⟨_, rfl⟩
      · exact ih h

@[inherit_doc mem_slotsScript]
theorem mem_tableScript {interfaceName : String} {table : DispatchTable} {operation : Operation}
    (h : operation ∈ tableScript interfaceName table) :
    (∃ text, operation = .line text) ∨ ∃ fault, operation = .fail fault := by
  rcases List.mem_append.mp h with h | h
  · obtain ⟨base, -, rfl⟩ := List.mem_map.mp h
    exact .inl ⟨_, rfl⟩
  · exact mem_slotsScript h

/-- What is written for an interface after its comments. -/
def interfaceBody (name : String) (table : DispatchTable) : Script :=
  .line "#[repr(C)]" ::
    Script.braced ("pub struct " ++ identifier name)
      [.line ("pub vtbl: *const " ++ tableName name ++ ",")] ++
    .blank :: .line "#[repr(C)]" ::
      Script.braced ("pub struct " ++ tableName name) (tableScript name table)

def interfaceScript (root : List Declaration) (i : Interface) : Script :=
  .blank :: docsScript i.attributes ++ (idScript i.attributes ++
    interfaceBody i.name (i.dispatchTable root))

def constantScript (c : Constant) : Script :=
  .blank ::
    match c.value with
    | .text value =>
      [.line ("pub const " ++ identifier c.name ++ ": &str = " ++ Text.quoted value ++ ";")]
    | .operands operands =>
      Script.attempt (operands.mapM constantOperand) fun value =>
        [.line ("pub const " ++ identifier c.name ++ ": "
          ++ typeText (splitStars c.typeName).1 (splitStars c.typeName).2 ++ " = "
          ++ joinOperands value ++ ";")]

def directiveScript (kind : DirectiveKind) (text : String) : Script :=
  .blank :: ((Text.lines text).map fun line => "// " ++ kind.word ++ ": " ++ line).map .line

def emittedScript (d : Declaration) : Script :=
  if d.name?.isSome then [.note (.emitted d)] else []

mutual

def declarationScript (root : List Declaration) : Declaration → Script
  | .imports files => [.note (.droppedImports files)]
  | .importLibrary file => [.note (.droppedLibrary file)]
  | .coclass c =>
    [.report (.about (.coclass c) "component classes have no Rust emission rule")]
  | .directive kind text => directiveScript kind text
  | .record r => recordScript r ++ emittedScript (.record r)
  | .enumeration e => enumerationScript e ++ emittedScript (.enumeration e)
  | .typedef t => typedefScript t ++ emittedScript (.typedef t)
  | .interface i => interfaceScript root i ++ emittedScript (.interface i)
  | .constant c => constantScript c ++ emittedScript (.constant c)
  | .group kind name attributes body =>
    .blank :: docsScript attributes ++
      (Script.braced ("pub mod " ++ identifier name)
          (.line "use super::*;" :: declarationsScript root body) ++
        emittedScript (.group kind name attributes body))

def declarationsScript (root : List Declaration) : List Declaration → Script
  | [] => []
  | d :: ds => declarationScript root d ++ declarationsScript root ds

end

/-- What is written at the beginning of the module that holds everything. -/
def preambleScript (typesPath : String) : Script :=
  [.line allowances, .blank, .line "use core::ffi::c_void;", .line ("use " ++ typesPath ++ "::*;")]

def programScript (packageName typesPath : String) (ds : List Declaration) : Script :=
  Script.braced ("pub mod " ++ identifier packageName)
    (preambleScript typesPath ++ declarationsScript ds ds)

/-! ## Working on a draft is performing a script -/

/-- Lines are performed as a script. -/
theorem lines_eq (texts : List String) :
    Drafting.lines texts = Script.perform (texts.map .line) := by
  induction texts with
  | nil => rfl
  | cons text texts ih => exact congrArg (Drafting.line text >>= fun _ => ·) ih

/-- So is what goes on with a result. -/
theorem attempt_eq {result : Except Fault α} {work : α → Drafting Unit} {next : α → Script}
    (h : ∀ a, work a = (next a).perform) :
    Drafting.attempt result >>= work = (Script.attempt result next).perform := by
  funext d
  cases result with
  | ok a =>
    show work a d = (next a).perform d
    rw [h]
  | error fault => rfl

/-- So is a body in braces. -/
theorem braced_eq (head : String) {body : Drafting Unit} {script : Script}
    (h : body = script.perform) :
    Drafting.braced head body = (Script.braced head script).perform := by
  simp [Drafting.braced, Script.braced, Operation.perform, h]

/-- Comments are performed as a script. -/
theorem docs_eq (attributes : List Attribute) :
    docs attributes = (docsScript attributes).perform := by
  unfold docs docsScript
  cases Attribute.valueOf .helpString attributes with
  | none => rfl
  | some help => exact lines_eq _

/-- So is a struct. -/
theorem record_eq (r : Record) : record r = (recordScript r).perform := by
  simp [record, recordScript, Operation.perform, docs_eq, braced_eq _ (lines_eq _)]

/-- So are the constants of an enumeration. -/
theorem memberLines_eq (enumName : String) (skipped : List String)
    (members : List (Member × Resolved)) :
    memberLines enumName skipped members = (memberScript enumName skipped members).perform := by
  induction members generalizing skipped with
  | nil => rfl
  | cons entry members ih =>
    obtain ⟨member, resolved⟩ := entry
    refine attempt_eq fun text? => ?_
    cases text? with
    | some value => simp [Operation.perform, ih]
    | none => simp [Operation.perform, ih]

/-- So is an enumeration. -/
theorem enumeration_eq (e : Enumeration) : enumeration e = (enumerationScript e).perform := by
  have hmembers := @attempt_eq _ e.resolve _ _ fun resolved =>
    memberLines_eq e.name [] (e.members.zip (resolved.map Prod.snd))
  simp [enumeration, enumerationScript, Operation.perform, docs_eq, hmembers]

/-- So is a further name for a type. -/
theorem typedef_eq (t : Typedef) : typedef t = (typedefScript t).perform := by
  unfold typedef typedefScript
  split
  · simp [Operation.perform]
  · simp [Operation.perform, docs_eq]

/-- Writing slots is performing their script. -/
theorem slots_eq (interfaceName : String) (methods : List Method) :
    slots interfaceName methods = (slotsScript interfaceName methods).perform := by
  induction methods with
  | nil => rfl
  | cons m methods ih =>
    refine attempt_eq fun slot => ?_
    simp [Operation.perform, ih]

/-- Writing the fields of a table is performing their script. -/
theorem tableBody_eq (interfaceName : String) (table : DispatchTable) :
    tableBody interfaceName table = (tableScript interfaceName table).perform := by
  unfold tableBody tableScript
  cases table.base with
  | none => simp [slots_eq]
  | some base => simp [Operation.perform, slots_eq]

/-- Writing an interface is performing its script. -/
theorem interface_eq (root : List Declaration) (i : Interface) :
    interface root i = (interfaceScript root i).perform := by
  have hpointer : Drafting.line ("pub vtbl: *const " ++ tableName i.name ++ ",") =
      Script.perform [.line ("pub vtbl: *const " ++ tableName i.name ++ ",")] := by
    simp [Operation.perform]
  unfold interface interfaceScript interfaceBody idScript
  cases Attribute.valueOf .uuid i.attributes with
  | none => simp [Operation.perform, docs_eq, braced_eq _ hpointer, braced_eq _ (tableBody_eq ..)]
  | some uuid =>
    simp [Operation.perform, docs_eq, braced_eq _ hpointer, braced_eq _ (tableBody_eq ..)]

/-- So is a constant. -/
theorem constant_eq (c : Constant) : constant c = (constantScript c).perform := by
  unfold constant constantScript
  cases c.value with
  | text value => simp [Operation.perform]
  | operands operands =>
    refine congrArg (Drafting.blank >>= fun _ => ·) (attempt_eq fun value => ?_)
    simp [Operation.perform, splitStars]

/-- So is a directive. -/
theorem directive_eq (kind : DirectiveKind) (text : String) :
    directive kind text = (directiveScript kind text).perform :=
  congrArg (Drafting.blank >>= fun _ => ·) (lines_eq _)

/-- So is the event at the end of a declaration. -/
theorem noteEmitted_eq (d : Declaration) : noteEmitted d = (emittedScript d).perform := by
  unfold noteEmitted emittedScript
  split
  · simp [Operation.perform]
  · rfl

mutual

/-- So is a declaration, with all that it holds. -/
theorem declaration_eq (root : List Declaration) (d : Declaration) :
    declaration root d = (declarationScript root d).perform := by
  cases d with
  | imports files => simp [declaration, declarationScript, Operation.perform]
  | importLibrary file => simp [declaration, declarationScript, Operation.perform]
  | coclass c => simp [declaration, declarationScript, Operation.perform]
  | directive kind text => exact directive_eq kind text
  | record r => simp [declaration, declarationScript, record_eq, noteEmitted_eq]
  | enumeration e => simp [declaration, declarationScript, enumeration_eq, noteEmitted_eq]
  | typedef t => simp [declaration, declarationScript, typedef_eq, noteEmitted_eq]
  | interface i => simp [declaration, declarationScript, interface_eq, noteEmitted_eq]
  | constant c => simp [declaration, declarationScript, constant_eq, noteEmitted_eq]
  | group kind name attributes body =>
    have hbody : (do Drafting.line "use super::*;"; declarations root body) =
        Script.perform (.line "use super::*;" :: declarationsScript root body) := by
      rw [declarations_eq root body]
      rfl
    simp [declaration, declarationScript, Operation.perform, docs_eq, braced_eq _ hbody,
      noteEmitted_eq]

/-- So are declarations. -/
theorem declarations_eq (root : List Declaration) (ds : List Declaration) :
    declarations root ds = (declarationsScript root ds).perform := by
  cases ds with
  | nil => rfl
  | cons d ds =>
    simp [declarations, declarationsScript, declaration_eq root d, declarations_eq root ds]

end

/-- So is the whole program. -/
theorem program_eq (packageName typesPath : String) (ds : List Declaration) :
    program packageName typesPath ds = (programScript packageName typesPath ds).perform := by
  refine braced_eq _ ?_
  simp [preambleScript, Operation.perform, declarations_eq]

section Generate

variable {settings : Settings} {ds : List Declaration} {d : Draft}

/-- Output is what performing the script of the program has written. -/
theorem generate_of_ok (hne : ds ≠ [])
    (h : (programScript settings.packageName settings.typesPath ds).perform settings.opened =
      .ok () d) : generate settings ds = .ok ⟨d.out, d.diagnostics.toList⟩ := by
  rw [← program_eq] at h
  rw [generate, @Session.generate_of_ok ⟨settings, {}⟩ ds d hne h]

/-- Output is given up where performing the script of the program is. -/
theorem generate_of_error {fault : Fault} (hne : ds ≠ [])
    (h : (programScript settings.packageName settings.typesPath ds).perform settings.opened =
      .error fault d) : generate settings ds = .error fault := by
  rw [← program_eq] at h
  rw [generate, @Session.generate_of_error ⟨settings, {}⟩ ds d fault hne h]

end Generate

/-! ## What a script adds -/

/-- What an operation adds at a level, and the level after it. -/
def Operation.step (level : Nat) : Operation → Except Fault (Nat × Addition)
  | blank => .ok (level, { lines := [.blank] })
  | line text => .ok (level, { lines := [.content level text] })
  | note event => .ok (level, { log := [event] })
  | report diagnostic =>
    .ok (level, { diagnostics := [diagnostic], log := [.skipped diagnostic] })
  | raise => if level < maxLevel then .ok (level + 1, {}) else .error .indentation
  | lower => .ok (level - 1, {})
  | fail fault => .error fault

/-- What an operation does to a draft depends on the level of the draft alone. -/
theorem Operation.perform_eq_step (operation : Operation) (d : Draft) :
    operation.perform d =
      match operation.step d.level with
      | .ok (level, x) => .ok () { d.add x with level := level }
      | .error fault => .error fault d := by
  cases operation with
  | raise =>
    simp only [perform, Drafting.raise, step]
    split <;> simp [Draft.add]
  | _ =>
    simp [perform, step, Drafting.blank, Drafting.line, Drafting.note, Drafting.report,
      Drafting.lower, Drafting.attempt, Draft.add, Line.render]

namespace Script

/-- What a script adds at a level, and the level after it. -/
def run (level : Nat) : Script → Except Fault (Nat × Addition)
  | [] => .ok (level, {})
  | operation :: script =>
    match operation.step level with
    | .ok (level, x) => (run level script).map fun (level, y) => (level, x ++ y)
    | .error fault => .error fault

section Run

variable {operation : Operation} {script : Script} {level level' : Nat} {x : Addition}
  {fault : Fault}

/-- An operation that succeeds adds to what the others add. -/
theorem run_cons_of_ok (h : operation.step level = .ok (level', x)) :
    run level (operation :: script) = (script.run level').map fun (l, y) => (l, x ++ y) := by
  rw [run, h]

/-- One that fails settles the matter. -/
theorem run_cons_of_error (h : operation.step level = .error fault) :
    run level (operation :: script) = .error fault := by
  rw [run, h]

/-- A script that does not give up does one thing after the other. -/
theorem ok_of_run_cons (h : run level (operation :: script) = .ok (level', x)) :
    ∃ level₁ y z, operation.step level = .ok (level₁, y) ∧ run level₁ script = .ok (level', z) ∧
      x = y ++ z := by
  cases hstep : operation.step level with
  | error fault =>
    rw [run_cons_of_error hstep] at h
    cases h
  | ok result =>
    obtain ⟨level₁, y⟩ := result
    rw [run_cons_of_ok hstep] at h
    cases hrun : run level₁ script with
    | error fault =>
      rw [hrun] at h
      cases h
    | ok result =>
      obtain ⟨level₂, z⟩ := result
      rw [hrun] at h
      obtain ⟨rfl, rfl⟩ := Prod.mk.inj (Except.ok.inj h)
      exact ⟨level₁, y, z, rfl, hrun, rfl⟩

end Run

/-- So does what a script does. -/
theorem perform_cases (script : Script) (d : Draft) :
    (∃ level x, script.run d.level = .ok (level, x) ∧
      script.perform d = .ok () { d.add x with level := level }) ∨
    ∃ fault d', script.run d.level = .error fault ∧ script.perform d = .error fault d' := by
  induction script generalizing d with
  | nil => exact .inl ⟨d.level, {}, rfl, by rw [Draft.add_empty]; rfl⟩
  | cons operation script ih =>
    have hfirst := operation.perform_eq_step d
    cases hstep : operation.step d.level with
    | error fault =>
      rw [hstep] at hfirst
      exact .inr ⟨fault, d, run_cons_of_error hstep, perform_cons_of_error hfirst⟩
    | ok result =>
      obtain ⟨level₁, x₁⟩ := result
      rw [hstep] at hfirst
      rcases ih { d.add x₁ with level := level₁ } with ⟨level, y, hrun, hperform⟩ |
        ⟨fault, d', hrun, hperform⟩
      · refine .inl ⟨level, x₁ ++ y, ?_, ?_⟩
        · rw [run_cons_of_ok hstep, hrun]
          rfl
        · rw [perform_cons_of_ok hfirst, hperform]
          simp [Draft.add, String.append_assoc]
      · refine .inr ⟨fault, d', ?_, ?_⟩
        · rw [run_cons_of_ok hstep, hrun]
          rfl
        · rw [perform_cons_of_ok hfirst, hperform]

/-- Scripts run one after the other, the second at the level that the first has left. -/
theorem run_append (script later : Script) (level : Nat) :
    run level (script ++ later) =
      match script.run level with
      | .ok (level, x) => (later.run level).map fun (l, y) => (l, x ++ y)
      | .error fault => .error fault := by
  induction script generalizing level with
  | nil =>
    show run level later = (run level later).map fun (l, y) => (l, {} ++ y)
    cases run level later <;> rfl
  | cons operation script ih =>
    rw [List.cons_append]
    cases hstep : operation.step level with
    | error fault => rw [run_cons_of_error hstep, run_cons_of_error hstep]
    | ok result =>
      rw [run_cons_of_ok hstep, run_cons_of_ok hstep, ih]
      cases run result.1 script with
      | error fault => rfl
      | ok result' =>
        cases hlater : run result'.1 later <;> simp [Except.map, hlater, Addition.ext_iff]

end Script

/-- All that is generated is what the script of the program adds. -/
theorem generate_eq_run (settings : Settings) {ds : List Declaration} (hne : ds ≠ []) :
    generate settings ds =
      ((programScript settings.packageName settings.typesPath ds).run 0).map
        fun (_, x) => ⟨settings.layout.render x.lines, x.diagnostics⟩ := by
  rcases Script.perform_cases (programScript settings.packageName settings.typesPath ds)
      settings.opened with ⟨level, x, hrun, hperform⟩ | ⟨fault, d, hrun, hperform⟩
  · rw [settings.level_opened] at hrun
    rw [generate_of_ok hne hperform, hrun]
    exact congrArg Except.ok (congr (congrArg Generated.mk (settings.out_opened_add x))
      (settings.diagnostics_opened_add x))
  · rw [settings.level_opened] at hrun
    rw [generate_of_error hne hperform, hrun]
    rfl

/-! ## What is looked at -/

/-- Some aspect of what a script adds: what `f` makes of its lines, and the diagnostics that are
wanted. -/
def Script.aspect (f : Line → List β) (wanted : Diagnostic → Bool) (level : Nat) (script : Script) :
    Except Fault (List β × List Diagnostic) :=
  (script.run level).map fun (_, x) => (x.lines.flatMap f, x.diagnostics.filter wanted)

/-- An operation that does not show in that. -/
def Operation.Unseen (f : Line → List β) (wanted : Diagnostic → Bool) : Operation → Prop
  | blank => f .blank = []
  | line text => ∀ level, f (.content level text) = []
  | note _ => True
  | report diagnostic => wanted diagnostic = false
  | raise | lower | fail _ => False

section Aspect

variable {f : Line → List β} {wanted wanted' : Diagnostic → Bool} {keep : Operation → Bool}
  {operation : Operation} {level level' : Nat} {x : Addition} {fault : Fault}

/-- An unseen operation succeeds and shows nothing. -/
theorem Operation.Unseen.step (h : operation.Unseen f wanted) (level : Nat) :
    ∃ x, operation.step level = .ok (level, x) ∧ x.lines.flatMap f = [] ∧
      x.diagnostics.filter wanted = [] := by
  cases operation with
  | blank => exact ⟨_, rfl, by simpa [Unseen] using h, rfl⟩
  | line text => exact ⟨_, rfl, by simpa using h level, rfl⟩
  | note event => exact ⟨_, rfl, rfl, rfl⟩
  | report diagnostic => exact ⟨_, rfl, rfl, by simpa [Unseen] using h⟩
  | _ => cases h

/-- Only reports add diagnostics. -/
theorem Operation.eq_report_of_mem (h : operation.step level = .ok (level', x))
    {diagnostic : Diagnostic} (hmem : diagnostic ∈ x.diagnostics) :
    operation = .report diagnostic := by
  cases operation with
  | report reported =>
    cases h
    rw [List.mem_singleton.mp hmem]
  | raise =>
    simp only [step] at h
    split at h
    · cases h
      cases hmem
    · cases h
  | fail fault => cases h
  | _ =>
    cases h
    cases hmem

/-- An operation that succeeds shows its part first. -/
theorem Script.aspect_cons_of_ok (h : operation.step level = .ok (level', x)) (script : Script) :
    aspect f wanted level (operation :: script) =
      (aspect f wanted level' script).map fun (shown, diagnostics) =>
        (x.lines.flatMap f ++ shown, x.diagnostics.filter wanted ++ diagnostics) := by
  rw [aspect, aspect, run_cons_of_ok h]
  cases script.run level' with
  | ok result => simp [Except.map]
  | error fault => rfl

/-- One that fails shows nothing. -/
theorem Script.aspect_cons_of_error (h : operation.step level = .error fault) (script : Script) :
    aspect f wanted level (operation :: script) = .error fault := by
  rw [aspect, run_cons_of_error h]
  rfl

/-- Operations that do not show can be left out. On the two sides different diagnostics may be
wanted, as long as they are the same among those that are kept. -/
theorem Script.aspect_filter
    (hdrop : ∀ operation, keep operation = false → operation.Unseen f wanted)
    (hkeep : ∀ diagnostic, keep (.report diagnostic) → wanted diagnostic = wanted' diagnostic)
    (script : Script) (level : Nat) :
    aspect f wanted level script = aspect f wanted' level (script.filter keep) := by
  induction script generalizing level with
  | nil => rfl
  | cons operation script ih =>
    cases hkept : keep operation with
    | false =>
      obtain ⟨x, hstep, hlines, hdiagnostics⟩ := (hdrop operation hkept).step level
      rw [List.filter_cons_of_neg (by simp [hkept]), aspect_cons_of_ok hstep, hlines, hdiagnostics,
        ← ih]
      exact congrFun Except.map_id _
    | true =>
      rw [List.filter_cons_of_pos hkept]
      cases hstep : operation.step level with
      | error fault => rw [aspect_cons_of_error hstep, aspect_cons_of_error hstep]
      | ok result =>
        have hsame : result.2.diagnostics.filter wanted = result.2.diagnostics.filter wanted' := by
          refine List.filter_congr fun diagnostic hmem => hkeep diagnostic ?_
          rwa [← Operation.eq_report_of_mem hstep hmem]
        rw [aspect_cons_of_ok hstep, aspect_cons_of_ok hstep, ih, hsame]

/-- A line that makes no difference does not show. -/
theorem Script.exists_unseen_of_aspect_eq {script later : Script} {text : String}
    {shown : List β × List Diagnostic} (h : aspect f wanted level (script ++ later) = .ok shown)
    (h' : aspect f wanted level (script ++ .line text :: later) = .ok shown) :
    ∃ level, f (.content level text) = [] := by
  rw [aspect, run_append] at h h'
  cases hscript : script.run level with
  | error fault =>
    rw [hscript] at h
    cases h
  | ok result =>
    rw [hscript] at h h'
    cases hlater : later.run result.1 with
    | error fault =>
      simp only [hlater] at h
      cases h
    | ok result' =>
      have hline : (Operation.line text).step result.1 =
          .ok (result.1, { lines := [.content result.1 text] }) := rfl
      simp only [hlater, run_cons_of_ok hline] at h h'
      have hlength := congrArg (·.1.length) (Except.ok.inj (h'.trans h.symm))
      exact ⟨result.1, by simpa using hlength⟩

end Aspect

end Midl.Output
