import Midl.Proofs.Script

/-!
# Settings change the layout only

Output is put together as lines before it is laid out. The lines depend on the declarations, and on
the two names in the settings in one line each: the head of the module that holds everything, and
the line that says where other types are found (`opening`). All other lines, the diagnostics and
whether there is output at all come from the script of the declarations, which knows nothing of the
settings (`run_programScript`). How lines are laid out is said by `LaidOut`.
-/

namespace Midl.Output

/-! ## Lines as characters -/

/-- Some lines, laid out with a number of spaces for each level. -/
inductive LaidOut (indent : Nat) : List Line → List Char → Prop
  | nil : LaidOut indent [] []
  | blank {lines : List Line} {text : List Char} (h : LaidOut indent lines text) :
    LaidOut indent (.blank :: lines) ('\n' :: text)
  | content {lines : List Line} {text : List Char} (level : Nat) (content : String)
    (h : LaidOut indent lines text) :
    LaidOut indent (.content level content :: lines)
      (List.replicate (level * indent) ' ' ++ (content.toList ++ '\n' :: text))

/-- Lines that are rendered one after the other are laid out as lines. -/
theorem laidOut_join (indent : Nat) (lines : List Line) :
    LaidOut indent lines (String.join (lines.map (Line.render indent))).toList := by
  induction lines with
  | nil => exact .nil
  | cons line lines ih =>
    rw [List.map_cons, String.join_cons, String.toList_append]
    cases line with
    | blank =>
      have htext : (Line.render indent .blank).toList = ['\n'] := by simp [Line.render]
      rw [htext]
      exact .blank ih
    | content level content =>
      have htext : (Line.render indent (.content level content)).toList =
          List.replicate (level * indent) ' ' ++ (content.toList ++ ['\n']) := by
        simp [Line.render, String.toList_append]
      rw [htext, List.append_assoc, List.append_assoc, List.singleton_append]
      exact .content level content ih

/-- What comes before the lines in a layout. -/
def headerText (header : Bool) : String :=
  if header then "// Generated from MIDL by comidl. Do not edit.\n\n" else ""

/-- A layout puts the header before the lines and indents them. -/
theorem Layout.render_eq (layout : Layout) (lines : List Line) :
    layout.render lines =
      headerText layout.header ++ String.join (lines.map (Line.render layout.indent)) := by
  have hbanner : banner.map (Line.render layout.indent) =
      ["// Generated from MIDL by comidl. Do not edit.\n", "\n"] := by
    simp only [banner, bannerText, List.map_cons, List.map_nil, Line.render, Nat.zero_mul]
    rfl
  rw [Layout.render, headerText]
  cases layout.header with
  | false => simp
  | true =>
    simp only [if_true, List.map_append, hbanner, String.join_append]
    rfl

/-! ## What the settings decide -/

/-- The first lines of the output, up to the one that says where other types are found. -/
def opening (packageName typesPath : String) : List Line :=
  [.content 0 ("pub mod " ++ identifier packageName ++ " \x7b"), .content 1 allowances, .blank,
    .content 1 "use core::ffi::c_void;", .content 1 ("use " ++ typesPath ++ "::*;")]

/-- What is done after the first lines are written. -/
def remainingScript (ds : List Declaration) : Script :=
  declarationsScript ds ds ++ [.lower, .line "\x7d"]

/-- What the script of the program adds after its first lines does not depend on the settings. -/
theorem run_programScript (packageName typesPath : String) (ds : List Declaration) :
    (programScript packageName typesPath ds).run 0 =
      ((remainingScript ds).run 1).map fun (level, x) =>
        (level, ({ lines := opening packageName typesPath } : Addition) ++ x) := by
  have hscript : programScript packageName typesPath ds =
      (.line ("pub mod " ++ identifier packageName ++ " \x7b") :: .raise ::
        preambleScript typesPath) ++ remainingScript ds := by
    simp [programScript, Script.braced, remainingScript]
  have hopening : Script.run 0 (.line ("pub mod " ++ identifier packageName ++ " \x7b") :: .raise ::
      preambleScript typesPath) = .ok (1, { lines := opening packageName typesPath }) := rfl
  rw [hscript, Script.run_append, hopening]

/-- Only the opening of the output knows the settings; all after it depends on the declarations
alone. -/
theorem generate_eq_opening (settings : Settings) {ds : List Declaration} (hne : ds ≠ []) :
    generate settings ds = ((remainingScript ds).run 1).map fun (_, x) =>
      ⟨settings.layout.render (opening settings.packageName settings.typesPath ++ x.lines),
        x.diagnostics⟩ := by
  rw [generate_eq_run settings hne, run_programScript]
  cases (remainingScript ds).run 1 with
  | error fault => rfl
  | ok result => rfl

/-- Output for some declarations is laid out from the same lines whatever the layout is. Another
name for the module changes the content of its head, another path for types that of the line that
mentions it, and nothing else. There is output with all settings if there is with some, and the
diagnostics are the same. -/
theorem settings_change_layout_only {ds : List Declaration} (hne : ds ≠ []) {settings₀ : Settings}
    {g₀ : Generated} (h : generate settings₀ ds = .ok g₀) :
    ∃ entries : String → String → List Line,
      (∃ rest, ∀ packageName typesPath,
        entries packageName typesPath = opening packageName typesPath ++ rest) ∧
      ∀ settings, ∃ g text, generate settings ds = .ok g ∧ g.diagnostics = g₀.diagnostics ∧
        g.source = headerText settings.layout.header ++ String.ofList text ∧
        LaidOut settings.layout.indent (entries settings.packageName settings.typesPath) text := by
  rw [generate_eq_opening settings₀ hne] at h
  cases hrest : (remainingScript ds).run 1 with
  | error fault =>
    rw [hrest] at h
    cases h
  | ok result =>
    rw [hrest] at h
    obtain rfl := Except.ok.inj h
    refine ⟨fun packageName typesPath => opening packageName typesPath ++ result.2.lines,
      ⟨result.2.lines, fun _ _ => rfl⟩, fun settings => ?_⟩
    have hg : generate settings ds = .ok
        ⟨settings.layout.render
          (opening settings.packageName settings.typesPath ++ result.2.lines),
          result.2.diagnostics⟩ := by
      rw [generate_eq_opening settings hne, hrest]
      rfl
    refine ⟨_, _, hg, rfl, ?_, laidOut_join settings.layout.indent _⟩
    rw [Layout.render_eq, String.ofList_toList]

/-- A component class, which is reported, and a module with one further name for a type. -/
def furnished : List Declaration :=
  [.coclass { name := "C" },
    .group .module "M" [] [.typedef { name := "N", typeName := "long", indirection := 1 }]]

/-- Two settings for a program with a bit of everything. -/
theorem settings_change_layout_only_furnished :
    furnished ≠ [] ∧ ∃ g₀ g, generate {} furnished = .ok g₀ ∧
      generate ⟨"type", "win", ⟨1, false⟩⟩ furnished = .ok g ∧ g.diagnostics = g₀.diagnostics ∧
      ∃ rest text text₀,
        g.source = String.ofList text ∧ LaidOut 1 (opening "type" "win" ++ rest) text ∧
        g₀.source = headerText true ++ String.ofList text₀ ∧
        LaidOut 4 (opening "idl" "wintypes" ++ rest) text₀ := by
  have hne : furnished ≠ [] := List.cons_ne_nil _ _
  have hok : (generate {} furnished).isOk = true := by decide +kernel
  cases h : generate {} furnished with
  | error fault =>
    rw [h] at hok
    cases hok
  | ok g₀ =>
    obtain ⟨entries, ⟨rest, hentries⟩, hall⟩ := settings_change_layout_only hne h
    obtain ⟨g, text, hg, hdiagnostics, hsource, hlaid⟩ := hall ⟨"type", "win", ⟨1, false⟩⟩
    obtain ⟨_, text₀, hg₀, -, hsource₀, hlaid₀⟩ := hall {}
    obtain rfl := Except.ok.inj (h.symm.trans hg₀)
    rw [hentries] at hlaid hlaid₀
    refine ⟨hne, g₀, g, rfl, hg, hdiagnostics, rest, text, text₀, ?_, hlaid, hsource₀, hlaid₀⟩
    rw [hsource]
    simp [headerText]

end Midl.Output
