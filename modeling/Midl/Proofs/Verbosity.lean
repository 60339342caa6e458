import Midl.Proofs.Files

/-!
# Verbosity changes only what is shown

Two command lines that are the same but for the options about the log say the same but for how often
more log output is asked for and whether only errors are to be shown; this is what is assumed of a
parser (`Toolkit.LawfulVerbosity`). What is done depends on neither (`perform_muted`), and events
are shown by their level alone.
-/

namespace Midl

/-! ## Limits -/

/-- How many levels are shown with a limit. -/
def Level.reach (limit : Option Level) : Nat := (limit.map fun level => level.rank + 1).getD 0

/-- With a lower limit the same events are shown, and others. -/
theorem Event.shownAt_of_reach_le {limit limit' : Option Level}
    (h : Level.reach limit ≤ Level.reach limit') {event : Event}
    (hshown : event.shownAt limit = true) : event.shownAt limit' = true := by
  cases limit with
  | none => cases hshown
  | some level =>
    cases limit' with
    | none => exact absurd h (by simp [Level.reach])
    | some level' =>
      simp only [Level.reach, Option.map_some, Option.getD_some] at h
      simp only [shownAt, decide_eq_true_eq] at hshown ⊢
      omega

/-- What is shown with a limit can be told from what is shown with a lower one. -/
theorem Event.filter_filter_shownAt {limit limit' : Option Level}
    (h : Level.reach limit ≤ Level.reach limit') (events : List Event) :
    (events.filter (shownAt limit')).filter (shownAt limit) = events.filter (shownAt limit) := by
  rw [List.filter_filter]
  refine List.filter_congr fun event _ => ?_
  cases hshown : event.shownAt limit with
  | false => rfl
  | true => rw [shownAt_of_reach_le h hshown]; rfl

/-- What came of a source, and what is shown of its log. -/
def Compilation.shown (limit : Option Level) (compilation : Compilation) :
    Except Failure Output.Generated × List Event :=
  (compilation.result, compilation.log.toList.filter (Event.shownAt limit))

namespace Command

/-! ## Running the command -/

/-- What the command comes to, when it does what is asked for with the files of a tree. -/
def Cli.outcome (cli : Cli) (tree : FileTree) : Outcome :=
  ((cli.perform : StateM FileTree Outcome) tree).1

/-- What is done does not depend on how much of the log is shown. -/
theorem perform_muted (cli : Cli) :
    (cli.muted.perform : StateM FileTree Outcome) = cli.perform :=
  rfl

/-- Neither does what is said at the end. -/
theorem text_muted (kit : Toolkit) (cli : Cli) (conclusion : Conclusion) :
    conclusion.text kit cli.muted.input = conclusion.text kit cli.input :=
  rfl

namespace Toolkit

variable {kit : Toolkit} {args : List Argument}

/-- The events that a run of the command shows. -/
def printed (kit : Toolkit) (args : List Argument) (tree : FileTree) : List Event :=
  match kit.parse args with
  | .ok cli => (cli.outcome tree).log.filter (Event.shownAt cli.logLevel)
  | .error _ => []

/-- What it says after them: the report on a failure, if there was one. -/
def ending (kit : Toolkit) (args : List Argument) (tree : FileTree) : String :=
  match kit.parse args with
  | .ok cli => (cli.outcome tree).conclusion.text kit cli.input
  | .error refusal => refusal.report.stderr

/-- The events shown for a command line that says what to do. -/
theorem printed_of_ok {cli : Cli} (h : kit.parse args = .ok cli) (tree : FileTree) :
    kit.printed args tree = (cli.outcome tree).log.filter (Event.shownAt cli.logLevel) := by
  rw [printed, h]

/-- What is said at the end for such a command line. -/
theorem ending_of_ok {cli : Cli} (h : kit.parse args = .ok cli) (tree : FileTree) :
    kit.ending args tree = (cli.outcome tree).conclusion.text kit cli.input := by
  rw [ending, h]

/-- What is said at the end for a command line that is refused. -/
theorem ending_of_refused {refusal : Refusal} (h : kit.parse args = .error refusal)
    (tree : FileTree) : kit.ending args tree = refusal.report.stderr := by
  rw [ending, h]

/-- Everything that is said about the work is an event or said at the end. -/
theorem stderr_eq (kit : Toolkit) (args : List Argument) (tree : FileTree) :
    ((run kit args : StateM FileTree Report) tree).1.stderr =
      String.join ((kit.printed args tree).map (eventLine kit.paint)) ++ kit.ending args tree := by
  cases hparse : kit.parse args with
  | error refusal =>
    rw [run_of_refused hparse, ending_of_refused hparse, printed, hparse]
    exact String.empty_append.symm
  | ok cli =>
    rw [run_of_ok hparse, ending_of_ok hparse, printed_of_ok hparse]
    rfl

/-- Two accepted command lines that are the same but for the options about the log are both refused
with the same answer, or say the same but for what they say about the log. -/
theorem parse_agree {args₁ args₂ : List Argument} (hkit : kit.LawfulVerbosity)
    (hsame : withoutVerbosity args₁ = withoutVerbosity args₂) (h₁ : kit.Accepts args₁)
    (h₂ : kit.Accepts args₂) :
    (∃ refusal, kit.parse args₁ = .error refusal ∧ kit.parse args₂ = .error refusal) ∨
    ∃ cli₁ cli₂, kit.parse args₁ = .ok cli₁ ∧ kit.parse args₂ = .ok cli₂ ∧
      cli₁.muted = cli₂.muted := by
  have hmuted := hkit.aside hsame h₁ h₂
  cases hparse₁ : kit.parse args₁ with
  | error refusal₁ =>
    cases hparse₂ : kit.parse args₂ with
    | error refusal₂ =>
      rw [hparse₁, hparse₂] at hmuted
      obtain rfl := Except.error.inj hmuted
      exact .inl ⟨refusal₁, rfl, rfl⟩
    | ok cli₂ =>
      rw [hparse₁, hparse₂] at hmuted
      cases hmuted
  | ok cli₁ =>
    cases hparse₂ : kit.parse args₂ with
    | error refusal₂ =>
      rw [hparse₁, hparse₂] at hmuted
      cases hmuted
    | ok cli₂ =>
      rw [hparse₁, hparse₂] at hmuted
      exact .inr ⟨cli₁, cli₂, rfl, rfl, Except.ok.inj hmuted⟩

end Toolkit

/-- Verbosity changes only what is shown, whatever tools the command runs with, as long as they keep
it apart from all else. Two command lines that are accepted and the same, but for the options about
the log, have the same exit code, give the same answer and leave the same files behind. They show
events in the order in which they happen, and then say the same about a failure or a fault, if there
was one; the one that shows less shows those events of the other that are important enough for it.
The same goes for the log of a compilation. -/
theorem verbosity_only_shows :
    (∀ kit : Toolkit, kit.LawfulVerbosity → ∀ (tree : FileTree) (args₁ args₂ : List Argument),
      withoutVerbosity args₁ = withoutVerbosity args₂ → kit.Accepts args₁ → kit.Accepts args₂ →
      let ran₁ := (run kit args₁ : StateM FileTree Report) tree
      let ran₂ := (run kit args₂ : StateM FileTree Report) tree
      ran₁.1.exitCode = ran₂.1.exitCode ∧ ran₁.1.stdout = ran₂.1.stdout ∧ ran₁.2 = ran₂.2 ∧
      ran₁.1.stderr = String.join ((kit.printed args₁ tree).map (eventLine kit.paint)) ++
        kit.ending args₁ tree ∧
      ran₂.1.stderr = String.join ((kit.printed args₂ tree).map (eventLine kit.paint)) ++
        kit.ending args₂ tree ∧
      kit.ending args₁ tree = kit.ending args₂ tree ∧
      ∀ cli₁ cli₂, kit.parse args₁ = .ok cli₁ → kit.parse args₂ = .ok cli₂ →
        cli₁.logLevel.rank ≤ cli₂.logLevel.rank →
        kit.printed args₁ tree =
          (kit.printed args₂ tree).filter (Event.shownAt cli₁.logLevel)) ∧
    ∀ (settings : Output.Settings) (source : Source) (limit₁ limit₂ : Option Level),
      Level.reach limit₁ ≤ Level.reach limit₂ →
      let shown₁ := (compile settings source).shown limit₁
      let shown₂ := (compile settings source).shown limit₂
      shown₁.1 = shown₂.1 ∧ shown₁.2 = shown₂.2.filter (Event.shownAt limit₁) := by
  refine ⟨?_, ?_⟩
  · intro kit hkit tree args₁ args₂ hsame h₁ h₂
    have hstderr := fun args => kit.stderr_eq args tree
    obtain ⟨refusal, hparse₁, hparse₂⟩ | ⟨cli₁, cli₂, hparse₁, hparse₂, hmuted⟩ :=
      Toolkit.parse_agree hkit hsame h₁ h₂
    · have hran₁ := run_of_refused hparse₁ tree
      have hran₂ := run_of_refused hparse₂ tree
      refine ⟨by rw [hran₁, hran₂], by rw [hran₁, hran₂], by rw [hran₁, hran₂], hstderr args₁,
        hstderr args₂, ?_, fun cli₁ _ hcli₁ => by cases hparse₁.symm.trans hcli₁⟩
      rw [Toolkit.ending_of_refused hparse₁, Toolkit.ending_of_refused hparse₂]
    · have hran₁ := run_of_ok hparse₁ tree
      have hran₂ := run_of_ok hparse₂ tree
      have hperform : (cli₁.perform : StateM FileTree Outcome) = cli₂.perform := by
        rw [← perform_muted cli₁, hmuted, perform_muted cli₂]
      have houtcome : cli₁.outcome tree = cli₂.outcome tree := by
        rw [Cli.outcome, Cli.outcome, hperform]
      refine ⟨?_, ?_, ?_, hstderr args₁, hstderr args₂, ?_, ?_⟩
      · rw [hran₁, hran₂, hperform]
        rfl
      · rw [hran₁, hran₂]
        rfl
      · rw [hran₁, hran₂, hperform]
      · rw [Toolkit.ending_of_ok hparse₁, Toolkit.ending_of_ok hparse₂, houtcome,
          ← text_muted kit cli₁, hmuted, text_muted]
      · intro cli₁' cli₂' hcli₁ hcli₂ hrank
        obtain rfl := Except.ok.inj (hparse₁.symm.trans hcli₁)
        obtain rfl := Except.ok.inj (hparse₂.symm.trans hcli₂)
        have hreach : Level.reach (some cli₁.logLevel) ≤ Level.reach (some cli₂.logLevel) :=
          Nat.succ_le_succ hrank
        rw [Toolkit.printed_of_ok hparse₁, Toolkit.printed_of_ok hparse₂, houtcome]
        exact (Event.filter_filter_shownAt hreach _).symm
  · intro settings source limit₁ limit₂ hreach
    exact ⟨rfl, (Event.filter_filter_shownAt hreach _).symm⟩

/-- A file that declares a component class. -/
def classTree : FileTree :=
  { files := [([Utf8.bytes "in.idl"], Utf8.bytes "coclass C \x7b\x7d")] }

/-- A command line that asks for errors only. -/
def quietly : List Argument := ["-q", "in.idl", "out.rs"].map Utf8.bytes

/-- The same command line, but that it asks for more log output. -/
def verbosely : List Argument := ["in.idl", "-vv", "out.rs", "--verbose"].map Utf8.bytes

/-- Whether a command line is accepted by the program can be computed. -/
theorem accepts_of_isSome {color : Bool} {args : List Argument}
    (h : (parseArguments args).toOption.isSome = true) : (terminal color).Accepts args := by
  intro refusal hrefused
  rw [show parseArguments args = .error refusal from hrefused] at h
  cases h

/-- A class is skipped with a warning, which a run that asks for errors only does not show. -/
theorem verbosity_only_shows_class :
    let ran₁ := (run (terminal false) quietly : StateM FileTree Report) classTree
    let ran₂ := (run (terminal false) verbosely : StateM FileTree Report) classTree
    ran₁.1.exitCode = ran₂.1.exitCode ∧ ran₁.2 = ran₂.2 ∧
      (terminal false).printed quietly classTree =
        ((terminal false).printed verbosely classTree).filter (Event.shownAt (some .error)) ∧
      (((terminal false).printed verbosely classTree).filter (Event.shownAt (some .debug))).map
          Event.message = ["reading in.idl", "parsed coclass C",
        "skipped coclass 'C': component classes have no Rust emission rule",
        "wrote out.rs (1 skipped declaration(s))"] ∧
      ((compile {} (.ofText "enum E \x7b\x7d")).shown (some .info)).2 =
        ((compile {} (.ofText "enum E \x7b\x7d")).shown (some .trace)).2.filter
          (Event.shownAt (some .info)) := by
  obtain ⟨hcommand, hcompile⟩ := verbosity_only_shows
  obtain ⟨hexit, -, htree, -, -, -, hprinted⟩ := hcommand (terminal false)
    (terminal_lawfulVerbosity false) classTree quietly verbosely (by decide +kernel)
    (accepts_of_isSome (by decide +kernel)) (accepts_of_isSome (by decide +kernel))
  have hshown := hprinted
    ⟨Utf8.bytes "in.idl", Utf8.bytes "out.rs", "idl", "wintypes", 4, false, 0, true⟩
    ⟨Utf8.bytes "in.idl", Utf8.bytes "out.rs", "idl", "wintypes", 4, false, 3, false⟩
    (by rfl) (by rfl) (by decide)
  exact ⟨hexit, htree, hshown, by decide +kernel, (hcompile {} _ _ _ (by decide)).2⟩

end Command

end Midl
