import Midl.Command.Terminal

/-!
# What is assumed of the tools

The parser for command lines comes from elsewhere, so what is proved of the command is proved for
every toolkit of which something is assumed: a command line that makes no sense does not end in
success, asking for the version or for help does (`Toolkit.LawfulExit`), and the options about the
log bear on nothing but the log (`Toolkit.LawfulVerbosity`). The last is said of command lines from
which these options are left out (`withoutVerbosity`).

The program's own parser is one of these (`terminal_lawfulExit`, `terminal_lawfulVerbosity`). It
reads a command line without the options about the log as it reads the whole, but for what it says
about the log (`parseArguments_withoutVerbosity`), by induction on the arguments.
-/

namespace Midl.Command

/-! ## Options about the log -/

/-- Whether a letter stands for an option about the log. -/
def isVerbosityLetter (b : UInt8) : Bool := b = 'v'.toUInt8 || b = 'q'.toUInt8

/-- Whether an argument is about nothing but how much of the log is shown. -/
def isVerbosity (arg : Argument) : Bool :=
  arg = Utf8.bytes "--verbose" || arg = Utf8.bytes "--quiet"
    || (isOption arg && arg.tail.all isVerbosityLetter)

/-- A command line without the options about the log. After the separator there are none. -/
def withoutVerbosity : List Argument → List Argument
  | [] => []
  | arg :: args =>
    if arg = Utf8.bytes "--" then arg :: args
    else if isVerbosity arg then withoutVerbosity args
    else arg :: withoutVerbosity args

/-- What a command line says, as if it said nothing about the log. -/
def Cli.muted (cli : Cli) : Cli := { cli with verbose := 0, quiet := false }

/-! ## Assumptions -/

namespace Toolkit

/-- A command line is accepted if it makes sense. -/
def Accepts (kit : Toolkit) (args : List Argument) : Prop :=
  ∀ refusal, kit.parse args = .error refusal → refusal.kind ≠ .misuse

/-- What is assumed of exit codes. -/
structure LawfulExit (kit : Toolkit) : Prop where
  /-- A command line that makes no sense does not end in success. -/
  misuse {args : List Argument} {refusal : Refusal} :
    kit.parse args = .error refusal → refusal.kind = .misuse → refusal.report.exitCode ≠ 0
  /-- Asking for the version or for help does. -/
  answer {args : List Argument} {refusal : Refusal} :
    kit.parse args = .error refusal → refusal.kind ≠ .misuse → refusal.report.exitCode = 0

/-- What is assumed of the options about the log: they bear on nothing but the log. -/
structure LawfulVerbosity (kit : Toolkit) : Prop where
  /-- Two accepted command lines that are the same without these options say the same, but for what
  is about the log. -/
  aside {args₁ args₂ : List Argument} :
    withoutVerbosity args₁ = withoutVerbosity args₂ → kit.Accepts args₁ → kit.Accepts args₂ →
      (kit.parse args₁).map Cli.muted = (kit.parse args₂).map Cli.muted

end Toolkit

/-! ## The program's own parser -/

namespace Given

/-- What was given, as if nothing had been said about the log. -/
def muted (given : Given) : Given := { given with quiet := false, verbose := 0 }

section Muted

variable {given : Given}

/-- A path is added whatever was said about the log. -/
theorem addPath_muted (path : Path) :
    given.muted.addPath path = (given.addPath path).map muted := by
  unfold addPath
  change (if path = [] || 2 ≤ given.paths.length then _ else _) = _
  split <;> rfl

/-- So is an option that has a value. -/
theorem set_muted (setting : Setting) (value : List UInt8) :
    given.muted.set setting value = (given.set setting value).map muted := by
  cases setting with
  | package =>
    simp only [set, muted]
    cases given.packageName <;> cases text? value <;> rfl
  | typesPath =>
    simp only [set, muted]
    cases given.typesPath <;> cases text? value <;> rfl
  | indent =>
    simp only [set, muted]
    cases given.indent <;> cases width? value <;> rfl

/-- So is an option that has none, unless it is about the log itself. -/
theorem raise_muted {flag : Flag} (hverbose : flag ≠ .verbose) (hquiet : flag ≠ .quiet) :
    given.muted.raise flag = (given.raise flag).map muted := by
  cases flag with
  | noHeader =>
    by_cases hheader : given.noHeader = true <;> simp [raise, muted, hheader, Except.map]
  | verbose => exact absurd rfl hverbose
  | quiet => exact absurd rfl hquiet
  | version => rfl
  | help => rfl

/-- An option about the log is not noticed without what is about the log. -/
theorem raise_of_verbosity {flag : Flag} (hflag : flag = .verbose ∨ flag = .quiet)
    (h : given.raise flag ≠ .error .misuse) :
    ∃ found, given.raise flag = .ok found ∧ found.muted = given.muted := by
  obtain rfl | rfl := hflag
  · exact ⟨_, rfl, rfl⟩
  · by_cases hquiet : given.quiet = true
    · simp [raise, hquiet] at h
    · exact ⟨{ given with quiet := true }, by simp [raise, hquiet], rfl⟩

/-- A step that is not refused as misuse comes before what is not. -/
theorem ne_misuse_of_bind {step : Except RefusalKind Given}
    {next : Given → Except RefusalKind Given} (h : step >>= next ≠ .error .misuse) :
    step ≠ .error .misuse := by
  rintro rfl
  exact h rfl

end Muted

/-! ### Letters -/

/-- The letters about the log are those of its two options. -/
theorem ofLetter?_of_isVerbosityLetter {b : UInt8} (h : isVerbosityLetter b = true) :
    ∃ flag, Flag.ofLetter? b = some flag ∧ (flag = .verbose ∨ flag = .quiet) := by
  rw [isVerbosityLetter, Bool.or_eq_true, decide_eq_true_eq, decide_eq_true_eq] at h
  obtain rfl | rfl := h
  · exact ⟨.verbose, rfl, .inl rfl⟩
  · exact ⟨.quiet, rfl, .inr rfl⟩

/-- All other letters settle the matter. -/
theorem raise_of_not_isVerbosityLetter {b : UInt8} {flag : Flag}
    (h : isVerbosityLetter b = false) (hflag : Flag.ofLetter? b = some flag) :
    ∃ kind, ∀ given : Given, given.raise flag = .error kind := by
  rw [isVerbosityLetter, Bool.or_eq_false_iff, decide_eq_false_iff_not,
    decide_eq_false_iff_not] at h
  unfold Flag.ofLetter? at hflag
  rw [if_neg h.1, if_neg h.2] at hflag
  split at hflag
  · cases hflag
    exact ⟨.version, fun _ => rfl⟩
  · split at hflag
    · cases hflag
      exact ⟨.help, fun _ => rfl⟩
    · cases hflag

/-- Letters that are all about the log are not noticed without what is about the log. -/
theorem raiseAll_of_all {given : Given} {letters : List UInt8}
    (hall : letters.all isVerbosityLetter = true) (h : given.raiseAll letters ≠ .error .misuse) :
    ∃ found, given.raiseAll letters = .ok found ∧ found.muted = given.muted := by
  induction letters generalizing given with
  | nil => exact ⟨given, rfl, rfl⟩
  | cons letter letters ih =>
    rw [List.all_cons, Bool.and_eq_true] at hall
    obtain ⟨flag, hletter, hflag⟩ := ofLetter?_of_isVerbosityLetter hall.1
    simp only [raiseAll, hletter] at h ⊢
    obtain ⟨raised, hraised, hmuted⟩ := raise_of_verbosity hflag (ne_misuse_of_bind h)
    rw [hraised] at h ⊢
    obtain ⟨found, hfound, hsame⟩ := ih hall.2 h
    exact ⟨found, hfound, hsame.trans hmuted⟩

/-- If some letter is not about the log, then the letters settle the matter, in the same way if less
was said about the log before. -/
theorem raiseAll_of_not_all {given given' : Given} {letters : List UInt8}
    (hall : letters.all isVerbosityLetter = false)
    (hquiet : given'.quiet = true → given.quiet = true) (h : given.raiseAll letters ≠ .error .misuse) :
    ∃ kind, given.raiseAll letters = .error kind ∧ given'.raiseAll letters = .error kind := by
  induction letters generalizing given given' with
  | nil => cases hall
  | cons letter letters ih =>
    rw [raiseAll] at h ⊢
    rw [raiseAll]
    cases hletter : Flag.ofLetter? letter with
    | none =>
      rw [hletter] at h
      exact absurd rfl h
    | some flag =>
      rw [hletter] at h
      dsimp only at h ⊢
      cases hverbosity : isVerbosityLetter letter with
      | false =>
        obtain ⟨kind, hkind⟩ := raise_of_not_isVerbosityLetter hverbosity hletter
        rw [hkind, hkind]
        exact ⟨kind, rfl, rfl⟩
      | true =>
        have hrest : letters.all isVerbosityLetter = false := by
          simpa [hverbosity] using hall
        obtain ⟨flag', hletter', hflag⟩ := ofLetter?_of_isVerbosityLetter hverbosity
        obtain rfl := Option.some.inj (hletter.symm.trans hletter')
        obtain rfl | rfl := hflag
        · exact ih hrest hquiet h
        · cases hgiven : given.quiet with
          | true =>
            rw [raise, hgiven] at h
            exact absurd rfl h
          | false =>
            have hgiven' : given'.quiet = false := by
              cases hcase : given'.quiet with
              | false => rfl
              | true => exact absurd (hquiet hcase) (by simp [hgiven])
            simp only [raise, hgiven] at h ⊢
            simp only [hgiven']
            exact ih hrest (fun _ => rfl) h

end Given

/-! ### Words -/

namespace Word

/-- The separator is written in one way. -/
theorem ofArgument_eq_separator_iff {arg : Argument} :
    ofArgument arg = .separator ↔ arg = Utf8.bytes "--" := by
  refine ⟨fun h => ?_, ?_⟩
  · unfold ofArgument at h
    split at h
    · rename_i hoption
      split at h
      · rename_i htail
        cases arg with
        | nil => cases htail
        | cons b bs =>
          simp only [isOption, List.head?_cons, Bool.and_eq_true, decide_eq_true_eq,
            Option.some.injEq] at hoption
          rw [hoption.1, show bs = ['-'.toUInt8] from htail]
          rfl
      · split at h
        · unfold ofOption at h
          dsimp only at h
          split at h <;> cases h
        · cases h
    · cases h
  · rintro rfl
    rfl

/-- An option without a value whose name is written out has the name of a flag. -/
theorem ofName?_of_ofOption {option : List UInt8} {flag : Flag} (h : ofOption option = .flag flag) :
    Flag.ofName? option = some flag := by
  unfold ofOption at h
  dsimp only at h
  split at h
  case h_3 hflag hdrop =>
    cases h
    have htake : option.takeWhile (· ≠ '='.toUInt8) = option := by
      have hsplit := List.takeWhile_append_dropWhile (p := (· ≠ '='.toUInt8)) (l := option)
      rwa [hdrop, List.append_nil] at hsplit
    rwa [htake] at hflag
  all_goals cases h

/-- The flags about the log have one name each. -/
theorem option_of_ofName? {option : List UInt8} {flag : Flag}
    (hflag : flag = .verbose ∨ flag = .quiet) (h : Flag.ofName? option = some flag) :
    option = Utf8.bytes "verbose" ∨ option = Utf8.bytes "quiet" := by
  unfold Flag.ofName? at h
  split at h
  · cases h
    simp at hflag
  · split at h
    · exact .inl ‹_›
    · split at h
      · exact .inr ‹_›
      · split at h
        · cases h
          simp at hflag
        · split at h
          · cases h
            simp at hflag
          · cases h

/-- An option begins with a dash. -/
theorem eq_of_isOption {arg : Argument} (h : isOption arg = true) :
    arg = '-'.toUInt8 :: arg.tail := by
  cases arg with
  | nil => cases h
  | cons b bs =>
    simp only [isOption, List.head?_cons, Bool.and_eq_true, decide_eq_true_eq,
      Option.some.injEq] at h
    rw [h.1, List.tail_cons]

/-- What an argument is that is about the log. -/
theorem ofArgument_of_isVerbosity {arg : Argument} (h : isVerbosity arg = true) :
    (∃ flag, (flag = .verbose ∨ flag = .quiet) ∧ ofArgument arg = .flag flag) ∨
    ∃ letters, letters.all isVerbosityLetter = true ∧ ofArgument arg = .letters letters := by
  rw [isVerbosity, Bool.or_eq_true, Bool.or_eq_true, decide_eq_true_eq, decide_eq_true_eq,
    Bool.and_eq_true] at h
  obtain (rfl | rfl) | ⟨hoption, hall⟩ := h
  · exact .inl ⟨.verbose, .inl rfl, rfl⟩
  · exact .inl ⟨.quiet, .inr rfl, rfl⟩
  · refine .inr ⟨arg.tail, hall, ?_⟩
    have hdash : arg.tail.head? ≠ some '-'.toUInt8 := by
      cases htail : arg.tail with
      | nil => simp
      | cons b bs =>
        rw [htail, List.all_cons, Bool.and_eq_true] at hall
        rintro hb
        cases hb
        cases hall.1
    unfold ofArgument
    rw [if_pos hoption, if_neg (fun htail => hdash (by rw [htail]; rfl)), if_neg hdash]

/-- An option about the log whose name is written out is an argument about the log. -/
theorem ne_of_not_isVerbosity {arg : Argument} {flag : Flag} (h : isVerbosity arg = false)
    (hflag : ofArgument arg = .flag flag) : flag ≠ .verbose ∧ flag ≠ .quiet := by
  rw [← not_or]
  intro hverbosity
  unfold ofArgument at hflag
  split at hflag
  · rename_i hoption
    split at hflag
    · cases hflag
    · split at hflag
      · rename_i hdash
        have htail : arg.tail = '-'.toUInt8 :: arg.tail.tail := by
          obtain ⟨rest, hrest⟩ := List.head?_eq_some_iff.mp hdash
          rw [hrest, List.tail_cons]
        have harg : arg = '-'.toUInt8 :: '-'.toUInt8 :: arg.tail.tail := by
          rw [← htail]
          exact eq_of_isOption hoption
        obtain hname | hname := option_of_ofName? hverbosity (ofName?_of_ofOption hflag)
        · rw [harg, hname] at h
          cases h
        · rw [harg, hname] at h
          cases h
      · cases hflag
  · cases hflag

/-- Letters that are all about the log are an argument about the log. -/
theorem all_of_not_isVerbosity {arg : Argument} {letters : List UInt8}
    (h : isVerbosity arg = false) (hletters : ofArgument arg = .letters letters) :
    letters.all isVerbosityLetter = false := by
  rw [isVerbosity, Bool.or_eq_false_iff] at h
  unfold ofArgument at hletters
  split at hletters
  · rename_i hoption
    split at hletters
    · cases hletters
    · split at hletters
      · unfold ofOption at hletters
        dsimp only at hletters
        split at hletters <;> cases hletters
      · cases hletters
        simpa [hoption] using h.2
  · cases hletters

end Word

/-! ### Command lines -/

section Without

variable {arg : Argument} {args : List Argument}

/-- An argument about the log is left out. -/
theorem withoutVerbosity_of_isVerbosity (h : isVerbosity arg = true) :
    withoutVerbosity (arg :: args) = withoutVerbosity args := by
  have hseparator : arg ≠ Utf8.bytes "--" := by
    rintro rfl
    cases h
  rw [withoutVerbosity, if_neg hseparator, if_pos h]

/-- An argument that is not about the log stays. -/
theorem withoutVerbosity_of_word (h : isVerbosity arg = false)
    (hword : Word.ofArgument arg ≠ .separator) :
    withoutVerbosity (arg :: args) = arg :: withoutVerbosity args := by
  have hseparator : arg ≠ Utf8.bytes "--" :=
    fun harg => hword (Word.ofArgument_eq_separator_iff.mpr harg)
  rw [withoutVerbosity, if_neg hseparator, if_neg (by simp [h])]

/-- An argument that is no option stays. -/
theorem withoutVerbosity_of_not_isOption (h : isOption arg = false) :
    withoutVerbosity (arg :: args) = arg :: withoutVerbosity args := by
  have hpath : Word.ofArgument arg = .path := by
    rw [Word.ofArgument, if_neg (by simp [h])]
  refine withoutVerbosity_of_word ?_ (by simp [hpath])
  cases hverbosity : isVerbosity arg with
  | false => rfl
  | true =>
    obtain ⟨flag, -, hword⟩ | ⟨letters, -, hword⟩ := Word.ofArgument_of_isVerbosity hverbosity
    · cases hpath.symm.trans hword
    · cases hpath.symm.trans hword

end Without

namespace Given

section Reading

variable {given : Given}

/-- What is read after a step that does not notice what is said about the log. -/
theorem bind_muted {step step' : Except RefusalKind Given}
    {next next' : Given → Except RefusalKind Given} (hstep : step' = step.map muted)
    (hnext : ∀ found, step = .ok found → next found ≠ .error .misuse →
      next' found.muted = (next found).map muted)
    (h : step >>= next ≠ .error .misuse) : step' >>= next' = (step >>= next).map muted := by
  subst hstep
  cases step with
  | error kind => rfl
  | ok found => exact hnext found rfl h

/-- Paths are read whatever was said about the log. -/
theorem readFrom_true_muted (args : List Argument) :
    given.muted.readFrom true args = (given.readFrom true args).map muted := by
  induction args generalizing given with
  | nil => rfl
  | cons arg args ih =>
    rw [readFrom, readFrom, if_pos rfl, if_pos rfl, addPath_muted]
    cases given.addPath arg with
    | error kind => rfl
    | ok found => exact ih

end Reading

/-- A command line that makes sense is read without the options about the log as it is read with
them, but for what they say. -/
theorem readFrom_muted {given : Given} : (args : List Argument) →
    given.readFrom false args ≠ .error .misuse →
      given.muted.readFrom false (withoutVerbosity args) = (given.readFrom false args).map muted
  | [], _ => rfl
  | arg :: args, h => by
    cases hverbosity : isVerbosity arg with
    | true =>
      rw [withoutVerbosity_of_isVerbosity hverbosity]
      obtain ⟨flag, hflag, hword⟩ | ⟨letters, hall, hword⟩ :=
        Word.ofArgument_of_isVerbosity hverbosity
      · simp only [readFrom, hword, Bool.false_eq_true, if_false] at h ⊢
        obtain ⟨found, hfound, hmuted⟩ := raise_of_verbosity hflag (ne_misuse_of_bind h)
        rw [hfound] at h ⊢
        rw [← hmuted]
        exact readFrom_muted args h
      · simp only [readFrom, hword, Bool.false_eq_true, if_false] at h ⊢
        obtain ⟨found, hfound, hmuted⟩ := raiseAll_of_all hall (ne_misuse_of_bind h)
        rw [hfound] at h ⊢
        rw [← hmuted]
        exact readFrom_muted args h
    | false =>
      cases hword : Word.ofArgument arg with
      | separator =>
        obtain rfl := Word.ofArgument_eq_separator_iff.mp hword
        exact readFrom_true_muted args
      | setting setting value? =>
        rw [withoutVerbosity_of_word hverbosity (by simp [hword])]
        cases value? with
        | some value =>
          simp only [readFrom, hword, Bool.false_eq_true, if_false] at h ⊢
          exact bind_muted (set_muted setting value) (fun _ _ => readFrom_muted args) h
        | none =>
          cases args with
          | nil =>
            simp only [readFrom, hword] at h
            exact absurd rfl h
          | cons value args =>
            cases hoption : isOption value with
            | true =>
              simp only [readFrom, hword, hoption] at h
              exact absurd rfl h
            | false =>
              rw [withoutVerbosity_of_not_isOption hoption]
              simp only [readFrom, hword, hoption, Bool.false_eq_true, if_false] at h ⊢
              exact bind_muted (set_muted setting value) (fun _ _ => readFrom_muted args) h
      | flag flag =>
        obtain ⟨hverbose, hquiet⟩ := Word.ne_of_not_isVerbosity hverbosity hword
        rw [withoutVerbosity_of_word hverbosity (by simp [hword])]
        simp only [readFrom, hword, Bool.false_eq_true, if_false] at h ⊢
        exact bind_muted (raise_muted hverbose hquiet) (fun _ _ => readFrom_muted args) h
      | letters letters =>
        rw [withoutVerbosity_of_word hverbosity (by simp [hword])]
        simp only [readFrom, hword, Bool.false_eq_true, if_false] at h ⊢
        -- some letter settles the matter, so nothing after the letters is looked at
        obtain ⟨kind, hkind, hkind'⟩ := @raiseAll_of_not_all given given.muted letters
          (Word.all_of_not_isVerbosity hverbosity hword) (fun hquiet => by cases hquiet)
          (ne_misuse_of_bind h)
        rw [hkind, hkind']
        rfl
      | path =>
        rw [withoutVerbosity_of_word hverbosity (by simp [hword])]
        simp only [readFrom, hword, Bool.false_eq_true, if_false] at h ⊢
        exact bind_muted (addPath_muted arg) (fun _ _ => readFrom_muted args) h
      | unknown =>
        simp only [readFrom, hword] at h
        exact absurd rfl h
termination_by args => args.length

/-- So is what was given as a whole. -/
theorem finish_muted {given : Given} (h : given.finish ≠ .error .misuse) :
    given.muted.finish = given.finish.map Cli.muted := by
  obtain ⟨paths, packageName, typesPath, indent, noHeader, quiet, verbose⟩ := given
  obtain _ | ⟨input, _ | ⟨output, _ | ⟨third, rest⟩⟩⟩ := paths
  · exact absurd rfl h
  · exact absurd rfl h
  · by_cases hconflict : (quiet && 0 < verbose) = true
    · exact absurd (if_pos hconflict) h
    · simp only [finish]
      rw [if_neg hconflict]
      rfl
  · exact absurd rfl h

end Given

/-- What the parser says goes by why it refuses a command line. -/
theorem refusal_of_parseArguments {args : List Argument} {refusal : Refusal}
    (h : parseArguments args = .error refusal) : ∃ kind, refusal = ⟨kind, kind.report⟩ := by
  unfold parseArguments at h
  cases hread : Given.readFrom {} false args >>= Given.finish with
  | error kind =>
    rw [hread] at h
    exact ⟨kind, (Except.error.inj h).symm⟩
  | ok cli =>
    rw [hread] at h
    cases h

/-- Without the options about the log, a command line that is accepted says the same about all
else. -/
theorem parseArguments_withoutVerbosity {color : Bool} {args : List Argument}
    (h : (terminal color).Accepts args) :
    parseArguments (withoutVerbosity args) = (parseArguments args).map Cli.muted := by
  have hsense : (Given.readFrom {} false args >>= Given.finish) ≠ .error .misuse := by
    intro hmisuse
    refine h ⟨.misuse, RefusalKind.misuse.report⟩ ?_ rfl
    change parseArguments args = _
    rw [parseArguments, hmisuse]
    rfl
  have hread : Given.readFrom {} false (withoutVerbosity args) =
      (Given.readFrom {} false args).map Given.muted :=
    @Given.readFrom_muted {} args fun hmisuse => hsense (by rw [hmisuse]; rfl)
  unfold parseArguments
  rw [hread]
  cases hgiven : Given.readFrom {} false args with
  | error kind => rfl
  | ok given =>
    rw [hgiven] at hsense
    change (given.muted.finish.mapError _) = _
    rw [Given.finish_muted hsense]
    change _ = (given.finish.mapError _).map Cli.muted
    cases given.finish with
    | error kind => rfl
    | ok cli => rfl

/-- The program's own tools are as assumed of exit codes. -/
theorem terminal_lawfulExit (color : Bool) : (terminal color).LawfulExit where
  misuse := by
    intro args refusal hrefused hkind
    obtain ⟨kind, rfl⟩ := refusal_of_parseArguments hrefused
    obtain rfl : kind = .misuse := hkind
    decide
  answer := by
    intro args refusal hrefused hkind
    obtain ⟨kind, rfl⟩ := refusal_of_parseArguments hrefused
    cases kind with
    | misuse => exact absurd rfl hkind
    | version => rfl
    | help => rfl

/-- They are as assumed of the options about the log. -/
theorem terminal_lawfulVerbosity (color : Bool) : (terminal color).LawfulVerbosity where
  aside := by
    intro args₁ args₂ hsame h₁ h₂
    change (parseArguments args₁).map Cli.muted = (parseArguments args₂).map Cli.muted
    rw [← parseArguments_withoutVerbosity h₁, hsame, parseArguments_withoutVerbosity h₂]

end Midl.Command
