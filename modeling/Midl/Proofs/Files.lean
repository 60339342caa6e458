import Midl.Proofs.Arguments

/-!
# What the command does to files

Only one file is ever touched, and only when there is something to write: a run that fails leaves
the tree of files as it was, and one that succeeds has put the output where its path leads
(`run_all_or_nothing`). Paths are followed through directories, and a new file is put into a
directory that is there, so which places are directories does not change (`isDirectory_put`), and
paths lead where they led before (`walk_of_same_directories`).
-/

namespace Midl

namespace FileTree

/-- The place that a path leads to: that of its last name in the directory that the others lead
to. -/
def place (tree : FileTree) (path : Path) : Except FileError (List Name) := do
  let parent ← tree.walk (tree.start path) (names path).dropLast
  return parent ++ [(names path).getLastD []]

/-- If two steps end well, then so does the first, and the second after it. -/
theorem ok_of_bind {α β : Type} {result : Except FileError α} {next : α → Except FileError β}
    {b : β} (h : result >>= next = .ok b) : ∃ a, result = .ok a ∧ next a = .ok b := by
  cases result with
  | error error => cases h
  | ok a => exact ⟨a, rfl, h⟩

/-! ## Directories -/

section Directories

variable {tree : FileTree} {spot other next : List Name} {name : Name}

/-- A place is a directory if it is on the way to one that is listed, or something lies in it. -/
theorem isDirectory_iff (tree : FileTree) (spot : List Name) :
    tree.isDirectory spot = true ↔
      (∃ directory ∈ tree.home :: tree.directories, spot <+: directory) ∨
      ∃ file ∈ tree.files, spot <+: file.1 ∧ spot ≠ file.1 := by
  simp [isDirectory]

/-- On the way to a directory there are directories only. -/
theorem isDirectory_of_prefix (h : spot <+: other) (hother : tree.isDirectory other = true) :
    tree.isDirectory spot = true := by
  rw [isDirectory_iff] at hother ⊢
  obtain ⟨directory, hmem, hdirectory⟩ | ⟨file, hmem, hfile, hne⟩ := hother
  · exact .inl ⟨directory, hmem, h.trans hdirectory⟩
  · refine .inr ⟨file, hmem, h.trans hfile, ?_⟩
    rintro rfl
    exact hne (hfile.eq_of_length_le h.length_le)

/-- A path starts from a directory. -/
theorem isDirectory_start (tree : FileTree) (path : Path) :
    tree.isDirectory (tree.start path) = true := by
  have hhome : tree.isDirectory tree.home = true :=
    (isDirectory_iff tree _).mpr (.inl ⟨tree.home, List.mem_cons_self, List.prefix_rfl⟩)
  unfold start
  split
  · exact isDirectory_of_prefix List.nil_prefix hhome
  · exact hhome

/-- Where a name leads to, if it leads anywhere. -/
theorem enter_eq_ok_iff :
    tree.enter spot name = .ok next ↔
      (name = up ∧ next = spot.dropLast) ∨
      (name ≠ up ∧ isStep name = true ∧ next = spot) ∨
      (isStep name = false ∧ checkName name = .ok () ∧ next = spot ++ [name] ∧
        tree.isDirectory next = true) := by
  unfold enter
  refine ⟨fun h => ?_, ?_⟩
  · split at h
    · exact .inl ⟨‹_›, (Except.ok.inj h).symm⟩
    · rename_i hup
      split at h
      · exact .inr (.inl ⟨hup, ‹_›, (Except.ok.inj h).symm⟩)
      · rename_i hstep
        obtain ⟨_, hcheck, h⟩ := ok_of_bind h
        dsimp only at h
        split at h
        · obtain rfl := Except.ok.inj h
          exact .inr (.inr ⟨by simpa using hstep, hcheck, rfl, ‹_›⟩)
        · split at h <;> cases h
  · rintro (⟨rfl, rfl⟩ | ⟨hup, hstep, rfl⟩ | ⟨hstep, hcheck, rfl, hdirectory⟩)
    · rw [if_pos rfl]
    · rw [if_neg hup, if_pos hstep]
    · have hup : name ≠ up := by
        rintro rfl
        cases hstep
      rw [if_neg hup, if_neg (by simp [hstep]), hcheck]
      exact if_pos hdirectory

/-- A name that leads anywhere from a directory leads to one. -/
theorem isDirectory_enter (hspot : tree.isDirectory spot = true)
    (h : tree.enter spot name = .ok next) : tree.isDirectory next = true := by
  obtain ⟨-, rfl⟩ | ⟨-, -, rfl⟩ | ⟨-, -, -, hnext⟩ := enter_eq_ok_iff.mp h
  · exact isDirectory_of_prefix (List.dropLast_prefix spot) hspot
  · exact hspot
  · exact hnext

/-- Names are followed one after the other. -/
theorem walk_cons_eq_ok {names : List Name} (h : tree.walk spot (name :: names) = .ok next) :
    ∃ found, tree.enter spot name = .ok found ∧ tree.walk found names = .ok next := by
  rw [walk, List.foldlM_cons] at h
  exact ok_of_bind h

/-- Names that lead anywhere from a directory lead to one. -/
theorem isDirectory_walk {names : List Name} (hspot : tree.isDirectory spot = true)
    (h : tree.walk spot names = .ok next) : tree.isDirectory next = true := by
  induction names generalizing spot with
  | nil =>
    obtain rfl := Except.ok.inj h
    exact hspot
  | cons name names ih =>
    obtain ⟨found, henter, hwalk⟩ := walk_cons_eq_ok h
    exact ih (isDirectory_enter hspot henter) hwalk

/-- Where paths lead to depends on directories alone. -/
theorem walk_of_same_directories {tree' : FileTree} {names : List Name}
    (hsame : ∀ spot, tree'.isDirectory spot = tree.isDirectory spot)
    (h : tree.walk spot names = .ok next) : tree'.walk spot names = .ok next := by
  induction names generalizing spot with
  | nil => exact h
  | cons name names ih =>
    obtain ⟨found, henter, hwalk⟩ := walk_cons_eq_ok h
    have henter' : tree'.enter spot name = .ok found := by
      rw [enter_eq_ok_iff] at henter ⊢
      rwa [hsame]
    rw [walk, List.foldlM_cons, henter']
    exact ih hwalk

/-- A file that is put into a directory makes no difference to what is a directory. -/
theorem isDirectory_put (hspot : tree.isDirectory spot = true) (name : Name)
    (bytes : List UInt8) (other : List Name) :
    (tree.put (spot ++ [name]) bytes).isDirectory other = tree.isDirectory other := by
  rw [Bool.eq_iff_iff, isDirectory_iff, isDirectory_iff]
  refine ⟨?_, ?_⟩
  · rintro (hlisted | ⟨file, hmem, hprefix, hne⟩)
    · exact .inl hlisted
    · obtain rfl | hmem := List.mem_cons.mp hmem
      · obtain rfl | hprefix := List.prefix_concat_iff.mp hprefix
        · exact absurd rfl hne
        · rw [← isDirectory_iff]
          exact isDirectory_of_prefix hprefix hspot
      · exact .inr ⟨file, (List.mem_filter.mp hmem).1, hprefix, hne⟩
  · rintro (hlisted | ⟨file, hmem, hprefix, hne⟩)
    · exact .inl hlisted
    · by_cases hfile : file.1 = spot ++ [name]
      · rw [hfile] at hprefix hne
        exact .inr ⟨_, List.mem_cons_self, hprefix, hne⟩
      · exact .inr ⟨file, List.mem_cons_of_mem _ (List.mem_filter.mpr ⟨hmem, by simpa using hfile⟩),
          hprefix, hne⟩

end Directories

/-! ## Reading and writing -/

section ReadWrite

variable {tree tree' : FileTree} {path : Path} {bytes : List UInt8}

/-- What is read is what is in the file that a path leads to, unless it leads to a directory. -/
theorem read_cases {source : Source} (h : tree.read path = .ok source) :
    source = unreadable ∨ ∃ spot bytes, tree.place path = .ok spot ∧
      tree.content? spot = some bytes ∧ source = .ofBytes bytes := by
  unfold read at h
  obtain ⟨_, -, h⟩ := ok_of_bind h
  dsimp only at h
  split at h
  · obtain ⟨_, -, h⟩ := ok_of_bind h
    exact .inl (Except.ok.inj h).symm
  · obtain ⟨parent, hparent, h⟩ := ok_of_bind h
    obtain ⟨_, -, h⟩ := ok_of_bind h
    have hplace : tree.place path = .ok (parent ++ [(names path).getLastD []]) := by
      rw [place, hparent]
      rfl
    cases hcontent : tree.content? (parent ++ [(names path).getLastD []]) with
    | some bytes =>
      rw [hcontent] at h
      exact .inr ⟨_, bytes, hplace, hcontent, (Except.ok.inj h).symm⟩
    | none =>
      rw [hcontent] at h
      dsimp only at h
      split at h
      · exact .inl (Except.ok.inj h).symm
      · cases h

/-- The names up to the last that is not empty are all names, unless the last is empty. -/
theorem trimmed_eq {names : List Name}
    (h : ¬ (names.reverse.dropWhile (· = [])).reverse.length < names.length) :
    (names.reverse.dropWhile (· = [])).reverse = names := by
  have hsuffix : names.reverse.dropWhile (· = []) <:+ names.reverse := List.dropWhile_suffix _
  rw [hsuffix.eq_of_length_le (by simpa using h), List.reverse_reverse]

/-- What is written is put at the place that a path leads to, in a directory that is there. -/
theorem write_cases (h : tree.write path bytes = .ok tree') :
    ∃ parent name, tree.place path = .ok (parent ++ [name]) ∧ tree.isDirectory parent = true ∧
      tree' = tree.put (parent ++ [name]) bytes := by
  unfold write at h
  obtain ⟨_, -, h⟩ := ok_of_bind h
  dsimp only at h
  obtain ⟨parent, hparent, h⟩ := ok_of_bind h
  split at h
  · cases h
  · rename_i hnamed
    simp only [Bool.or_eq_true, decide_eq_true_eq, not_or] at hnamed
    rw [trimmed_eq hnamed.2] at hparent h
    obtain ⟨_, -, h⟩ := ok_of_bind h
    split at h
    · cases h
    · refine ⟨parent, (names path).getLastD [], ?_, ?_, (Except.ok.inj h).symm⟩
      · rw [place, hparent]
        rfl
      · exact isDirectory_walk (isDirectory_start tree path) hparent

/-- After writing, the content is at the place that the path leads to, before and after, and nothing
else has changed. -/
theorem written (h : tree.write path bytes = .ok tree') :
    ∃ spot, tree.place path = .ok spot ∧ tree'.place path = .ok spot ∧
      tree'.content? spot = some bytes ∧
      (∀ other, other ≠ spot → tree'.content? other = tree.content? other) ∧
      ∀ other, tree'.isDirectory other = tree.isDirectory other := by
  obtain ⟨parent, name, hplace, hparent, rfl⟩ := write_cases h
  have hsame := isDirectory_put hparent name bytes
  refine ⟨_, hplace, ?_, content?_put_self .., fun other => content?_put_of_ne tree bytes, hsame⟩
  obtain ⟨found, hfound, hlast⟩ := ok_of_bind hplace
  rw [place]
  change (do
    let parent ← (tree.put (parent ++ [name]) bytes).walk (tree.start path) (names path).dropLast
    return parent ++ [(names path).getLastD []]) = _
  rw [walk_of_same_directories hsame hfound]
  exact hlast

end ReadWrite

end FileTree

namespace Command

/-! ## Runs -/

/-- Reading a directory fails, so there is no output for one. -/
theorem compile_unreadable (settings : Output.Settings) :
    ∃ failure, (compile settings FileTree.unreadable).result = .error failure := by
  have hfails : FileTree.unreadable.read.result.toOption = none := by decide +kernel
  cases hresult : FileTree.unreadable.read.result with
  | error error => exact ⟨.source error, by rw [compile_of_error hresult]⟩
  | ok ds =>
    rw [hresult] at hfails
    cases hfails

section Perform

variable {tree tree' : FileTree}

/-- Two steps on a tree, of which the second sees what the first has left. -/
theorem bind_apply (work : StateM FileTree α) (next : α → StateM FileTree β) (tree : FileTree) :
    (work >>= next) tree = next (work tree).1 (work tree).2 := rfl

/-- Reading leaves the tree as it is. -/
theorem read_apply (path : Path) (tree : FileTree) :
    (Files.read path : StateM FileTree _) tree = (tree.read path, tree) := rfl

/-- Writing that succeeds leaves the tree with the new content. -/
theorem write_of_ok {path : Path} {bytes : List UInt8} (h : tree.write path bytes = .ok tree') :
    (Files.write path bytes : StateM FileTree _) tree = (.ok (), tree') := by
  simp only [Files.write, h]

/-- Writing that fails leaves the tree as it is. -/
theorem write_of_error {path : Path} {bytes : List UInt8} {error : FileError}
    (h : tree.write path bytes = .error error) :
    (Files.write path bytes : StateM FileTree _) tree = (.error error, tree) := by
  simp only [Files.write, h]

/-- A translation is not done and leaves the files alone, or it is done and its output is
written. -/
theorem perform_cases (cli : Cli) (tree : FileTree) :
    (∃ outcome, (cli.perform : StateM FileTree Outcome) tree = (outcome, tree) ∧
      outcome.conclusion ≠ .done) ∨
    ∃ outcome source generated tree', (cli.perform : StateM FileTree Outcome) tree =
        (outcome, tree') ∧
      outcome.conclusion = .done ∧ tree.read cli.input = .ok source ∧
      (compile cli.generatorConfig source).result = .ok generated ∧
      tree.write cli.output (Utf8.bytes generated.source) = .ok tree' := by
  rw [Cli.perform, bind_apply, read_apply]
  dsimp only
  cases hread : tree.read cli.input with
  | error error => exact .inl ⟨_, rfl, by simp⟩
  | ok source =>
    dsimp only
    cases hresult : (compile cli.generatorConfig source).result with
    | error failure =>
      cases failure with
      | source error => exact .inl ⟨_, rfl, by simp⟩
      | fault fault => exact .inl ⟨_, rfl, by simp⟩
    | ok generated =>
      dsimp only
      rw [bind_apply]
      cases hwrite : tree.write cli.output (Utf8.bytes generated.source) with
      | error error =>
        rw [write_of_error hwrite]
        exact .inl ⟨_, rfl, by simp⟩
      | ok tree' =>
        rw [write_of_ok hwrite]
        exact .inr ⟨_, source, generated, tree', rfl, rfl, rfl, hresult, hwrite⟩

/-- A failure and a fault show in the exit code, and nothing else does. -/
theorem exitCode_eq_zero_iff (conclusion : Conclusion) :
    conclusion.exitCode = 0 ↔ conclusion = .done := by
  cases conclusion <;> simp [Conclusion.exitCode]

end Perform

section Run

variable {kit : Toolkit} {args : List Argument}

/-- A command line that is refused does nothing to files. -/
theorem run_of_refused {refusal : Refusal} (h : kit.parse args = .error refusal)
    (tree : FileTree) :
    (run kit args : StateM FileTree Report) tree = (refusal.report, tree) := by
  rw [run, h]
  rfl

/-- One that is not refused is done as it says. -/
theorem run_of_ok {cli : Cli} (h : kit.parse args = .ok cli) (tree : FileTree) :
    (run kit args : StateM FileTree Report) tree =
      (((cli.perform : StateM FileTree Outcome) tree).1.report kit cli,
        ((cli.perform : StateM FileTree Outcome) tree).2) := by
  rw [run, h]
  rfl

end Run

/-- The command is all or nothing, whatever tools it runs with, as long as exit codes are lawful. A
run that fails changes no file. One that succeeds was asked for the version or for help, or has
compiled what was in its input before the run, with the configuration that its command line says,
and has written the output: then this is what is found where the path of the output leads, be it the
input's own place, and all other files and all directories are as they were. Asking for the version
or for help succeeds and changes no file. -/
theorem run_all_or_nothing {kit : Toolkit} (hkit : kit.LawfulExit) (args : List Argument)
    (tree : FileTree) :
    let ran := (run kit args : StateM FileTree Report) tree
    (ran.1.exitCode ≠ 0 → ran.2 = tree) ∧
    (ran.1.exitCode = 0 →
      (∃ refusal, kit.parse args = .error refusal ∧
        (refusal.kind = .version ∨ refusal.kind = .help)) ∨
      ∃ cli origin target bytes generated,
        kit.parse args = .ok cli ∧
        tree.place cli.input = .ok origin ∧ tree.content? origin = some bytes ∧
        (compile cli.generatorConfig (.ofBytes bytes)).result = .ok generated ∧
        tree.place cli.output = .ok target ∧ ran.2.place cli.output = .ok target ∧
        ran.2.content? target = some (Utf8.bytes generated.source) ∧
        (∀ other, other ≠ target → ran.2.content? other = tree.content? other) ∧
        ∀ other, ran.2.isDirectory other = tree.isDirectory other) ∧
    ∀ refusal, kit.parse args = .error refusal →
      (refusal.kind = .version ∨ refusal.kind = .help) → ran.1.exitCode = 0 ∧ ran.2 = tree := by
  cases hparse : kit.parse args with
  | error refusal =>
    dsimp only
    rw [run_of_refused hparse]
    refine ⟨fun _ => rfl, fun hexit => .inl ⟨refusal, rfl, ?_⟩, ?_⟩
    · cases hkind : refusal.kind with
      | version => exact .inl rfl
      | help => exact .inr rfl
      | misuse => exact absurd hexit (hkit.misuse hparse hkind)
    · rintro refusal' hrefusal hasked
      obtain rfl := Except.error.inj hrefusal
      refine ⟨hkit.answer hparse fun hmisuse => ?_, rfl⟩
      rw [hmisuse] at hasked
      obtain hasked | hasked := hasked <;> cases hasked
  | ok cli =>
    dsimp only
    rw [run_of_ok hparse]
    obtain ⟨outcome, hperform, hconclusion⟩ |
      ⟨outcome, source, generated, tree', hperform, hconclusion, hread, hcompiled, hwrite⟩ :=
      perform_cases cli tree
    · rw [hperform]
      exact ⟨fun _ => rfl, fun hexit => absurd ((exitCode_eq_zero_iff _).mp hexit) hconclusion,
        fun refusal hrefusal => by cases hrefusal⟩
    · rw [hperform]
      refine ⟨fun hexit => absurd ((exitCode_eq_zero_iff _).mpr hconclusion) hexit,
        fun _ => .inr ?_, fun refusal hrefusal => by cases hrefusal⟩
      obtain ⟨target, hplace, hplace', hwritten, hothers, hdirectories⟩ := FileTree.written hwrite
      obtain rfl | ⟨origin, bytes, horigin, hbytes, rfl⟩ := FileTree.read_cases hread
      · -- a directory can be opened, but there is no output for it
        obtain ⟨failure, hfailure⟩ := compile_unreadable cli.generatorConfig
        cases hfailure.symm.trans hcompiled
      · exact ⟨cli, origin, target, bytes, generated, rfl, horigin, hbytes, hcompiled,
          hplace, hplace', hwritten, hothers, hdirectories⟩

/-- A source that declares an enumeration. -/
def enumText : String := "enum E \x7b\x7d"

/-- A working directory with such a file. -/
def enumTree : FileTree := { files := [([Utf8.bytes "in.idl"], Utf8.bytes enumText)] }

/-- A command line by which the output takes the place of the input. -/
def inPlace : List Argument := ["--no-header", "in.idl", "./in.idl"].map Utf8.bytes

/-- The output may take the place of the input. -/
theorem run_all_or_nothing_in_place :
    let ran := (run (terminal false) inPlace : StateM FileTree Report) enumTree
    ran.1.exitCode = 0 ∧ ∃ generated,
      (compile { layout := { header := false } } (.ofText enumText)).result = .ok generated ∧
      ran.2.content? [Utf8.bytes "in.idl"] = some (Utf8.bytes generated.source) := by
  have hparse : ((terminal false).parse inPlace).toOption =
      some ⟨Utf8.bytes "in.idl", Utf8.bytes "./in.idl", "idl", "wintypes", 4, true, 0, false⟩ := by
    decide +kernel
  have hexit : ((run (terminal false) inPlace : StateM FileTree Report)
      enumTree).1.exitCode = 0 := by
    decide +kernel
  refine ⟨hexit, ?_⟩
  obtain ⟨refusal, hrefused, -⟩ | ⟨cli, origin, target, bytes, generated, haccepted,
    horigin, hbytes, hcompiled, htarget, -, hwritten, -⟩ :=
    (run_all_or_nothing (terminal_lawfulExit false) inPlace enumTree).2.1 hexit
  · rw [hrefused] at hparse
    cases hparse
  · rw [haccepted] at hparse
    obtain rfl := Option.some.inj hparse
    have hplaces : (enumTree.place (Utf8.bytes "in.idl")).toOption = some [Utf8.bytes "in.idl"] ∧
        (enumTree.place (Utf8.bytes "./in.idl")).toOption = some [Utf8.bytes "in.idl"] := by
      decide +kernel
    rw [horigin, htarget] at hplaces
    obtain rfl : origin = [Utf8.bytes "in.idl"] := Option.some.inj hplaces.1
    obtain rfl : target = [Utf8.bytes "in.idl"] := Option.some.inj hplaces.2
    obtain rfl : Utf8.bytes enumText = bytes := Option.some.inj hbytes
    exact ⟨generated, hcompiled, hwritten⟩

/-- A run that is asked for help succeeds without being asked for the version, and there is no
output, although there would be something to write. -/
theorem help_leaves_no_output :
    let args := ["in.idl", "out.rs", "--help"].map Utf8.bytes
    let ran := (run (terminal false) args : StateM FileTree Report) enumTree
    ran.1.exitCode = 0 ∧
      (terminal false).parse args = .error ⟨.help, { exitCode := 0, stdout := helpText }⟩ ∧
      enumTree.content? [Utf8.bytes "in.idl"] = some (Utf8.bytes enumText) ∧
      (∃ generated, (compile {} (.ofText enumText)).result = .ok generated) ∧
      (enumTree.place (Utf8.bytes "out.rs")).toOption = some [Utf8.bytes "out.rs"] ∧
      ran.2.content? [Utf8.bytes "out.rs"] = none := by
  have hcompiled : (compile {} (.ofText enumText)).result.toOption.isSome = true := by
    decide +kernel
  refine ⟨by decide +kernel, by rfl, rfl, ?_, by decide +kernel, by decide +kernel⟩
  cases hresult : (compile {} (.ofText enumText)).result with
  | error failure =>
    rw [hresult] at hcompiled
    cases hcompiled
  | ok generated => exact ⟨generated, rfl⟩

end Command

end Midl
