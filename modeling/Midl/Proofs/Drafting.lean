import Midl.Output.Session

/-!
# What work adds to a draft

Work on a draft only ever appends to it, and returns to the level it started from. An `Addition`
is what was appended, with the text taken apart into lines that know how deeply they are nested.
A draft is written as text, line by line, with the indentation at hand (`Drafting.line`). That this
comes to the same as collecting lines and laying them out at the end is what `Writes.line` and
`Draft.add_add` say: `Draft.add` appends the rendering of the lines, and renderings of lines that
are written one after the other are renderings of all of them (`renderAll_append`).

`Writes` says exactly what some work appends at a level, and that it does not fail there. `Adds`
speaks of work that may fail: if it does not, then it has appended something with a given property.
Both are closed under doing one thing after the other, so what a larger piece of work appends is put
together from what its parts append.
-/

namespace Midl.Output

/-- A line of output. -/
inductive Line where
  /-- A line with nothing on it. -/
  | blank
  /-- Some content at a level of nesting. -/
  | content (level : Nat) (text : String)
deriving DecidableEq

/-- A line as text, up to and including its end. -/
def Line.render (indent : Nat) : Line → String
  | blank => "\n"
  | content level text => String.ofList (List.replicate (level * indent) ' ') ++ text ++ "\n"

/-- Lines as text. -/
def renderAll (indent : Nat) (lines : List Line) : String :=
  String.join (lines.map (Line.render indent))

/-- No lines are no text. -/
@[simp] theorem renderAll_nil (indent : Nat) : renderAll indent [] = "" := rfl

/-- The text of lines begins with the text of the first. -/
@[simp] theorem renderAll_cons (indent : Nat) (line : Line) (lines : List Line) :
    renderAll indent (line :: lines) = line.render indent ++ renderAll indent lines := by
  simp [renderAll]

/-- Lines after other lines are their text after the text of the others. -/
@[simp] theorem renderAll_append (indent : Nat) (lines later : List Line) :
    renderAll indent (lines ++ later) = renderAll indent lines ++ renderAll indent later := by
  simp [renderAll, String.join_append]

/-- What is appended to a draft. -/
@[ext] structure Addition where
  lines : List Line := []
  diagnostics : List Diagnostic := []
  log : List Event := []

namespace Addition

instance : Append Addition where
  append x y := ⟨x.lines ++ y.lines, x.diagnostics ++ y.diagnostics, x.log ++ y.log⟩

@[simp] theorem append_lines (x y : Addition) : (x ++ y).lines = x.lines ++ y.lines := rfl

@[simp] theorem append_diagnostics (x y : Addition) :
    (x ++ y).diagnostics = x.diagnostics ++ y.diagnostics := rfl

@[simp] theorem append_log (x y : Addition) : (x ++ y).log = x.log ++ y.log := rfl

end Addition

namespace Draft

/-- A draft with something appended to it, laid out with the indentation at hand. -/
def add (d : Draft) (x : Addition) : Draft where
  level := d.level
  indent := d.indent
  out := d.out ++ renderAll d.indent x.lines
  diagnostics := d.diagnostics ++ x.diagnostics.toArray
  log := d.log ++ x.log.toArray

@[simp] theorem add_level (d : Draft) (x : Addition) : (d.add x).level = d.level := rfl

@[simp] theorem add_empty (d : Draft) : d.add {} = d := by simp [add]

@[simp] theorem add_add (d : Draft) (x y : Addition) : (d.add x).add y = d.add (x ++ y) := by
  simp [add, String.append_assoc]

end Draft

namespace Drafting

/-- Some work, done at a level, gives a result and appends exactly this. -/
def Writes (work : Drafting α) (level : Nat) (a : α) (x : Addition) : Prop :=
  ∀ d : Draft, d.level = level → work d = .ok a (d.add x)

/-- Some work, done at a level, appends something of this kind unless it fails. -/
def Adds (work : Drafting α) (level : Nat) (kind : α → Addition → Prop) : Prop :=
  ∀ (d : Draft) (a : α) (d' : Draft), d.level = level → work d = .ok a d' →
    ∃ x, d' = d.add x ∧ kind a x

/-- Work goes on with what the work before it has left. -/
theorem bind_of_ok {work : Drafting α} {next : α → Drafting β} {a : α} {d d' : Draft}
    (h : work d = .ok a d') : (work >>= next) d = next a d' := by
  show EStateM.bind work next d = _
  rw [EStateM.bind, h]

/-- Work that has come to its end has come past the end of its first part. -/
theorem ok_of_bind {work : Drafting α} {next : α → Drafting β} {b : β} {d d'' : Draft}
    (h : (work >>= next) d = .ok b d'') : ∃ a d', work d = .ok a d' ∧ next a d' = .ok b d'' := by
  change EStateM.bind work next d = _ at h
  rw [EStateM.bind] at h
  cases hwork : work d with
  | error fault d' => simp [hwork] at h
  | ok a d' => exact ⟨a, d', rfl, by simpa [hwork] using h⟩

/-! ## Work that does not fail -/

section Writes

variable {level : Nat} {x y : Addition}

/-- A result alone appends nothing. -/
theorem Writes.pure (a : α) : Writes (pure a) level a {} := by
  intro d _
  rw [Draft.add_empty]
  rfl

/-- What is appended by two steps is appended one after the other. -/
theorem Writes.bind {work : Drafting α} {next : α → Drafting β} {a : α} {b : β}
    (h : Writes work level a x) (h' : Writes (next a) level b y) :
    Writes (work >>= next) level b (x ++ y) := by
  intro d hd
  rw [bind_of_ok (h d hd), h' (d.add x) hd, Draft.add_add]

/-- So it is if the first gives no result. -/
theorem Writes.seq {work : Drafting Unit} {next : Drafting β} {b : β}
    (h : Writes work level () x) (h' : Writes next level b y) :
    Writes (do work; next) level b (x ++ y) := Writes.bind h h'

/-- A blank line is appended. -/
theorem Writes.blank : Writes blank level () { lines := [.blank] } := by
  intro d _
  simp [Drafting.blank, Draft.add, Line.render]

/-- A line is appended at the level one stands at. -/
theorem Writes.line (text : String) :
    Writes (line text) level () { lines := [.content level text] } := by
  rintro d rfl
  simp [Drafting.line, Draft.add, Line.render]

/-- So are several. -/
theorem Writes.lines (texts : List String) :
    Writes (lines texts) level () { lines := texts.map (.content level) } := by
  induction texts with
  | nil => exact Writes.pure ()
  | cons text texts ih => exact Writes.seq (Writes.line text) ih

/-- An event is appended to the log. -/
theorem Writes.note (event : Event) : Writes (note event) level () { log := [event] } := by
  intro d _
  simp [Drafting.note, Draft.add]

/-- A diagnostic is appended, and to the log as well. -/
theorem Writes.report (diagnostic : Diagnostic) :
    Writes (report diagnostic) level ()
      { diagnostics := [diagnostic], log := [.skipped diagnostic] } := by
  intro d _
  simp [Drafting.report, Draft.add]

/-- A result that is there appends nothing. -/
theorem Writes.attempt {result : Except Fault α} {a : α} (h : result = .ok a) :
    Writes (attempt result) level a {} := by
  intro d _
  rw [Draft.add_empty, h]
  rfl

/-- Work goes on with a result that is there. -/
theorem Writes.attemptBind {result : Except Fault α} {next : α → Drafting β} {a : α} {b : β}
    (h : result = .ok a) (h' : Writes (next a) level b y) :
    Writes (Drafting.attempt result >>= next) level b y := by
  intro d hd
  rw [bind_of_ok (Writes.attempt h d hd), Draft.add_empty, h' d hd]

end Writes

/-! ## Work that may fail -/

section Adds

variable {level : Nat} {x : Addition}

/-- What is known exactly is known. -/
theorem Writes.adds {work : Drafting α} {a : α} (h : Writes work level a x) :
    Adds work level fun b y => b = a ∧ y = x := by
  intro d b d' hd hrun
  rw [h d hd] at hrun
  obtain ⟨rfl, rfl⟩ := EStateM.Result.ok.inj hrun
  exact ⟨x, rfl, rfl, rfl⟩

/-- Less can be said of what is appended. -/
theorem Adds.mono {work : Drafting α} {kind kind' : α → Addition → Prop}
    (h : Adds work level kind) (himp : ∀ a x, kind a x → kind' a x) : Adds work level kind' := by
  intro d a d' hd hrun
  obtain ⟨x, hx, hk⟩ := h d a d' hd hrun
  exact ⟨x, hx, himp a x hk⟩

/-- What can be said of two steps is said of what they append together. -/
theorem Adds.bind {work : Drafting α} {next : α → Drafting β} {kind : α → Addition → Prop}
    {kind' : β → Addition → Prop} (h : Adds work level kind)
    (h' : ∀ a x, kind a x → Adds (next a) level fun b y => kind' b (x ++ y)) :
    Adds (work >>= next) level kind' := by
  intro d b d'' hd hrun
  obtain ⟨a, d', hwork, hnext⟩ := ok_of_bind hrun
  obtain ⟨x, rfl, hx⟩ := h d a d' hd hwork
  obtain ⟨y, rfl, hy⟩ := h' a x hx (d.add x) b d'' hd hnext
  exact ⟨x ++ y, Draft.add_add .., hy⟩

/-- A result appends nothing, or the work fails. -/
theorem Adds.attempt (result : Except Fault α) :
    Adds (attempt result) level fun a x => result = .ok a ∧ x = {} := by
  intro d a d' _ hrun
  cases result with
  | error fault => simp [Drafting.attempt] at hrun
  | ok b =>
    obtain ⟨rfl, rfl⟩ := EStateM.Result.ok.inj hrun
    exact ⟨{}, (Draft.add_empty d).symm, rfl, rfl⟩

/-- A body in braces holds what its body adds, one level deeper. -/
theorem Adds.braced {body : Drafting Unit} {kind : Addition → Prop} (head : String)
    (h : Adds body (level + 1) fun _ x => kind x) :
    Adds (braced head body) level fun _ z => ∃ x, kind x ∧
      z = { lines := [.content level (head ++ " \x7b")] } ++ x ++
        { lines := [.content level "\x7d"] } := by
  rintro d a d' rfl hrun
  obtain ⟨_, d₁, hopen, hrun⟩ := ok_of_bind hrun
  obtain ⟨_, d₂, hraise, hrun⟩ := ok_of_bind hrun
  obtain ⟨_, d₃, hbody, hrun⟩ := ok_of_bind hrun
  obtain ⟨_, d₄, hlower, hclose⟩ := ok_of_bind hrun
  obtain ⟨-, rfl⟩ := EStateM.Result.ok.inj ((Writes.line _ d rfl).symm.trans hopen)
  rw [Drafting.raise] at hraise
  split at hraise
  · obtain ⟨-, rfl⟩ := EStateM.Result.ok.inj hraise
    obtain ⟨x, rfl, hx⟩ := h _ _ _ rfl hbody
    obtain ⟨-, rfl⟩ := EStateM.Result.ok.inj hlower
    obtain ⟨-, rfl⟩ := EStateM.Result.ok.inj ((Writes.line _ _ rfl).symm.trans hclose)
    exact ⟨_, by simp [Draft.add, String.append_assoc], x, hx, rfl⟩
  · simp at hraise

/-- What comes after other work can be told from what was added last. -/
theorem Adds.after {work : Drafting α} {next : α → Drafting β} {kind : β → Addition → Prop}
    (h : Adds work level fun _ _ => True) (h' : ∀ a, Adds (next a) level kind)
    (hmono : ∀ b x y, kind b y → kind b (x ++ y)) : Adds (work >>= next) level kind :=
  h.bind fun a x _ => (h' a).mono fun b y => hmono b x y

end Adds

/-! ## Work that appends something

Where it does not matter what is appended, it is enough to know that nothing else happens. -/

/-- Some work appends to the draft, unless it fails. -/
def Appends (work : Drafting α) : Prop := ∀ level, Adds work level fun _ _ => True

section Appends

/-- Work that is known exactly at all levels appends. -/
theorem Writes.appends {work : Drafting α} {a : α} {x : Nat → Addition}
    (h : ∀ level, Writes work level a (x level)) : Appends work :=
  fun level => (h level).adds.mono fun _ _ _ => trivial

/-- Two steps that append make one. -/
theorem Appends.bind {work : Drafting α} {next : α → Drafting β} (h : Appends work)
    (h' : ∀ a, Appends (next a)) : Appends (work >>= next) :=
  fun level => (h level).after (fun a => h' a level) fun _ _ _ _ => trivial

theorem Appends.pure (a : α) : Appends (pure a) := Writes.appends fun _ => Writes.pure a

theorem Appends.blank : Appends blank := Writes.appends fun _ => Writes.blank

theorem Appends.line (text : String) : Appends (line text) :=
  Writes.appends fun _ => Writes.line text

theorem Appends.lines (texts : List String) : Appends (lines texts) :=
  Writes.appends fun _ => Writes.lines texts

theorem Appends.note (event : Event) : Appends (note event) :=
  Writes.appends fun _ => Writes.note event

theorem Appends.report (diagnostic : Diagnostic) : Appends (report diagnostic) :=
  Writes.appends fun _ => Writes.report diagnostic

theorem Appends.attempt (result : Except Fault α) : Appends (attempt result) :=
  fun _ => (Adds.attempt result).mono fun _ _ _ => trivial

/-- A body in braces appends, if it does by itself. -/
theorem Appends.braced {body : Drafting Unit} (head : String) (h : Appends body) :
    Appends (braced head body) :=
  fun level => (Adds.braced head (h (level + 1))).mono fun _ _ _ => trivial

end Appends

end Drafting

/-! ## Output as a whole

A session writes the heading, if there is one, and then the program, into a draft that was cleared
(`Settings.opened`). Where the program adds some lines to that draft, the text is the layout of
these lines. -/

/-- The line that says where the output comes from, and a blank one. -/
def banner : List Line := [.content 0 bannerText, .blank]

/-- Lines as text, after a heading if the layout asks for one. -/
def Layout.render (layout : Layout) (lines : List Line) : String :=
  let lines := if layout.header then banner ++ lines else lines
  String.join (lines.map (Line.render layout.indent))

/-- The draft that the program is written into: nothing but the heading is in it. -/
def Settings.opened (settings : Settings) : Draft :=
  Draft.add { indent := settings.layout.indent }
    { lines := if settings.layout.header then banner else [] }

open Drafting in
/-- The heading is written at level zero. -/
theorem heading_writes (layout : Layout) :
    Writes (heading layout) 0 () { lines := if layout.header then banner else [] } := by
  have hlines : ({ lines := banner } : Addition) =
      { lines := [.content 0 bannerText] } ++ { lines := [.blank] } := rfl
  have hbanner : Writes (do line bannerText; blank) 0 () { lines := banner } := by
    rw [hlines]
    exact Writes.seq (Writes.line bannerText) Writes.blank
  unfold heading
  cases layout.header with
  | false =>
    simp only [Bool.false_eq_true, if_false]
    exact Writes.pure ()
  | true =>
    simp only [if_true]
    exact hbanner

/-- The program starts at level zero. -/
@[simp] theorem Settings.level_opened (settings : Settings) : settings.opened.level = 0 := rfl

/-- After the heading, the text of what is added is its layout. -/
theorem Settings.out_opened_add (settings : Settings) (x : Addition) :
    (settings.opened.add x).out = settings.layout.render x.lines := by
  unfold opened Layout.render
  cases settings.layout.header <;> simp [Draft.add, renderAll, String.join_append]

/-- After the heading, there are no diagnostics other than those that are added. -/
theorem Settings.diagnostics_opened_add (settings : Settings) (x : Addition) :
    (settings.opened.add x).diagnostics.toList = x.diagnostics := by
  simp [opened, Draft.add]

section Generate

variable {session : Session} {ds : List Declaration} {d : Draft} {fault : Fault}

/-- A session clears its draft, so the program is written into a draft with only the heading. -/
theorem Session.work_eq (session : Session) (ds : List Declaration) :
    (do heading session.settings.layout
        program session.settings.packageName session.settings.typesPath ds : Drafting Unit)
        { indent := session.settings.layout.indent } =
      program session.settings.packageName session.settings.typesPath ds session.settings.opened :=
  Drafting.bind_of_ok (heading_writes session.settings.layout _ rfl)

/-- Where the program is written to its end, its text and its diagnostics are taken out. -/
theorem Session.generate_of_ok (hne : ds ≠ [])
    (h : program session.settings.packageName session.settings.typesPath ds
      session.settings.opened = .ok () d) :
    session.generate ds = (.ok ⟨d.out, d.diagnostics.toList⟩,
      ⟨session.settings, { d with out := "", diagnostics := #[] }⟩) := by
  rw [← work_eq] at h
  rw [generate, if_neg (by simpa using hne), h]

/-- Where the program is given up, the draft stays as it was left. -/
theorem Session.generate_of_error (hne : ds ≠ [])
    (h : program session.settings.packageName session.settings.typesPath ds
      session.settings.opened = .error fault d) :
    session.generate ds = (.error fault, ⟨session.settings, d⟩) := by
  rw [← work_eq] at h
  rw [generate, if_neg (by simpa using hne), h]

end Generate

end Midl.Output
