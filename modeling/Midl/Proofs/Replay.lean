import Midl.Compilation
import Midl.Proofs.Provenance
import Midl.Proofs.Script

/-!
# The log follows the tree

Declarations are recorded when they have been read to their end, and again when they have been dealt
with in the output. A library or module is over only after what it holds is, so both times they are
recorded in `postorder`.

A parser records nothing but the tokens it moves to until a statement is over. So what is recorded
above the lowest level is told by what was read (`Parser.Records`), and only libraries and modules,
in which other statements are read, have to be looked at. What is recorded of the output can be read
off its script: apart from asides it consists of the declarations in question
(`main_declarationsScript`).
-/

namespace Midl

/-! ## Postorder -/

namespace Declaration

mutual

/-- A declaration, after what it holds. -/
def partsFirst : Declaration → List Declaration
  | .group kind name attributes body => postorder body ++ [.group kind name attributes body]
  | d => [d]

/-- All declarations, at any depth, each after what it holds. -/
def postorder : List Declaration → List Declaration
  | [] => []
  | d :: ds => d.partsFirst ++ postorder ds

end

/-- Declarations are gone through in order. -/
theorem postorder_append (ds es : List Declaration) :
    postorder (ds ++ es) = postorder ds ++ postorder es := by
  induction ds with
  | nil => rfl
  | cons d ds ih => rw [List.cons_append, postorder, ih, postorder, List.append_assoc]

/-- So are lists of them. -/
theorem postorder_flatten (dss : List (List Declaration)) :
    postorder dss.flatten = dss.flatMap postorder := by
  induction dss with
  | nil => rfl
  | cons ds dss ih => rw [List.flatten_cons, postorder_append, ih, List.flatMap_cons]

/-- Plain declarations hold no others. -/
theorem postorder_of_isPlain {ds : List Declaration} (h : ∀ d ∈ ds, d.isPlain = true) :
    postorder ds = ds := by
  induction ds with
  | nil => rfl
  | cons d ds ih =>
    obtain ⟨hd, hds⟩ := List.forall_mem_cons.mp h
    have hparts : d.partsFirst = [d] := by
      cases d with
      | group kind name as body => cases hd
      | _ => rfl
    rw [postorder, hparts, ih hds]
    rfl

mutual

/-- A declaration with its parts first is the same parts, in another order. -/
theorem partsFirst_perm (d : Declaration) : d.partsFirst.Perm d.parts := by
  cases d with
  | group kind name attributes body =>
    rw [partsFirst, parts_group]
    exact List.perm_append_singleton _ _ |>.trans ((postorder_perm body).cons _)
  | _ => exact .refl _

/-- The order is another one, the declarations are the same. -/
theorem postorder_perm (ds : List Declaration) : (postorder ds).Perm (preorder ds) := by
  cases ds with
  | nil => exact .refl _
  | cons d ds =>
    rw [postorder, preorder_cons]
    exact (partsFirst_perm d).append (postorder_perm ds)

end

end Declaration

open Declaration (postorder)

/-! ## Reading -/

namespace Parser

/-- What has been recorded, apart from tokens. -/
def State.untraced (s : State) : List Event :=
  s.log.toList.filter fun event => event.level ≠ .trace

/-- A parser records nothing but tokens. -/
def Quiet (p : Parser α) : Prop := ∀ s a s', p s = .ok a s' → s'.untraced = s.untraced

/-- A parser records that declarations were read, which can be told from its result, and nothing
else but tokens. -/
def Records (p : Parser α) (f : α → List Declaration) : Prop :=
  ∀ s a s', p s = .ok a s' → s'.untraced = s.untraced ++ (f a).map .parsed

section Records

variable {p : Parser α} {s s' : State}

/-- Arriving at a token is recorded as a trace only. -/
theorem untraced_of_arrive (h : arrive s = .ok () s') : s'.untraced = s.untraced := by
  unfold arrive at h
  split at h
  · obtain ⟨-, rfl⟩ := EStateM.Result.ok.inj h
    simp [State.untraced, Event.level]
  · obtain ⟨-, rfl⟩ := EStateM.Result.ok.inj h
    rfl
  · cases h

/-- Declarations are recorded as parsed. -/
theorem untraced_of_note {ds : List Declaration} (h : note (ds.map .parsed) s = .ok () s') :
    s'.untraced = s.untraced ++ ds.map .parsed := by
  obtain ⟨-, rfl⟩ := EStateM.Result.ok.inj h
  simp [State.untraced, Event.level]

/-- Moving on is quiet. -/
theorem Quiet.advance : Quiet advance := by
  intro s _ s' h
  have harrive : s'.untraced = s.tail.untraced := untraced_of_arrive h
  exact harrive

/-- Two quiet steps make one. -/
theorem Quiet.bind {next : α → Parser β} (hp : Quiet p) (hnext : ∀ a, Quiet (next a)) :
    Quiet (p >>= next) := by
  intro s b s' h
  obtain ⟨a, s₁, hfirst, h⟩ := ok_of_bind h
  exact (hnext a s₁ b s' h).trans (hp s a s₁ hfirst)

/-- A quiet step may be repeated. -/
theorem Quiet.manyFrom {item : σ → Parser (Option (α × σ))} (h : ∀ carried, Quiet (item carried))
    (carried : σ) : Quiet (manyFrom item carried) := by
  intro s as s' hrun
  -- The induction is on the number of tokens left.
  induction hn : s.left using Nat.strongRecOn generalizing s carried as with
  | ind n ih =>
    obtain ⟨hround, -⟩ | ⟨a, next, s₁, others, hround, hless, hothers, -⟩ | ⟨a, next, hround, -⟩ :=
      manyFrom_cases hrun
    · exact h carried s _ s' hround
    · exact (ih s₁.left (hn ▸ hless) next s₁ others hothers rfl).trans (h carried s _ s₁ hround)
    · exact h carried s _ s' hround

/-- Everything that parsers are put together with is quiet. -/
theorem quiet : Congruence (fun p _ => Quiet p) fun _ _ => True where
  pure a s _ s' h := by
    obtain ⟨-, rfl⟩ := EStateM.Result.ok.inj h
    rfl
  bind := Quiet.bind
  peek s _ s' h := by
    obtain ⟨-, rfl⟩ := EStateM.Result.ok.inj h
    rfl
  advance := Quiet.advance
  unexpected _ _ _ _ h := by cases h
  emptyImport _ _ _ _ h := by cases h
  manyFrom := Quiet.manyFrom

/-- What moves on first and is quiet from there is quiet. -/
theorem Quiet.of_moving (h : Moving (fun p _ => Quiet p) (fun _ _ => True) p p) : Quiet p := by
  obtain ⟨f, _, rfl, -, hrest⟩ := h
  intro s a s' hrun
  obtain ⟨t, s₁, hcurrent, hrun⟩ := ok_of_bind hrun
  obtain ⟨-, rfl⟩ := EStateM.Result.ok.inj hcurrent
  exact Quiet.advance.bind (fun _ => hrest t.position t.position trivial) s a s' hrun

/-- Items are recorded one after the other. -/
theorem Records.manyUntil {f : α → List Declaration} (kind : TokenKind) (h : Records p f) :
    Records (manyUntil kind p) (·.flatMap f) := by
  intro s as s' hrun
  apply manyUntil_induction (fun s => by simp) ?_ hrun
  intro a as s s₁ s' hitem has
  rw [has, h s a s₁ hitem]
  simp

end Records

/-- What stands in a library or module is recorded before it. -/
theorem untraced_of_group {inner : Parser (List Declaration)} (hinner : Records inner postorder)
    {kind : GroupKind} {as : List Attribute} {s s' : State} {d : Declaration}
    (h : group inner kind as s = .ok d s') :
    ∃ inside : List Declaration, s'.untraced = s.untraced ++ inside.map .parsed ∧
      postorder [d] = inside ++ [d] := by
  obtain ⟨_, s₁, hadvance, h⟩ := ok_of_bind h
  obtain ⟨name, s₂, hname, h⟩ := ok_of_bind h
  obtain ⟨_, s₃, hopen, h⟩ := ok_of_bind h
  obtain ⟨dss, s₄, hbody, h⟩ := ok_of_bind h
  obtain ⟨_, s₅, hclose, h⟩ := ok_of_bind h
  obtain ⟨_, s₆, hsemicolon, h⟩ := ok_of_bind h
  obtain ⟨rfl, rfl⟩ := EStateM.Result.ok.inj h
  have hbefore : s₃.untraced = s.untraced := by
    rw [quiet.expect _ s₂ _ s₃ hopen, quiet.identifier _ s₁ _ s₂ hname,
      Quiet.advance s _ s₁ hadvance]
  have hafter : s₆.untraced = s₄.untraced := by
    rw [quiet.discardEat _ s₅ _ s₆ hsemicolon, quiet.expect _ s₄ _ s₅ hclose]
  refine ⟨postorder dss.flatten, ?_, ?_⟩
  · rw [hafter, (hinner.manyUntil _) s₃ dss s₄ hbody, hbefore, Declaration.postorder_flatten]
  · simp [postorder, Declaration.partsFirst]

/-- Before a statement is over, only what stands in it has been recorded. -/
theorem untraced_of_chosen {inner : Parser (List Declaration)} (hinner : Records inner postorder)
    {nested : Bool} {as : List Attribute} {s s' : State} {ds : List Declaration}
    (h : chosen inner nested as s = .ok ds s') :
    ∃ inside : List Declaration, s'.untraced = s.untraced ++ inside.map .parsed ∧
      postorder ds = inside ++ ds := by
  obtain ⟨p, hp, hrun⟩ | ⟨d, hkind, hd, rfl⟩ | ⟨kind, d, hd, rfl⟩ := chosen_cases h
  · have hds := (hp.gives s ds s' (fun _ _ => trivial) hrun).2
    refine ⟨[], ?_, Declaration.postorder_of_isPlain hds⟩
    simpa using Quiet.of_moving (hp.moving _ _ quiet) s ds s' hrun
  · obtain ⟨name, inside, s₁, -, -, rfl, -⟩ := pragma_cases hkind hd
    refine ⟨[], ?_, rfl⟩
    simpa using Quiet.of_moving quiet.completion.pragma.moving s _ s' hd
  · exact untraced_of_group hinner hd

/-- A statement is recorded after what stands in it. -/
theorem records_declaration (depth : Nat) (nested : Bool) :
    Records (declaration depth nested) postorder := by
  induction depth generalizing nested with
  | zero => exact fun s ds s' h => nomatch h
  | succ depth ih =>
    intro s ds s' h
    rw [declaration] at h
    obtain ⟨as, s₁, hattributes, h⟩ := ok_of_bind h
    obtain ⟨_, s₂, hchosen, h⟩ := ok_of_bind h
    obtain ⟨_, s₃, hnote, h⟩ := ok_of_bind h
    obtain ⟨rfl, rfl⟩ := EStateM.Result.ok.inj h
    obtain ⟨inside, hlog, horder⟩ := untraced_of_chosen (ih true) hchosen
    rw [untraced_of_note hnote, hlog, quiet.leadingAttributes s as s₁ hattributes, horder,
      List.map_append, List.append_assoc]

end Parser

/-- Apart from tokens, all that is recorded of a source that can be read is that its declarations
were read, in postorder. -/
theorem Source.untraced_of_parse {source : Source} {ds : List Declaration}
    (h : source.parse = .ok ds) :
    source.read.log.toList.filter (fun event => event.level ≠ .trace) =
      (postorder ds).map .parsed := by
  unfold parse at h
  unfold read at h ⊢
  rw [TokenStream.read_eq] at h ⊢
  cases hrun : TokenStream.declarations source.tokens.tokens.length source.tokens.initial with
  | error error s =>
    rw [hrun] at h
    cases h
  | ok found s =>
    rw [hrun] at h
    obtain rfl : found = ds := Except.ok.inj h
    obtain ⟨_, s₁, harrive, hrun⟩ := Parser.ok_of_bind hrun
    obtain ⟨dss, hall, rfl⟩ := Parser.ok_of_map hrun
    have hlog := (Parser.records_declaration _ false).manyUntil .eof s₁ dss s hall
    rw [Parser.untraced_of_arrive harrive] at hlog
    rw [Declaration.postorder_flatten]
    exact hlog

/-- Reading a source gives no warnings. -/
theorem Source.no_warnings_of_parse {source : Source} {ds : List Declaration}
    (h : source.parse = .ok ds) :
    source.read.log.toList.filter (fun event => event.level = .warn) = [] := by
  rw [List.filter_eq_nil_iff]
  intro event hmem hwarn
  have hlevel : event.level = .warn := by simpa using hwarn
  have huntraced : event ∈ (postorder ds).map .parsed := by
    rw [← untraced_of_parse h]
    exact List.mem_filter.mpr ⟨hmem, by simp [hlevel]⟩
  obtain ⟨d, -, rfl⟩ := List.mem_map.mp huntraced
  cases hlevel

/-! ## Writing -/

/-- The declaration that an event says was dealt with in the output. -/
def Event.emitted? : Event → Option Declaration
  | emitted d => some d
  | _ => none

/-- Whether it is recorded that a declaration was dealt with: it has a name, and component classes
are not dealt with. -/
def Declaration.isEmitted (d : Declaration) : Bool := d.name?.isSome && d.kindWord ≠ "coclass"

namespace Output

/-- What an operation records. -/
def Operation.events : Operation → List Event
  | .note event => [event]
  | .report diagnostic => [.skipped diagnostic]
  | _ => []

/-- What an operation reports. -/
def Operation.reported? : Operation → Option Diagnostic
  | .report diagnostic => some diagnostic
  | _ => none

/-- Whether an operation records nothing but, perhaps, that something is left out. -/
def Operation.isAside : Operation → Bool
  | .note (.droppedImports _) | .note (.droppedLibrary _) | .note (.selfAlias _) => true
  | .note _ => false
  | _ => true

/-- An operation records what it is for, and nothing else. -/
theorem Operation.records_of_step {operation : Operation} {level level' : Nat} {x : Addition}
    (h : operation.step level = .ok (level', x)) :
    x.log = operation.events ∧ x.diagnostics = operation.reported?.toList := by
  cases operation with
  | raise =>
    simp only [step] at h
    split at h
    · cases h
      exact ⟨rfl, rfl⟩
    · cases h
  | fail fault => cases h
  | _ =>
    cases h
    exact ⟨rfl, rfl⟩

/-- The log and the diagnostics can be read off a script that does not give up. -/
theorem Script.records_of_run {script : Script} {level level' : Nat} {x : Addition}
    (h : script.run level = .ok (level', x)) :
    x.log = script.flatMap Operation.events ∧
      x.diagnostics = script.flatMap (·.reported?.toList) := by
  induction script generalizing level x with
  | nil =>
    obtain ⟨-, rfl⟩ := Prod.mk.inj (Except.ok.inj h)
    exact ⟨rfl, rfl⟩
  | cons operation script ih =>
    obtain ⟨level₁, y, z, hstep, hrun, rfl⟩ := ok_of_run_cons h
    obtain ⟨hlog, hdiagnostics⟩ := Operation.records_of_step hstep
    obtain ⟨hmore, hothers⟩ := ih hrun
    refine ⟨?_, ?_⟩
    · rw [Addition.append_log, hlog, hmore, List.flatMap_cons]
    · rw [Addition.append_diagnostics, hdiagnostics, hothers, List.flatMap_cons]

/-! ### What is no aside -/

/-- The operations of a script that are no asides. -/
def Script.main (script : Script) : Script := script.filter fun operation => !operation.isAside

section Main

/-- What remains of scripts, one after the other. -/
theorem main_append (script later : Script) :
    Script.main (script ++ later) = Script.main script ++ Script.main later :=
  List.filter_append ..

/-- What is said aside does not remain. -/
theorem main_cons {operation : Operation} (h : operation.isAside = true) (script : Script) :
    Script.main (operation :: script) = Script.main script :=
  List.filter_cons_of_neg (by simp [h])

/-- Of lines nothing remains. -/
theorem main_lines (texts : List String) : Script.main (texts.map .line) = [] := by
  simp [Script.main, Operation.isAside]

/-- Of braces only the body remains. -/
theorem main_braced (head : String) (body : Script) :
    (Script.braced head body).main = body.main := by
  simp [Script.main, Script.braced, Operation.isAside]

/-- Of comments nothing remains. -/
theorem main_docs (attributes : List Attribute) : (docsScript attributes).main = [] := by
  unfold docsScript
  split
  · rfl
  · exact main_lines _

/-- Of a struct nothing remains. -/
theorem main_record (r : Record) : (recordScript r).main = [] := by
  rw [recordScript, List.cons_append, main_cons rfl, main_append, main_docs, List.nil_append,
    main_cons rfl, main_braced, main_lines]

/-- Of the constants of an enumeration nothing remains. -/
theorem main_members (enumName : String) (skipped : List String)
    (members : List (Member × Resolved)) :
    (memberScript enumName skipped members).main = [] := by
  induction members generalizing skipped with
  | nil => rfl
  | cons entry members ih =>
    rw [memberScript]
    cases memberText skipped entry.1.value entry.2 with
    | error fault => rfl
    | ok text? =>
      cases text? with
      | some value => exact (main_cons rfl _).trans (ih skipped)
      | none => exact (main_cons rfl _).trans (ih (entry.1.name :: skipped))

/-- Of an enumeration nothing remains. -/
theorem main_enumeration (e : Enumeration) : (enumerationScript e).main = [] := by
  have hmembers : (Script.attempt e.resolve fun resolved =>
      memberScript e.name [] (e.members.zip (resolved.map Prod.snd))).main = [] := by
    cases e.resolve with
    | error fault => rfl
    | ok resolved => exact main_members _ _ _
  rw [enumerationScript, List.cons_append, main_cons rfl, main_append, main_docs, List.nil_append,
    main_cons rfl, hmembers]

/-- Of a further name for a type nothing remains. -/
theorem main_typedef (t : Typedef) : (typedefScript t).main = [] := by
  unfold typedefScript
  split
  · rfl
  · rw [List.cons_append, main_cons rfl, main_append, main_docs]
    rfl

/-- Nothing but lines is in a table. -/
theorem main_table (interfaceName : String) (table : DispatchTable) :
    (tableScript interfaceName table).main = [] := by
  refine List.filter_eq_nil_iff.mpr fun operation hoperation => ?_
  rcases mem_tableScript hoperation with ⟨text, rfl⟩ | ⟨fault, rfl⟩
  · simp [Operation.isAside]
  · simp [Operation.isAside]

/-- Interfaces are written without anything being recorded. -/
theorem main_interface (root : List Declaration) (i : Interface) :
    (interfaceScript root i).main = [] := by
  have hid : (idScript i.attributes).main = [] := by
    unfold idScript
    split <;> rfl
  rw [interfaceScript, List.cons_append, main_cons rfl, main_append, main_docs, List.nil_append,
    main_append, hid, List.nil_append, interfaceBody, List.cons_append, main_cons rfl, main_append,
    main_braced, main_cons rfl, main_cons rfl, main_cons rfl, main_braced, main_table]
  rfl

/-- Of a constant nothing remains. -/
theorem main_constant (c : Constant) : (constantScript c).main = [] := by
  rw [constantScript, main_cons rfl]
  split
  · rfl
  · unfold Script.attempt
    split <;> rfl

/-- Of a directive nothing remains. -/
theorem main_directive (kind : DirectiveKind) (text : String) :
    (directiveScript kind text).main = [] := by
  rw [directiveScript, main_cons rfl, main_lines]

/-- It is recorded of a declaration that it was dealt with. -/
def emissions (ds : List Declaration) : Script :=
  (ds.filter Declaration.isEmitted).map fun d => .note (.emitted d)

/-- Declarations are emitted in order. -/
theorem emissions_append (ds es : List Declaration) :
    emissions (ds ++ es) = emissions ds ++ emissions es := by
  simp [emissions]

/-- What is recorded at the end of a declaration, if it is not a component class. -/
theorem main_emitted {d : Declaration} (h : d.kindWord ≠ "coclass") :
    (emittedScript d).main = emissions [d] := by
  unfold emittedScript emissions
  cases hname : d.name? with
  | none => simp [Script.main, Declaration.isEmitted, hname]
  | some name => simp [Script.main, Declaration.isEmitted, Operation.isAside, hname, h]

/-- A declaration of which nothing remains is emitted, unless it is a component class. -/
theorem main_item {script : Script} (h : script.main = []) {d : Declaration}
    (hd : d.kindWord ≠ "coclass") : (script ++ emittedScript d).main = emissions [d] := by
  rw [main_append, h, List.nil_append, main_emitted hd]

mutual

/-- A declaration is emitted after what it holds. -/
theorem main_declarationScript (root : List Declaration) (d : Declaration) :
    (declarationScript root d).main = emissions d.partsFirst := by
  cases d with
  | imports files => rfl
  | importLibrary file => rfl
  | coclass c => rfl
  | directive kind text => exact main_directive kind text
  | record r => exact main_item (main_record r) (by simp [Declaration.kindWord])
  | enumeration e => exact main_item (main_enumeration e) (by simp [Declaration.kindWord])
  | typedef t => exact main_item (main_typedef t) (by simp [Declaration.kindWord])
  | interface i => exact main_item (main_interface root i) (by simp [Declaration.kindWord])
  | constant c => exact main_item (main_constant c) (by simp [Declaration.kindWord])
  | group kind name attributes body =>
    have hkind : (Declaration.group kind name attributes body).kindWord ≠ "coclass" := by
      cases kind <;> simp [Declaration.kindWord, GroupKind.word]
    rw [declarationScript, List.cons_append, main_cons rfl, main_append, main_docs,
      List.nil_append, main_append, main_braced, main_cons rfl, main_declarationsScript root body,
      main_emitted hkind, Declaration.partsFirst, emissions_append]

/-- Apart from asides, declarations record that those with names were dealt with. -/
theorem main_declarationsScript (root : List Declaration) (ds : List Declaration) :
    (declarationsScript root ds).main = emissions (postorder ds) := by
  cases ds with
  | nil => rfl
  | cons d ds =>
    rw [declarationsScript, main_append, main_declarationScript root d,
      main_declarationsScript root ds, postorder, emissions_append]

end

/-- A program emits its declarations, each after what it holds. -/
theorem main_programScript (packageName typesPath : String) (ds : List Declaration) :
    (programScript packageName typesPath ds).main = emissions (postorder ds) := by
  rw [programScript, main_braced, main_append, main_declarationsScript]
  rfl

end Main

/-! ### Logs of scripts -/

section Log

variable {script : Script} {ds : List Declaration}

/-- All that a script does besides emitting is said aside. -/
theorem aside_or_emitted (h : script.main = emissions ds) {operation : Operation}
    (hmem : operation ∈ script) :
    operation.isAside = true ∨ ∃ d, operation = .note (.emitted d) := by
  by_cases haside : operation.isAside = true
  · exact .inl haside
  · have hmain : operation ∈ script.main := List.mem_filter.mpr ⟨hmem, by simpa using haside⟩
    rw [h] at hmain
    obtain ⟨d, -, hd⟩ := List.mem_map.mp hmain
    exact .inr ⟨d, hd.symm⟩

/-- Asides do not say that a declaration was dealt with. -/
theorem emitted_of_main (h : script.main = emissions ds) :
    (script.flatMap Operation.events).filterMap Event.emitted? =
      ds.filter Declaration.isEmitted := by
  have hmain : ∀ script : Script, (script.flatMap Operation.events).filterMap Event.emitted? =
      (script.main.flatMap Operation.events).filterMap Event.emitted? := by
    intro script
    induction script with
    | nil => rfl
    | cons operation script ih =>
      cases haside : operation.isAside with
      | true =>
        have hnone : operation.events.filterMap Event.emitted? = [] := by
          cases operation with
          | note event => cases event <;> simp_all [Operation.isAside, Operation.events,
              Event.emitted?]
          | _ => rfl
        rw [main_cons haside, List.flatMap_cons, List.filterMap_append, hnone, ih, List.nil_append]
      | false =>
        rw [Script.main, List.filter_cons_of_pos (by simp [haside]), List.flatMap_cons,
          List.flatMap_cons, List.filterMap_append, List.filterMap_append, ih, Script.main]
  rw [hmain, h, emissions]
  simp [List.flatMap_map, Operation.events, List.filterMap_flatMap, Event.emitted?]

/-- Warnings are the diagnostics. -/
theorem warnings_of_main (h : script.main = emissions ds) :
    (script.flatMap Operation.events).filter (fun event => event.level = .warn) =
      (script.flatMap (·.reported?.toList)).map .skipped := by
  rw [List.filter_flatMap, List.map_flatMap]
  refine List.flatMap_congr fun operation hmem => ?_
  obtain haside | ⟨d, rfl⟩ := aside_or_emitted h hmem
  · cases operation with
    | note event => cases event <;> simp_all [Operation.isAside, Operation.events,
        Operation.reported?, Event.level]
    | _ => rfl
  · rfl

/-- Neither tokens nor statements are read when output is written. -/
theorem unread_of_main (h : script.main = emissions ds) {event : Event}
    (hmem : event ∈ script.flatMap Operation.events) :
    event.level ≠ .trace ∧ ∀ d, event ≠ .parsed d := by
  obtain ⟨operation, hoperation, hevent⟩ := List.mem_flatMap.mp hmem
  obtain haside | ⟨d, rfl⟩ := aside_or_emitted h hoperation
  · cases operation with
    | note event => cases event <;> simp_all [Operation.isAside, Operation.events, Event.level]
    | report diagnostic =>
      obtain rfl := List.mem_singleton.mp hevent
      simp [Event.level]
    | _ => cases hevent
  · obtain rfl := List.mem_singleton.mp hevent
    simp [Event.level]

/-- What was generated was recorded by a script. -/
theorem Session.log_of_generate {settings : Settings} {generated : Generated} {session : Session}
    (h : generate ⟨settings, {}⟩ ds = (.ok generated, session)) :
    ∃ script : Script, script.main = emissions (postorder ds) ∧
      session.draft.log.toList = script.flatMap Operation.events ∧
      generated.diagnostics = script.flatMap (·.reported?.toList) := by
  cases ds with
  | nil =>
    obtain ⟨hresult, rfl⟩ := Prod.mk.inj h
    obtain rfl := Except.ok.inj hresult
    exact ⟨[], rfl, rfl, rfl⟩
  | cons d ds =>
    have hne : d :: ds ≠ [] := List.cons_ne_nil d ds
    rcases Script.perform_cases (programScript settings.packageName settings.typesPath (d :: ds))
      settings.opened with ⟨level, x, hrun, hperform⟩ | ⟨fault, draft, -, hperform⟩
    · rw [← program_eq] at hperform
      rw [@generate_of_ok ⟨settings, {}⟩ _ _ hne hperform] at h
      obtain ⟨hresult, rfl⟩ := Prod.mk.inj h
      obtain rfl := Except.ok.inj hresult
      obtain ⟨hlog, hdiagnostics⟩ := Script.records_of_run hrun
      refine ⟨_, main_programScript settings.packageName settings.typesPath (d :: ds), ?_, ?_⟩
      · simpa [Draft.add, Settings.opened] using hlog
      · simpa [Draft.add, Settings.opened] using hdiagnostics
    · rw [← program_eq] at hperform
      rw [@generate_of_error ⟨settings, {}⟩ _ _ _ hne hperform] at h
      cases (Prod.mk.inj h).1

end Log

end Output

/-! ## Reading and writing -/

/-- The log of a source that has output tells the declarations twice, each time in postorder. First
they are read, all of them, and apart from tokens nothing else is recorded; then those that have
names and are not component classes are dealt with in the output. The warnings in between are the
diagnostics. -/
theorem log_replays_postorder {settings : Output.Settings} {source : Source}
    {generated : Output.Generated} (h : (compile settings source).result = .ok generated) :
    ∃ ds reading writing, source.parse = .ok ds ∧ Output.generate settings ds = .ok generated ∧
      (postorder ds).Perm (Declaration.preorder ds) ∧
      (compile settings source).log.toList = reading ++ writing ∧
      reading.filter (fun event => event.level ≠ .trace) = (postorder ds).map .parsed ∧
      (∀ event ∈ writing, event.level ≠ .trace ∧ ∀ d, event ≠ .parsed d) ∧
      writing.filterMap Event.emitted? = (postorder ds).filter Declaration.isEmitted ∧
      ((compile settings source).log.toList.filter fun event => event.level = .warn).map
        Event.message = generated.diagnostics.map Diagnostic.describe := by
  cases hparse : source.read.result with
  | error error =>
    rw [compile_of_error hparse] at h
    cases h
  | ok ds =>
    rw [compile_of_ok hparse] at h ⊢
    cases hgenerate : Output.Session.generate ⟨settings, {}⟩ ds with
    | mk result session =>
      rw [hgenerate] at h
      cases result with
      | error fault => cases h
      | ok found =>
        obtain rfl := Except.ok.inj h
        obtain ⟨script, hmain, hlog, hdiagnostics⟩ := Output.Session.log_of_generate hgenerate
        have hreading := Source.untraced_of_parse hparse
        refine ⟨ds, source.read.log.toList, session.draft.log.toList, hparse, ?_,
          Declaration.postorder_perm ds, Array.toList_append, hreading, ?_, ?_, ?_⟩
        · rw [Output.generate, hgenerate]
        · rw [hlog]
          exact fun event => Output.unread_of_main hmain
        · rw [hlog, Output.emitted_of_main hmain]
        · rw [Array.toList_append, List.filter_append, Source.no_warnings_of_parse hparse, hlog,
            Output.warnings_of_main hmain, hdiagnostics, List.nil_append, List.map_map]
          rfl

/-- A library with a module in it, followed by declarations of other kinds. -/
def bundle : Source :=
  .ofText ("library L\x7bmodule M\x7bconst int K=1;\x7dtypedef int A,*B;\x7dcoclass C\x7b\x7d" ++
    "cpp_quote(\"q\")enum E\x7bX=5000000000\x7dtypedef S S;")

/-- A bundle of declarations, some inside others. -/
theorem log_replays_postorder_bundle :
    ∃ generated ds reading writing, (compile {} bundle).result = .ok generated ∧
      bundle.parse = .ok ds ∧ (compile {} bundle).log.toList = reading ++ writing ∧
      (reading.filter fun event => event.level ≠ .trace).map Event.message =
        ["parsed const K", "parsed module M", "parsed typedef A", "parsed typedef B",
          "parsed library L", "parsed coclass C", "parsed cpp_quote ", "parsed enum E",
          "parsed typedef S"] ∧
      (writing.filterMap Event.emitted?).map Declaration.name? =
        [some "K", some "M", some "A", some "B", some "L", some "E", some "S"] ∧
      ((compile {} bundle).log.toList.filter fun event => event.level = .warn).map Event.message =
        ["skipped coclass 'C': component classes have no Rust emission rule",
          "skipped enum 'E': value of 'X' does not fit in 32 bits"] := by
  have hparse : bundle.parse.toOption.map (fun ds =>
      ((postorder ds).map fun d => (Event.parsed d).message,
        ((postorder ds).filter Declaration.isEmitted).map Declaration.name?)) =
      some (["parsed const K", "parsed module M", "parsed typedef A", "parsed typedef B",
          "parsed library L", "parsed coclass C", "parsed cpp_quote ", "parsed enum E",
          "parsed typedef S"],
        [some "K", some "M", some "A", some "B", some "L", some "E", some "S"]) := by
    decide +kernel
  have hresult : (compile {} bundle).result.toOption.map (·.diagnostics.map Diagnostic.describe) =
      some ["skipped coclass 'C': component classes have no Rust emission rule",
        "skipped enum 'E': value of 'X' does not fit in 32 bits"] := by
    decide +kernel
  cases hcompile : (compile {} bundle).result with
  | error failure =>
    rw [hcompile] at hresult
    cases hresult
  | ok generated =>
    obtain ⟨ds, reading, writing, hds, -, -, hlog, hreading, -, hwriting, hwarnings⟩ :=
      log_replays_postorder hcompile
    obtain ⟨found, hfound, horder⟩ := Declaration.exists_of_map_toOption hparse
    obtain rfl : found = ds := Except.ok.inj (hfound.symm.trans hds)
    obtain ⟨hparsed, hemitted⟩ := Prod.mk.inj horder
    rw [hcompile] at hresult
    refine ⟨generated, found, reading, writing, rfl, hds, hlog, ?_, ?_, ?_⟩
    · rw [hreading, List.map_map, ← hparsed]
      rfl
    · rw [hwriting, hemitted]
    · rw [hwarnings]
      exact Option.some.inj hresult

end Midl
