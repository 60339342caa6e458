import Midl.Proofs.Dispatch
import Midl.Proofs.Script
import Midl.Proofs.Walk

/-!
# Text that goes into comments

Help strings, identifiers of interfaces and the texts of directives are carried over from the input
into comments. `bareAll` takes them away, so that declarations which differ in nothing else become
equal. What they must not change is the *code*: the lines of the output that are neither blank nor
comments.

Help strings and directives are written one comment for each of their lines, whatever they hold. The
identifier of an interface is written as a single comment, and code stays the same as long as it has
no line feed in it (`code_of_bareAll_eq`). A line feed there ends the comment early
(`id_escapes_comment`).
-/

namespace Midl

/-! ## Lines of code -/

namespace Text

/-- Whether a line holds code: something that does not start with two slashes. -/
def isCode (line : List Char) : Bool :=
  match line.dropWhile (· = ' ') with
  | [] => false
  | '/' :: '/' :: _ => false
  | _ => true

/-- The lines of code among characters. -/
def code (cs : List Char) : List (List Char) := (cs.splitOn '\n').filter isCode

@[simp] theorem code_nil : code [] = [] := rfl

/-- Lines of code are those before a line feed and those after it. -/
theorem code_append (cs rest : List Char) : code (cs ++ '\n' :: rest) = code cs ++ code rest := by
  rw [code, List.splitOn, List.splitOnP_append_cons _ _ (by simp), List.filter_append]
  rfl

/-- A single line is code or is not. -/
theorem code_of_newline_not_mem {cs : List Char} (h : '\n' ∉ cs) :
    code cs = [cs].filter isCode := by
  have hpart : ∀ c ∈ cs, (c == '\n') = false := by
    intro c hc
    rw [beq_eq_false_iff_ne]
    rintro rfl
    exact h hc
  rw [code, List.splitOn, List.splitOnP_eq_singleton hpart]

/-- An indented comment is no code. -/
theorem isCode_comment (indent : Nat) (cs : List Char) :
    isCode (List.replicate indent ' ' ++ '/' :: '/' :: cs) = false := by
  have hdrop : (List.replicate indent ' ' ++ '/' :: '/' :: cs).dropWhile (· = ' ') =
      '/' :: '/' :: cs := by
    rw [List.dropWhile_append_of_pos (by simp)]
    simp
  rw [isCode, hdrop]
  rfl

/-- The lines of a text have no line feeds in them. -/
theorem newline_not_mem_of_mem_splitLines {cs line : List Char} (h : line ∈ splitLines cs) :
    '\n' ∉ line := by
  fun_induction splitLines cs generalizing line with
  | case1 => cases h
  | case2 cs ih =>
    rcases List.mem_cons.mp h with rfl | h
    · exact List.not_mem_nil
    · exact ih h
  | case3 cs ih =>
    rcases List.mem_cons.mp h with rfl | h
    · exact List.not_mem_nil
    · exact ih h
  | case4 c cs hc hreturn hnone ih =>
    obtain rfl := List.mem_singleton.mp h
    simpa using fun h => hc h.symm
  | case5 c cs hc hreturn first others hsome ih =>
    rcases List.mem_cons.mp h with rfl | h
    · rw [List.mem_cons, not_or]
      exact ⟨fun h => hc h.symm, ih (by simp [hsome])⟩
    · exact ih (by simp [hsome, h])

/-- The lines of a text have no line feed in them. -/
theorem newline_not_mem_of_mem_lines {text line : String} (h : line ∈ lines text) :
    '\n' ∉ line.toList := by
  obtain ⟨cs, hcs, rfl⟩ := List.mem_map.mp h
  rw [String.toList_ofList]
  exact newline_not_mem_of_mem_splitLines hcs

end Text

/-! ## Declarations without the text of comments -/

/-- An attribute without the text it brings into a comment. -/
def Attribute.bare (a : Attribute) : Attribute :=
  match a.kind with
  | .helpString | .uuid => { a with value := none }
  | _ => a

def Variable.bare (v : Variable) : Variable :=
  { v with attributes := v.attributes.map Attribute.bare }

def Method.bare (m : Method) : Method :=
  { m with params := m.params.map Variable.bare, attributes := m.attributes.map Attribute.bare }

def Interface.bare (i : Interface) : Interface :=
  { i with attributes := i.attributes.map Attribute.bare, methods := i.methods.map Method.bare }

def Enumeration.bare (e : Enumeration) : Enumeration :=
  { e with attributes := e.attributes.map Attribute.bare }

def Record.bare (r : Record) : Record :=
  { r with attributes := r.attributes.map Attribute.bare, fields := r.fields.map Variable.bare }

def Typedef.bare (t : Typedef) : Typedef :=
  { t with attributes := t.attributes.map Attribute.bare }

def CoClass.bare (c : CoClass) : CoClass :=
  { c with
    attributes := c.attributes.map Attribute.bare
    interfaces := c.interfaces.map Interface.bare }

namespace Declaration

mutual

/-- A declaration without the texts that are brought into comments. -/
def bare : Declaration → Declaration
  | .imports files => .imports files
  | .interface i => .interface i.bare
  | .enumeration e => .enumeration e.bare
  | .record r => .record r.bare
  | .typedef t => .typedef t.bare
  | .coclass c => .coclass c.bare
  | .group kind name attributes body =>
    .group kind name (attributes.map Attribute.bare) (bareAll body)
  | .importLibrary file => .importLibrary file
  | .constant c => .constant c
  | .directive kind _ => .directive kind ""

/-- Declarations without the texts that are brought into comments. -/
def bareAll : List Declaration → List Declaration
  | [] => []
  | d :: ds => d.bare :: bareAll ds

end

mutual

/-- The interface found in a bare declaration is the bare one. -/
theorem interfaceIn?_bare (name : String) (d : Declaration) :
    d.bare.interfaceIn? name = (d.interfaceIn? name).map Interface.bare := by
  cases d with
  | interface i =>
    simp only [bare, interfaceIn?, Interface.bare]
    split <;> rfl
  | group kind n attributes body => exact interfaceNamed?_bareAll name body
  | _ => rfl

/-- So is the one found by its name. -/
theorem interfaceNamed?_bareAll (name : String) (ds : List Declaration) :
    interfaceNamed? name (bareAll ds) = (interfaceNamed? name ds).map Interface.bare := by
  cases ds with
  | nil => rfl
  | cons d ds =>
    rw [bareAll, interfaceNamed?, interfaceNamed?, interfaceIn?_bare name d,
      interfaceNamed?_bareAll name ds]
    cases d.interfaceIn? name <;> rfl

end

/-- The identifier of an interface is on one line, so that it stays in its comment. -/
def IdOnOneLine : Declaration → Prop
  | .interface i => ∀ uuid ∈ Attribute.valueOf .uuid i.attributes, '\n' ∉ uuid.toList
  | _ => True

end Declaration

/-- So the table of a bare interface has the bare methods. -/
theorem Interface.dispatchTable_bare (ds : List Declaration) (i : Interface) :
    i.bare.dispatchTable (Declaration.bareAll ds) =
      ⟨(i.dispatchTable ds).base, (i.dispatchTable ds).methods.map Method.bare⟩ :=
  dispatchTable_map (f := Interface.bare) (g := Method.bare) (fun _ => rfl) (fun _ => rfl)
    (fun _ => rfl) (Declaration.interfaceNamed?_bareAll · ds) i

/-- A bare attribute is of the same kind. -/
theorem Attribute.kind_bare (a : Attribute) : a.bare.kind = a.kind := by
  unfold Attribute.bare
  split <;> rfl

/-- Bare attributes have no identifier. -/
theorem Attribute.valueOf_uuid_bare (attributes : List Attribute) :
    Attribute.valueOf .uuid (attributes.map Attribute.bare) = none := by
  rw [valueOf, List.find?_map]
  cases hfind : attributes.find? ((fun a => a.kind = .uuid) ∘ Attribute.bare) with
  | none => rfl
  | some a =>
    have hkind : a.kind = .uuid := by simpa [kind_bare] using List.find?_some hfind
    simp [Attribute.bare, hkind]

namespace Output

open Declaration

/-! ## Code in lines of output -/

/-- The code on a line. -/
def Line.code (indent : Nat) (l : Line) : List (List Char) := Text.code (l.render indent).toList

/-- A line ends in a line feed. -/
theorem Line.exists_render (indent : Nat) (l : Line) :
    ∃ cs, (l.render indent).toList = cs ++ ['\n'] := by
  cases l with
  | blank => exact ⟨[], by simp [render]⟩
  | content level text => exact ⟨_, String.toList_append ..⟩

/-- Every line ends, so that the code of a text is that of its lines. -/
theorem code_join (indent : Nat) (lines : List Line) :
    Text.code (String.join (lines.map (Line.render indent))).toList =
      lines.flatMap (Line.code indent) := by
  induction lines with
  | nil => rfl
  | cons l lines ih =>
    obtain ⟨cs, hcs⟩ := l.exists_render indent
    rw [List.map_cons, String.join_cons, String.toList_append, hcs, List.append_assoc,
      List.singleton_append, Text.code_append, ih, List.flatMap_cons, Line.code, hcs,
      Text.code_append, Text.code_nil, List.append_nil]

/-- A blank line is no code. -/
theorem code_blank (indent : Nat) : Line.blank.code indent = [] := by
  rw [Line.code, Line.render]
  decide +kernel

/-- Whether some text is a comment as a whole. -/
def isComment (text : String) : Bool :=
  match text.toList with
  | '/' :: '/' :: cs => '\n' ∉ cs
  | _ => false

/-- A comment begins with two slashes and is on one line. -/
theorem isComment_iff {text : String} :
    isComment text ↔ ∃ cs, text.toList = '/' :: '/' :: cs ∧ '\n' ∉ cs := by
  unfold isComment
  split
  next cs hcs => simp [hcs]
  next hno => simpa using fun cs hcs => absurd hcs (hno cs)

/-- It may be continued on that line. -/
theorem isComment_append {head text : String} (hhead : isComment head)
    (htext : '\n' ∉ text.toList) : isComment (head ++ text) := by
  obtain ⟨cs, hcs, hline⟩ := isComment_iff.mp hhead
  refine isComment_iff.mpr ⟨cs ++ text.toList, by rw [String.toList_append, hcs]; rfl, ?_⟩
  rw [List.mem_append, not_or]
  exact ⟨hline, htext⟩

/-- A comment is no code at any level. -/
theorem code_comment (indent level : Nat) {text : String} (h : isComment text) :
    (Line.content level text).code indent = [] := by
  obtain ⟨cs, hcs, hline⟩ := isComment_iff.mp h
  have hrender : ((Line.content level text).render indent).toList =
      (List.replicate (level * indent) ' ' ++ '/' :: '/' :: cs) ++ ['\n'] := by
    simp [Line.render, hcs]
  have hone : '\n' ∉ List.replicate (level * indent) ' ' ++ '/' :: '/' :: cs := by
    simp [hline]
  rw [Line.code, hrender, Text.code_append, Text.code_nil, List.append_nil,
    Text.code_of_newline_not_mem hone]
  simp [Text.isCode_comment]

/-- The banner is a comment. -/
theorem code_render (layout : Layout) (lines : List Line) :
    Text.code (layout.render lines).toList = lines.flatMap (Line.code layout.indent) := by
  have hbanner : banner.flatMap (Line.code layout.indent) = [] := by
    rw [banner, List.flatMap_cons, code_comment _ _ (by decide +kernel), List.flatMap_cons,
      code_blank]
    rfl
  rw [Layout.render, code_join]
  split
  · rw [List.flatMap_append, hbanner, List.nil_append]
  · rfl

/-- Whether an operation can make a difference to code. -/
def Operation.isCode : Operation → Bool
  | .blank | .note _ => false
  | .line text => !isComment text
  | _ => true

/-- Comments, blank lines and notes make no difference to code. -/
theorem aspect_isCode (indent : Nat) (script : Script) :
    script.aspect (Line.code indent) (fun _ => true) 0 =
      Script.aspect (Line.code indent) (fun _ => true) 0 (script.filter (·.isCode)) := by
  refine Script.aspect_filter (fun operation hunseen => ?_) (fun _ _ => rfl) script 0
  cases operation with
  | blank => exact code_blank indent
  | note event => trivial
  | line text =>
    have hcomment : isComment text := by simpa [Operation.isCode] using hunseen
    exact fun level => code_comment indent level hcomment
  | _ => cases hunseen

/-! ## Scripts of bare declarations -/

/-- Of comments nothing is code. -/
theorem filter_comments {texts : List String} (h : ∀ text ∈ texts, isComment text) :
    (texts.map Operation.line).filter (·.isCode) = [] := by
  rw [List.filter_eq_nil_iff]
  intro operation hmem
  obtain ⟨text, htext, rfl⟩ := List.mem_map.mp hmem
  simp [Operation.isCode, h text htext]

/-- The lines of a help string are comments, each on its own. -/
theorem filter_headed (attributes : List Attribute) (script : Script) :
    ((.blank :: docsScript attributes) ++ script).filter (·.isCode) = script.filter (·.isCode) := by
  have hdocs : (docsScript attributes).filter (·.isCode) = [] := by
    unfold docsScript
    split
    · rfl
    · refine filter_comments fun text htext => ?_
      obtain ⟨line, hline, rfl⟩ := List.mem_map.mp htext
      exact isComment_append (by decide +kernel) (Text.newline_not_mem_of_mem_lines hline)
  rw [List.filter_append, List.filter_cons_of_neg (by decide), hdocs, List.nil_append]

/-- So are the lines of a directive. -/
theorem filter_directiveScript (kind : DirectiveKind) (text : String) :
    (directiveScript kind text).filter (·.isCode) = [] := by
  rw [directiveScript, List.filter_cons_of_neg (by decide)]
  refine filter_comments fun text htext => ?_
  obtain ⟨line, hline, rfl⟩ := List.mem_map.mp htext
  have hhead : isComment ("// " ++ kind.word ++ ": ") := by cases kind <;> decide +kernel
  exact isComment_append hhead (Text.newline_not_mem_of_mem_lines hline)

/-- An identifier is a comment if it is on one line. -/
theorem filter_idScript {attributes : List Attribute}
    (h : ∀ uuid ∈ Attribute.valueOf .uuid attributes, '\n' ∉ uuid.toList) :
    (idScript attributes).filter (·.isCode) = [] := by
  unfold idScript
  split
  · rfl
  · next uuid huuid =>
    have hcomment : isComment ("/// IID: " ++ uuid) :=
      isComment_append (by decide +kernel) (h uuid huuid)
    exact @filter_comments ["/// IID: " ++ uuid] (by simpa using hcomment)

/-- What is noted in the end is not code. -/
theorem filter_emittedScript (d : Declaration) : (emittedScript d).filter (·.isCode) = [] := by
  unfold emittedScript
  split <;> rfl

/-- Events are no code. -/
theorem filter_emitted_congr {script script' : Script}
    (h : script.filter (·.isCode) = script'.filter (·.isCode)) (d d' : Declaration) :
    (script ++ emittedScript d).filter (·.isCode) =
      (script' ++ emittedScript d').filter (·.isCode) := by
  rw [List.filter_append, List.filter_append, h, filter_emittedScript, filter_emittedScript]

/-- The code for a struct does not depend on its comments. -/
theorem recordScript_bare (r : Record) :
    (recordScript r).filter (·.isCode) = (recordScript r.bare).filter (·.isCode) := by
  have hfields : (r.fields.map Variable.bare).map fieldText = r.fields.map fieldText := by
    rw [List.map_map]
    exact List.map_congr_left fun _ _ => rfl
  rw [recordScript, recordScript, filter_headed, filter_headed, Record.bare, hfields]

/-- Neither does the code for an enumeration. -/
theorem enumerationScript_bare (e : Enumeration) :
    (enumerationScript e).filter (·.isCode) = (enumerationScript e.bare).filter (·.isCode) := by
  rw [enumerationScript, enumerationScript, filter_headed, filter_headed]
  rfl

/-- Neither does that for a further name of a type. -/
theorem typedefScript_bare (t : Typedef) :
    (typedefScript t).filter (·.isCode) = (typedefScript t.bare).filter (·.isCode) := by
  have hself : t.bare.isSelf = t.isSelf := rfl
  rw [typedefScript, typedefScript, hself]
  split
  · rfl
  · rw [filter_headed, filter_headed]
    rfl

/-- Slots are written without what comments are made of. -/
theorem slotText_bare (name : String) (m : Method) : slotText name m.bare = slotText name m := by
  have hparams : m.bare.params.mapM parameterText = m.params.mapM parameterText := by
    rw [Method.bare, List.mapM_map]
    rfl
  have hresult : m.bare.returnType = m.returnType := rfl
  unfold slotText
  rw [hparams, hresult]

@[inherit_doc slotText_bare]
theorem slotsScript_bare (name : String) (methods : List Method) :
    slotsScript name (methods.map Method.bare) = slotsScript name methods := by
  induction methods with
  | nil => rfl
  | cons m methods ih =>
    have hname : m.bare.name = m.name := rfl
    rw [List.map_cons, slotsScript, slotsScript, slotText_bare, ih, hname]

/-- So are tables. -/
theorem tableScript_bare (name : String) (table : DispatchTable) :
    tableScript name ⟨table.base, table.methods.map Method.bare⟩ = tableScript name table := by
  rw [tableScript, tableScript, slotsScript_bare]

/-- The code for an interface does not depend on its comments if its identifier is on one line. -/
theorem interfaceScript_bare (root : List Declaration) {i : Interface}
    (h : (Declaration.interface i).IdOnOneLine) :
    (interfaceScript root i).filter (·.isCode) =
      (interfaceScript (bareAll root) i.bare).filter (·.isCode) := by
  have hbare : (idScript (i.attributes.map Attribute.bare)).filter (·.isCode) = [] :=
    filter_idScript (by simp [Attribute.valueOf_uuid_bare])
  rw [interfaceScript, interfaceScript, filter_headed, filter_headed, List.filter_append,
    List.filter_append, filter_idScript h, Interface.dispatchTable_bare, Interface.bare, hbare,
    interfaceBody, interfaceBody, tableScript_bare]

mutual

/-- The code for a declaration does not depend on its comments, if all identifiers in it are on one
line. -/
theorem declarationScript_bare (root : List Declaration) {d : Declaration}
    (h : ∀ e ∈ d.parts, e.IdOnOneLine) :
    (declarationScript root d).filter (·.isCode) =
      (declarationScript (bareAll root) d.bare).filter (·.isCode) := by
  cases d with
  | imports files => rfl
  | importLibrary file => rfl
  | coclass c => rfl
  | constant c => rfl
  | directive kind text =>
    exact (filter_directiveScript kind text).trans (filter_directiveScript kind "").symm
  | record r => exact filter_emitted_congr (recordScript_bare r) _ _
  | enumeration e => exact filter_emitted_congr (enumerationScript_bare e) _ _
  | typedef t => exact filter_emitted_congr (typedefScript_bare t) _ _
  | interface i =>
    have hid : (Declaration.interface i).IdOnOneLine := h _ (by simp [parts, outline])
    exact filter_emitted_congr (interfaceScript_bare root hid) _ _
  | group kind name attributes body =>
    have hbody : (declarationsScript root body).filter (·.isCode) =
        (declarationsScript (bareAll root) (bareAll body)).filter (·.isCode) :=
      declarationsScript_bareAll root fun e he => h e (by simp [he])
    rw [bare, declarationScript, declarationScript, filter_headed, filter_headed]
    refine filter_emitted_congr (Script.filter_braced_congr _ ?_) _ _
    rw [List.filter_cons, List.filter_cons, hbody]

/-- The texts of comments make no difference to the code of declarations. -/
theorem declarationsScript_bareAll (root : List Declaration) {ds : List Declaration}
    (h : ∀ e ∈ preorder ds, e.IdOnOneLine) :
    (declarationsScript root ds).filter (·.isCode) =
      (declarationsScript (bareAll root) (bareAll ds)).filter (·.isCode) := by
  cases ds with
  | nil => rfl
  | cons d ds =>
    rw [declarationsScript, bareAll, declarationsScript, List.filter_append, List.filter_append,
      declarationScript_bare root fun e he => h e (by simp [he]),
      declarationsScript_bareAll root fun e he => h e (by simp [he])]

end

/-! ## Generating output -/

/-- The code of output, and what was left out of it. -/
def Generated.code (g : Generated) : List (List Char) × List Diagnostic :=
  (Text.code g.source.toList, g.diagnostics)

/-- The code of the output is an aspect of its script. -/
theorem generate_map_code (settings : Settings) {ds : List Declaration} (hne : ds ≠ []) :
    (generate settings ds).map Generated.code =
      Script.aspect (Line.code settings.layout.indent) (fun _ => true) 0
        ((programScript settings.packageName settings.typesPath ds).filter (·.isCode)) := by
  rw [generate_eq_run settings hne, ← aspect_isCode, Script.aspect]
  cases (programScript settings.packageName settings.typesPath ds).run 0 with
  | ok result =>
    have hall : result.2.diagnostics.filter (fun _ => true) = result.2.diagnostics :=
      List.filter_eq_self.mpr fun _ _ => rfl
    simp [Except.map, Generated.code, code_render, hall]
  | error fault => rfl

/-- The code of output is that of the declarations without the texts of comments. -/
theorem generate_code {ds : List Declaration} (h : ∀ d ∈ preorder ds, d.IdOnOneLine)
    (settings : Settings) :
    (generate settings ds).map Generated.code =
      (generate settings (bareAll ds)).map Generated.code := by
  cases ds with
  | nil => rfl
  | cons d ds =>
    have hne : bareAll (d :: ds) ≠ [] := List.cons_ne_nil _ _
    have hprogram : (programScript settings.packageName settings.typesPath (d :: ds)).filter
          (·.isCode) =
        (programScript settings.packageName settings.typesPath (bareAll (d :: ds))).filter
          (·.isCode) := by
      refine Script.filter_braced_congr _ ?_
      rw [List.filter_append, List.filter_append, declarationsScript_bareAll (d :: ds) h]
    rw [generate_map_code settings (List.cons_ne_nil _ _), hprogram, generate_map_code settings hne]

/-- Declarations that differ in the texts of comments only become the same code. -/
theorem code_of_bareAll_eq {ds ds' : List Declaration} (hsame : bareAll ds = bareAll ds')
    (h : ∀ d ∈ preorder ds, d.IdOnOneLine) (h' : ∀ d ∈ preorder ds', d.IdOnOneLine)
    (settings : Settings) :
    (generate settings ds).map Generated.code = (generate settings ds').map Generated.code := by
  rw [generate_code h, generate_code h', hsame]

/-- Declarations with a remark, an identifier and a text wherever there is a place for one. -/
def annotated (help uuid text : String) : List Declaration :=
  let attributes : List Attribute := [⟨.uuid, some uuid⟩, ⟨.helpString, some help⟩]
  [.directive .cppQuote text,
    .group .library "Lib" attributes
      [.interface {
          name := "IThing"
          parent := some "IUnknown"
          attributes := ⟨.object, none⟩ :: attributes
          methods := [{ name := "Go", returnType := "long", attributes := attributes }] },
        .record { name := "Pair", attributes, fields := [{ typeName := "long", name := "first" }] },
        .coclass { name := "Thing", attributes, interfaces := [{ name := "IThing", attributes }] },
        .directive .midlPragma text]]

/-- Declarations that differ in their comments are the same without them. -/
theorem bareAll_annotated (help uuid text help' uuid' text' : String) :
    bareAll (annotated help uuid text) = bareAll (annotated help' uuid' text') := rfl

/-- The interface is the only one whose identifier is written. -/
theorem idOnOneLine_annotated (help text : String) {uuid : String} (h : '\n' ∉ uuid.toList) :
    ∀ d ∈ preorder (annotated help uuid text), d.IdOnOneLine := by
  intro d hd
  simp only [annotated, preorder, outlineAll, outline, List.map_cons, List.cons_append,
    List.nil_append, List.append_nil, List.mem_cons, List.map_nil, List.not_mem_nil, or_false] at hd
  rcases hd with rfl | rfl | rfl | rfl | rfl | rfl
  case inr.inr.inl =>
    intro uuid' huuid
    obtain rfl : uuid = uuid' := by simpa [Attribute.valueOf] using huuid
    exact h
  all_goals trivial

/-- Texts that would be code, were they not in comments. -/
def unruly : List Declaration :=
  annotated "a\n\x7d\r\npub mod b \x7b\n" "\x7d; /*" "\n\npub struct Smuggled;\n"

/-- Comments of one and of several lines. -/
theorem code_of_bareAll_eq_annotated :
    bareAll (annotated "Things" "0-1" "#include <a.h>") = bareAll unruly ∧
    (∀ d ∈ preorder unruly, d.IdOnOneLine) ∧
    (generate {} (annotated "Things" "0-1" "#include <a.h>")).map Generated.code =
      (generate {} unruly).map Generated.code := by
  have hsame : bareAll (annotated "Things" "0-1" "#include <a.h>") = bareAll unruly :=
    bareAll_annotated ..
  have hone : ∀ d ∈ preorder unruly, d.IdOnOneLine := idOnOneLine_annotated _ _ (by decide)
  exact ⟨hsame, hone, code_of_bareAll_eq hsame (idOnOneLine_annotated _ _ (by decide)) hone {}⟩

/-! ## Identifiers on several lines -/

/-- A line with a line feed in it shows what stands after that. -/
theorem code_of_newline (indent level : Nat) {text : String} {first rest : List Char}
    (htext : text.toList = first ++ '\n' :: rest) (hrest : Text.code rest ≠ []) :
    (Line.content level text).code indent ≠ [] := by
  have hrender : ((Line.content level text).render indent).toList =
      (List.replicate (level * indent) ' ' ++ first) ++ '\n' :: (rest ++ ['\n']) := by
    simp [Line.render, htext]
  rw [Line.code, hrender, Text.code_append, Text.code_append, Text.code_nil, List.append_nil]
  exact fun h => hrest (List.append_eq_nil_iff.mp h).2

/-- An interface that has an identifier and nothing else. -/
def identified (uuid : String) : List Declaration :=
  [.interface { name := "I", attributes := [⟨.uuid, some uuid⟩] }]

/-- The identifier is written once, between code that does not depend on it. -/
theorem generate_identified (settings : Settings) : ∃ opening ending : Script, ∀ uuid,
    (generate settings (identified uuid)).map Generated.code =
      Script.aspect (Line.code settings.layout.indent) (fun _ => true) 0
        (opening ++ ((idScript [⟨.uuid, some uuid⟩]).filter (·.isCode) ++ ending)) := by
  let opening : Script := .line ("pub mod " ++ identifier settings.packageName ++ " \x7b") ::
    .raise :: preambleScript settings.typesPath
  let ending : Script := interfaceBody "I" ⟨none, []⟩ ++ [.lower, .line "\x7d"]
  refine ⟨opening.filter (·.isCode), ending.filter (·.isCode), fun uuid => ?_⟩
  have hne : identified uuid ≠ [] := List.cons_ne_nil _ _
  have htable : Interface.dispatchTable (identified uuid)
      { name := "I", attributes := [⟨.uuid, some uuid⟩] } = ⟨none, []⟩ := by
    simp [Interface.dispatchTable, Interface.ancestry, Interface.ascend_of_parent_none]
  have hscript : programScript settings.packageName settings.typesPath (identified uuid) =
      opening ++ ((.blank :: docsScript [⟨.uuid, some uuid⟩]) ++ (idScript [⟨.uuid, some uuid⟩] ++
        (interfaceBody "I" ⟨none, []⟩ ++ (emittedScript (.interface
          { name := "I", attributes := [⟨.uuid, some uuid⟩] }) ++ [.lower, .line "\x7d"])))) := by
    rw [programScript, identified, declarationsScript, declarationsScript, declarationScript,
      interfaceScript, ← identified, htable]
    simp [opening, Script.braced]
  rw [generate_map_code settings hne, hscript, List.filter_append, filter_headed]
  simp only [ending, List.filter_append, filter_emittedScript, List.nil_append]

/-- An identifier with a line feed in it ends its comment early, and goes on as code. -/
theorem id_escapes_comment :
    bareAll (identified "0") = bareAll (identified "0\npub struct Smuggled;") ∧
    (generate {} (identified "0")).map Generated.code ≠
      (generate {} (identified "0\npub struct Smuggled;")).map Generated.code := by
  refine ⟨rfl, fun hsame => ?_⟩
  obtain ⟨opening, ending, hcode⟩ := generate_identified {}
  have hharmless := hcode "0"
  have hescaping := hcode "0\npub struct Smuggled;"
  rw [filter_idScript (by decide), List.nil_append] at hharmless
  have hid : (idScript [⟨.uuid, some "0\npub struct Smuggled;"⟩]).filter (·.isCode) =
      [.line ("/// IID: " ++ "0\npub struct Smuggled;")] :=
    List.filter_cons_of_pos (by decide +kernel)
  rw [hid, ← hsame] at hescaping
  cases hgenerate : generate {} (identified "0") with
  | error fault =>
    have hok : (generate {} (identified "0")).isOk = true := by decide +kernel
    simp [hgenerate, Except.isOk, Except.toBool] at hok
  | ok g =>
    rw [hgenerate] at hharmless hescaping
    obtain ⟨level, hunseen⟩ :=
      Script.exists_unseen_of_aspect_eq hharmless.symm hescaping.symm
    have htext : ("/// IID: " ++ "0\npub struct Smuggled;").toList =
        "/// IID: 0".toList ++ '\n' :: "pub struct Smuggled;".toList := by decide +kernel
    exact code_of_newline _ level htext (by decide +kernel) hunseen

end Output

end Midl
