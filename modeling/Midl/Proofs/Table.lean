import Midl.Output.Session
import Midl.Proofs.Dispatch
import Midl.Proofs.Drafting
import Midl.Proofs.Walk

/-!
# The tables in the output

The table of every declared interface stands in the output, whatever library or module the
interface is in (`declarations_adds_tables`). A slot is written the same way in every table but
for the type of the object it is called on, which `Slot` takes apart. So where the table of a
child extends that of its parent, the text of the one extends the text of the other, and a pointer
to the child can be used as one to the parent.
-/

namespace Midl.Output

open Declaration Drafting

/-! ## Slots as text -/

/-- A slot as it is written, but for the type of the object. -/
structure Slot where
  /-- The name of the field. -/
  field : String
  /-- What follows the type of the object: the further parameters and the result. -/
  signature : String
deriving DecidableEq

namespace Slot

/-- A parameter as it is written, if its pointers can be counted. -/
def parameter (v : Variable) : String :=
  identifier v.name ++ ": " ++ typeText v.typeName (v.indirection + v.isArray.toNat)

/-- The slot of a method. -/
def ofMethod (m : Method) : Slot where
  field := identifier m.name
  signature :=
    String.join (m.params.map fun v => ", " ++ parameter v) ++ ")" ++ resultText m.returnType

/-- The line for a slot in the table of the interface `object`. -/
def text (object : String) (slot : Slot) : String :=
  "pub " ++ slot.field ++ ": " ++ "unsafe extern \"system\" fn("
    ++ ("this: *mut " ++ identifier object) ++ slot.signature ++ ","

end Slot

/-- A list with separators is its first element, and each other one after a separator. -/
theorem intercalate_cons_eq_join (sep first : String) (others : List String) :
    sep.intercalate (first :: others) = first ++ String.join (others.map (sep ++ ·)) := by
  induction others generalizing first with
  | nil => simp
  | cons second others ih => simp [String.intercalate_cons_cons, ih, String.append_assoc]

/-- What is written for a parameter counts all of its pointers. -/
theorem eq_of_parameterText {v : Variable} {text : String} (h : parameterText v = .ok text) :
    text = Slot.parameter v := by
  unfold parameterText parameterDepth at h
  split at h
  · cases h
  · exact (Except.ok.inj h).symm

/-- What is written for some parameters is written for each of them. -/
theorem eq_of_mapM_parameterText {params : List Variable} {texts : List String}
    (h : params.mapM parameterText = .ok texts) : texts = params.map Slot.parameter := by
  induction params generalizing texts with
  | nil => exact (Except.ok.inj h).symm
  | cons v params ih =>
    rw [List.mapM_cons] at h
    cases hfirst : parameterText v with
    | error fault =>
      rw [hfirst] at h
      cases h
    | ok text =>
      cases hothers : params.mapM parameterText with
      | error fault =>
        rw [hfirst, hothers] at h
        cases h
      | ok others =>
        rw [hfirst, hothers] at h
        obtain rfl := Except.ok.inj h
        rw [List.map_cons, eq_of_parameterText hfirst, ih hothers]

/-- The type of a slot depends on the interface only in the type of the object. -/
theorem eq_of_slotText {object : String} {m : Method} {text : String}
    (h : slotText object m = .ok text) :
    text = "unsafe extern \"system\" fn(" ++ ("this: *mut " ++ identifier object)
      ++ (Slot.ofMethod m).signature := by
  unfold slotText at h
  cases hparams : m.params.mapM parameterText with
  | error fault =>
    rw [hparams] at h
    cases h
  | ok texts =>
    rw [hparams] at h
    obtain rfl := Except.ok.inj h
    rw [eq_of_mapM_parameterText hparams, intercalate_cons_eq_join, List.map_map]
    simp only [Slot.ofMethod, String.append_assoc]
    rfl

/-- A slot that is written is written as its line. -/
theorem text_ofMethod {object : String} {m : Method} {text : String}
    (h : slotText object m = .ok text) :
    "pub " ++ identifier m.name ++ ": " ++ text ++ "," = (Slot.ofMethod m).text object := by
  rw [eq_of_slotText h, Slot.text]
  simp only [String.append_assoc]
  rfl

/-! ## Tables as lines -/

/-- The fields of the table of an interface: the table of its base, and its slots. -/
def tableFields (interfaceName : String) (table : DispatchTable) : List String :=
  table.base.toList.map (fun base => "pub base: " ++ tableName base ++ ",")
    ++ (table.methods.map Slot.ofMethod).map (Slot.text interfaceName)

/-- The lines of a table that stands at a level: the table of the base, and the slots. -/
def tableLines (level : Nat) (name : String) (base : Option String) (slots : List Slot) :
    List Line :=
  let fields := base.toList.map (fun base => "pub base: " ++ tableName base ++ ",")
    ++ slots.map (Slot.text name)
  .content level ("pub struct " ++ tableName name ++ " \x7b") ::
    fields.map (.content (level + 1)) ++ [.content level "\x7d"]

/-- The lines of the table that an interface has among the declarations `root`. -/
def interfaceTable (root : List Declaration) (level : Nat) (i : Interface) : List Line :=
  tableLines level i.name (i.dispatchTable root).base
    ((i.dispatchTable root).methods.map Slot.ofMethod)

/-- Some lines hold the table of every one of these interfaces. -/
def HoldTables (root : List Declaration) (is : List Interface) (lines : List Line) : Prop :=
  ∀ i ∈ is, ∃ level, interfaceTable root level i <:+: lines

/-- Lines that hold some tables each hold them all together. -/
theorem HoldTables.append {root : List Declaration} {is js : List Interface}
    {xs ys : List Line} (h : HoldTables root is xs) (h' : HoldTables root js ys) :
    HoldTables root (is ++ js) (xs ++ ys) := by
  intro i hi
  rcases List.mem_append.mp hi with hi | hi
  · obtain ⟨level, hin⟩ := h i hi
    exact ⟨level, hin.trans (List.infix_append' [] xs ys)⟩
  · obtain ⟨level, hin⟩ := h' i hi
    exact ⟨level, hin.trans (List.suffix_append xs ys).isInfix⟩

/-- What holds some tables holds them as a part of something larger too. -/
theorem HoldTables.infix {root : List Declaration} {is : List Interface} {xs ys : List Line}
    (h : HoldTables root is xs) (hin : xs <:+: ys) : HoldTables root is ys := by
  intro i hi
  obtain ⟨level, hx⟩ := h i hi
  exact ⟨level, hx.trans hin⟩

/-! ## Every table is written -/

/-- Comments are appended. -/
theorem docs_appends (attributes : List Attribute) : Appends (docs attributes) := by
  rw [docs]
  split
  · exact Appends.pure ()
  · exact Appends.lines _

/-- So is a struct. -/
theorem record_appends (r : Record) : Appends (record r) := by
  refine Appends.blank.bind fun _ => (docs_appends _).bind fun _ => ?_
  exact (Appends.line _).bind fun _ => Appends.braced _ (Appends.lines _)

/-- So are the constants of an enumeration. -/
theorem memberLines_appends (enumName : String) (skipped : List String)
    (members : List (Member × Resolved)) : Appends (memberLines enumName skipped members) := by
  induction members generalizing skipped with
  | nil => exact Appends.pure ()
  | cons member members ih =>
    refine (Appends.attempt _).bind fun text? => ?_
    cases text? with
    | none => exact (Appends.report _).bind fun _ => ih _
    | some text => exact (Appends.line _).bind fun _ => ih _

/-- So is an enumeration with its name. -/
theorem enumeration_appends (e : Enumeration) : Appends (enumeration e) := by
  refine Appends.blank.bind fun _ => (docs_appends _).bind fun _ => ?_
  refine (Appends.line _).bind fun _ => (Appends.attempt _).bind fun _ => ?_
  exact memberLines_appends _ _ _

/-- So is a further name for a type. -/
theorem typedef_appends (t : Typedef) : Appends (typedef t) := by
  rw [typedef]
  split
  · exact Appends.note _
  · exact Appends.blank.bind fun _ => (docs_appends _).bind fun _ => Appends.line _

/-- So is a constant. -/
theorem constant_appends (c : Constant) : Appends (constant c) := by
  refine Appends.blank.bind fun _ => ?_
  split
  · exact Appends.line _
  · exact (Appends.attempt _).bind fun _ => Appends.line _

/-- So is a directive. -/
theorem directive_appends (kind : DirectiveKind) (text : String) :
    Appends (directive kind text) :=
  Appends.blank.bind fun _ => Appends.lines _

/-- Recording an event appends nothing. -/
theorem noteEmitted_appends (d : Declaration) : Appends (noteEmitted d) := by
  rw [noteEmitted]
  split
  · exact Appends.note _
  · exact Appends.pure ()

/-- Slots are written one after the other, each on its line. -/
theorem slots_adds (interfaceName : String) (methods : List Method) (level : Nat) :
    Adds (slots interfaceName methods) level fun _ x => x =
      { lines := ((methods.map Slot.ofMethod).map (Slot.text interfaceName)).map
          (.content level) } := by
  induction methods with
  | nil => exact (Writes.pure ()).adds.mono fun _ _ h => h.2
  | cons m methods ih =>
    refine (Adds.attempt (slotText interfaceName m)).bind fun slot x hx => ?_
    obtain ⟨hslot, rfl⟩ := hx
    refine (Writes.line _).adds.bind fun _ x hx => ih.mono fun _ y hy => ?_
    rw [hx.2, hy, text_ofMethod hslot]
    rfl

/-- A table is written field by field. -/
theorem tableBody_adds (interfaceName : String) (table : DispatchTable) (level : Nat) :
    Adds (tableBody interfaceName table) level fun _ x => x =
      { lines := (tableFields interfaceName table).map (.content level) } := by
  unfold tableBody tableFields
  cases table.base with
  | none => simpa using slots_adds interfaceName table.methods level
  | some base =>
    refine (Writes.line _).adds.bind fun _ x hx => ?_
    refine (slots_adds interfaceName table.methods level).mono fun _ y hy => ?_
    rw [hx.2, hy, Option.toList_some, List.map_append]
    rfl

/-- An interface is written with its table. -/
theorem interface_adds_table (root : List Declaration) (i : Interface) (level : Nat) :
    Adds (interface root i) level fun _ x => interfaceTable root level i <:+: x.lines := by
  -- The table comes last, so whatever is written before it does not matter.
  have hmono : ∀ (_ : Unit) (x y : Addition), interfaceTable root level i <:+: y.lines →
      interfaceTable root level i <:+: (x ++ y).lines :=
    fun _ x y h => h.trans (List.suffix_append x.lines y.lines).isInfix
  have htable : Adds (braced ("pub struct " ++ tableName i.name)
      (tableBody i.name (i.dispatchTable root))) level
      fun _ x => interfaceTable root level i <:+: x.lines := by
    refine (Adds.braced _ (tableBody_adds i.name (i.dispatchTable root) (level + 1))).mono ?_
    rintro _ _ ⟨x, rfl, rfl⟩
    exact List.infix_refl _
  have hrest : Adds (do
      line "#[repr(C)]"
      braced ("pub struct " ++ identifier i.name)
        (line ("pub vtbl: *const " ++ tableName i.name ++ ","))
      blank
      line "#[repr(C)]"
      braced ("pub struct " ++ tableName i.name)
        (tableBody i.name (i.dispatchTable root))) level
      fun _ x => interfaceTable root level i <:+: x.lines := by
    refine (Appends.line _ level).after (fun _ => ?_) hmono
    refine (Appends.braced _ (Appends.line _) level).after (fun _ => ?_) hmono
    refine (Appends.blank level).after (fun _ => ?_) hmono
    exact (Appends.line _ level).after (fun _ => htable) hmono
  refine (Appends.blank level).after (fun _ => ?_) hmono
  refine (docs_appends _ level).after (fun _ => ?_) hmono
  simp only
  split
  · exact hrest
  · exact (Appends.line _ level).after (fun _ => hrest) hmono

mutual

/-- A declaration is written with the tables of all interfaces in it. -/
theorem declaration_adds_tables (root : List Declaration) (d : Declaration) (level : Nat) :
    Adds (declaration root d) level
      fun _ x => HoldTables root (d.parts.filterMap interface?) x.lines := by
  have hnone : ∀ {work : Drafting Unit}, Appends work →
      Adds work level fun _ x => HoldTables root [] x.lines :=
    fun h => (h level).mono fun _ _ _ i hi => absurd hi List.not_mem_nil
  cases d with
  | interface i =>
    refine (interface_adds_table root i level).bind fun _ x hx => ?_
    refine (noteEmitted_appends _ level).mono fun _ y _ => ?_
    intro j hj
    obtain rfl : j = i := by simpa [parts, outline, interface?] using hj
    exact ⟨level, hx.trans (List.infix_append' [] x.lines y.lines)⟩
  | group kind name attributes body =>
    have hparts : (Declaration.group kind name attributes body).parts.filterMap interface? =
        interfaces body := by
      rw [parts_group, List.filterMap_cons_none rfl, interfaces]
    have hbody : Adds (do line "use super::*;"; declarations root body) (level + 1)
        fun _ x => HoldTables root (interfaces body) x.lines :=
      (Appends.line _ _).after (fun _ => declarations_adds_tables root body (level + 1))
        fun _ x _ h => h.infix (List.suffix_append x.lines _).isInfix
    rw [hparts]
    refine (Appends.blank level).after (fun _ => ?_)
      fun _ x _ h => h.infix (List.suffix_append x.lines _).isInfix
    refine (docs_appends _ level).after (fun _ => ?_)
      fun _ x _ h => h.infix (List.suffix_append x.lines _).isInfix
    refine (Adds.braced _ hbody).bind fun _ z hz => ?_
    obtain ⟨x, hx, rfl⟩ := hz
    refine (noteEmitted_appends _ level).mono fun _ y _ => hx.infix ?_
    exact (List.infix_append _ x.lines _).trans (List.prefix_append _ y.lines).isInfix
  | imports files => exact hnone (Appends.note _)
  | importLibrary file => exact hnone (Appends.note _)
  | coclass c => exact hnone (Appends.report _)
  | directive kind text => exact hnone (directive_appends _ _)
  | record r => exact hnone ((record_appends r).bind fun _ => noteEmitted_appends _)
  | enumeration e => exact hnone ((enumeration_appends e).bind fun _ => noteEmitted_appends _)
  | typedef t => exact hnone ((typedef_appends t).bind fun _ => noteEmitted_appends _)
  | constant c => exact hnone ((constant_appends c).bind fun _ => noteEmitted_appends _)

/-- Declarations are written with the tables of all interfaces in them. -/
theorem declarations_adds_tables (root : List Declaration) (ds : List Declaration) (level : Nat) :
    Adds (declarations root ds) level
      fun _ x => HoldTables root (interfaces ds) x.lines := by
  cases ds with
  | nil => exact (Appends.pure () level).mono fun _ _ _ i hi => absurd hi List.not_mem_nil
  | cons d ds =>
    refine (declaration_adds_tables root d level).bind fun _ x hx => ?_
    refine (declarations_adds_tables root ds level).mono fun _ y hy => ?_
    rw [interfaces, preorder_cons, List.filterMap_append]
    exact hx.append hy

end

/-- A whole program is written with the tables of all interfaces in it. -/
theorem program_adds_tables (packageName typesPath : String) (ds : List Declaration)
    (level : Nat) :
    Adds (program packageName typesPath ds) level
      fun _ x => HoldTables ds (interfaces ds) x.lines := by
  have hmono : ∀ (_ : Unit) (x y : Addition), HoldTables ds (interfaces ds) y.lines →
      HoldTables ds (interfaces ds) (x ++ y).lines :=
    fun _ x y h => h.infix (List.suffix_append x.lines y.lines).isInfix
  have hbody : Adds (do
      line allowances
      blank
      line "use core::ffi::c_void;"
      line ("use " ++ typesPath ++ "::*;")
      declarations ds ds) (level + 1) fun _ x => HoldTables ds (interfaces ds) x.lines := by
    refine (Appends.line _ _).after (fun _ => ?_) hmono
    refine (Appends.blank _).after (fun _ => ?_) hmono
    refine (Appends.line _ _).after (fun _ => ?_) hmono
    refine (Appends.line _ _).after (fun _ => ?_) hmono
    exact declarations_adds_tables ds ds (level + 1)
  refine (Adds.braced _ hbody).mono fun _ z hz => ?_
  obtain ⟨x, hx, rfl⟩ := hz
  exact hx.infix (List.infix_append _ x.lines _)

/-- Output that is not empty is laid out from lines that hold the tables of all interfaces. -/
theorem generate_holdTables {settings : Settings} {ds : List Declaration} {g : Generated}
    (hne : ds ≠ []) (h : generate settings ds = .ok g) :
    ∃ lines, g.source = settings.layout.render lines ∧ HoldTables ds (interfaces ds) lines := by
  cases hrun : program settings.packageName settings.typesPath ds settings.opened with
  | ok _ draft =>
    rw [generate, @Session.generate_of_ok ⟨settings, {}⟩ ds draft hne hrun] at h
    obtain rfl := Except.ok.inj h
    obtain ⟨x, rfl, hx⟩ := program_adds_tables _ _ ds 0 settings.opened () draft rfl hrun
    exact ⟨x.lines, settings.out_opened_add x, hx⟩
  | error fault draft =>
    rw [generate, @Session.generate_of_error ⟨settings, {}⟩ ds draft fault hne hrun] at h
    cases h

/-! ## Parent and child -/

/-- Some lines stand one after the other in the output. -/
def Generated.Shows (g : Generated) (layout : Layout) (lines : List Line) : Prop :=
  ∃ before after, g.source = layout.render (before ++ lines ++ after)

/-- The table of a child that its parent's walk does not meet begins with the table of its parent:
the same base, the same slots in the same order, and then the methods of the child. In the output,
the parent's slots stand in both tables with the same names and signatures, but for the type of
the object. -/
theorem parent_table_extended {ds : List Declaration} {i parent : Interface} {name : String}
    (hp : i.parent = some name) (hf : interfaceNamed? name ds = some parent)
    (hn : ∀ a ∈ (parent.ancestry ds).chain, a.name ≠ i.name) :
    (i.dispatchTable ds).methods = (parent.dispatchTable ds).methods ++ i.methods ∧
    (i.dispatchTable ds).base = (parent.dispatchTable ds).base ∧
    ∀ settings g, generate settings ds = .ok g → i ∈ interfaces ds →
      ∃ base slots, base = (parent.dispatchTable ds).base ∧
        slots = (parent.dispatchTable ds).methods.map Slot.ofMethod ∧
        (∃ level, g.Shows settings.layout (tableLines level parent.name base slots)) ∧
        ∃ level, g.Shows settings.layout
          (tableLines level i.name base (slots ++ i.methods.map Slot.ofMethod)) := by
  have htable := Interface.dispatchTable_of_parent hp hf hn
  refine ⟨by rw [htable], by rw [htable], ?_⟩
  intro settings g hg hi
  have hne : ds ≠ [] := by
    rintro rfl
    exact absurd hi List.not_mem_nil
  obtain ⟨lines, hsource, hlines⟩ := generate_holdTables hne hg
  have hshow : ∀ j ∈ interfaces ds, ∃ level,
      g.Shows settings.layout (interfaceTable ds level j) := by
    intro j hj
    obtain ⟨level, before, after, rfl⟩ := hlines j hj
    exact ⟨level, before, after, hsource⟩
  refine ⟨_, _, rfl, rfl, hshow parent (mem_interfaces_of_interfaceNamed? hf), ?_⟩
  obtain ⟨level, hlevel⟩ := hshow i hi
  refine ⟨level, ?_⟩
  rwa [interfaceTable, htable, List.map_append] at hlevel

namespace Family

/-- The oldest of three, below an interface that is not declared. -/
def grandparent : Interface :=
  { name := "IShape", parent := some "IUnknown", methods := [⟨"Load", "HRESULT", [], []⟩] }

/-- The one in the middle. -/
def parent : Interface :=
  { name := "IRound", parent := some "IShape", methods := [⟨"Turn", "HRESULT", [], []⟩] }

/-- The youngest. -/
def child : Interface :=
  { name := "IDisc", parent := some "IRound", methods := [⟨"Close", "void", [], []⟩] }

/-- The three in a library and a module, declared from the youngest to the oldest. -/
def scattered : List Declaration :=
  [.interface child,
    .group .library "Shapes" [] [.group .module "Inner" [] [.interface parent],
      .interface grandparent]]

end Family

open Family in
/-- Three generations of interfaces, declared in no order and at different depths. -/
theorem parent_table_extended_family :
    (∀ a ∈ (parent.ancestry scattered).chain, a.name ≠ child.name) ∧
    (child.dispatchTable scattered).methods =
      (parent.dispatchTable scattered).methods ++ child.methods ∧
    (parent.dispatchTable scattered).methods = grandparent.methods ++ parent.methods ∧
    (child.dispatchTable scattered).base = some "IUnknown" ∧
    ∃ g, generate {} scattered = .ok g ∧ ∃ slots,
      (∃ level, g.Shows {} (tableLines level "IRound" (some "IUnknown") slots)) ∧
      ∃ level, g.Shows {} (tableLines level "IDisc" (some "IUnknown")
        (slots ++ [⟨"Close", ")"⟩])) := by
  have hunmet : ∀ a ∈ (parent.ancestry scattered).chain, a.name ≠ child.name := by
    decide +kernel
  have hparent : parent.dispatchTable scattered =
      ⟨some "IUnknown", grandparent.methods ++ parent.methods⟩ := by
    decide +kernel
  have hsome : ∃ g, generate {} scattered = .ok g := by
    cases h : generate {} scattered with
    | ok g => exact ⟨g, rfl⟩
    | error fault =>
      have hok : (generate {} scattered).isOk = true := by decide +kernel
      simp [h, Except.isOk, Except.toBool] at hok
  obtain ⟨hmethods, hbase, hout⟩ :=
    @parent_table_extended scattered child parent "IRound" rfl rfl hunmet
  obtain ⟨g, hg⟩ := hsome
  obtain ⟨base, slots, rfl, rfl, hshow, hshow'⟩ := hout {} g hg (by decide +kernel)
  rw [hparent] at hshow hshow' hbase
  exact ⟨hunmet, hmethods, by rw [hparent], hbase, g, hg, _, hshow, hshow'⟩

end Midl.Output
