import Mathlib.Data.List.Nodup
import Midl.Proofs.Ancestry
import Midl.Proofs.Blocks
import Midl.Proofs.Parsed
import Midl.Proofs.Table

/-!
# The names of fields in the output

A struct is written with one field for each of its own, and a dispatch table with one for each slot,
after one for its base. The fields of one block have different names if the names they come from are
different, with two exceptions (`field_names_distinct_iff`). A reserved word that gets an underscore
may meet a name that has one (`Clash`), and a method may have the name of the field for the base.
-/

namespace Midl

open Declaration

/-! ## The declarations that have fields -/

namespace Declaration

/-- The struct that a declaration is. -/
def record? : Declaration → Option Record
  | record r => some r
  | _ => none

/-- All structs, in source order. -/
def records (ds : List Declaration) : List Record := (preorder ds).filterMap record?

/-- The structs of a program are those at any depth. -/
theorem mem_records_iff {r : Record} {ds : List Declaration} :
    r ∈ records ds ↔ .record r ∈ preorder ds := by
  constructor
  · intro h
    obtain ⟨x, hx, hr⟩ := List.mem_filterMap.mp h
    cases x with
    | record r' => rwa [← Option.some.inj hr]
    | _ => cases hr
  · intro h
    exact List.mem_filterMap.mpr ⟨_, h, rfl⟩

variable {ok : TokenKind → Prop} {ds : List Declaration} {nested : Bool}

/-- A struct of well-formed declarations is well-formed. -/
theorem wellFormed_of_mem_records {r : Record} (h : AllWellFormed ok nested ds)
    (hr : r ∈ records ds) : r.WellFormed ok :=
  (wellFormed_of_mem_preorder h (mem_records_iff.mp hr)).choose_spec

/-- So is an interface. -/
theorem wellFormed_of_mem_interfaces {i : Interface} (h : AllWellFormed ok nested ds)
    (hi : i ∈ interfaces ds) : i.WellFormed ok := by
  obtain ⟨x, hx, hxi⟩ := List.mem_filterMap.mp hi
  obtain ⟨_, hwf⟩ := wellFormed_of_mem_preorder h hx
  cases x with
  | interface i' =>
    obtain rfl : i' = i := Option.some.inj hxi
    exact hwf
  | _ => cases hxi

end Declaration

/-- The methods that have slots are well formed if the declarations are. -/
theorem Method.wellFormed_of_mem_dispatchTable {ok : TokenKind → Prop} {ds : List Declaration}
    {nested : Bool} {i : Interface} {m : Method} (h : AllWellFormed ok nested ds)
    (hi : i ∈ interfaces ds) (hm : m ∈ (i.dispatchTable ds).methods) : m.WellFormed ok := by
  obtain ⟨a, ha, hma⟩ := List.mem_flatMap.mp hm
  have hdeclared := Interface.mem_interfaces_of_mem_chain hi (List.mem_reverse.mp ha)
  exact (wellFormed_of_mem_interfaces h hdeclared).methods m hma

namespace Output

/-! ## Names that are read back -/

/-- A name without the characters that tell where a name ends, or that it is raw. -/
def IsBare (name : String) : Prop := ∀ c ∈ name.toList, c ≠ ':' ∧ c ≠ '#'

instance (name : String) : Decidable (IsBare name) :=
  List.decidableBAll (fun c => c ≠ ':' ∧ c ≠ '#') name.toList

/-- A literal byte is neither a colon nor a hash. -/
theorem toChar_bare : ∀ b : UInt8, Byte.isLiteral b = true →
    Byte.toChar b ≠ ':' ∧ Byte.toChar b ≠ '#' :=
  Byte.forall_of_forall_lt (by decide +kernel)

/-- So an identifier has neither. -/
theorem isBare_of_lexed {name : String} (h : (TokenKind.identifier name).Lexed) : IsBare name := by
  obtain ⟨bytes, hbytes⟩ := h
  intro c hc
  obtain ⟨b, hb, rfl⟩ := Run.isLiteral_of_mem_text hbytes hc
  exact toChar_bare b hb

/-- The name of the field that is written on a line. -/
def fieldName (text : String) : String := String.ofList ((text.toList.drop 4).takeWhile (· ≠ ':'))

/-- The name of a field is what stands before the colon. -/
theorem fieldName_eq {name : String} (h : ':' ∉ name.toList) (type : String) :
    fieldName ("pub " ++ name ++ ": " ++ type ++ ",") = name := by
  have htext : ("pub " ++ name ++ ": " ++ type ++ ",").toList.drop 4 =
      name.toList ++ ':' :: ' ' :: (type ++ ",").toList := by
    simp [String.toList_append]
  have hname : ∀ c ∈ name.toList, decide (c ≠ ':') = true := by
    intro c hc
    exact decide_eq_true fun heq => h (heq ▸ hc)
  rw [fieldName, htext, List.takeWhile_append_of_pos hname,
    List.takeWhile_cons_of_neg (by decide), List.append_nil, String.ofList_toList]

/-! ## Names that become the same -/

/-- What becomes of a name. -/
theorem identifier_cases (name : String) :
    (name ∈ pathWords ∧ identifier name = name ++ "_") ∨ identifier name = "r#" ++ name ∨
      identifier name = name := by
  unfold identifier
  split
  · exact .inl ⟨‹_›, rfl⟩
  · split
    · exact .inr (.inl rfl)
    · exact .inr (.inr rfl)

/-- A bare name is written without a colon. -/
theorem colon_not_mem_identifier {name : String} (h : IsBare name) :
    ':' ∉ (identifier name).toList := by
  have hname : ':' ∉ name.toList := fun hmem => (h _ hmem).1 rfl
  rcases identifier_cases name with ⟨-, heq⟩ | heq | heq <;>
    simp [heq, String.toList_append, hname]

/-- A raw name is no name, and no name with an underscore. -/
theorem raw_ne {m n : String} (hn : IsBare n) : "r#" ++ m ≠ n ∧ "r#" ++ m ≠ n ++ "_" := by
  have hmem : '#' ∈ ("r#" ++ m).toList := by simp [String.toList_append]
  refine ⟨fun heq => ?_, fun heq => ?_⟩
  · exact (hn '#' (heq ▸ hmem)).2 rfl
  · rw [heq, String.toList_append] at hmem
    rcases List.mem_append.mp hmem with hmem | hmem
    · exact (hn '#' hmem).2 rfl
    · exact absurd hmem (by decide)

/-- Different names become the same only if one is the other with an underscore. -/
theorem eq_or_clash {m n : String} (hm : IsBare m) (hn : IsBare n)
    (h : identifier m = identifier n) :
    m = n ∨ (m ∈ pathWords ∧ n = m ++ "_") ∨ (n ∈ pathWords ∧ m = n ++ "_") := by
  rcases identifier_cases m with ⟨hpath, hm'⟩ | hm' | hm' <;>
    rcases identifier_cases n with ⟨hpath', hn'⟩ | hn' | hn' <;> rw [hm', hn'] at h
  · exact .inl (String.append_left_inj _ |>.mp h)
  · exact absurd h.symm (raw_ne hm).2
  · exact .inr (.inl ⟨hpath, h.symm⟩)
  · exact absurd h (raw_ne hn).2
  · exact .inl (String.append_right_inj _ |>.mp h)
  · exact absurd h (raw_ne hn).1
  · exact .inr (.inr ⟨hpath', h⟩)
  · exact absurd h.symm (raw_ne hm).1
  · exact .inl h

/-- A reserved word that gets an underscore is among some names, and so is what it becomes. -/
def Clash (names : List String) : Prop := ∃ word ∈ pathWords, word ∈ names ∧ word ++ "_" ∈ names

instance (names : List String) : Decidable (Clash names) :=
  inferInstanceAs (Decidable (∃ word ∈ pathWords, word ∈ names ∧ word ++ "_" ∈ names))

/-- Such a word becomes the same as the name with the underscore, which is another name. -/
theorem identifier_of_mem_pathWords : ∀ word ∈ pathWords,
    identifier word = identifier (word ++ "_") ∧ word ≠ word ++ "_" := by
  decide +kernel

/-- Different names stay different in the output unless one of them is what another becomes. -/
theorem nodup_map_identifier_iff {names : List String} (hbare : ∀ name ∈ names, IsBare name)
    (hnames : names.Nodup) : (names.map identifier).Nodup ↔ ¬ Clash names := by
  constructor
  · rintro hnodup ⟨word, hword, hmem, hmem'⟩
    obtain ⟨heq, hne⟩ := identifier_of_mem_pathWords word hword
    exact hne (List.inj_on_of_nodup_map hnodup hmem hmem' heq)
  · intro hclash
    refine hnames.map_on fun m hm n hn heq => ?_
    rcases eq_or_clash (hbare m hm) (hbare n hn) heq with heq | ⟨hpath, rfl⟩ | ⟨hpath, rfl⟩
    · exact heq
    · exact absurd ⟨m, hpath, hm, hn⟩ hclash
    · exact absurd ⟨n, hpath, hn, hm⟩ hclash

/-! ## Blocks with fields -/

variable {settings : Settings} {ds : List Declaration} {g : Generated}

/-- Every struct is in the output, with a line for each of its fields. -/
theorem shows_record (hg : generate settings ds = .ok g) {r : Record} (hr : r ∈ records ds) :
    ∃ level, g.Shows settings.layout
      (blockLines level ("pub struct " ++ identifier r.name) (r.fields.map fieldText)) := by
  have hmem := mem_records_iff.mp hr
  have hne : ds ≠ [] := by
    rintro rfl
    cases hmem
  have hrecord : Script.braced ("pub struct " ++ identifier r.name)
      ((r.fields.map fieldText).map .line) <:+: declarationScript ds (.record r) := by
    rw [declarationScript, recordScript]
    refine ⟨.blank :: docsScript r.attributes ++ [.line "#[repr(C)]"],
      emittedScript (.record r), ?_⟩
    simp
  obtain ⟨lines, hsource, hblocks⟩ := generate_blocks hne hg
  obtain ⟨level, before, after, rfl⟩ :=
    hblocks _ _ (hrecord.trans (script_of_mem_preorder ds hmem))
  exact ⟨level, before, after, hsource⟩

/-- So is the table of every interface, with a line for its base and for each slot. -/
theorem shows_table (hg : generate settings ds = .ok g) {i : Interface} (hi : i ∈ interfaces ds) :
    ∃ level, g.Shows settings.layout (blockLines level ("pub struct " ++ tableName i.name)
      (tableFields i.name (i.dispatchTable ds))) := by
  have hne : ds ≠ [] := by
    rintro rfl
    cases hi
  obtain ⟨lines, hsource, htables⟩ := generate_holdTables hne hg
  obtain ⟨level, before, after, rfl⟩ := htables i hi
  refine ⟨level, before, after, ?_⟩
  rw [hsource]
  rfl

/-- The fields of a struct have the names of its members, as they are written. -/
theorem fieldName_fields {fields : List Variable} (h : ∀ v ∈ fields, IsBare v.name) :
    (fields.map fieldText).map fieldName = (fields.map Variable.name).map identifier := by
  rw [List.map_map, List.map_map]
  exact List.map_congr_left fun v hv => fieldName_eq (colon_not_mem_identifier (h v hv)) _

/-- The field for the table of the base has a fixed name. -/
theorem fieldName_base (base : String) :
    fieldName ("pub base: " ++ tableName base ++ ",") = "base" := by
  have htext : "pub base: " = "pub " ++ "base" ++ ": " := by decide +kernel
  rw [htext]
  exact fieldName_eq (by decide +kernel) _

/-- The field for a slot has the name of the method. -/
theorem fieldName_slot (object : String) {m : Method} (h : IsBare m.name) :
    fieldName ((Slot.ofMethod m).text object) = identifier m.name := by
  have htext : (Slot.ofMethod m).text object = "pub " ++ identifier m.name ++ ": " ++
      ("unsafe extern \"system\" fn(" ++ ("this: *mut " ++ identifier object) ++
        (Slot.ofMethod m).signature) ++ "," := by
    simp only [Slot.text, String.append_assoc]
    rfl
  rw [htext]
  exact fieldName_eq (colon_not_mem_identifier h) _

/-- The fields of a table have the names of the methods, after one for the base. -/
theorem fieldName_table (name : String) {table : DispatchTable}
    (h : ∀ m ∈ table.methods, IsBare m.name) :
    (tableFields name table).map fieldName =
      table.base.toList.map (fun _ => "base") ++
        (table.methods.map Method.name).map identifier := by
  rw [tableFields, List.map_append, List.map_map, List.map_map, List.map_map, List.map_map]
  refine congr (congrArg _ (List.map_congr_left fun base _ => fieldName_base base)) ?_
  exact List.map_congr_left fun m hm => fieldName_slot name (h m hm)

/-- Only a method with that name has the name of the field for the base. -/
theorem identifier_eq_base_iff {name : String} : identifier name = "base" ↔ name = "base" := by
  have hpath : ∀ word ∈ pathWords, word ++ "_" ≠ "base" := by decide +kernel
  constructor
  · intro h
    rcases identifier_cases name with ⟨hmem, heq⟩ | heq | heq <;> rw [heq] at h
    · exact absurd h (hpath name hmem)
    · exact absurd h (@raw_ne name "base" (by decide +kernel)).1
    · exact h
  · rintro rfl
    decide +kernel

/-- The fields of a struct whose own have different names have different names unless a reserved
word clashes. So have those of a table whose methods have different names, unless also a method
has the name of the field for the base, and there is one. -/
theorem field_names_distinct_iff {source : Source} (hparse : source.parse = .ok ds)
    (hg : generate settings ds = .ok g) :
    (∀ r ∈ records ds, (r.fields.map Variable.name).Nodup →
      let texts := r.fields.map fieldText
      (∃ level, g.Shows settings.layout
        (blockLines level ("pub struct " ++ identifier r.name) texts)) ∧
      ((texts.map fieldName).Nodup ↔ ¬ Clash (r.fields.map Variable.name))) ∧
    ∀ i ∈ interfaces ds, ((i.dispatchTable ds).methods.map Method.name).Nodup →
      let table := i.dispatchTable ds
      let texts := tableFields i.name table
      (∃ level, g.Shows settings.layout
        (blockLines level ("pub struct " ++ tableName i.name) texts)) ∧
      ((texts.map fieldName).Nodup ↔ ¬ Clash (table.methods.map Method.name) ∧
        (table.base.isSome = true → "base" ∉ table.methods.map Method.name)) := by
  have hwf := Source.allWellFormed_of_parse hparse
  refine ⟨fun r hr hnames => ⟨shows_record hg hr, ?_⟩,
    fun i hi hnames => ⟨shows_table hg hi, ?_⟩⟩
  · have hbare : ∀ v ∈ r.fields, IsBare v.name := fun v hv =>
      isBare_of_lexed ((wellFormed_of_mem_records hwf hr).fields v hv).name
    rw [fieldName_fields hbare]
    exact nodup_map_identifier_iff (by simpa using hbare) hnames
  · have hbare : ∀ m ∈ (i.dispatchTable ds).methods, IsBare m.name := fun m hm =>
      isBare_of_lexed (Method.wellFormed_of_mem_dispatchTable hwf hi hm).name
    have hdistinct := nodup_map_identifier_iff (by simpa using hbare) hnames
    have hbase : "base" ∈ ((i.dispatchTable ds).methods.map Method.name).map identifier ↔
        "base" ∈ (i.dispatchTable ds).methods.map Method.name := by
      simp [identifier_eq_base_iff]
    rw [fieldName_table i.name hbare]
    cases (i.dispatchTable ds).base with
    | none => simpa using hdistinct
    | some base =>
      simp only [Option.toList_some, List.map_cons, List.map_nil, List.singleton_append,
        List.nodup_cons, hbase, hdistinct, Option.isSome_some, forall_const]
      exact and_comm

namespace Escaped

/-- A struct in which a reserved word clashes, and one in which none does. -/
def clashing : Record :=
  { name := "S", fields := [{ typeName := "long", name := "self" },
    { typeName := "long", name := "self_" }] }

@[inherit_doc clashing] def peaceful : Record :=
  { name := "T", fields := [{ typeName := "long", name := "type" },
    { typeName := "long", name := "crate" }] }

/-- An interface with a method `base` that has a base, and one that has none. -/
def based : Interface :=
  { name := "I", parent := some "IUnknown", methods := [⟨"base", "void", [], []⟩] }

@[inherit_doc based] def baseless : Interface :=
  { name := "K", methods := [⟨"base", "void", [], []⟩] }

/-- All four of them. -/
def source : Source :=
  .ofText ("struct S\x7blong self;long self_;\x7d;struct T\x7blong type;long crate;\x7d;" ++
    "interface I:IUnknown\x7bvoid base();\x7d;interface K\x7bvoid base();\x7d;")

/-- They are what is read from the source, and there is output for them. -/
theorem exists_read : ∃ ds g, source.parse = .ok ds ∧ generate {} ds = .ok g ∧
    records ds = [clashing, peaceful] ∧ interfaces ds = [based, baseless] ∧
    based.dispatchTable ds = ⟨some "IUnknown", based.methods⟩ ∧
    baseless.dispatchTable ds = ⟨none, baseless.methods⟩ := by
  have hparse : source.parse.toOption.map (fun ds => ((generate {} ds).isOk, records ds,
      interfaces ds, based.dispatchTable ds, baseless.dispatchTable ds)) =
      some (true, [clashing, peaceful], [based, baseless], ⟨some "IUnknown", based.methods⟩,
        ⟨none, baseless.methods⟩) := by
    decide +kernel
  obtain ⟨ds, hds, hread⟩ := exists_of_map_toOption hparse
  simp only [Prod.mk.injEq] at hread
  obtain ⟨hok, hread⟩ := hread
  cases hg : generate {} ds with
  | ok g => exact ⟨ds, g, hds, hg, hread⟩
  | error fault => simp [hg, Except.isOk, Except.toBool] at hok

end Escaped

open Escaped in
/-- Reserved words as names, with and without a clash. -/
theorem field_names_distinct_iff_escaped : ∃ ds g, source.parse = .ok ds ∧
    generate {} ds = .ok g ∧ peaceful ∈ records ds ∧ baseless ∈ interfaces ds ∧
    (peaceful.fields.map Variable.name).Nodup ∧
    (∃ level, g.Shows {}
      (blockLines level "pub struct T" ["pub r#type: i32,", "pub crate_: i32,"])) ∧
    (["pub r#type: i32,", "pub crate_: i32,"].map fieldName).Nodup ∧
    ((baseless.dispatchTable ds).methods.map Method.name).Nodup ∧
    ((tableFields "K" (baseless.dispatchTable ds)).map fieldName).Nodup := by
  obtain ⟨ds, g, hds, hg, hrecords, hinterfaces, -, htable⟩ := exists_read
  have hr : peaceful ∈ records ds := by simp [hrecords]
  have hi : baseless ∈ interfaces ds := by simp [hinterfaces]
  have hfields : (peaceful.fields.map Variable.name).Nodup := by decide +kernel
  have hmethods : ((baseless.dispatchTable ds).methods.map Method.name).Nodup := by
    rw [htable]
    decide +kernel
  have htexts : peaceful.fields.map fieldText = ["pub r#type: i32,", "pub crate_: i32,"] := by
    decide +kernel
  have hhead : "pub struct " ++ identifier peaceful.name = "pub struct T" := by decide +kernel
  obtain ⟨hstructs, htables⟩ := field_names_distinct_iff hds hg
  obtain ⟨hshow, hiff⟩ := hstructs peaceful hr hfields
  obtain ⟨-, hiff'⟩ := htables baseless hi hmethods
  rw [htexts] at hshow hiff
  rw [hhead] at hshow
  refine ⟨ds, g, hds, hg, hr, hi, hfields, hshow, hiff.mpr (by decide +kernel), hmethods,
    hiff'.mpr ?_⟩
  rw [htable]
  decide +kernel

open Escaped in
/-- Members with different names can become fields with the same name. -/
theorem distinct_members_collide : ∃ ds g, source.parse = .ok ds ∧ generate {} ds = .ok g ∧
    clashing ∈ records ds ∧ (clashing.fields.map Variable.name).Nodup ∧
    (∃ level, g.Shows {} (blockLines level "pub struct S" ["pub self_: i32,", "pub self_: i32,"])) ∧
    based ∈ interfaces ds ∧ ((based.dispatchTable ds).methods.map Method.name).Nodup ∧
    ∃ level, g.Shows {} (blockLines level "pub struct IVtbl" ["pub base: IUnknownVtbl,",
      "pub base: unsafe extern \"system\" fn(this: *mut I),"]) := by
  obtain ⟨ds, g, hds, hg, hrecords, hinterfaces, htable, -⟩ := exists_read
  have hr : clashing ∈ records ds := by simp [hrecords]
  have hi : based ∈ interfaces ds := by simp [hinterfaces]
  have hhead : "pub struct " ++ identifier clashing.name = "pub struct S" := by decide +kernel
  have htexts : clashing.fields.map fieldText = ["pub self_: i32,", "pub self_: i32,"] := by
    decide +kernel
  have hhead' : "pub struct " ++ tableName based.name = "pub struct IVtbl" := by decide +kernel
  have htexts' : tableFields based.name ⟨some "IUnknown", based.methods⟩ =
      ["pub base: IUnknownVtbl,", "pub base: unsafe extern \"system\" fn(this: *mut I),"] := by
    decide +kernel
  have hshow := shows_record hg hr
  have hshow' := shows_table hg hi
  rw [hhead, htexts] at hshow
  rw [htable, hhead', htexts'] at hshow'
  refine ⟨ds, g, hds, hg, hr, by decide +kernel, hshow, hi, ?_, hshow'⟩
  rw [htable]
  decide +kernel

end Output

end Midl
