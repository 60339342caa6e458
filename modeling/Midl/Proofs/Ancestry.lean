import Mathlib.Data.List.Chain
import Mathlib.Data.List.Dedup
import Mathlib.Data.List.Perm.Subperm
import Midl.Proofs.Dispatch

/-!
# The path of ancestors

Parents are found by name, and any interface of that name will do, wherever it is declared. Nothing
keeps declarations from being their own ancestors, so the ancestors of an interface are a path that
need not end by itself. `AncestorPath` says which part of it counts: it starts at the interface,
each further entry is the one found under the parent of the entry before, no name comes twice, and
it stops only where it must. This fixes the path (`AncestorPath.eq_ascend`), keeps it short
(`AncestorPath.length_le`), and the walk upwards is that path (`ancestorPath_ascend`).

`dispatchTable_exact` puts this together for the slots of an interface.
-/

namespace Midl.Interface

open Declaration

variable {ds : List Declaration} {before met : List String} {i last found : Interface}
  {base : Option String} {parent : String} {a : Ancestry}

/-! ## Where a path stops -/

/-- No interface is found under a name exactly if none of that name is declared, at any depth. -/
theorem interfaceNamed?_eq_none_iff {name : String} :
    interfaceNamed? name ds = none ↔ ∀ j ∈ interfaces ds, j.name ≠ name := by
  rw [interfaceNamed?_eq name 0, List.find?_eq_none]
  simp [interfaces, preorder, List.filterMap_map]

/-- An interface is found under a name exactly if one of that name is declared, at any depth. -/
theorem exists_interfaceNamed?_iff {name : String} :
    (∃ found, interfaceNamed? name ds = some found) ↔ ∃ j ∈ interfaces ds, j.name = name := by
  rw [← Option.ne_none_iff_exists', Ne, interfaceNamed?_eq_none_iff]
  push Not
  rfl

/-- A path that has met the names `met` stops at `last`, and `base` is what it stops before: the
parent if that is not declared, and nothing if there is no parent or its name has been met. -/
structure Stops (ds : List Declaration) (met : List String) (last : Interface)
    (base : Option String) : Prop where
  base_some (p : String) :
    base = some p ↔ last.parent = some p ∧ ∀ j ∈ interfaces ds, j.name ≠ p
  base_none :
    base = none ↔ last.parent = none ∨
      ∃ p, last.parent = some p ∧ (∃ j ∈ interfaces ds, j.name = p) ∧ p ∈ met

/-- An interface without a parent is the last of its line. -/
theorem stops_of_parent_none (h : last.parent = none) : Stops ds met last none where
  base_some p := by simp [h]
  base_none := by simp [h]

/-- So is one whose parent is not declared, which is then the base. -/
theorem stops_of_undeclared (hp : last.parent = some parent)
    (hf : interfaceNamed? parent ds = none) : Stops ds met last (some parent) where
  base_some p := by
    rw [Option.some_inj, hp, Option.some_inj]
    refine ⟨?_, And.left⟩
    rintro rfl
    exact ⟨rfl, interfaceNamed?_eq_none_iff.mp hf⟩
  base_none := by
    refine ⟨nofun, ?_⟩
    rintro (h | ⟨p, h, hdeclared, -⟩)
    · simp [hp] at h
    · obtain rfl : parent = p := Option.some.inj (hp.symm.trans h)
      obtain ⟨found, hfound⟩ := exists_interfaceNamed?_iff.mpr hdeclared
      simp [hf] at hfound

/-- So is one whose parent was met before. -/
theorem stops_of_met (hp : last.parent = some parent)
    (hf : interfaceNamed? parent ds = some found) (hmet : found.name ∈ met) :
    Stops ds met last none where
  base_some p := by
    refine ⟨nofun, ?_⟩
    rintro ⟨h, hundeclared⟩
    obtain rfl : parent = p := Option.some.inj (hp.symm.trans h)
    simp [interfaceNamed?_eq_none_iff.mpr hundeclared] at hf
  base_none := by
    have hname : found.name = parent := name_of_interfaceNamed? hf
    have hdeclared := exists_interfaceNamed?_iff.mp ⟨found, hf⟩
    exact ⟨fun _ => .inr ⟨parent, hp, hdeclared, hname ▸ hmet⟩, fun _ => rfl⟩

/-- A path does not stop before an interface that it has not met. -/
theorem Stops.false_of_fresh (h : Stops ds met last base) (hp : last.parent = some parent)
    (hf : interfaceNamed? parent ds = some found) (hfresh : found.name ∉ met) : False := by
  cases hbase : base with
  | none =>
    rcases h.base_none.mp hbase with hnone | ⟨p, hsome, -, hmet⟩
    · simp [hp] at hnone
    · obtain rfl : parent = p := Option.some.inj (hp.symm.trans hsome)
      exact hfresh (name_of_interfaceNamed? hf ▸ hmet)
  | some p =>
    obtain ⟨hsome, hundeclared⟩ := (h.base_some p).mp hbase
    obtain rfl : parent = p := Option.some.inj (hp.symm.trans hsome)
    simp [interfaceNamed?_eq_none_iff.mpr hundeclared] at hf

/-- What a path stops before is settled by where it stops. -/
theorem Stops.base_eq {base' : Option String} (h : Stops ds met last base)
    (h' : Stops ds met last base') : base = base' :=
  Option.ext fun p => by rw [h.base_some, h'.base_some]

/-! ## Paths -/

/-- The path of the ancestors of `i`, and what it stops before, where the names `before` count as
met. -/
structure AncestorPath (ds : List Declaration) (before : List String) (i : Interface)
    (a : Ancestry) : Prop where
  /-- The path starts at the interface itself. -/
  starts : a.chain.head? = some i
  /-- Each further entry is the one found under the parent of the entry before. -/
  linked : a.chain.IsChain fun below above =>
    below.parent.bind (interfaceNamed? · ds) = some above
  /-- No name comes twice. -/
  distinct : (a.chain.map Interface.name).Nodup
  /-- No name comes that counts as met. -/
  fresh : ∀ b ∈ a.chain, b.name ∉ before
  /-- The path stops only where it must. -/
  stops : ∃ last, a.chain.getLast? = some last ∧
    Stops ds (before ++ a.chain.map Interface.name) last a.base

/-- The path of an interface that is the last of its line. -/
theorem AncestorPath.single (hi : i.name ∉ before) (h : Stops ds (before ++ [i.name]) i base) :
    AncestorPath ds before i ⟨[i], base⟩ where
  starts := rfl
  linked := List.IsChain.singleton i
  distinct := List.nodup_singleton _
  fresh := by simpa using hi
  stops := ⟨i, rfl, h⟩

/-- The path of an interface goes on with that of its parent. -/
theorem AncestorPath.cons (hi : i.name ∉ before)
    (hlink : i.parent.bind (interfaceNamed? · ds) = some found)
    (h : AncestorPath ds (i.name :: before) found a) :
    AncestorPath ds before i ⟨i :: a.chain, a.base⟩ where
  starts := rfl
  linked := by
    refine h.linked.cons fun next hnext => ?_
    obtain rfl : found = next := Option.some.inj (h.starts.symm.trans hnext)
    exact hlink
  distinct := by
    refine List.nodup_cons.mpr ⟨?_, h.distinct⟩
    intro hmem
    obtain ⟨b, hb, hname⟩ := List.mem_map.mp hmem
    exact h.fresh b hb (hname ▸ List.mem_cons_self)
  fresh := by
    rintro b hb
    rcases List.mem_cons.mp hb with rfl | hb
    · exact hi
    · exact fun hbefore => h.fresh b hb (List.mem_cons_of_mem _ hbefore)
  stops := by
    obtain ⟨last, hlast, hstops⟩ := h.stops
    refine ⟨last, by simp [List.getLast?_cons, hlast], hstops.base_some, ?_⟩
    rw [hstops.base_none]
    simp [or_left_comm]

/-- The walk upwards is the path of the ancestors. -/
theorem ancestorPath_ascend (hi : i.name ∉ before) :
    AncestorPath ds before i (ascend ds (i.name :: before) i) := by
  -- At every step the names met are the name of the interface and those met before it.
  generalize hseen : i.name :: before = seen
  induction seen, i using ascend.induct ds generalizing before with
  | case1 seen i hparent =>
    rw [ascend_of_parent_none hparent]
    exact .single hi (stops_of_parent_none hparent)
  | case2 seen i parent hparent hnone =>
    rw [ascend_of_undeclared hparent hnone]
    exact .single hi (stops_of_undeclared hparent hnone)
  | case3 seen i parent hparent found hfound hmem =>
    rw [ascend_of_met hparent hfound hmem]
    refine .single hi (stops_of_met hparent hfound ?_)
    rw [← hseen] at hmem
    simpa [or_comm] using hmem
  | case4 seen i parent hparent found hfound hmem ih =>
    rw [ascend_of_fresh hparent hfound hmem]
    subst hseen
    exact .cons hi (by simp [hparent, hfound]) (ih hmem rfl)

/-- A path is at its end, or goes on with the interface found under the parent's name. -/
theorem AncestorPath.end_or_next {chain : List Interface}
    (h : AncestorPath ds before i ⟨chain, base⟩) :
    (chain = [i] ∧ Stops ds (before ++ [i.name]) i base) ∨
      ∃ found above, chain = i :: above ∧
        i.parent.bind (interfaceNamed? · ds) = some found ∧ found.name ∉ i.name :: before ∧
        AncestorPath ds (i.name :: before) found ⟨above, base⟩ := by
  obtain ⟨hstarts, hlinked, hdistinct, hfresh, last, hlast, hstops⟩ := h
  obtain ⟨above, rfl⟩ := List.head?_eq_some_iff.mp hstarts
  obtain ⟨hi, hdistinct⟩ := List.nodup_cons.mp hdistinct
  cases above with
  | nil =>
    obtain rfl : i = last := Option.some.inj hlast
    exact .inl ⟨rfl, hstops⟩
  | cons found above =>
    obtain ⟨hlink, hlinked⟩ := List.isChain_cons_cons.mp hlinked
    have hfresh' : ∀ b ∈ found :: above, b.name ∉ i.name :: before := by
      intro b hb hmem
      rcases List.mem_cons.mp hmem with hname | hbefore
      · exact hi (hname ▸ List.mem_map_of_mem hb)
      · exact hfresh b (List.mem_cons_of_mem _ hb) hbefore
    refine .inr ⟨found, found :: above, rfl, hlink, hfresh' found List.mem_cons_self,
      rfl, hlinked, hdistinct, hfresh', last, ?_, hstops.base_some, ?_⟩
    · rwa [List.getLast?_cons_cons] at hlast
    · rw [hstops.base_none]
      simp [or_left_comm]

/-- There is no other path of the ancestors than the walk upwards. -/
theorem AncestorPath.eq_ascend (h : AncestorPath ds before i a) :
    a = ascend ds (i.name :: before) i := by
  generalize hseen : i.name :: before = seen
  obtain ⟨chain, base⟩ := a
  induction seen, i using ascend.induct ds generalizing before chain with
  | case1 seen i hparent =>
    rw [ascend_of_parent_none hparent]
    rcases h.end_or_next with ⟨rfl, hstops⟩ | ⟨_, _, -, hlink, -⟩
    · rw [hstops.base_eq (stops_of_parent_none hparent)]
    · simp [hparent] at hlink
  | case2 seen i parent hparent hnone =>
    rw [ascend_of_undeclared hparent hnone]
    rcases h.end_or_next with ⟨rfl, hstops⟩ | ⟨_, _, -, hlink, -⟩
    · rw [hstops.base_eq (stops_of_undeclared hparent hnone)]
    · simp [hparent, hnone] at hlink
  | case3 seen i parent hparent found hfound hmem =>
    rw [ascend_of_met hparent hfound hmem]
    subst hseen
    rcases h.end_or_next with ⟨rfl, hstops⟩ | ⟨found', above, -, hlink, hfresh, -⟩
    · rw [hstops.base_eq (stops_of_met hparent hfound (by simpa [or_comm] using hmem))]
    · obtain rfl : found = found' := by simpa [hparent, hfound] using hlink
      exact absurd hmem hfresh
  | case4 seen i parent hparent found hfound hmem ih =>
    rw [ascend_of_fresh hparent hfound hmem]
    subst hseen
    rcases h.end_or_next with ⟨rfl, hstops⟩ | ⟨found', above, rfl, hlink, -, habove⟩
    · exact (hstops.false_of_fresh hparent hfound (by simpa [or_comm] using hmem)).elim
    · obtain rfl : found = found' := by simpa [hparent, hfound] using hlink
      rw [← ih rfl above habove]

/-! ## How long a path is -/

/-- All entries of a linked chain but the first are declared. -/
theorem mem_interfaces_of_linked {above : List Interface}
    (h : (i :: above).IsChain fun below above =>
      below.parent.bind (interfaceNamed? · ds) = some above) :
    ∀ b ∈ above, b ∈ interfaces ds := by
  induction above generalizing i with
  | nil => nofun
  | cons found above ih =>
    obtain ⟨hlink, hlinked⟩ := List.isChain_cons_cons.mp h
    obtain ⟨parent, -, hfound⟩ := Option.bind_eq_some_iff.mp hlink
    rintro b hb
    rcases List.mem_cons.mp hb with rfl | hb
    · exact mem_interfaces_of_interfaceNamed? hfound
    · exact ih hlinked b hb

/-- The ancestors of a declared interface are declared. -/
theorem mem_interfaces_of_mem_chain {b : Interface} (hi : i ∈ interfaces ds)
    (hb : b ∈ (i.ancestry ds).chain) : b ∈ interfaces ds := by
  have hpath : AncestorPath ds [] i (i.ancestry ds) := ancestorPath_ascend List.not_mem_nil
  obtain ⟨above, habove⟩ := List.head?_eq_some_iff.mp hpath.starts
  rw [habove] at hb
  rcases List.mem_cons.mp hb with rfl | hb
  · exact hi
  · exact mem_interfaces_of_linked (habove ▸ hpath.linked) b hb

/-- A path has at most one entry for each name declared, beside the interface it starts at. -/
theorem AncestorPath.length_le (h : AncestorPath ds before i a) :
    a.chain.length ≤ ((interfaces ds).map Interface.name).dedup.length + 1 := by
  obtain ⟨above, habove⟩ := List.head?_eq_some_iff.mp h.starts
  have hdistinct := h.distinct
  have hdeclared := mem_interfaces_of_linked (habove ▸ h.linked)
  rw [habove, List.map_cons, List.nodup_cons] at hdistinct
  have hsub : above.map Interface.name ⊆ ((interfaces ds).map Interface.name).dedup := by
    intro name hname
    obtain ⟨b, hb, rfl⟩ := List.mem_map.mp hname
    exact List.mem_dedup.mpr (List.mem_map_of_mem (hdeclared b hb))
  have hle := (hdistinct.2.subperm hsub).length_le
  rw [habove, List.length_cons]
  rw [List.length_map] at hle
  omega

/-! ## The slots of an interface -/

/-- The slots of an interface, whatever is declared and however it inherits: the ancestry behind
them is the one path of the ancestors, it has at most one entry more than there are names of
interfaces, the slots are the methods of its entries from the last to the first, and what comes
before them is what the path stops before. -/
theorem dispatchTable_exact (ds : List Declaration) (i : Interface) :
    ∃ a : Ancestry, AncestorPath ds [] i a ∧ (∀ b, AncestorPath ds [] i b → b = a) ∧
      a.chain.length ≤ ((interfaces ds).map Interface.name).dedup.length + 1 ∧
      (i.dispatchTable ds).methods = (a.chain.reverse.map Interface.methods).flatten ∧
      (i.dispatchTable ds).base = a.base := by
  have hpath : AncestorPath ds [] i (i.ancestry ds) := ancestorPath_ascend List.not_mem_nil
  exact ⟨i.ancestry ds, hpath, fun b hb => hb.eq_ascend, hpath.length_le, List.flatMap_def, rfl⟩

end Midl.Interface
