import Midl.Dispatch

/-!
# The tables of a child and of its parent

The walk from a child starts with the child's name among the names it has met, the walk from its
parent does not. `ascend_congr` says when that makes no difference: two walks from the same
interface agree if the names that only one of them has met never turn up on the way. For a child
whose name does not turn up among its parent's ancestors this gives the whole ancestry of the
child (`ancestry_of_parent`), and with it the slots (`dispatchTable_of_parent`).

Walks among different declarations agree if the same names are found there, up to a change of the
interfaces that leaves names and parents alone (`ascend_map`).
-/

namespace Midl.Interface

open Declaration

variable {ds : List Declaration} {seen seen' : List String} {i found : Interface}
  {parent : String}

/-! ## The four ways a walk goes on -/

/-- An interface without a parent has no ancestors. -/
theorem ascend_of_parent_none (h : i.parent = none) : ascend ds seen i = ⟨[i], none⟩ := by
  rw [ascend]
  split
  · rfl
  · simp_all

/-- A parent that is not declared is the base. -/
theorem ascend_of_undeclared (hp : i.parent = some parent)
    (hf : interfaceNamed? parent ds = none) : ascend ds seen i = ⟨[i], some parent⟩ := by
  rw [ascend]
  split
  · simp_all
  · split <;> simp_all

/-- A parent that has been met ends the walk. -/
theorem ascend_of_met (hp : i.parent = some parent)
    (hf : interfaceNamed? parent ds = some found) (hs : found.name ∈ seen) :
    ascend ds seen i = ⟨[i], none⟩ := by
  rw [ascend]
  split
  · rfl
  · split
    · simp_all
    · simp_all

/-- A parent that has not been met is where the walk goes on. -/
theorem ascend_of_fresh (hp : i.parent = some parent)
    (hf : interfaceNamed? parent ds = some found) (hs : found.name ∉ seen) :
    ascend ds seen i =
      ⟨i :: (ascend ds (found.name :: seen) found).chain,
        (ascend ds (found.name :: seen) found).base⟩ := by
  rw [ascend]
  split
  · simp_all
  · split
    · simp_all
    · simp_all

/-- An interface comes first in its own chain. -/
theorem mem_chain_self (ds : List Declaration) (seen : List String) (i : Interface) :
    i ∈ (ascend ds seen i).chain := by
  fun_cases ascend ds seen i <;> simp

/-! ## Two walks side by side -/

/-- Names that a walk never meets may be counted as met from the start. -/
theorem ascend_congr (hsub : seen ⊆ seen')
    (hmet : ∀ a ∈ (ascend ds seen i).chain, a.name ∈ seen' → a.name ∈ seen) :
    ascend ds seen' i = ascend ds seen i := by
  -- The two lists of met names grow by the same name at every step.
  induction seen, i using ascend.induct ds generalizing seen' with
  | case1 seen i hparent => rw [ascend_of_parent_none hparent, ascend_of_parent_none hparent]
  | case2 seen i parent hparent hnone =>
    rw [ascend_of_undeclared hparent hnone, ascend_of_undeclared hparent hnone]
  | case3 seen i parent hparent found hfound hseen =>
    rw [ascend_of_met hparent hfound hseen, ascend_of_met hparent hfound (hsub hseen)]
  | case4 seen i parent hparent found hfound hseen ih =>
    rw [ascend_of_fresh hparent hfound hseen] at hmet
    have hchain : ∀ a ∈ (ascend ds (found.name :: seen) found).chain,
        a.name ∈ seen' → a.name ∈ seen :=
      fun a ha => hmet a (List.mem_cons_of_mem _ ha)
    have hfresh : found.name ∉ seen' := fun h => hseen (hchain found (mem_chain_self ..) h)
    rw [ascend_of_fresh hparent hfound hfresh, ascend_of_fresh hparent hfound hseen,
      ih (List.cons_subset_cons _ hsub)]
    intro a ha hmem
    rcases List.mem_cons.mp hmem with h | h
    · exact h ▸ List.mem_cons_self
    · exact List.mem_cons_of_mem _ (hchain a ha h)

/-- A child that its parent's walk does not meet has the ancestry of its parent, below which it
stands itself. -/
theorem ancestry_of_parent (hp : i.parent = some parent)
    (hf : interfaceNamed? parent ds = some found)
    (hn : ∀ a ∈ (found.ancestry ds).chain, a.name ≠ i.name) :
    i.ancestry ds = ⟨i :: (found.ancestry ds).chain, (found.ancestry ds).base⟩ := by
  have hself : found.name ≠ i.name := hn found (mem_chain_self ..)
  have hwalk : ascend ds [found.name, i.name] found = found.ancestry ds := by
    apply ascend_congr (List.cons_subset_cons _ (List.nil_subset _))
    intro a ha hmem
    rcases List.mem_cons.mp hmem with h | h
    · exact h ▸ List.mem_cons_self
    · exact absurd (List.mem_singleton.mp h) (hn a ha)
  rw [ancestry, ascend_of_fresh hp hf (by simpa using hself), hwalk]

/-- Such a child has the slots of its parent, followed by its own methods. -/
theorem dispatchTable_of_parent (hp : i.parent = some parent)
    (hf : interfaceNamed? parent ds = some found)
    (hn : ∀ a ∈ (found.ancestry ds).chain, a.name ≠ i.name) :
    i.dispatchTable ds =
      ⟨(found.dispatchTable ds).base, (found.dispatchTable ds).methods ++ i.methods⟩ := by
  simp [dispatchTable, ancestry_of_parent hp hf hn]

/-! ## Walks among changed declarations -/

section Map

variable {ds' : List Declaration} {f : Interface → Interface}

/-- A walk among declarations whose interfaces were changed by `f` meets what `f` makes of the
interfaces met before. -/
theorem ascend_map (hname : ∀ i, (f i).name = i.name) (hparent : ∀ i, (f i).parent = i.parent)
    (hfind : ∀ name, interfaceNamed? name ds' = (interfaceNamed? name ds).map f)
    (seen : List String) (i : Interface) :
    ascend ds' seen (f i) = ⟨(ascend ds seen i).chain.map f, (ascend ds seen i).base⟩ := by
  induction seen, i using ascend.induct ds with
  | case1 seen i hnone =>
    rw [ascend_of_parent_none hnone, ascend_of_parent_none ((hparent i).trans hnone)]
    rfl
  | case2 seen i parent hsome hnone =>
    have hnone' : interfaceNamed? parent ds' = none := by rw [hfind, hnone, Option.map_none]
    rw [ascend_of_undeclared hsome hnone, ascend_of_undeclared ((hparent i).trans hsome) hnone']
    rfl
  | case3 seen i parent hsome found hfound hseen =>
    have hfound' : interfaceNamed? parent ds' = some (f found) := by
      rw [hfind, hfound, Option.map_some]
    rw [ascend_of_met hsome hfound hseen,
      ascend_of_met ((hparent i).trans hsome) hfound' (by rwa [hname])]
    rfl
  | case4 seen i parent hsome found hfound hseen ih =>
    have hfound' : interfaceNamed? parent ds' = some (f found) := by
      rw [hfind, hfound, Option.map_some]
    rw [ascend_of_fresh hsome hfound hseen,
      ascend_of_fresh ((hparent i).trans hsome) hfound' (by rwa [hname]), hname, ih]
    rfl

/-- The slots are then what `g` makes of them, if that is what `f` does to methods. -/
theorem dispatchTable_map {g : Method → Method} (hname : ∀ i, (f i).name = i.name)
    (hparent : ∀ i, (f i).parent = i.parent) (hmethods : ∀ i, (f i).methods = i.methods.map g)
    (hfind : ∀ name, interfaceNamed? name ds' = (interfaceNamed? name ds).map f) (i : Interface) :
    (f i).dispatchTable ds' = ⟨(i.dispatchTable ds).base, (i.dispatchTable ds).methods.map g⟩ := by
  simp [dispatchTable, ancestry, hname, ascend_map hname hparent hfind, ← List.map_reverse,
    List.flatMap_map, List.map_flatMap, hmethods]

end Map

end Midl.Interface
