import Midl.Declaration.Walk

/-!
# Dispatch tables

The dispatch table of an interface has a slot for every method that can be called on it: the
methods of its ancestors, the most distant first, and then its own. Ancestors are looked up by
name among all declarations. The walk ends at an interface without a parent, at a parent that is
not declared, which is then the *base* whose slots come before all others, or at a parent that was
met before. Every other step meets a new name among finitely many, which is why the walk ends.
-/

namespace Midl

/-- An interface and its ancestors. -/
structure Ancestry where
  /-- The interfaces met, from the given one upwards. -/
  chain : List Interface
  /-- The first ancestor that is not declared. -/
  base : Option String
deriving DecidableEq

/-- The slots of an interface. Source: `DispatchTable`. -/
structure DispatchTable where
  /-- The ancestor whose slots come before all others. -/
  base : Option String
  /-- The further slots, in order. -/
  methods : List Method
deriving DecidableEq

namespace Interface

open Declaration

/-- An interface whose name has not been met is one fewer to be met once it has. -/
theorem unseen_length_lt {ds : List Declaration} {parent : String} {seen : List String}
    {found : Interface} (h : interfaceNamed? parent ds = some found) (hs : found.name ∉ seen) :
    ((interfaces ds).filter fun i => i.name ∉ found.name :: seen).length <
      ((interfaces ds).filter fun i => i.name ∉ seen).length := by
  have : (interfaces ds).filter (fun i => i.name ∉ found.name :: seen) =
      ((interfaces ds).filter fun i => i.name ∉ seen).filter fun i => i.name ≠ found.name := by
    rw [List.filter_filter]
    congr 1
    funext i
    simp [not_or]
  rw [this, List.length_filter_lt_length_iff_exists]
  exact ⟨found, by simp [mem_interfaces_of_interfaceNamed? h, hs], by simp⟩

/-- An interface and the ancestors whose names have not been `seen`. Source: `dispatch_table`. -/
def ascend (ds : List Declaration) (seen : List String) (i : Interface) : Ancestry :=
  match i.parent with
  | none => ⟨[i], none⟩
  | some parent =>
    match _ : interfaceNamed? parent ds with
    | none => ⟨[i], some parent⟩
    | some found =>
      if _ : found.name ∈ seen then ⟨[i], none⟩
      else
        let above := ascend ds (found.name :: seen) found
        ⟨i :: above.chain, above.base⟩
termination_by ((interfaces ds).filter fun i => i.name ∉ seen).length
decreasing_by exact unseen_length_lt ‹_› ‹_›

/-- An interface and its ancestors. -/
def ancestry (ds : List Declaration) (i : Interface) : Ancestry := ascend ds [i.name] i

/-- The slots of an interface. Source: `dispatch_table`. -/
def dispatchTable (ds : List Declaration) (i : Interface) : DispatchTable :=
  let ancestry := i.ancestry ds
  ⟨ancestry.base, ancestry.chain.reverse.flatMap Interface.methods⟩

end Interface

end Midl
