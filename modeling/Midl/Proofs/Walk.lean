import Midl.Declaration.Walk

/-!
# The parts of a walk

The declarations met on a walk through a list are those met on walks through its elements, one
after the other, and a library or module is met before what it holds. The depth at which a walk
starts only shifts the depths it reports.
-/

namespace Midl.Declaration

mutual

/-- What is met in a declaration does not depend on the depth it stands at. -/
theorem outline_map_snd (depth : Nat) (d : Declaration) :
    (d.outline depth).map Prod.snd = (d.outline 0).map Prod.snd := by
  cases d with
  | group kind name attributes body =>
    simp only [outline, List.map_cons]
    rw [outlineAll_map_snd (depth + 1) body, outlineAll_map_snd (0 + 1) body]
  | _ => rfl

/-- What is met in declarations does not depend on the depth they stand at. -/
theorem outlineAll_map_snd (depth : Nat) (ds : List Declaration) :
    (outlineAll depth ds).map Prod.snd = preorder ds := by
  cases ds with
  | nil => rfl
  | cons d ds =>
    simp only [preorder, outlineAll, List.map_append]
    rw [outline_map_snd depth d, outlineAll_map_snd depth ds, preorder]

end

/-- A declaration and everything in it. -/
def parts (d : Declaration) : List Declaration := (d.outline 0).map Prod.snd

@[simp] theorem preorder_nil : preorder [] = [] := rfl

@[simp] theorem preorder_cons (d : Declaration) (ds : List Declaration) :
    preorder (d :: ds) = d.parts ++ preorder ds := by
  simp [preorder, outlineAll, parts]

@[simp] theorem parts_group (kind : GroupKind) (name : String) (attributes : List Attribute)
    (body : List Declaration) :
    (group kind name attributes body).parts = group kind name attributes body :: preorder body := by
  simp only [parts, outline, List.map_cons]
  rw [outlineAll_map_snd]

/-- What is in an outline is among the declarations at any depth. -/
theorem mem_preorder_of_mem_outlineAll {level depth : Nat} {d : Declaration}
    {ds : List Declaration} (h : (level, d) ∈ outlineAll depth ds) : d ∈ preorder ds := by
  rw [← outlineAll_map_snd depth ds]
  exact List.mem_map_of_mem h

mutual

/-- What is in a part of a declaration is in the declaration. -/
theorem parts_subset_parts {d e : Declaration} (h : e ∈ d.parts) : e.parts ⊆ d.parts := by
  cases d with
  | group kind name attributes body =>
    rw [parts_group] at h ⊢
    rcases List.mem_cons.mp h with rfl | h
    · rw [parts_group]
      exact List.Subset.refl _
    · exact List.subset_cons_of_subset _ (parts_subset_preorder h)
  | _ =>
    obtain rfl := List.mem_singleton.mp h
    exact List.Subset.refl _

/-- What is in a declaration met on a walk is met on the walk. -/
theorem parts_subset_preorder {ds : List Declaration} {e : Declaration} (h : e ∈ preorder ds) :
    e.parts ⊆ preorder ds := by
  cases ds with
  | nil => cases h
  | cons d ds =>
    rw [preorder_cons] at h ⊢
    rcases List.mem_append.mp h with h | h
    · exact List.subset_append_of_subset_left _ (parts_subset_parts h)
    · exact List.subset_append_of_subset_right _ (parts_subset_preorder h)

end

/-- Declarations can be told to be there from something that is made of them. -/
theorem exists_of_map_toOption {ε β : Type} {result : Except ε (List Declaration)}
    {f : List Declaration → β} {b : β} (h : result.toOption.map f = some b) :
    ∃ ds, result = .ok ds ∧ f ds = b := by
  cases result with
  | error error => cases h
  | ok ds => exact ⟨ds, rfl, Option.some.inj h⟩

/-- Declarations can be told to be there from what a walk meets. -/
theorem exists_of_kindWords {ε : Type} {result : Except ε (List Declaration)} {words : List String}
    (h : result.toOption.map (fun ds => (preorder ds).map kindWord) = some words) :
    ∃ ds, result = .ok ds ∧ (preorder ds).map kindWord = words :=
  exists_of_map_toOption h

end Midl.Declaration
