import Midl.Proofs.Ancestry
import Midl.Proofs.Walk

/-!
# Looking up an interface

An interface is looked up by searching declarations from the first to the last, each library and
module where it stands. Where an interface stands is told by its *address*: the number of a
declaration in its list, and so on in the list that this declaration holds. Addresses are compared
number by number, and the interfaces in the order of their addresses are those that a walk meets
(`Listing`, `exists_listing`). A lookup finds the first of them that has the name
(`lookup_searches_preorder`).

Since nothing but that order matters, a lookup in two lists goes on to the second one if nothing is
found in the first, and a library or module can be replaced by what it holds (`Splices`).
-/

namespace Midl.Declaration

/-! ## Where interfaces stand -/

/-- An interface stands at an address: it is a declaration of the list itself, or stands in a
library or module. -/
inductive StandsAt : List Declaration → List Nat → Interface → Prop
  | here {ds : List Declaration} {n : Nat} {i : Interface} (h : ds[n]? = some (.interface i)) :
    StandsAt ds [n] i
  | inside {ds body : List Declaration} {n : Nat} {address : List Nat} {i : Interface}
    {kind : GroupKind} {name : String} {attributes : List Attribute}
    (h : ds[n]? = some (.group kind name attributes body)) (hbody : StandsAt body address i) :
    StandsAt ds (n :: address) i

/-- Entries that list the interfaces with their addresses, in the order of these, each address
once. -/
structure Listing (ds : List Declaration) (entries : List (List Nat × Interface)) : Prop where
  ordered : entries.Pairwise (·.1 < ·.1)
  mem_iff : ∀ address i, (address, i) ∈ entries ↔ StandsAt ds address i

section StandsAt

variable {d : Declaration} {ds : List Declaration} {n : Nat} {address : List Nat} {i : Interface}

/-- No interface stands at the empty address. -/
theorem StandsAt.exists_cons (h : StandsAt ds address i) :
    ∃ n rest, address = n :: rest := by
  cases h with
  | here h => exact ⟨_, _, rfl⟩
  | inside h hbody => exact ⟨_, _, rfl⟩

/-- What stands at the first declaration depends on that declaration alone. -/
theorem standsAt_zero_iff :
    StandsAt (d :: ds) (0 :: address) i ↔ StandsAt [d] (0 :: address) i := by
  constructor <;> intro h <;> cases h with
  | here h => exact .here h
  | inside h hbody => exact .inside h hbody

/-- One declaration more in front changes the first number by one. -/
theorem standsAt_succ_iff :
    StandsAt (d :: ds) ((n + 1) :: address) i ↔ StandsAt ds (n :: address) i := by
  constructor <;> intro h <;> cases h with
  | here h => exact .here h
  | inside h hbody => exact .inside h hbody

end StandsAt

/-! ## The interfaces in the order of their addresses -/

mutual

/-- The interfaces in a declaration, each with the numbers that come after that of the declaration
in its address. -/
def addressedIn : Declaration → List (List Nat × Interface)
  | .interface i => [([], i)]
  | .group _ _ _ body => addressed 0 body
  | _ => []

/-- The interfaces in declarations, of which the first has the number `n`. -/
def addressed (n : Nat) : List Declaration → List (List Nat × Interface)
  | [] => []
  | d :: ds => d.addressedIn.map (fun entry => (n :: entry.1, entry.2)) ++ addressed (n + 1) ds

end

mutual

/-- The interfaces listed for a declaration are those that stand in it. -/
theorem mem_addressedIn_iff (d : Declaration) (address : List Nat) (i : Interface) :
    (address, i) ∈ d.addressedIn ↔ StandsAt [d] (0 :: address) i := by
  cases d with
  | interface j =>
    constructor
    · intro h
      obtain ⟨rfl, rfl⟩ := Prod.mk.inj (List.mem_singleton.mp h)
      exact .here rfl
    · intro h
      cases h with
      | here h =>
        obtain rfl : j = i := by simpa using h
        exact List.mem_singleton_self _
      | inside h hbody => cases h
  | group kind name attributes body =>
    rw [addressedIn, mem_addressed_iff 0 body]
    constructor
    · rintro ⟨k, rest, rfl, h⟩
      exact .inside rfl (by rwa [Nat.zero_add])
    · intro h
      cases h with
      | here h => cases h
      | inside h hbody =>
        cases h
        obtain ⟨k, rest, rfl⟩ := hbody.exists_cons
        exact ⟨k, rest, by rw [Nat.zero_add], hbody⟩
  | _ =>
    refine ⟨fun h => (List.not_mem_nil h).elim, fun h => ?_⟩
    cases h with
    | here h => cases h
    | inside h hbody => cases h

/-- The interfaces listed for declarations are those that stand there. -/
theorem mem_addressed_iff (n : Nat) (ds : List Declaration) (address : List Nat) (i : Interface) :
    (address, i) ∈ addressed n ds ↔
      ∃ k rest, address = (n + k) :: rest ∧ StandsAt ds (k :: rest) i := by
  cases ds with
  | nil =>
    refine ⟨fun h => (List.not_mem_nil h).elim, ?_⟩
    rintro ⟨k, rest, -, h⟩
    cases h with
    | here h => cases h
    | inside h hbody => cases h
  | cons d ds =>
    rw [addressed, List.mem_append, List.mem_map, mem_addressed_iff (n + 1) ds]
    constructor
    · rintro (⟨⟨rest, j⟩, hmem, heq⟩ | ⟨k, rest, rfl, h⟩)
      · obtain ⟨rfl, rfl⟩ := Prod.mk.inj heq
        exact ⟨0, rest, rfl, standsAt_zero_iff.mpr ((mem_addressedIn_iff d rest j).mp hmem)⟩
      · exact ⟨k + 1, rest, by rw [Nat.add_right_comm, Nat.add_assoc], standsAt_succ_iff.mpr h⟩
    · rintro ⟨k, rest, rfl, h⟩
      cases k with
      | zero =>
        exact .inl ⟨(rest, i), (mem_addressedIn_iff d rest i).mpr (standsAt_zero_iff.mp h), rfl⟩
      | succ k =>
        exact .inr ⟨k, rest, by rw [Nat.add_right_comm, Nat.add_assoc], standsAt_succ_iff.mp h⟩

end

mutual

/-- The addresses in a declaration ascend. -/
theorem addressedIn_ordered (d : Declaration) : d.addressedIn.Pairwise (·.1 < ·.1) := by
  cases d with
  | interface i => exact List.pairwise_singleton _ _
  | group kind name attributes body => exact addressed_ordered 0 body
  | _ => exact List.Pairwise.nil

/-- Addresses in one declaration are compared by what comes after its number, and those in a later
one have a greater number. -/
theorem addressed_ordered (n : Nat) (ds : List Declaration) :
    (addressed n ds).Pairwise (·.1 < ·.1) := by
  cases ds with
  | nil => exact List.Pairwise.nil
  | cons d ds =>
    rw [addressed, List.pairwise_append, List.pairwise_map]
    refine ⟨(addressedIn_ordered d).imp fun h => List.cons_lt_cons_iff.mpr (.inr ⟨rfl, h⟩),
      addressed_ordered (n + 1) ds, ?_⟩
    intro x hx y hy
    obtain ⟨entry, -, rfl⟩ := List.mem_map.mp hx
    obtain ⟨k, rest, heq, -⟩ := (mem_addressed_iff (n + 1) ds y.1 y.2).mp hy
    rw [heq]
    exact List.cons_lt_cons_iff.mpr (.inl (by omega))

end

mutual

/-- The interfaces listed for a declaration are all that it holds. -/
theorem map_snd_addressedIn (d : Declaration) :
    d.addressedIn.map Prod.snd = d.parts.filterMap interface? := by
  cases d with
  | interface i => rfl
  | group kind name attributes body =>
    rw [addressedIn, map_snd_addressed, parts_group]
    rfl
  | _ => rfl

/-- The interfaces listed for declarations are all of them, in order. -/
theorem map_snd_addressed (n : Nat) (ds : List Declaration) :
    (addressed n ds).map Prod.snd = interfaces ds := by
  cases ds with
  | nil => rfl
  | cons d ds =>
    rw [addressed, List.map_append, List.map_map, interfaces, preorder_cons, List.filterMap_append,
      ← map_snd_addressedIn d, map_snd_addressed (n + 1) ds]
    rfl

end

/-- The interfaces that a walk meets are all interfaces, in the order of their addresses. -/
theorem exists_listing (ds : List Declaration) :
    ∃ entries, Listing ds entries ∧ interfaces ds = entries.map Prod.snd := by
  refine ⟨addressed 0 ds, ⟨addressed_ordered 0 ds, fun address i => ?_⟩,
    (map_snd_addressed 0 ds).symm⟩
  rw [mem_addressed_iff]
  constructor
  · rintro ⟨k, rest, rfl, h⟩
    rwa [Nat.zero_add]
  · intro h
    obtain ⟨k, rest, rfl⟩ := h.exists_cons
    exact ⟨k, rest, by rw [Nat.zero_add], h⟩

/-! ## Putting bodies in the place of libraries and modules -/

/-- One library or module, at any depth, is replaced by what it holds. -/
inductive Splices : List Declaration → List Declaration → Prop
  | here (before body after : List Declaration) (kind : GroupKind) (name : String)
    (attributes : List Attribute) :
    Splices (before ++ .group kind name attributes body :: after) (before ++ body ++ after)
  | inside (before after : List Declaration) (kind : GroupKind) (name : String)
    (attributes : List Attribute) {body body' : List Declaration} (h : Splices body body') :
    Splices (before ++ .group kind name attributes body :: after)
      (before ++ .group kind name attributes body' :: after)

/-- Interfaces come in the order of the declarations. -/
theorem interfaces_append (ds ds' : List Declaration) :
    interfaces (ds ++ ds') = interfaces ds ++ interfaces ds' := by
  induction ds with
  | nil => rfl
  | cons d ds ih =>
    simp only [interfaces, List.cons_append, preorder_cons, List.filterMap_append,
      List.append_assoc] at ih ⊢
    rw [ih]

/-- Those of a library or module come where it stands. -/
theorem interfaces_group_cons (kind : GroupKind) (name : String) (attributes : List Attribute)
    (body after : List Declaration) :
    interfaces (.group kind name attributes body :: after) = interfaces body ++ interfaces after := by
  rw [interfaces, preorder_cons, parts_group, List.cons_append, List.filterMap_cons_none rfl,
    List.filterMap_append]
  rfl

/-- The same interfaces are met in the same order. -/
theorem Splices.interfaces_eq {ds ds' : List Declaration} (h : Splices ds ds') :
    interfaces ds' = interfaces ds := by
  induction h with
  | here before body after kind name attributes =>
    rw [interfaces_append, interfaces_append, interfaces_append, interfaces_group_cons,
      List.append_assoc]
  | inside before after kind name attributes h ih =>
    rw [interfaces_append, interfaces_append, interfaces_group_cons, interfaces_group_cons, ih]

/-! ## The lookup -/

/-- Looking up a name finds the first interface of that name. -/
theorem interfaceNamed?_eq_find? (name : String) (ds : List Declaration) :
    interfaceNamed? name ds = (interfaces ds).find? (·.name = name) := by
  rw [interfaceNamed?_eq name 0, interfaces, preorder, List.filterMap_map]
  rfl

/-- A lookup finds the first interface of the name among all interfaces in the order of their
addresses, and nothing exactly if none of them has the name. It goes through one list after the
other, and it does not matter whether declarations stand in a library or module or in its place. -/
theorem lookup_searches_preorder (name : String) (ds : List Declaration) :
    (∃ entries, Listing ds entries ∧ interfaces ds = entries.map Prod.snd) ∧
    interfaceNamed? name ds = (interfaces ds).find? (·.name = name) ∧
    (interfaceNamed? name ds = none ↔ ∀ i ∈ interfaces ds, i.name ≠ name) ∧
    (∀ later, interfaceNamed? name (ds ++ later) =
      (interfaceNamed? name ds).or (interfaceNamed? name later)) ∧
    ∀ ds', Splices ds ds' → interfaceNamed? name ds' = interfaceNamed? name ds := by
  refine ⟨exists_listing ds, interfaceNamed?_eq_find? name ds,
    Interface.interfaceNamed?_eq_none_iff, fun later => ?_, fun ds' h => ?_⟩
  · rw [interfaceNamed?_eq_find?, interfaceNamed?_eq_find?, interfaceNamed?_eq_find?,
      interfaces_append, List.find?_append]
  · rw [interfaceNamed?_eq_find?, interfaceNamed?_eq_find?, h.interfaces_eq]

/-- Three interfaces of one name: one that a component class mentions, one in a module that stands
in a library, and one at the end. -/
def shelves (inner : List Declaration) : List Declaration :=
  [.coclass { name := "C", interfaces := [{ name := "IShelf" }] },
    .group .library "Lib" [] (.importLibrary "stdole2.tlb" :: inner ++
      [.interface { name := "IBook" }]),
    .interface { name := "IShelf", parent := some "ILast" }]

@[inherit_doc shelves] def middle : Interface := { name := "IShelf", parent := some "IMiddle" }

/-- Interfaces of one name at three depths. -/
theorem lookup_searches_preorder_shelves :
    let ds := shelves [.group .module "Inner" [] [.interface middle]]
    let ds' := shelves [.interface middle]
    Splices ds ds' ∧ (interfaces ds).map (·.name) = ["IShelf", "IBook", "IShelf"] ∧
    interfaceNamed? "IShelf" ds = some middle ∧ interfaceNamed? "IShelf" ds' = some middle ∧
    interfaceNamed? "C" ds = none := by
  intro ds ds'
  have hsplices : Splices ds ds' := .inside [_] [_] .library "Lib" []
    (.here [_] [.interface middle] [_] .module "Inner" [])
  have hnames : (interfaces ds).map (·.name) = ["IShelf", "IBook", "IShelf"] := by decide +kernel
  have hfirst : interfaceNamed? "IShelf" ds = some middle := by decide +kernel
  obtain ⟨-, -, -, -, hsplice⟩ := lookup_searches_preorder "IShelf" ds
  obtain ⟨-, -, hnone, -, -⟩ := lookup_searches_preorder "C" ds
  refine ⟨hsplices, hnames, hfirst, (hsplice ds' hsplices).trans hfirst, hnone.mpr fun i hi => ?_⟩
  have hname : i.name ∈ ["IShelf", "IBook", "IShelf"] := hnames ▸ List.mem_map_of_mem hi
  rintro heq
  rw [heq] at hname
  exact absurd hname (by decide)

end Midl.Declaration
