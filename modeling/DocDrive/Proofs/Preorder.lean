import DocDrive.Proofs.Position
import Mathlib.Data.List.Basic

/-!
# Documents in order

The *places* of a document are its nodes, each with the moves to it: a node before what is below it,
and what is below an entry or an item before later ones. What an index counts are the places, and
the references that it lists are those places, in the same order, that are the text of a reference.

* `Node.Reaches.places_infix` — what is below a node stands in one block, right after it.
* `Node.mem_places_iff` — the places are what the moves lead to.
* `Node.count_eq_length` — every place is counted.
* `Node.references_eq_filterMap` — references are listed in the order of places.
-/

namespace DocDrive

/-- A node, and the moves that lead to it. -/
structure Place where
  path : List Move
  node : Node

namespace Place

/-- A place as it is seen from one move further up. -/
def under (move : Move) (e : Place) : Place := { e with path := move :: e.path }

/-- A place as it is seen from several moves further up. -/
def behind (path : List Move) (e : Place) : Place := { e with path := path ++ e.path }

/-- The reference that stands at a place: a text in an entry whose key reads `$ref`. It is held by
the mapping of that entry. -/
def reference? (above : List (List Char)) (e : Place) : Option Reference :=
  match e.path.getLast?, e.node with
  | some (.entry key), .string target =>
    if key.keyText = Node.refKey then
      some ⟨Node.location ((Move.tokens e.path.dropLast).reverse ++ above), target⟩
    else none
  | _, _ => none

end Place

namespace Node

/-! ## Places -/

mutual

/-- The places below a node, in the order of the document. -/
def inside : Node → List Place
  | mapping entries => insideEntries entries
  | sequence items => insideItems 0 items
  | tagged _ content => (⟨[], content⟩ :: content.inside).map (.under .tag)
  | _ => []

/-- The places of the items of a sequence, from an index on. -/
def insideItems (i : Nat) : List Node → List Place
  | [] => []
  | n :: rest => (⟨[], n⟩ :: n.inside).map (.under (.item i)) ++ insideItems (i + 1) rest

/-- The places of the entries of a mapping. -/
def insideEntries : List (Node × Node) → List Place
  | [] => []
  | (k, v) :: rest => (⟨[], v⟩ :: v.inside).map (.under (.entry k)) ++ insideEntries rest

end

/-- The places at and below a node, in the order of the document. -/
def places (n : Node) : List Place := ⟨[], n⟩ :: n.inside

variable {n m k v : Node} {items : List Node} {entries : List (Node × Node)} {e : Place}
  {move : Move} {path : List Move} {tag : String} {i : Nat}

@[simp] theorem inside_tagged : (tagged tag n).inside = n.places.map (.under .tag) := by
  rw [inside, places]

@[simp] theorem insideItems_cons :
    insideItems i (n :: items) = n.places.map (.under (.item i)) ++ insideItems (i + 1) items := by
  rw [insideItems, places]

@[simp] theorem insideEntries_cons :
    insideEntries ((k, v) :: entries) = v.places.map (.under (.entry k)) ++ insideEntries entries := by
  rw [insideEntries, places]

theorem exists_of_mem_insideItems (h : e ∈ insideItems i items) :
    ∃ (j : Nat) (n : Node) (e' : Place), items[j]? = some n ∧ e' ∈ n.places ∧
      e = e'.under (.item (i + j)) := by
  induction items generalizing i with
  | nil => cases h
  | cons m rest ih =>
    rw [insideItems_cons, List.mem_append, List.mem_map] at h
    rcases h with ⟨e', he', rfl⟩ | h
    · exact ⟨0, m, e', rfl, he', rfl⟩
    · obtain ⟨j, n, e', hn, he', rfl⟩ := ih h
      exact ⟨j + 1, n, e', hn, he', by rw [Nat.add_right_comm, Nat.add_assoc]⟩

theorem exists_of_mem_insideEntries (h : e ∈ insideEntries entries) :
    ∃ k v e', (k, v) ∈ entries ∧ e' ∈ v.places ∧ e = e'.under (.entry k) := by
  induction entries with
  | nil => cases h
  | cons entry rest ih =>
    obtain ⟨l, w⟩ := entry
    rw [insideEntries_cons, List.mem_append, List.mem_map] at h
    rcases h with ⟨e', he', rfl⟩ | h
    · exact ⟨l, w, e', List.mem_cons_self, he', rfl⟩
    · obtain ⟨k, v, e', hv, he', rfl⟩ := ih h
      exact ⟨k, v, e', List.mem_cons_of_mem _ hv, he', rfl⟩

/-- What is below a node is a move away at least. -/
theorem exists_under_of_mem_inside (h : e ∈ n.inside) : ∃ move e', e = .under move e' := by
  cases n with
  | mapping entries =>
    obtain ⟨k, -, e', -, -, rfl⟩ := exists_of_mem_insideEntries h
    exact ⟨_, e', rfl⟩
  | sequence items =>
    obtain ⟨i, -, e', -, -, rfl⟩ := exists_of_mem_insideItems h
    exact ⟨_, e', rfl⟩
  | tagged tag content =>
    rw [inside_tagged] at h
    obtain ⟨e', -, rfl⟩ := List.mem_map.1 h
    exact ⟨_, e', rfl⟩
  | _ => cases h

theorem reaches_of_mem_places (h : e ∈ n.places) : n.Reaches e.path e.node := by
  induction n using Node.induct generalizing e with
  | mapping entries ih =>
    rcases List.mem_cons.1 h with rfl | h
    · exact .here _
    · obtain ⟨k, v, e', hv, he', rfl⟩ := exists_of_mem_insideEntries h
      exact .entry hv (ih _ hv he')
  | sequence items ih =>
    rcases List.mem_cons.1 h with rfl | h
    · exact .here _
    · obtain ⟨i, v, e', hv, he', rfl⟩ := exists_of_mem_insideItems h
      rw [Nat.zero_add]
      exact .item hv (ih v (List.mem_of_getElem? hv) he')
  | tagged tag content ih =>
    rcases List.mem_cons.1 h with rfl | h
    · exact .here _
    · rw [inside_tagged] at h
      obtain ⟨e', he', rfl⟩ := List.mem_map.1 h
      exact .tag (ih he')
  | _ =>
    obtain rfl := List.mem_singleton.1 h
    exact .here _

theorem infix_insideItems {j : Nat} (hv : items[j]? = some v) :
    v.places.map (.under (.item (i + j))) <:+: insideItems i items := by
  induction items generalizing i j with
  | nil => cases hv
  | cons n rest ih =>
    rw [insideItems_cons]
    cases j with
    | zero =>
      cases hv
      exact (List.prefix_append _ _).isInfix
    | succ j =>
      have hlater := ih (i := i + 1) hv
      rw [Nat.add_right_comm, Nat.add_assoc] at hlater
      exact hlater.trans (List.suffix_append _ _).isInfix

theorem infix_insideEntries (hv : (k, v) ∈ entries) :
    v.places.map (.under (.entry k)) <:+: insideEntries entries := by
  induction entries with
  | nil => cases hv
  | cons entry rest ih =>
    obtain ⟨l, w⟩ := entry
    rw [insideEntries_cons]
    rcases List.mem_cons.1 hv with hv | hv
    · cases hv
      exact (List.prefix_append _ _).isInfix
    · exact (ih hv).trans (List.suffix_append _ _).isInfix

/-- A block among the places of a child is one among the places of its parent. -/
theorem infix_places_of_child (hchild : m.places.map (.behind path) <:+: v.places)
    (hinside : v.places.map (.under move) <:+: n.inside) :
    m.places.map (.behind (move :: path)) <:+: n.places := by
  have hmoved := hchild.map (Place.under move)
  rw [List.map_map] at hmoved
  exact (hmoved.trans hinside).trans (List.suffix_cons _ _).isInfix

/-- **The places at and below a node stand together**, in the order of that node. -/
theorem Reaches.places_infix (h : n.Reaches path m) :
    m.places.map (.behind path) <:+: n.places := by
  induction h with
  | here n =>
    refine ⟨[], [], ?_⟩
    rw [List.nil_append, List.append_nil]
    exact List.map_id _
  | entry hv _ ih => exact infix_places_of_child ih (infix_insideEntries hv)
  | @item v m items i path hv _ ih =>
    have hinside := infix_insideItems (i := 0) hv
    rw [Nat.zero_add] at hinside
    exact infix_places_of_child ih hinside
  | tag _ ih =>
    refine infix_places_of_child ih ⟨[], [], ?_⟩
    rw [List.nil_append, List.append_nil, inside_tagged]

/-- **The places are what the moves lead to.** -/
theorem mem_places_iff : ⟨path, m⟩ ∈ n.places ↔ n.Reaches path m := by
  constructor
  · exact reaches_of_mem_places
  · intro h
    have hmem : Place.behind path ⟨[], m⟩ ∈ n.places :=
      h.places_infix.subset (List.mem_map_of_mem List.mem_cons_self)
    rwa [Place.behind, List.append_nil] at hmem

/-! ## Counting -/

theorem length_insideItems (h : ∀ n ∈ items, n.count = n.places.length) :
    (insideItems i items).length = countItems items := by
  induction items generalizing i with
  | nil => rw [insideItems, countItems, List.length_nil]
  | cons n rest ih =>
    obtain ⟨hn, hrest⟩ := List.forall_mem_cons.1 h
    rw [insideItems_cons, List.length_append, List.length_map, ih hrest, countItems, hn]

theorem length_insideEntries (h : ∀ e ∈ entries, e.2.count = e.2.places.length) :
    (insideEntries entries).length = countEntries entries := by
  induction entries with
  | nil => rw [insideEntries, countEntries, List.length_nil]
  | cons e rest ih =>
    obtain ⟨k, v⟩ := e
    obtain ⟨hv, hrest⟩ := List.forall_mem_cons.1 h
    rw [insideEntries_cons, List.length_append, List.length_map, ih hrest, countEntries, ← hv]

/-- **Every place is counted**, once. -/
theorem count_eq_length (n : Node) : n.count = n.places.length := by
  induction n using Node.induct with
  | mapping entries ih =>
    rw [count, places, List.length_cons, inside, length_insideEntries ih, Nat.add_comm]
  | sequence items ih =>
    rw [count, places, List.length_cons, inside, length_insideItems ih, Nat.add_comm]
  | tagged tag content ih =>
    rw [count, places, List.length_cons, inside_tagged, List.length_map, ih, Nat.add_comm]
  | _ => rfl

/-! ## References -/

variable {above : List (List Char)}

theorem filterMap_places : n.places.filterMap (Place.reference? above) =
    n.inside.filterMap (Place.reference? above) := rfl

theorem reference?_entry :
    (Place.reference? above ⟨[.entry k], v⟩).toList = ownReference above k.keyText v := by
  cases v with
  | string target =>
    by_cases hkey : k.keyText = refKey
    · simp [Place.reference?, ownReference, hkey]
    · simp [Place.reference?, ownReference, hkey]
  | _ => rfl

/-- The keys of a move that is not the last belong to what is above. -/
theorem reference?_under (hpath : e.path ≠ []) : Place.reference? above (e.under move) =
    Place.reference? (move.text.reverse ++ above) e := by
  obtain ⟨path, n⟩ := e
  cases path with
  | nil => exact absurd rfl hpath
  | cons next rest =>
    have htokens : Move.tokens (move :: (next :: rest).dropLast) =
        move.text ++ Move.tokens (next :: rest).dropLast := rfl
    simp only [Place.reference?, Place.under, List.getLast?_cons_cons, List.dropLast_cons_cons,
      htokens, List.reverse_append, List.append_assoc]

/-- The references below a move are the one that it leads to, and those further down. -/
theorem filterMap_places_under : (n.places.map (.under move)).filterMap (Place.reference? above) =
    (Place.reference? above ⟨[move], n⟩).toList ++
      n.places.filterMap (Place.reference? (move.text.reverse ++ above)) := by
  have hinside : (n.inside.map (.under move)).filterMap (Place.reference? above) =
      n.inside.filterMap (Place.reference? (move.text.reverse ++ above)) := by
    rw [List.filterMap_map]
    refine List.filterMap_congr fun e he => reference?_under ?_
    obtain ⟨next, e', rfl⟩ := exists_under_of_mem_inside he
    exact List.cons_ne_nil _ _
  rw [filterMap_places, ← hinside, places, List.map_cons, List.filterMap_cons]
  -- The node is no reference as seen from itself, but it may be one as seen from above.
  show _ = (Place.reference? above (.under move ⟨[], n⟩)).toList ++ _
  cases Place.reference? above (.under move ⟨[], n⟩) with
  | none => rfl
  | some r => rfl

theorem filterMap_insideItems
    (h : ∀ n ∈ items, ∀ above, referencesBelow above n = n.places.filterMap (Place.reference? above)) :
    referencesOfItems above i items = (insideItems i items).filterMap (Place.reference? above) := by
  induction items generalizing i with
  | nil => rw [referencesOfItems, insideItems, List.filterMap_nil]
  | cons n rest ih =>
    obtain ⟨hn, hrest⟩ := List.forall_mem_cons.1 h
    rw [insideItems_cons, List.filterMap_append, filterMap_places_under, ← ih hrest,
      referencesOfItems, hn]
    rfl

theorem filterMap_insideEntries (h : ∀ e ∈ entries, ∀ above,
      referencesBelow above e.2 = e.2.places.filterMap (Place.reference? above)) :
    referencesOfEntries above entries = (insideEntries entries).filterMap (Place.reference? above) := by
  induction entries with
  | nil => rw [referencesOfEntries, insideEntries, List.filterMap_nil]
  | cons e rest ih =>
    obtain ⟨k, v⟩ := e
    obtain ⟨hv, hrest⟩ := List.forall_mem_cons.1 h
    rw [insideEntries_cons, List.filterMap_append, filterMap_places_under, reference?_entry,
      ← ih hrest, referencesOfEntries, hv]
    rfl

theorem referencesBelow_eq_filterMap (n : Node) (above : List (List Char)) :
    referencesBelow above n = n.places.filterMap (Place.reference? above) := by
  induction n using Node.induct generalizing above with
  | mapping entries ih =>
    rw [referencesBelow, filterMap_insideEntries ih, filterMap_places, inside]
  | sequence items ih =>
    rw [referencesBelow, filterMap_insideItems ih, filterMap_places, inside]
  | tagged tag content ih =>
    rw [referencesBelow, ih, filterMap_places (n := tagged tag content), inside_tagged,
      filterMap_places_under]
    rfl
  | _ => rfl

/-- **References are listed in the order of places.** -/
theorem references_eq_filterMap (n : Node) :
    n.references = n.places.filterMap (Place.reference? []) :=
  referencesBelow_eq_filterMap n []

end Node

end DocDrive
