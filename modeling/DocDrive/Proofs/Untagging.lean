import DocDrive.Proofs.Follow
import DocDrive.Proofs.Preorder
import DocDrive.Proofs.Traversal

/-!
# Documents with fewer tags

A tag is a node of its own, but the references of a document hardly depend on it: a tag leaves no
token in a location. It only hides the text right under it, which is no reference then.

* `Node.count_dropTags` — every tag that is taken away was counted once.
* `Node.references_dropTags` — the references stay, unless a text under `$ref` is bared.
* `index_lists_preorder` — what an index counts and lists.
-/

namespace DocDrive

/-- A place with a tag that is to be taken away. -/
def Place.isDropped (drop : List Move → Bool) (e : Place) : Bool :=
  match e.node with
  | .tagged _ _ => drop e.path
  | _ => false

namespace Node

mutual

/-- A node without the tags at the chosen places. -/
def dropTags (drop : List Move → Bool) : Node → Node
  | mapping entries => mapping (dropTagsOfEntries drop entries)
  | sequence items => sequence (dropTagsOfItems drop 0 items)
  | tagged tag content =>
    let rest := content.dropTags fun path => drop (.tag :: path)
    if drop [] then rest else tagged tag rest
  | n => n

/-- The items of a sequence, from an index on, without the tags at the chosen places. -/
def dropTagsOfItems (drop : List Move → Bool) (i : Nat) : List Node → List Node
  | [] => []
  | n :: rest =>
    n.dropTags (fun path => drop (.item i :: path)) :: dropTagsOfItems drop (i + 1) rest

/-- The entries of a mapping without the tags at the chosen places. -/
def dropTagsOfEntries (drop : List Move → Bool) : List (Node × Node) → List (Node × Node)
  | [] => []
  | (k, v) :: rest =>
    (k, v.dropTags fun path => drop (.entry k :: path)) :: dropTagsOfEntries drop rest

end

/-- No tag is taken from right above a text that is the value of a `$ref` entry. -/
def SparesReferences (n : Node) (drop : List Move → Bool) : Prop :=
  ∀ path key tags tag target, n.Reaches (path ++ .entry key :: tags) (tagged tag (string target)) →
    key.keyText = refKey → tags.all Move.isTag = true → drop (path ++ .entry key :: tags) = false

variable {n k v : Node} {items : List Node} {entries : List (Node × Node)} {drop : List Move → Bool}
  {move : Move} {tag target : String} {i : Nat}

/-! ## Counting -/

theorem countP_map_under (es : List Place) : (es.map (.under move)).countP (Place.isDropped drop) =
    es.countP (Place.isDropped fun path => drop (move :: path)) := by
  rw [List.countP_map]
  rfl

theorem countItems_dropTags (drop : List Move → Bool)
    (h : ∀ n ∈ items, ∀ drop,
      (n.dropTags drop).count + n.places.countP (Place.isDropped drop) = n.count) :
    countItems (dropTagsOfItems drop i items) +
      (insideItems i items).countP (Place.isDropped drop) = countItems items := by
  induction items generalizing i with
  | nil => rfl
  | cons n rest ih =>
    obtain ⟨hn, hrest⟩ := List.forall_mem_cons.1 h
    have hhere := hn fun path => drop (.item i :: path)
    have hlater := ih (i := i + 1) hrest
    rw [dropTagsOfItems, countItems, insideItems_cons, List.countP_append, countP_map_under,
      countItems]
    omega

theorem countEntries_dropTags (drop : List Move → Bool)
    (h : ∀ k v, (k, v) ∈ entries → ∀ drop,
      (v.dropTags drop).count + v.places.countP (Place.isDropped drop) = v.count) :
    countEntries (dropTagsOfEntries drop entries) +
      (insideEntries entries).countP (Place.isDropped drop) = countEntries entries := by
  induction entries with
  | nil => rfl
  | cons e rest ih =>
    obtain ⟨k, v⟩ := e
    have hhere := h k v List.mem_cons_self fun path => drop (.entry k :: path)
    have hlater := ih fun k v hv => h k v (List.mem_cons_of_mem _ hv)
    rw [dropTagsOfEntries, countEntries, insideEntries_cons, List.countP_append, countP_map_under,
      countEntries]
    omega

/-- **Every tag that is taken away was counted once.** -/
theorem count_dropTags (n : Node) (drop : List Move → Bool) :
    (n.dropTags drop).count + n.places.countP (Place.isDropped drop) = n.count := by
  induction n using Node.induct generalizing drop with
  | mapping entries ih =>
    have hentries := countEntries_dropTags drop fun k v hv => ih _ hv
    rw [dropTags, count, count, places, List.countP_cons_of_neg (by simp [Place.isDropped]), inside]
    omega
  | sequence items ih =>
    have hitems := countItems_dropTags drop (i := 0) ih
    rw [dropTags, count, count, places, List.countP_cons_of_neg (by simp [Place.isDropped]), inside]
    omega
  | tagged tag content ih =>
    have hcontent := ih fun path => drop (.tag :: path)
    have hinside : (tagged tag content).inside.countP (Place.isDropped drop) =
        content.places.countP (Place.isDropped fun path => drop (.tag :: path)) := by
      rw [inside_tagged, countP_map_under]
    rw [dropTags, places, count]
    cases hdrop : drop [] with
    | true =>
      rw [if_pos rfl, List.countP_cons_of_pos (by simpa [Place.isDropped] using hdrop), hinside]
      omega
    | false =>
      rw [if_neg (by simp), List.countP_cons_of_neg (by simpa [Place.isDropped] using hdrop),
        hinside, count]
      omega
  | _ => rfl

/-! ## References -/

variable {above : List (List Char)}

/-- A text that has lost its tags had one right above it that was taken away. -/
theorem exists_dropped_of_dropTags (h : n.dropTags drop = string target) :
    n = string target ∨ ∃ tags tag, tags.all Move.isTag = true ∧
      n.Reaches tags (tagged tag (string target)) ∧ drop tags = true := by
  induction n using Node.induct generalizing drop with
  | tagged tag content ih =>
    refine Or.inr ?_
    rw [dropTags] at h
    cases hdrop : drop [] with
    | false =>
      rw [hdrop, if_neg (by simp)] at h
      cases h
    | true =>
      rw [hdrop, if_pos rfl] at h
      rcases ih h with rfl | ⟨tags, inner, htags, hreach, hdropped⟩
      · exact ⟨[], tag, rfl, .here _, hdrop⟩
      · exact ⟨.tag :: tags, inner, htags, .tag hreach, hdropped⟩
  | string s =>
    exact Or.inl h
  | _ => cases h

theorem SparesReferences.item (h : (sequence items).SparesReferences drop)
    (hn : items[i]? = some n) : n.SparesReferences fun path => drop (.item i :: path) :=
  fun path key tags tag target hreach =>
    h (.item i :: path) key tags tag target (.item hn hreach)

theorem SparesReferences.entry (h : (mapping entries).SparesReferences drop)
    (hv : (k, v) ∈ entries) : v.SparesReferences fun path => drop (.entry k :: path) :=
  fun path key tags tag target hreach =>
    h (.entry k :: path) key tags tag target (.entry hv hreach)

theorem SparesReferences.content (h : (tagged tag n).SparesReferences drop) :
    n.SparesReferences fun path => drop (.tag :: path) :=
  fun path key tags inner target hreach =>
    h (.tag :: path) key tags inner target (.tag hreach)

/-- An entry is the same reference as before. -/
theorem SparesReferences.ownReference_eq (h : (mapping entries).SparesReferences drop)
    (hv : (k, v) ∈ entries) :
    ownReference above k.keyText (v.dropTags fun path => drop (.entry k :: path)) =
      ownReference above k.keyText v := by
  cases v with
  | tagged tag content =>
    -- A tagged value is no reference, and would become one by losing the tag right above a text.
    have hown : ownReference above k.keyText (tagged tag content) = [] := rfl
    rw [hown, List.eq_nil_iff_forall_not_mem]
    intro r hr
    obtain ⟨hkey, target, hbared, -⟩ := mem_ownReference_iff.1 hr
    rcases exists_dropped_of_dropTags hbared with hv' | ⟨tags, inner, htags, hreach, hdropped⟩
    · cases hv'
    · have hspared := h [] k tags inner target (.entry hv hreach) hkey htags
      rw [List.nil_append, hdropped] at hspared
      cases hspared
  | _ => rfl

theorem referencesOfItems_dropTags
    (h : ∀ j n, items[j]? = some n → ∀ above,
      referencesBelow above (n.dropTags fun path => drop (.item (i + j) :: path)) =
        referencesBelow above n) :
    referencesOfItems above i (dropTagsOfItems drop i items) = referencesOfItems above i items := by
  induction items generalizing i with
  | nil => rfl
  | cons n rest ih =>
    have hlater := ih (i := i + 1) fun j m hm above => by
      have hj := h (j + 1) m hm above
      rwa [← Nat.add_assoc, Nat.add_right_comm] at hj
    have hhere := h 0 n rfl (Nat.toDigits 10 i :: above)
    rw [Nat.add_zero] at hhere
    rw [dropTagsOfItems, referencesOfItems, referencesOfItems, hlater, hhere]

theorem referencesOfEntries_dropTags
    (hown : ∀ k v, (k, v) ∈ entries →
      ownReference above k.keyText (v.dropTags fun path => drop (.entry k :: path)) =
        ownReference above k.keyText v)
    (h : ∀ k v, (k, v) ∈ entries → ∀ above,
      referencesBelow above (v.dropTags fun path => drop (.entry k :: path)) =
        referencesBelow above v) :
    referencesOfEntries above (dropTagsOfEntries drop entries) =
      referencesOfEntries above entries := by
  induction entries with
  | nil => rfl
  | cons e rest ih =>
    obtain ⟨k, v⟩ := e
    have hlater := ih (fun k v hv => hown k v (List.mem_cons_of_mem _ hv))
      fun k v hv => h k v (List.mem_cons_of_mem _ hv)
    rw [dropTagsOfEntries, referencesOfEntries, referencesOfEntries, hlater,
      hown k v List.mem_cons_self, h k v List.mem_cons_self]

theorem referencesBelow_dropTags (h : n.SparesReferences drop) (above : List (List Char)) :
    referencesBelow above (n.dropTags drop) = referencesBelow above n := by
  induction n using Node.induct generalizing drop above with
  | mapping entries ih =>
    rw [dropTags, referencesBelow, referencesBelow]
    exact referencesOfEntries_dropTags (fun k v hv => h.ownReference_eq hv)
      fun k v hv => ih _ hv (h.entry hv)
  | sequence items ih =>
    rw [dropTags, referencesBelow, referencesBelow]
    refine referencesOfItems_dropTags fun j n hn => ?_
    rw [Nat.zero_add]
    exact ih n (List.mem_of_getElem? hn) (h.item hn)
  | tagged tag content ih =>
    have hcontent := ih h.content above
    rw [dropTags, referencesBelow]
    cases drop [] with
    | true => exact hcontent
    | false =>
      rw [if_neg (by simp), referencesBelow]
      exact hcontent
  | _ => rfl

/-- **The references stay when tags are taken away**, unless a text under `$ref` is bared. -/
theorem references_dropTags (h : n.SparesReferences drop) :
    (n.dropTags drop).references = n.references :=
  referencesBelow_dropTags h []

end Node

/-! ## The index -/

/-- **What an index counts and lists.** Every document has an index, with any configuration, and one
pass over the document with a single buffer for the pointer comes to the same: it never cuts the
buffer inside of a character, and in the end the buffer is empty. The places of the document are what
moves lead to from the root, and those at and below one node stand together. They are what the index
counts, and the references, if they are collected, are those places, in their order, that are a text
under `$ref`; they are local exactly if their target starts with `#`. Whatever tags are taken from
the document, the references stay if no text under `$ref` is bared, and the count falls by one for
each tag. -/
theorem index_lists_preorder (root : Derived Node) (config : IndexConfig) : ∃ x,
    Indexer.references root config = .ok x ∧
    root.value.visit? config.collect {} =
      some { pointer := [], references := x.references, nodes := x.nodes } ∧
    (∀ path n, ⟨path, n⟩ ∈ root.value.places ↔ root.value.Reaches path n) ∧
    (∀ path n, root.value.Reaches path n → n.places.map (.behind path) <:+: root.value.places) ∧
    x.nodes = root.value.places.length ∧
    x.references =
      (if config.collect then root.value.places.filterMap (Place.reference? []) else []) ∧
    (∀ r ∈ x.references, r.isLocal = true ↔ ∃ rest, r.target.toList = '#' :: rest) ∧
    ∀ drop, root.value.SparesReferences drop → ∃ y,
      Indexer.references { root with value := root.value.dropTags drop } config = .ok y ∧
      y.references = x.references ∧
      y.nodes + root.value.places.countP (Place.isDropped drop) = x.nodes := by
  refine ⟨_, rfl, ?_, fun path n => Node.mem_places_iff, fun path n h => h.places_infix,
    root.value.count_eq_length, ?_, fun r _ => ?_, fun drop hspared => ⟨_, rfl, ?_, ?_⟩⟩
  · have hpass := Node.visit?_eq config.collect root.value [] {} rfl
    rw [hpass, Pass.gaining, List.nil_append, Nat.zero_add]
    rfl
  · rw [root.value.references_eq_filterMap]
  · rw [Reference.isLocal, beq_iff_eq, List.head?_eq_some_iff]
  · rw [Node.references_dropTags hspared]
  · exact root.value.count_dropTags drop

/-- A document with a tag on itself, one in a sequence, and one that hides a reference. The first two
are taken away. -/
theorem index_lists_preorder_tagged : ∃ (root : Derived Node) (drop : List Move → Bool)
    (x y : StructuralIndex),
    root.value = .tagged "!t" (.mapping [
      (.string "a/b", .sequence [.tagged "!u" (.mapping [(.string "$ref", .string "#/c")])]),
      (.string "$ref", .tagged "!v" (.string "hidden")),
      (.int 1, .mapping [(.string "$ref", .string "x.yaml")])]) ∧
    root.value.SparesReferences drop ∧ Indexer.references root {} = .ok x ∧
    Indexer.references { root with value := root.value.dropTags drop } {} = .ok y ∧
    x.references = [⟨"/a~1b/0", "#/c"⟩, ⟨"/1", "x.yaml"⟩] ∧ y.references = x.references ∧
    x.nodes = 10 ∧ y.nodes = 8 := by
  let root : Node := .tagged "!t" (.mapping [
    (.string "a/b", .sequence [.tagged "!u" (.mapping [(.string "$ref", .string "#/c")])]),
    (.string "$ref", .tagged "!v" (.string "hidden")),
    (.int 1, .mapping [(.string "$ref", .string "x.yaml")])])
  let drop : List Move → Bool := fun path => path.length != 2
  have hspared : root.SparesReferences drop := by
    intro path key tags tag target hreach _ _
    have hmem := Node.mem_places_iff.2 hreach
    simp [root, Node.places, Node.inside, Node.insideEntries, Node.insideItems,
      Place.under] at hmem
    rw [hmem.1]
    rfl
  obtain ⟨x, hx, -, -, -, -, hlisted, -, htags⟩ := index_lists_preorder ⟨0, 0, root⟩ {}
  obtain ⟨y, hy, hsame, hcount⟩ := htags drop hspared
  cases hx
  refine ⟨⟨0, 0, root⟩, drop, _, y, rfl, hspared, rfl, hy, ?_, hsame, rfl, ?_⟩
  · decide
  · have hten : y.nodes + 2 = 10 := hcount
    omega

end DocDrive
