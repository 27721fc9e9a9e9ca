import DocDrive.Index
import DocDrive.Proofs.KeyText

/-!
# Positions in documents

A node of a document is reached from the root by moves: into the value of an entry, into an item, or
through a tag (`Node.Reaches`). The keys and indices on the way are the tokens of its pointer; a tag
leaves none.

* `Node.induct` — induction over documents.
* `Node.isWellFormed` — what every document satisfies: keys of one mapping differ, and indices are
  words.
* `Node.mem_references_iff` — references are recorded for the mappings that hold them, each with the
  tokens on the way to its mapping.
-/

namespace DocDrive

variable {n m k v : Node} {items : List Node} {entries : List (Node × Node)} {s : String}

namespace Node

/-! ## Documents as trees -/

/-- Induction over documents: keys do not count. -/
@[elab_as_elim]
theorem induct {P : Node → Prop} (null : P null) (bool : ∀ b, P (bool b)) (int : ∀ i, P (int i))
    (float : ∀ x, P (float x)) (string : ∀ s, P (string s))
    (sequence : ∀ items, (∀ n ∈ items, P n) → P (sequence items))
    (mapping : ∀ entries, (∀ e ∈ entries, P e.2) → P (mapping entries))
    (tagged : ∀ tag content, P content → P (tagged tag content)) (n : Node) : P n := by
  match n with
  | .null => exact null
  | .bool b => exact bool b
  | .int i => exact int i
  | .float x => exact float x
  | .string s => exact string s
  | .sequence items =>
    refine sequence items fun n hn => ?_
    exact induct null bool int float string sequence mapping tagged n
  | .mapping entries =>
    refine mapping entries fun e he => ?_
    exact induct null bool int float string sequence mapping tagged e.2
  | .tagged tag content =>
    exact tagged tag content (induct null bool int float string sequence mapping tagged content)
termination_by sizeOf n
decreasing_by
  · have hlt := List.sizeOf_lt_of_mem hn
    simp only [Node.sequence.sizeOf_spec]
    omega
  · have hlt := List.sizeOf_lt_of_mem he
    have hsnd : sizeOf e.2 < sizeOf e := by
      obtain ⟨k, v⟩ := e
      simp only [Prod.mk.sizeOf_spec]
      omega
    simp only [Node.mapping.sizeOf_spec]
    omega
  · simp only [Node.tagged.sizeOf_spec]
    omega

/-- No key equals a later one. -/
def haveDistinctKeys : List (Node × Node) → Bool
  | [] => true
  | (k, _) :: rest => !hasKey k rest && haveDistinctKeys rest

mutual

/-- Keys of one mapping differ, and every index into a sequence is a word. -/
def isWellFormed : Node → Bool
  | sequence items => decide (items.length ≤ Pointer.indexBound) && areWellFormed items
  | mapping entries => haveDistinctKeys entries && haveWellFormed entries
  | tagged _ content => isWellFormed content
  | _ => true

/-- All items are well-formed. -/
def areWellFormed : List Node → Bool
  | [] => true
  | n :: rest => isWellFormed n && areWellFormed rest

/-- All values are well-formed. -/
def haveWellFormed : List (Node × Node) → Bool
  | [] => true
  | (_, v) :: rest => isWellFormed v && haveWellFormed rest

end

theorem isWellFormed_of_mem_items (h : areWellFormed items = true) (hn : n ∈ items) :
    n.isWellFormed = true := by
  induction items with
  | nil => cases hn
  | cons m rest ih =>
    rw [areWellFormed, Bool.and_eq_true] at h
    rcases List.mem_cons.1 hn with rfl | hn
    · exact h.1
    · exact ih h.2 hn

theorem isWellFormed_of_mem_entries (h : haveWellFormed entries = true) (hv : (k, v) ∈ entries) :
    v.isWellFormed = true := by
  induction entries with
  | nil => cases hv
  | cons e rest ih =>
    obtain ⟨l, w⟩ := e
    rw [haveWellFormed, Bool.and_eq_true] at h
    rcases List.mem_cons.1 hv with hv | hv
    · cases hv
      exact h.1
    · exact ih h.2 hv

/-! ## Text keys -/

theorem mem_of_lookup (h : lookup s entries = some v) : (string s, v) ∈ entries := by
  induction entries with
  | nil => cases h
  | cons e rest ih =>
    obtain ⟨l, w⟩ := e
    cases l with
    | string t =>
      rw [lookup] at h
      split at h
      · rename_i hts
        cases h
        exact hts ▸ List.mem_cons_self
      · exact List.mem_cons_of_mem _ (ih h)
    | _ => exact List.mem_cons_of_mem _ (ih h)

/-- **Where keys differ, looking up a text finds the entry under it.** -/
theorem lookup_eq_some_iff (hkeys : haveDistinctKeys entries = true) :
    lookup s entries = some v ↔ (string s, v) ∈ entries := by
  refine ⟨mem_of_lookup, fun h => ?_⟩
  induction entries with
  | nil => cases h
  | cons e rest ih =>
    obtain ⟨l, w⟩ := e
    rw [haveDistinctKeys, Bool.and_eq_true, Bool.not_eq_true'] at hkeys
    obtain ⟨hfresh, hrest⟩ := hkeys
    rcases List.mem_cons.1 h with hhere | hlater
    · cases hhere
      rw [lookup, if_pos rfl]
    · have hne : l ≠ string s := by
        rintro rfl
        have hdup : hasKey (string s) rest = true := by
          refine List.any_eq_true.2 ⟨_, hlater, ?_⟩
          simp [same]
        rw [hdup] at hfresh
        cases hfresh
      cases l with
      | string t =>
        rw [lookup, if_neg fun hts => hne (congrArg string hts)]
        exact ih hrest hlater
      | _ => exact ih hrest hlater

end Node

/-! ## Moves -/

/-- One move down a document. -/
inductive Move where
  /-- To the value under a key of any kind. -/
  | entry (key : Node)
  | item (i : Nat)
  /-- To what stands under a tag. -/
  | tag

namespace Move

/-- The token that a move leaves in a pointer, not yet escaped. -/
def text : Move → List (List Char)
  | entry key => [key.keyText]
  | item i => [Nat.toDigits 10 i]
  | tag => []

/-- The tokens of several moves. -/
def tokens (path : List Move) : List (List Char) := path.flatMap text

@[simp] theorem tokens_nil : tokens [] = [] := rfl

@[simp] theorem tokens_entry (key : Node) (rest : List Move) :
    tokens (entry key :: rest) = key.keyText :: tokens rest := rfl

@[simp] theorem tokens_item (i : Nat) (rest : List Move) :
    tokens (item i :: rest) = Nat.toDigits 10 i :: tokens rest := rfl

@[simp] theorem tokens_tag (rest : List Move) : tokens (tag :: rest) = tokens rest := rfl

end Move

namespace Node

/-- A node lies below another at the end of some moves. -/
inductive Reaches : Node → List Move → Node → Prop
  | here (n : Node) : Reaches n [] n
  | entry {k v m : Node} {entries : List (Node × Node)} {path : List Move} :
      (k, v) ∈ entries → Reaches v path m → Reaches (mapping entries) (.entry k :: path) m
  | item {v m : Node} {items : List Node} {i : Nat} {path : List Move} :
      items[i]? = some v → Reaches v path m → Reaches (sequence items) (.item i :: path) m
  | tag {content m : Node} {name : String} {path : List Move} :
      Reaches content path m → Reaches (tagged name content) (.tag :: path) m

variable {path : List Move}

/-- What lies below a well-formed node is well-formed. -/
theorem Reaches.isWellFormed (h : n.Reaches path m) (hn : n.isWellFormed = true) :
    m.isWellFormed = true := by
  induction h with
  | here n => exact hn
  | entry hv _ ih =>
    rw [Node.isWellFormed, Bool.and_eq_true] at hn
    exact ih (isWellFormed_of_mem_entries hn.2 hv)
  | item hv _ ih =>
    rw [Node.isWellFormed, Bool.and_eq_true] at hn
    exact ih (isWellFormed_of_mem_items hn.2 (List.mem_of_getElem? hv))
  | tag _ ih =>
    rw [Node.isWellFormed] at hn
    exact ih hn

/-! ## Where references are recorded -/

variable {r : Reference} {target : String}

theorem mem_ownReference_iff {above : List (List Char)} {key : List Char} :
    r ∈ ownReference above key v ↔
      key = refKey ∧ ∃ target, v = string target ∧ r = ⟨location above, target⟩ := by
  cases v with
  | string target =>
    by_cases hkey : key = refKey
    · simp [ownReference, hkey]
    · simp [ownReference, hkey]
  | _ => simp [ownReference]

theorem mem_referencesOfItems_iff {above : List (List Char)} {i : Nat} :
    r ∈ referencesOfItems above i items ↔
      ∃ j n, items[j]? = some n ∧ r ∈ referencesBelow (Nat.toDigits 10 (i + j) :: above) n := by
  induction items generalizing i with
  | nil => simp [referencesOfItems]
  | cons m rest ih =>
    rw [referencesOfItems, List.mem_append, ih]
    constructor
    · rintro (h | ⟨j, n, hn, h⟩)
      · exact ⟨0, m, rfl, h⟩
      · refine ⟨j + 1, n, hn, ?_⟩
        rwa [Nat.add_right_comm, Nat.add_assoc] at h
    · rintro ⟨j, n, hn, h⟩
      cases j with
      | zero =>
        cases hn
        exact Or.inl h
      | succ j =>
        refine Or.inr ⟨j, n, hn, ?_⟩
        rwa [Nat.add_right_comm, Nat.add_assoc]

theorem mem_referencesOfEntries_iff {above : List (List Char)} :
    r ∈ referencesOfEntries above entries ↔ ∃ k v, (k, v) ∈ entries ∧
      (r ∈ ownReference above k.keyText v ∨ r ∈ referencesBelow (k.keyText :: above) v) := by
  induction entries with
  | nil => simp [referencesOfEntries]
  | cons e rest ih =>
    obtain ⟨l, w⟩ := e
    rw [referencesOfEntries]
    simp only [List.mem_append, ih]
    constructor
    · rintro ((h | h) | ⟨k, v, hv, h⟩)
      · exact ⟨l, w, List.mem_cons_self, Or.inl h⟩
      · exact ⟨l, w, List.mem_cons_self, Or.inr h⟩
      · exact ⟨k, v, List.mem_cons_of_mem _ hv, h⟩
    · rintro ⟨k, v, hv, h⟩
      rcases List.mem_cons.1 hv with hv | hv
      · cases hv
        exact Or.inl h
      · exact Or.inr ⟨k, v, hv, h⟩

/-- A mapping that holds a reference lies below a node. -/
def Holds (n : Node) (path : List Move) (target : String) : Prop :=
  ∃ entries, n.Reaches path (mapping entries) ∧ (string "$ref", string target) ∈ entries

/-- What is recorded below a node is held there. -/
theorem exists_holds_of_mem {above : List (List Char)} (h : r ∈ referencesBelow above n) :
    ∃ path, n.Holds path r.target ∧
      r.location = location ((Move.tokens path).reverse ++ above) := by
  induction n using Node.induct generalizing above with
  | sequence items ih =>
    rw [referencesBelow, mem_referencesOfItems_iff] at h
    obtain ⟨i, n, hn, h⟩ := h
    rw [Nat.zero_add] at h
    obtain ⟨path, ⟨entries, hreach, href⟩, hloc⟩ := ih n (List.mem_of_getElem? hn) h
    refine ⟨.item i :: path, ⟨entries, .item hn hreach, href⟩, ?_⟩
    simpa using hloc
  | mapping entries ih =>
    rw [referencesBelow, mem_referencesOfEntries_iff] at h
    obtain ⟨k, v, hv, h | h⟩ := h
    · obtain ⟨hkey, target, rfl, rfl⟩ := mem_ownReference_iff.1 h
      obtain rfl := keyText_eq_refKey_iff.1 hkey
      exact ⟨[], ⟨entries, .here _, hv⟩, rfl⟩
    · obtain ⟨path, ⟨inner, hreach, href⟩, hloc⟩ := ih _ hv h
      refine ⟨.entry k :: path, ⟨inner, .entry hv hreach, href⟩, ?_⟩
      simpa using hloc
  | tagged tag content ih =>
    rw [referencesBelow] at h
    obtain ⟨path, ⟨entries, hreach, href⟩, hloc⟩ := ih h
    exact ⟨.tag :: path, ⟨entries, .tag hreach, href⟩, hloc⟩
  | _ => cases h

/-- What is held below a node is recorded there. -/
theorem mem_of_holds (above : List (List Char)) (h : n.Holds path target) :
    ⟨location ((Move.tokens path).reverse ++ above), target⟩ ∈ referencesBelow above n := by
  obtain ⟨entries, hreach, href⟩ := h
  generalize hm : mapping entries = m at hreach
  induction hreach generalizing above with
  | here n =>
    subst hm
    rw [referencesBelow, mem_referencesOfEntries_iff]
    exact ⟨_, _, href, Or.inl (mem_ownReference_iff.2 ⟨rfl, target, rfl, rfl⟩)⟩
  | @entry k v m outer path hv _ ih =>
    rw [referencesBelow, mem_referencesOfEntries_iff]
    refine ⟨k, v, hv, Or.inr ?_⟩
    simpa using ih (k.keyText :: above) hm
  | @item v m items i path hv _ ih =>
    rw [referencesBelow, mem_referencesOfItems_iff]
    refine ⟨i, v, hv, ?_⟩
    simpa using ih (Nat.toDigits 10 i :: above) hm
  | tag _ ih =>
    rw [referencesBelow]
    exact ih above hm

/-- **References are recorded for the mappings that hold them**, each with the tokens of the moves
to its mapping. -/
theorem mem_references_iff : r ∈ n.references ↔
    ∃ path, n.Holds path r.target ∧ r.location = location (Move.tokens path).reverse := by
  constructor
  · intro h
    simpa using exists_holds_of_mem h
  · rintro ⟨path, hholds, hloc⟩
    have hmem := mem_of_holds [] hholds
    rw [List.append_nil, ← hloc] at hmem
    exact hmem

end Node

end DocDrive
