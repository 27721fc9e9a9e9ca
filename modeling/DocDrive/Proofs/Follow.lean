import DocDrive.Proofs.Pointer
import DocDrive.Proofs.Position

/-!
# Following recorded references

The pointer of a recorded reference holds the tokens of the moves to its mapping. Looking those
tokens up is something else than moving: a look-up knows only text keys, and passes a tag only on the
way into a mapping right under it. So a pointer leads back to its mapping exactly if its path is
*followable*, or if it goes *astray* to another mapping that happens to hold an equal reference.

* `descend?_of_isFollowable` — a followable path is followed to its end.
* `descend?_of_astray`, `astray_of_descend?` — where any other path leads, if it leads anywhere.
* `reference_followed_iff` — which recorded references can be followed back.
* `reference_under_number_lost` — one that cannot.
-/

namespace DocDrive

namespace Move

/-- A move through a tag. -/
def isTag : Move → Bool
  | tag => true
  | _ => false

/-- A path whose tokens are looked up as they were written: every key is a text, and a tag stands
right above a mapping that is entered, or at the end. -/
def isFollowable : List Move → Bool
  | [] => true
  | .entry (.string _) :: rest => isFollowable rest
  | .entry _ :: _ => false
  | .item _ :: rest => isFollowable rest
  | .tag :: .entry key :: rest => isFollowable (.entry key :: rest)
  | .tag :: rest => rest.all isTag

variable {path : List Move}

theorem tokens_eq_nil_iff : tokens path = [] ↔ path.all isTag = true := by
  induction path with
  | nil => simp
  | cons move rest ih => cases move <;> simp [isTag, ih]

end Move

namespace Node

open Move

variable {n m k v : Node} {items : List Node} {entries : List (Node × Node)} {path rest : List Move}
  {name s target : String} {key : List Char} {keys : List (List Char)} {i : Nat}

/-! ## Looking up one token -/

theorem descend?_cons_eq_some_iff :
    n.descend? (key :: keys) = some m ↔ ∃ v, n.child? key = some v ∧ v.descend? keys = some m := by
  rw [descend?, Option.bind_eq_some_iff]

theorem child?_mapping_eq_some_iff (hkeys : haveDistinctKeys entries = true) :
    (mapping entries).child? key = some v ↔ (string (.ofList key), v) ∈ entries := by
  rw [child?, lookup_eq_some_iff hkeys]

theorem child?_sequence (hlength : items.length ≤ Pointer.indexBound) (hv : items[i]? = some v) :
    (sequence items).child? (Nat.toDigits 10 i) = some v := by
  have hi : i < items.length := (List.getElem?_eq_some_iff.1 hv).1
  rw [child?, Pointer.index?_toDigits (by omega), Option.bind_some, hv]

/-- A tag does not hide the mapping right under it. -/
theorem descend?_tagged_mapping :
    (tagged name (mapping entries)).descend? (key :: keys) =
      (mapping entries).descend? (key :: keys) := rfl

/-- A tag hides everything else. -/
theorem descend?_tagged (h : ∀ entries, n ≠ mapping entries) :
    (tagged name n).descend? (key :: keys) = none := by
  cases n with
  | mapping entries => exact absurd rfl (h entries)
  | _ => rfl

theorem untagged_of_reaches_tags (h : n.Reaches path m) (htags : path.all isTag = true) :
    n.untagged = m.untagged := by
  induction h with
  | here n => rfl
  | entry _ _ _ => cases htags
  | item _ _ _ => cases htags
  | tag _ ih =>
    rw [untagged]
    exact ih htags

/-! ## Followable paths -/

/-- **A followable path is followed to its end**, up to tags there. -/
theorem descend?_of_isFollowable (h : n.Reaches path m) (hwf : n.isWellFormed = true)
    (hpath : isFollowable path = true) :
    ∃ m', n.descend? (tokens path) = some m' ∧ m'.untagged = m.untagged := by
  induction h with
  | here n => exact ⟨n, rfl, rfl⟩
  | @entry k v m entries path hv _ ih =>
    rw [isWellFormed, Bool.and_eq_true] at hwf
    cases k with
    | string s =>
      obtain ⟨m', hm', huntagged⟩ := ih (isWellFormed_of_mem_entries hwf.2 hv) hpath
      refine ⟨m', descend?_cons_eq_some_iff.2 ⟨v, ?_, hm'⟩, huntagged⟩
      rw [child?_mapping_eq_some_iff hwf.1, keyText, String.ofList_toList]
      exact hv
    | _ => cases hpath
  | @item v m items i path hv _ ih =>
    rw [isWellFormed, Bool.and_eq_true, decide_eq_true_eq] at hwf
    obtain ⟨m', hm', huntagged⟩ :=
      ih (isWellFormed_of_mem_items hwf.2 (List.mem_of_getElem? hv)) hpath
    exact ⟨m', descend?_cons_eq_some_iff.2 ⟨v, child?_sequence hwf.1 hv, hm'⟩, huntagged⟩
  | @tag content m name path hreach ih =>
    rw [isWellFormed] at hwf
    by_cases htags : path.all isTag = true
    · refine ⟨tagged name content, ?_, ?_⟩
      · rw [tokens_tag, tokens_eq_nil_iff.2 htags]
        rfl
      · rw [untagged]
        exact untagged_of_reaches_tags hreach htags
    · cases hreach with
      | here => exact absurd rfl htags
      | entry hv hreach => exact ih hwf hpath
      | item _ _ => exact absurd hpath htags
      | tag _ => exact absurd hpath htags

/-! ## Paths that go astray -/

/-- Where the tokens of a path lead that is not followable: they leave the path at a key that is no
text, for the text key that is spelled the same. -/
inductive Astray : Node → List Move → Node → Prop
  | here {k v m : Node} {entries : List (Node × Node)} {rest : List Move} :
      (∀ s, k ≠ string s) → (string (.ofList k.keyText), v) ∈ entries →
      v.descend? (tokens rest) = some m → Astray (mapping entries) (.entry k :: rest) m
  | entry {v m : Node} {s : String} {entries : List (Node × Node)} {rest : List Move} :
      (string s, v) ∈ entries → Astray v rest m →
      Astray (mapping entries) (.entry (string s) :: rest) m
  | item {v m : Node} {i : Nat} {items : List Node} {rest : List Move} :
      items[i]? = some v → Astray v rest m → Astray (sequence items) (.item i :: rest) m
  | tag {k m : Node} {name : String} {entries : List (Node × Node)} {rest : List Move} :
      Astray (mapping entries) (.entry k :: rest) m →
      Astray (tagged name (mapping entries)) (.tag :: .entry k :: rest) m

theorem descend?_of_astray (h : n.Astray path m) (hwf : n.isWellFormed = true) :
    n.descend? (tokens path) = some m := by
  induction h with
  | @here k v m entries rest _ hv hm =>
    rw [isWellFormed, Bool.and_eq_true] at hwf
    exact descend?_cons_eq_some_iff.2 ⟨v, (child?_mapping_eq_some_iff hwf.1).2 hv, hm⟩
  | @entry v m s entries rest hv _ ih =>
    rw [isWellFormed, Bool.and_eq_true] at hwf
    refine descend?_cons_eq_some_iff.2 ⟨v, ?_, ih (isWellFormed_of_mem_entries hwf.2 hv)⟩
    rw [child?_mapping_eq_some_iff hwf.1, keyText, String.ofList_toList]
    exact hv
  | @item v m i items rest hv _ ih =>
    rw [isWellFormed, Bool.and_eq_true, decide_eq_true_eq] at hwf
    exact descend?_cons_eq_some_iff.2 ⟨v, child?_sequence hwf.1 hv,
      ih (isWellFormed_of_mem_items hwf.2 (List.mem_of_getElem? hv))⟩
  | tag _ ih =>
    rw [isWellFormed] at hwf
    rw [tokens_tag, tokens_entry, descend?_tagged_mapping]
    exact ih hwf

/-- **A path that is not followable leads astray**, if it leads anywhere. -/
theorem astray_of_descend? (h : n.Reaches path k) (hwf : n.isWellFormed = true)
    (hpath : isFollowable path = false) (hm : n.descend? (tokens path) = some m) :
    n.Astray path m := by
  induction h with
  | here n => cases hpath
  | @entry k v _ entries path hv _ ih =>
    rw [isWellFormed, Bool.and_eq_true] at hwf
    obtain ⟨w, hw, hrest⟩ := descend?_cons_eq_some_iff.1 hm
    rw [child?_mapping_eq_some_iff hwf.1] at hw
    by_cases htext : ∃ s, k = string s
    · obtain ⟨s, rfl⟩ := htext
      have hvw : w = v := by
        rw [keyText, String.ofList_toList, ← lookup_eq_some_iff hwf.1] at hw
        rw [← lookup_eq_some_iff hwf.1] at hv
        exact Option.some.inj (hw.symm.trans hv)
      subst hvw
      exact .entry hv (ih (isWellFormed_of_mem_entries hwf.2 hv) hpath hrest)
    · exact .here (fun s hs => htext ⟨s, hs⟩) hw hrest
  | @item v _ items i path hv _ ih =>
    rw [isWellFormed, Bool.and_eq_true, decide_eq_true_eq] at hwf
    obtain ⟨w, hw, hrest⟩ := descend?_cons_eq_some_iff.1 hm
    rw [child?_sequence hwf.1 hv] at hw
    cases hw
    exact .item hv (ih (isWellFormed_of_mem_items hwf.2 (List.mem_of_getElem? hv)) hpath hrest)
  | @tag content _ name path hreach ih =>
    rw [isWellFormed] at hwf
    cases hreach with
    | here => cases hpath
    | entry hv hreach => exact .tag (ih hwf hpath hm)
    | item hv hreach =>
      rw [tokens_tag, tokens_item, descend?_tagged (by simp)] at hm
      cases hm
    | @tag inner _ name' path hreach =>
      have htags : ¬path.all isTag = true := by
        intro htags
        have hall : isFollowable (.tag :: .tag :: path) = path.all isTag := by
          cases path <;> rfl
        rw [hall, htags] at hpath
        cases hpath
      rw [tokens_tag, tokens_tag] at hm
      cases htokens : tokens path with
      | nil => exact absurd (tokens_eq_nil_iff.1 htokens) htags
      | cons key keys =>
        rw [htokens, descend?_tagged (by simp)] at hm
        cases hm

/-! ## Recorded references -/

/-- A mapping, tags aside, whose `$ref` entry is a given text. -/
def Refers (n : Node) (target : String) : Prop :=
  ∃ entries, n.untagged = mapping entries ∧ lookup "$ref" entries = some (string target)

/-- The pointer of a reference below the root is followed by its tokens. -/
theorem resolve?_location (h : keys ≠ []) :
    n.resolve? (location keys.reverse) = n.descend? keys := by
  rw [location, if_neg (by simpa using h), List.reverse_reverse, resolve?_write]

/-- The pointer to a mapping leads to one that refers to the same target exactly if its path is
followable, or goes astray to such a mapping. -/
theorem refers_descend?_iff (hwf : n.isWellFormed = true) (h : n.Holds path target) :
    (∃ m, n.descend? (tokens path) = some m ∧ m.Refers target) ↔
      isFollowable path = true ∨ ∃ m, n.Astray path m ∧ m.Refers target := by
  obtain ⟨entries, hreach, href⟩ := h
  constructor
  · rintro ⟨m, hm, hrefers⟩
    cases hpath : isFollowable path with
    | true => exact Or.inl rfl
    | false => exact Or.inr ⟨m, astray_of_descend? hreach hwf hpath hm, hrefers⟩
  · rintro (hpath | ⟨m, hastray, hrefers⟩)
    · obtain ⟨m, hm, huntagged⟩ := descend?_of_isFollowable hreach hwf hpath
      have hkeys := hreach.isWellFormed hwf
      rw [isWellFormed, Bool.and_eq_true] at hkeys
      exact ⟨m, hm, entries, huntagged, (lookup_eq_some_iff hkeys.1).2 href⟩
    · exact ⟨m, descend?_of_astray hastray hwf, hrefers⟩

end Node

/-- **Which recorded references can be followed back.** Every reference is recorded for a mapping
that holds it, with the tokens of the moves to that mapping, and every mapping that holds one has it
recorded. Below the root, the pointer of a reference resolves to a mapping that refers to the same
target exactly if every key on its path is a text and no tag stands in its way, or if another text
key that is spelled like a key of another kind leads to such a mapping. -/
theorem reference_followed_iff {root : Derived Node} {config : IndexConfig} {x : StructuralIndex}
    (hwf : root.value.isWellFormed = true) (hcollect : config.collect = true)
    (hbuild : Indexer.references root config = .ok x) :
    (∀ r ∈ x.references, ∃ path, root.value.Holds path r.target ∧
      r.location = Node.location (Move.tokens path).reverse) ∧
    (∀ path target, root.value.Holds path target → Move.tokens path ≠ [] →
      ∃ r ∈ x.references, r.location = Node.location (Move.tokens path).reverse ∧
        r.target = target ∧
        ((∃ n, x.resolve? r.location = some n ∧ n.Refers r.target) ↔
          Move.isFollowable path = true ∨ ∃ n, root.value.Astray path n ∧ n.Refers target)) := by
  cases hbuild
  refine ⟨fun r hr => ?_, fun path target hholds hbelow => ?_⟩
  · rw [if_pos hcollect] at hr
    exact Node.mem_references_iff.1 hr
  · refine ⟨⟨Node.location (Move.tokens path).reverse, target⟩, ?_, rfl, rfl, ?_⟩
    · rw [if_pos hcollect]
      exact Node.mem_references_iff.2 ⟨path, hholds, rfl⟩
    · rw [StructuralIndex.resolve?, Node.resolve?_location hbelow]
      exact Node.refers_descend?_iff hwf hholds

/-- A reference in an item of a sequence in a tagged mapping is found again. -/
theorem reference_followed_under_tag : ∃ (root : Derived Node) (x : StructuralIndex) (n : Node),
    Indexer.references root {} = .ok x ∧ ⟨"/a~1b/0", "x.yaml"⟩ ∈ x.references ∧
      x.resolve? "/a~1b/0" = some n ∧ n.Refers "x.yaml" := by
  let holder := Node.mapping [(.string "$ref", .string "x.yaml")]
  let root : Node := .tagged "!t" (.mapping [(.string "a/b", .sequence [.tagged "!u" holder])])
  have hholds : root.Holds [.tag, .entry (.string "a/b"), .item 0, .tag] "x.yaml" :=
    ⟨_, .tag (.entry List.mem_cons_self (.item rfl (.tag (.here holder)))), List.mem_cons_self⟩
  have hbuild : Indexer.references ⟨0, 0, root⟩ {} = .ok _ := rfl
  have hwf : (Derived.mk 0 0 root).value.isWellFormed = true := rfl
  obtain ⟨⟨location, target⟩, hr, hloc, htarget, hiff⟩ :=
    (reference_followed_iff hwf rfl hbuild).2 _ _ hholds (by simp)
  obtain rfl : target = "x.yaml" := htarget
  obtain rfl : location = "/a~1b/0" := hloc
  obtain ⟨n, hn, hrefers⟩ := hiff.2 (Or.inl rfl)
  exact ⟨⟨0, 0, root⟩, _, n, hbuild, hr, hn, hrefers⟩

/-- A reference under a key that is a number is recorded, but its pointer leads nowhere. -/
theorem reference_under_number_lost : ∃ (root : Derived Node) (x : StructuralIndex) (r : Reference),
    root.value = .mapping [(.int 1, .mapping [(.string "$ref", .string "x")])] ∧
    root.value.isWellFormed = true ∧ Indexer.references root {} = .ok x ∧ r ∈ x.references ∧
    r.location = "/1" ∧ ¬∃ n, x.resolve? r.location = some n ∧ n.Refers r.target := by
  refine ⟨⟨0, 0, _⟩, _, ⟨"/1", "x"⟩, rfl, rfl, rfl, by decide, rfl, ?_⟩
  rintro ⟨n, hn, _⟩
  cases hn

end DocDrive
