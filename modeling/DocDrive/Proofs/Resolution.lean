import DocDrive.Index
import DocDrive.Proofs.Pointer
import DocDrive.Proofs.Steps
import Mathlib.Data.List.Forall2

/-!
# Resolving pointers

In a JSON document a pointer resolves to the node at the position that its tokens are read as, and
the pointer that is written for a position is read as that position again.

* `IsJson.child?_eq_some_iff` — an unescaped token leads where some step leads that it is read as.
* `IsJson.resolve?_eq_some_iff` — what a pointer resolves to.
* `IsJson.descend?_of_at?` — the texts of its steps lead to a position.
* `resolution_inverts_writing` — resolving pointers inverts writing them.
-/

namespace DocDrive

/-! ## Steps as tokens -/

/-- A step as it stands in a pointer: a key escaped, an index in decimal digits. -/
def Step.token : Step → List Char
  | key name => Pointer.escape name.toList
  | index i => Nat.toDigits 10 i

/-- An unescaped token can be read as a step: as the key it spells, or as the index it is the number
of. -/
def Step.Reads (key : List Char) : Step → Prop
  | .key name => name.toList = key
  | .index i => Pointer.index? key = some i

namespace Pointer

theorem escape_of_forall_ne {cs : List Char} (h : ∀ c ∈ cs, c ≠ '~' ∧ c ≠ '/') :
    escape cs = cs := by
  induction cs with
  | nil => rfl
  | cons c cs ih =>
    obtain ⟨htilde, hslash⟩ := h c List.mem_cons_self
    rw [escape_cons htilde hslash, ih fun d hd => h d (List.mem_cons_of_mem _ hd)]

theorem escape_text (s : Step) : escape s.text = s.token := by
  cases s with
  | key name => rfl
  | index i =>
    refine escape_of_forall_ne fun c hc => ?_
    have hdigit : c.isDigit = true := Nat.isDigit_of_mem_toDigits (by decide) (by decide) hc
    constructor
    · rintro rfl
      cases hdigit
    · rintro rfl
      cases hdigit

theorem ofSteps_eq_flatMap (steps : List Step) :
    ofSteps steps = steps.flatMap fun s => '/' :: s.token := by
  simp [ofSteps, write, List.flatMap_map, escape_text]

end Pointer

namespace Node

variable {n m v : Node} {key : List Char} {keys : List (List Char)} {steps : List Step}

/-! ## One token -/

/-- **An unescaped token leads where a step leads** that it can be read as. -/
theorem IsJson.child?_eq_some_iff (h : n.IsJson) :
    n.child? key = some v ↔ ∃ s : Step, s.Reads key ∧ n.under? s = some v := by
  constructor
  · intro hv
    cases n with
    | mapping entries =>
      exact ⟨.key (.ofList key), String.toList_ofList, hv⟩
    | sequence items =>
      obtain ⟨i, hi, hitem⟩ := Option.bind_eq_some_iff.1 hv
      exact ⟨.index i, hi, hitem⟩
    | tagged tag content => exact absurd h IsJson.not_tagged
    | _ => cases hv
  · rintro ⟨s, hs, hv⟩
    cases s with
    | key name =>
      obtain ⟨entries, rfl, hlookup⟩ := under?_key_eq_some_iff.1 hv
      have hname : name.toList = key := hs
      rw [child?, ← hname, String.ofList_toList]
      exact hlookup
    | index i =>
      obtain ⟨items, rfl, hitem⟩ := under?_index_eq_some_iff.1 hv
      have hi : Pointer.index? key = some i := hs
      rw [child?, hi]
      exact hitem

/-- A step that leads somewhere is what its own text is read as. -/
theorem IsJson.reads_text (h : n.IsJson) {s : Step} (hv : n.under? s = some v) :
    s.Reads s.text := by
  cases s with
  | key name => rfl
  | index i =>
    obtain ⟨items, rfl, hitem⟩ := under?_index_eq_some_iff.1 hv
    -- An index within a sequence that fits into memory does not overflow.
    have hi : i < items.length := (List.getElem?_eq_some_iff.1 hitem).1
    have hlength := h.length_le
    exact Pointer.index?_toDigits (by omega)

/-! ## All tokens -/

theorem IsJson.descend?_eq_some_iff (h : n.IsJson) : n.descend? keys = some m ↔
    ∃ steps, List.Forall₂ Step.Reads keys steps ∧ n.at? steps = some m := by
  induction keys generalizing n with
  | nil => simp [descend?]
  | cons key keys ih =>
    rw [descend?, Option.bind_eq_some_iff]
    constructor
    · rintro ⟨v, hv, hm⟩
      obtain ⟨s, hs, hv⟩ := h.child?_eq_some_iff.1 hv
      obtain ⟨steps, hsteps, hm⟩ := (ih (h.under? hv)).1 hm
      exact ⟨s :: steps, .cons hs hsteps, at?_cons_eq_some_iff.2 ⟨v, hv, hm⟩⟩
    · rintro ⟨_, hreads, hm⟩
      cases hreads with
      | cons hs hsteps =>
        obtain ⟨v, hv, hm⟩ := at?_cons_eq_some_iff.1 hm
        exact ⟨v, h.child?_eq_some_iff.2 ⟨_, hs, hv⟩, (ih (h.under? hv)).2 ⟨_, hsteps, hm⟩⟩

theorem IsJson.forall₂_reads_text (h : n.IsJson) (hm : n.at? steps = some m) :
    List.Forall₂ Step.Reads (steps.map Step.text) steps := by
  induction steps generalizing n with
  | nil => exact .nil
  | cons s steps ih =>
    obtain ⟨v, hv, hm⟩ := at?_cons_eq_some_iff.1 hm
    exact .cons (h.reads_text hv) (ih (h.under? hv) hm)

/-- **The texts of its steps lead to a position.** -/
theorem IsJson.descend?_of_at? (h : n.IsJson) (hm : n.at? steps = some m) :
    n.descend? (steps.map Step.text) = some m :=
  h.descend?_eq_some_iff.2 ⟨steps, h.forall₂_reads_text hm, hm⟩

/-- **What a pointer resolves to**: the node at a position that its tokens can be read as. -/
theorem IsJson.resolve?_eq_some_iff (h : n.IsJson) {pointer : String} :
    n.resolve? pointer = some m ↔ ∃ tokens steps,
      Pointer.dropHash pointer.toList = tokens.flatMap ('/' :: ·) ∧ (∀ t ∈ tokens, '/' ∉ t) ∧
      List.Forall₂ (fun t s => Step.Reads (Pointer.unescape t) s) tokens steps ∧
      n.at? steps = some m := by
  rw [resolve?, Option.bind_eq_some_iff]
  constructor
  · rintro ⟨tokens, htokens, hm⟩
    obtain ⟨htext, hslash⟩ := Pointer.tokens?_eq_some_iff.1 htokens
    obtain ⟨steps, hreads, hm⟩ := h.descend?_eq_some_iff.1 hm
    exact ⟨tokens, steps, htext, hslash, List.forall₂_map_left_iff.1 hreads, hm⟩
  · rintro ⟨tokens, steps, htext, hslash, hreads, hm⟩
    exact ⟨tokens, Pointer.tokens?_eq_some_iff.2 ⟨htext, hslash⟩,
      h.descend?_eq_some_iff.2 ⟨steps, List.forall₂_map_left_iff.2 hreads, hm⟩⟩

end Node

/-! ## Both ways -/

/-- **Resolving pointers inverts writing them.** In a JSON document the pointer that is written for
a position, alone or after a `#`, resolves to the node at that position; without any step it is the
root. A pointer resolves to a node exactly if, a leading `#` aside, it consists of tokens after
slashes which, unescaped, can be read as the steps to that node. What is not empty and does not
start with a slash resolves to nothing. -/
theorem resolution_inverts_writing (x : StructuralIndex) (h : x.root.value.IsJson) :
    (∀ steps n, x.root.value.at? steps = some n →
      x.resolve? (.ofList (steps.flatMap fun s => '/' :: s.token)) = some n ∧
      x.resolve? (.ofList ('#' :: steps.flatMap fun s => '/' :: s.token)) = some n) ∧
    (x.resolve? "" = some x.root.value ∧ x.resolve? "#" = some x.root.value) ∧
    (∀ pointer n, x.resolve? pointer = some n ↔ ∃ tokens steps,
      Pointer.dropHash pointer.toList = tokens.flatMap ('/' :: ·) ∧ (∀ t ∈ tokens, '/' ∉ t) ∧
      List.Forall₂ (fun t s => Step.Reads (Pointer.unescape t) s) tokens steps ∧
      x.root.value.at? steps = some n) ∧
    (∀ pointer : String, Pointer.dropHash pointer.toList ≠ [] →
      (Pointer.dropHash pointer.toList).head? ≠ some '/' → x.resolve? pointer = none) := by
  refine ⟨fun steps n hn => ?_, ⟨rfl, rfl⟩, fun pointer n => h.resolve?_eq_some_iff,
    fun pointer hne hslash => ?_⟩
  · rw [← Pointer.ofSteps_eq_flatMap, Pointer.ofSteps]
    constructor
    · rw [StructuralIndex.resolve?, Node.resolve?_write]
      exact h.descend?_of_at? hn
    · rw [StructuralIndex.resolve?, Node.resolve?_hash_write]
      exact h.descend?_of_at? hn
  · rw [Option.eq_none_iff_forall_ne_some]
    intro n hn
    obtain ⟨tokens, steps, htext, -⟩ := h.resolve?_eq_some_iff.1 hn
    rw [htext] at hne hslash
    cases tokens with
    | nil => exact hne rfl
    | cons token tokens => exact hslash rfl

/-- Keys that are escaped, look like escapes, look like numbers or are empty lead to their node, and
a text without a slash leads nowhere. -/
theorem resolution_inverts_writing_escaped : ∃ x : StructuralIndex,
    x.root.value = .mapping [(.string "a/b~1", .sequence [.null, .mapping
      [(.string "0", .mapping [(.string "", .bool true)])]])] ∧
    x.resolve? "/a~1b~01/1/0/" = some (.bool true) ∧
    x.resolve? "#/a~1b~01/1/0/" = some (.bool true) ∧ x.resolve? "a~1b~01" = none := by
  let root : Node := .mapping [(.string "a/b~1", .sequence [.null, .mapping
    [(.string "0", .mapping [(.string "", .bool true)])]])]
  have hjson : (StructuralIndex.mk ⟨0, 0, root⟩ none none [] 0).root.value.IsJson := ⟨rfl, rfl⟩
  obtain ⟨hwritten, -, -, hnone⟩ := resolution_inverts_writing _ hjson
  obtain ⟨hplain, hhash⟩ :=
    hwritten [.key "a/b~1", .index 1, .key "0", .key ""] (.bool true) rfl
  exact ⟨_, rfl, hplain, hhash, hnone "a~1b~01" (by decide) (by decide)⟩

end DocDrive
