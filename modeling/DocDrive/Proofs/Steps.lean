import DocDrive.Proofs.Position

/-!
# Steps in JSON documents

A document of the JSON data model (`Node.IsJson`) has text keys and no tags. Every move in it is a
step to a key or to an index, so a position is a list of steps.

* `under?_key_eq_some_iff`, `under?_index_eq_some_iff` — where one step leads.
* `IsJson.at?` — what stands in a JSON document is one.
* `IsJson.reaches_iff` — to be reached is to stand at a position.
* `text_inj_of_at?` — the texts of its steps tell a position.
-/

namespace DocDrive

/-- A step as a move. -/
def Step.move : Step → Move
  | key name => .entry (.string name)
  | index i => .item i

namespace Node

variable {n m k v : Node} {items : List Node} {entries : List (Node × Node)} {name : String} {i : Nat}
  {s : Step} {steps steps' : List Step}

/-! ## The JSON data model -/

mutual

/-- Every key is a text, and nothing has a tag. -/
def isPlain : Node → Bool
  | sequence items => arePlain items
  | mapping entries => havePlain entries
  | tagged _ _ => false
  | _ => true

/-- All items are plain. -/
def arePlain : List Node → Bool
  | [] => true
  | n :: rest => isPlain n && arePlain rest

/-- All keys are texts, and all values are plain. -/
def havePlain : List (Node × Node) → Bool
  | [] => true
  | (string _, v) :: rest => isPlain v && havePlain rest
  | _ :: _ => false

end

/-- A document of the JSON data model. -/
structure IsJson (n : Node) : Prop where
  wellFormed : n.isWellFormed = true
  plain : n.isPlain = true

theorem isPlain_of_mem_items (h : arePlain items = true) (hn : n ∈ items) : n.isPlain = true := by
  induction items with
  | nil => cases hn
  | cons m rest ih =>
    rw [arePlain, Bool.and_eq_true] at h
    rcases List.mem_cons.1 hn with rfl | hn
    · exact h.1
    · exact ih h.2 hn

theorem plain_of_mem_entries (h : havePlain entries = true) (hv : (k, v) ∈ entries) :
    (∃ name, k = string name) ∧ v.isPlain = true := by
  induction entries with
  | nil => cases hv
  | cons e rest ih =>
    obtain ⟨l, w⟩ := e
    cases l with
    | string name =>
      rw [havePlain, Bool.and_eq_true] at h
      rcases List.mem_cons.1 hv with hv | hv
      · cases hv
        exact ⟨⟨name, rfl⟩, h.1⟩
      · exact ih h.2 hv
    | _ => simp [havePlain] at h

namespace IsJson

theorem of_mem_items (h : (sequence items).IsJson) (hn : n ∈ items) : n.IsJson := by
  obtain ⟨hwf, hplain⟩ := h
  rw [isWellFormed, Bool.and_eq_true] at hwf
  rw [isPlain] at hplain
  exact ⟨isWellFormed_of_mem_items hwf.2 hn, isPlain_of_mem_items hplain hn⟩

theorem of_mem_entries (h : (mapping entries).IsJson) (hv : (k, v) ∈ entries) : v.IsJson := by
  obtain ⟨hwf, hplain⟩ := h
  rw [isWellFormed, Bool.and_eq_true] at hwf
  rw [isPlain] at hplain
  exact ⟨isWellFormed_of_mem_entries hwf.2 hv, (plain_of_mem_entries hplain hv).2⟩

theorem key_eq_string (h : (mapping entries).IsJson) (hv : (k, v) ∈ entries) :
    ∃ name, k = string name := by
  have hplain := h.plain
  rw [isPlain] at hplain
  exact (plain_of_mem_entries hplain hv).1

theorem distinct (h : (mapping entries).IsJson) : haveDistinctKeys entries = true := by
  have hwf := h.wellFormed
  rw [isWellFormed, Bool.and_eq_true] at hwf
  exact hwf.1

theorem length_le (h : (sequence items).IsJson) : items.length ≤ Pointer.indexBound := by
  have hwf := h.wellFormed
  rw [isWellFormed, Bool.and_eq_true, decide_eq_true_eq] at hwf
  exact hwf.1

theorem not_tagged {tag : String} {content : Node} : ¬(tagged tag content).IsJson := by
  rintro ⟨-, hplain⟩
  cases hplain

end IsJson

/-! ## Positions -/

theorem under?_key_eq_some_iff : n.under? (.key name) = some v ↔
    ∃ entries, n = mapping entries ∧ lookup name entries = some v := by
  cases n <;> simp [under?]

theorem under?_index_eq_some_iff : n.under? (.index i) = some v ↔
    ∃ items, n = sequence items ∧ items[i]? = some v := by
  cases n <;> simp [under?]

@[simp] theorem at?_nil (n : Node) : n.at? [] = some n := rfl

theorem at?_cons_eq_some_iff :
    n.at? (s :: steps) = some m ↔ ∃ v, n.under? s = some v ∧ v.at? steps = some m := by
  rw [at?, Option.bind_eq_some_iff]

theorem IsJson.under? (h : n.IsJson) (hv : n.under? s = some v) : v.IsJson := by
  cases s with
  | key name =>
    obtain ⟨entries, rfl, hlookup⟩ := under?_key_eq_some_iff.1 hv
    exact h.of_mem_entries (mem_of_lookup hlookup)
  | index i =>
    obtain ⟨items, rfl, hitem⟩ := under?_index_eq_some_iff.1 hv
    exact h.of_mem_items (List.mem_of_getElem? hitem)

theorem IsJson.at? (h : n.IsJson) (hm : n.at? steps = some m) : m.IsJson := by
  induction steps generalizing n with
  | nil =>
    cases hm
    exact h
  | cons s steps ih =>
    obtain ⟨v, hv, hm⟩ := at?_cons_eq_some_iff.1 hm
    exact ih (h.under? hv) hm

/-- **To be reached is to stand at a position.** -/
theorem IsJson.reaches_iff (h : n.IsJson) {path : List Move} :
    n.Reaches path m ↔ ∃ steps : List Step, path = steps.map Step.move ∧ n.at? steps = some m := by
  constructor
  · intro hreach
    -- A move into a JSON document is a step, and a tag cannot be entered.
    induction hreach with
    | here n => exact ⟨[], rfl, rfl⟩
    | @entry k v m entries path hv _ ih =>
      obtain ⟨name, rfl⟩ := h.key_eq_string hv
      obtain ⟨steps, rfl, hm⟩ := ih (h.of_mem_entries hv)
      have hlookup := (lookup_eq_some_iff h.distinct).2 hv
      exact ⟨.key name :: steps, rfl, at?_cons_eq_some_iff.2
        ⟨v, under?_key_eq_some_iff.2 ⟨entries, rfl, hlookup⟩, hm⟩⟩
    | @item v m items i path hv _ ih =>
      obtain ⟨steps, rfl, hm⟩ := ih (h.of_mem_items (List.mem_of_getElem? hv))
      exact ⟨.index i :: steps, rfl, at?_cons_eq_some_iff.2
        ⟨v, under?_index_eq_some_iff.2 ⟨items, rfl, hv⟩, hm⟩⟩
    | tag _ _ => exact absurd h not_tagged
  · rintro ⟨steps, rfl, hm⟩
    induction steps generalizing n with
    | nil =>
      cases hm
      exact .here _
    | cons s steps ih =>
      obtain ⟨v, hv, hm⟩ := at?_cons_eq_some_iff.1 hm
      have hrest := ih (h.under? hv) hm
      cases s with
      | key name =>
        obtain ⟨entries, rfl, hlookup⟩ := under?_key_eq_some_iff.1 hv
        exact .entry (mem_of_lookup hlookup) hrest
      | index i =>
        obtain ⟨items, rfl, hitem⟩ := under?_index_eq_some_iff.1 hv
        exact .item hitem hrest

theorem tokens_map_move (steps : List Step) :
    Move.tokens (steps.map Step.move) = steps.map Step.text := by
  induction steps with
  | nil => rfl
  | cons s steps ih => cases s <;> simp [Step.move, Step.text, keyText, ih]

theorem toDigits_injective {i j : Nat} (h : Nat.toDigits 10 i = Nat.toDigits 10 j) : i = j := by
  calc
    i = Nat.ofDigitChars 10 (Nat.toDigits 10 i) 0 := Nat.ofDigitChars_ten_toDigits.symm
    _ = Nat.ofDigitChars 10 (Nat.toDigits 10 j) 0 := by rw [h]
    _ = j := Nat.ofDigitChars_ten_toDigits

/-- **The texts of its steps tell a position.** A key may read like an index, but no node has
both. -/
theorem text_inj_of_at? {m' : Node} (hm : n.at? steps = some m) (hm' : n.at? steps' = some m')
    (htexts : steps.map Step.text = steps'.map Step.text) : steps = steps' := by
  induction steps generalizing n steps' with
  | nil => exact (List.map_eq_nil_iff.1 htexts.symm).symm
  | cons s steps ih =>
    cases steps' with
    | nil => cases htexts
    | cons s' steps' =>
      obtain ⟨v, hv, hm⟩ := at?_cons_eq_some_iff.1 hm
      obtain ⟨v', hv', hm'⟩ := at?_cons_eq_some_iff.1 hm'
      simp only [List.map_cons, List.cons.injEq] at htexts
      obtain ⟨htext, htexts⟩ := htexts
      -- Both steps start at one node, which tells keys from indices.
      have hs : s = s' := by
        cases s with
        | key name =>
          cases s' with
          | key name' => exact congrArg Step.key (String.toList_injective htext)
          | index i' =>
            obtain ⟨_, rfl, _⟩ := under?_key_eq_some_iff.1 hv
            obtain ⟨_, hn, _⟩ := under?_index_eq_some_iff.1 hv'
            cases hn
        | index i =>
          cases s' with
          | key name' =>
            obtain ⟨_, rfl, _⟩ := under?_index_eq_some_iff.1 hv
            obtain ⟨_, hn, _⟩ := under?_key_eq_some_iff.1 hv'
            cases hn
          | index i' => exact congrArg Step.index (toDigits_injective htext)
      subst hs
      obtain rfl : v = v' := Option.some.inj (hv.symm.trans hv')
      exact congrArg _ (ih hm hm' htexts)

end Node

end DocDrive
