import DocDrive.Reference

/-!
# Keys that read like a reference

A reference stands under the key `$ref`. Keys of other kinds are compared by the text they are
written as, and none of them is written as `$ref`: every such text has a character that is foreign
to it.

* `exists_isForeign_layout` — the text of a node that is no text itself has a foreign character.
* `Node.keyText_eq_refKey_iff` — only the text `$ref` reads like a reference.
-/

namespace DocDrive

variable {c : Char} {cs : List Char} {n : Node}

/-! ## Foreign characters -/

/-- A character that neither occurs in the key of a reference nor is trimmed from a text. -/
def isForeign (c : Char) : Bool := !isWhiteSpace c && !Node.refKey.contains c

theorem isForeign_of_isDigit (h : c.isDigit = true) : isForeign c = true := by
  have hrange : 48 ≤ c.toNat ∧ c.toNat ≤ 57 := by
    simp only [Char.isDigit, Bool.and_eq_true, decide_eq_true_eq] at h
    exact ⟨h.1, h.2⟩
  have hspace : isWhiteSpace c = false := by
    simp [isWhiteSpace]
    omega
  have hkey : Node.refKey.contains c = false := by
    rw [Bool.eq_false_iff]
    intro hc
    have hmem : c ∈ ['$', 'r', 'e', 'f'] := List.contains_iff_mem.1 hc
    simp only [List.mem_cons, List.not_mem_nil, or_false] at hmem
    rcases hmem with rfl | rfl | rfl | rfl <;> revert h <;> decide
  rw [isForeign, hspace, hkey]
  rfl

/-- What is not white space is not trimmed. -/
theorem mem_trimEnd (h : c ∈ cs) (hc : isWhiteSpace c = false) : c ∈ trimEnd cs := by
  have hdrop : ∀ ds : List Char, c ∈ ds → c ∈ ds.dropWhile isWhiteSpace := by
    intro ds
    induction ds with
    | nil => exact id
    | cons d ds ih =>
      intro hmem
      rw [List.dropWhile_cons]
      split
      · rename_i hd
        rcases List.mem_cons.1 hmem with rfl | hmem
        · rw [hc] at hd
          cases hd
        · exact ih hmem
      · exact hmem
  exact List.mem_reverse.2 (hdrop _ (List.mem_reverse.2 h))

/-! ## Numbers -/

theorem exists_isDigit_toDigits (n : Nat) : ∃ c ∈ Nat.toDigits 10 n, c.isDigit = true := by
  obtain ⟨c, hc⟩ := List.exists_mem_of_ne_nil (Nat.toDigits 10 n) Nat.toDigits_ne_nil
  exact ⟨c, hc, Nat.isDigit_of_mem_toDigits (by decide) (by decide) hc⟩

theorem exists_isDigit_toString (n : Int) : ∃ c ∈ (toString n).toList, c.isDigit = true := by
  rw [Int.toString_eq_repr, Int.repr_eq_if]
  split
  · rw [Nat.repr_eq_ofList_toDigits, String.toList_ofList]
    exact exists_isDigit_toDigits _
  · obtain ⟨c, hc, hdigit⟩ := exists_isDigit_toDigits (-n).toNat
    refine ⟨c, ?_, hdigit⟩
    rw [String.toList_append, Nat.repr_eq_ofList_toDigits]
    exact List.mem_append_right _ (by rwa [String.toList_ofList])

/-- The first digit of a number stands in its text, wherever the point is put. -/
theorem mem_layout_head (format : Binary64.NumberFormat) (d : Char) (digits : List Char) (k : Int) :
    d ∈ Binary64.layout format (d :: digits) k := by
  unfold Binary64.layout
  dsimp only
  split
  · simp
  · split
    · rename_i hpoint
      obtain ⟨m, hm⟩ : ∃ m, ((d :: digits).length + k : Int).toNat = m + 1 :=
        ⟨((d :: digits).length + k : Int).toNat - 1, by omega⟩
      rw [hm, List.take_succ_cons]
      simp
    · split <;> simp

theorem exists_isForeign_text (x : Binary64) : ∃ c ∈ x.text, isForeign c = true := by
  unfold Binary64.text
  dsimp only
  split
  · exact ⟨'n', by simp, by decide⟩
  · split
    · exact ⟨'n', by simp, by decide⟩
    · split
      · exact ⟨'0', by simp, by decide⟩
      · cases hdigits : Nat.toDigits 10 (Binary64.trimZeros 20 x.shortest.1 x.shortest.2).1 with
        | nil => exact absurd hdigits Nat.toDigits_ne_nil
        | cons d digits =>
          refine ⟨d, List.mem_append_right _ (mem_layout_head _ _ _ _), ?_⟩
          have hmem : d ∈ Nat.toDigits 10 (Binary64.trimZeros 20 x.shortest.1 x.shortest.2).1 := by
            rw [hdigits]
            exact List.mem_cons_self
          exact isForeign_of_isDigit (Nat.isDigit_of_mem_toDigits (by decide) (by decide) hmem)

/-! ## Nodes -/

theorem mem_nextLineAfter (h : c ∈ cs) (indent : Nat) : c ∈ Yaml.nextLineAfter cs indent := by
  unfold Yaml.nextLineAfter
  split
  · split <;> exact List.mem_append_left _ h
  · rename_i hlast
    rw [List.getLast?_eq_none_iff.1 hlast] at h
    cases h

/-- Items that are written have a dash. -/
theorem dash_mem_layoutItems (indent : Nat) (item : Node) (rest : List Node) :
    '-' ∈ Yaml.layoutItems indent (item :: rest) := by
  cases rest with
  | nil =>
    rw [Yaml.layoutItems]
    exact List.mem_cons_self
  | cons next rest =>
    rw [Yaml.layoutItems]
    · exact List.mem_append_left _ (mem_nextLineAfter List.mem_cons_self _)
    · simp

/-- Entries that are written have a colon, also where a key reads like one of a reference. -/
theorem colon_mem_layoutEntries (indent : Nat) (e : Node × Node) (rest : List (Node × Node)) :
    ':' ∈ Yaml.layoutEntries indent (e :: rest) := by
  obtain ⟨k, v⟩ := e
  cases rest with
  | nil =>
    rw [Yaml.layoutEntries]
    split <;> simp
  | cons next rest =>
    rw [Yaml.layoutEntries]
    · refine List.mem_append_left _ (mem_nextLineAfter ?_ _)
      split <;> simp
    · simp

/-- **The text of a node has a character that is foreign to `$ref`**, unless the node is a text. -/
theorem exists_isForeign_layout (h : ∀ s, n ≠ .string s) :
    ∃ c ∈ Yaml.layout .start false none n, isForeign c = true := by
  cases n with
  | null => exact ⟨'n', by simp [Yaml.layout], by decide⟩
  | bool b =>
    cases b with
    | true => exact ⟨'t', by simp [Yaml.layout], by decide⟩
    | false => exact ⟨'l', by simp [Yaml.layout], by decide⟩
  | int n =>
    obtain ⟨c, hc, hdigit⟩ := exists_isDigit_toString n
    refine ⟨c, ?_, isForeign_of_isDigit hdigit⟩
    rw [Yaml.layout]
    exact List.mem_append_right _ hc
  | float x =>
    obtain ⟨c, hc, hforeign⟩ := exists_isForeign_text x
    refine ⟨c, ?_, hforeign⟩
    rw [Yaml.layout]
    exact List.mem_append_right _ hc
  | string s => exact absurd rfl (h s)
  | sequence items =>
    cases items with
    | nil => exact ⟨'[', by simp [Yaml.layout], by decide⟩
    | cons item rest =>
      refine ⟨'-', ?_, by decide⟩
      rw [Yaml.layout]
      · exact List.mem_append_right _ (dash_mem_layoutItems _ item rest)
      · simp
  | mapping entries =>
    cases entries with
    | nil => exact ⟨'\x7b', by simp [Yaml.layout], by decide⟩
    | cons e rest =>
      refine ⟨':', ?_, by decide⟩
      rw [Yaml.layout]
      · exact List.mem_append_right _ (colon_mem_layoutEntries _ e rest)
      · simp
  | tagged tag content =>
    refine ⟨'!', ?_, by decide⟩
    have hmark : '!' ∈ Yaml.writeTag tag := by
      unfold Yaml.writeTag
      split <;> simp
    rw [Yaml.layout]
    simp [hmark]

/-! ## The key of a reference -/

/-- **Only the text `$ref` reads like the key of a reference.** -/
theorem Node.keyText_eq_refKey_iff : n.keyText = Node.refKey ↔ n = .string "$ref" := by
  constructor
  · intro hkey
    by_cases hs : ∃ s, n = .string s
    · obtain ⟨s, rfl⟩ := hs
      rw [String.toList_injective hkey]
    · simp only [not_exists] at hs
      have hne : n.keyText = trimEnd ((Yaml.write? n).getD []) := by
        cases n with
        | string s => exact absurd rfl (hs s)
        | _ => rfl
      rw [hne] at hkey
      obtain ⟨c, hc, hforeign⟩ := exists_isForeign_layout hs
      simp only [isForeign, Bool.and_eq_true, Bool.not_eq_true'] at hforeign
      unfold Yaml.write? at hkey
      split at hkey
      · have hmem := mem_trimEnd hc hforeign.1
        rw [Option.getD_some] at hkey
        rw [hkey, ← List.contains_iff_mem, hforeign.2] at hmem
        cases hmem
      · cases hkey
  · rintro rfl
    rfl

end DocDrive
