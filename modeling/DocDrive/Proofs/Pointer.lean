import DocDrive.Pointer

/-!
# Writing pointers and reading them back

A key that is escaped as a token holds no slash and is the same key again when it is unescaped. A
written pointer is therefore read as the keys it was made of, and following it from a node means
looking up those keys one after the other.

* `unescape_escape`, `slash_not_mem_escape` — tokens are faithful and stay apart.
* `tokens?_eq_some_iff` — what a pointer is.
* `tokens?_write` — a written pointer is read as its tokens.
* `index?_toDigits` — a written index is read as itself.
* `resolve?_write` — a written pointer leads where its keys lead.
-/

namespace DocDrive

namespace Pointer

variable {a b c x y : Char} {rest key : List Char} {tokens : List (List Char)}

/-! ## Escaping -/

theorem replacePair_pair (a b c : Char) (rest : List Char) :
    replacePair a b c (a :: b :: rest) = c :: replacePair a b c rest := by
  rw [replacePair, if_pos ⟨rfl, rfl⟩]

theorem replacePair_cons_ne (h : x ≠ a) :
    replacePair a b c (x :: rest) = x :: replacePair a b c rest := by
  cases rest with
  | nil => rfl
  | cons y rest => rw [replacePair, if_neg fun hxy => h hxy.1]

theorem replacePair_skip (h : y ≠ b) :
    replacePair a b c (x :: y :: rest) = x :: replacePair a b c (y :: rest) := by
  rw [replacePair, if_neg fun hxy => h hxy.2]

theorem replaceChar_cons_ne {text : List Char} (h : x ≠ c) :
    replaceChar c text (x :: rest) = x :: replaceChar c text rest := by
  simp [replaceChar, h]

theorem escape_tilde (key : List Char) : escape ('~' :: key) = '~' :: '0' :: escape key := by
  simp [escape, replaceChar]

theorem escape_slash (key : List Char) : escape ('/' :: key) = '~' :: '1' :: escape key := by
  simp [escape, replaceChar]

theorem escape_cons (htilde : x ≠ '~') (hslash : x ≠ '/') :
    escape (x :: key) = x :: escape key := by
  simp [escape, replaceChar, htilde, hslash]

/-- The first character of a key, and how it is escaped. -/
theorem escape_cons_cases (x : Char) (key : List Char) :
    (x = '~' ∧ escape (x :: key) = '~' :: '0' :: escape key) ∨
    (x = '/' ∧ escape (x :: key) = '~' :: '1' :: escape key) ∨
    (x ≠ '~' ∧ x ≠ '/' ∧ escape (x :: key) = x :: escape key) := by
  by_cases htilde : x = '~'
  · subst htilde
    exact Or.inl ⟨rfl, escape_tilde key⟩
  by_cases hslash : x = '/'
  · subst hslash
    exact Or.inr (Or.inl ⟨rfl, escape_slash key⟩)
  · exact Or.inr (Or.inr ⟨htilde, hslash, escape_cons htilde hslash⟩)

/-- No token holds a slash. -/
theorem slash_not_mem_escape (key : List Char) : '/' ∉ escape key := by
  induction key with
  | nil => decide
  | cons x key ih =>
    obtain ⟨-, hcons⟩ | ⟨-, hcons⟩ | ⟨-, hslash, hcons⟩ := escape_cons_cases x key
    · simpa [hcons] using ih
    · simpa [hcons] using ih
    · simpa [hcons, Ne.symm hslash] using ih

/-- The first half of unescaping takes back the second half of escaping. -/
theorem replacePair_escape (key : List Char) :
    replacePair '~' '1' '/' (escape key) = replaceChar '~' ['~', '0'] key := by
  induction key with
  | nil => rfl
  | cons x key ih =>
    obtain ⟨rfl, hcons⟩ | ⟨rfl, hcons⟩ | ⟨htilde, -, hcons⟩ := escape_cons_cases x key
    · rw [hcons, replacePair_skip (by decide), replacePair_cons_ne (by decide), ih]
      rfl
    · rw [hcons, replacePair_pair, ih]
      rfl
    · rw [hcons, replacePair_cons_ne htilde, ih, replaceChar_cons_ne htilde]

theorem replacePair_replaceChar (key : List Char) :
    replacePair '~' '0' '~' (replaceChar '~' ['~', '0'] key) = key := by
  induction key with
  | nil => rfl
  | cons x key ih =>
    by_cases htilde : x = '~'
    · subst htilde
      have hcons : replaceChar '~' ['~', '0'] ('~' :: key) =
          '~' :: '0' :: replaceChar '~' ['~', '0'] key := rfl
      rw [hcons, replacePair_pair, ih]
    · rw [replaceChar_cons_ne htilde, replacePair_cons_ne htilde, ih]

/-- **A token stands for the key it was made of.** -/
@[simp] theorem unescape_escape (key : List Char) : unescape (escape key) = key := by
  rw [unescape, replacePair_escape, replacePair_replaceChar]

/-! ## Reading -/

theorem split_of_noSlash (h : '/' ∉ key) : split key = [key] := by
  induction key with
  | nil => rfl
  | cons x key ih =>
    simp only [List.mem_cons, not_or] at h
    rw [split, if_neg (Ne.symm h.1), ih h.2]

theorem split_append_slash (h : '/' ∉ key) (rest : List Char) :
    split (key ++ '/' :: rest) = key :: split rest := by
  induction key with
  | nil => rw [List.nil_append, split, if_pos rfl]
  | cons x key ih =>
    simp only [List.mem_cons, not_or] at h
    rw [List.cons_append, split, if_neg (Ne.symm h.1), ih h.2]

theorem split_ne_nil (cs : List Char) : split cs ≠ [] := by
  cases cs with
  | nil => simp [split]
  | cons c rest =>
    unfold split
    split
    · simp
    · split <;> simp

theorem noSlash_of_mem_split {part : List Char} (h : part ∈ split rest) : '/' ∉ part := by
  induction rest generalizing part with
  | nil =>
    simp only [split, List.mem_singleton] at h
    simp [h]
  | cons c rest ih =>
    unfold split at h
    split at h
    · rcases List.mem_cons.1 h with rfl | h
      · simp
      · exact ih h
    · rename_i hc
      cases hrest : split rest with
      | nil => exact absurd hrest (split_ne_nil rest)
      | cons first parts =>
        rw [hrest] at h ih
        rcases List.mem_cons.1 h with rfl | h
        · have hfirst := ih List.mem_cons_self
          simp [hfirst, Ne.symm hc]
        · exact ih (List.mem_cons_of_mem _ h)

/-- The parts and the slashes before them make up the text again. -/
theorem flatMap_split (rest : List Char) :
    (split rest).flatMap ('/' :: ·) = '/' :: rest := by
  induction rest with
  | nil => rfl
  | cons c rest ih =>
    unfold split
    split
    · rename_i hc
      rw [List.flatMap_cons, ih, hc]
      rfl
    · cases hrest : split rest with
      | nil => exact absurd hrest (split_ne_nil rest)
      | cons first parts =>
        rw [hrest] at ih
        simp only [List.flatMap_cons, List.cons_append, List.cons.injEq, true_and] at ih ⊢
        exact ih

theorem split_append_flatMap {token : List Char} (h : ∀ t ∈ token :: tokens, '/' ∉ t) :
    split (token ++ tokens.flatMap ('/' :: ·)) = token :: tokens := by
  induction tokens generalizing token with
  | nil =>
    rw [List.flatMap_nil, List.append_nil]
    exact split_of_noSlash (h token List.mem_cons_self)
  | cons next tokens ih =>
    rw [List.flatMap_cons, List.cons_append, split_append_slash (h token List.mem_cons_self),
      ih fun t ht => h t (List.mem_cons_of_mem _ ht)]

/-- **What a pointer is**: after a `#` that may be there, each of its tokens after a slash. -/
theorem tokens?_eq_some_iff {text : List Char} : tokens? text = some tokens ↔
    dropHash text = tokens.flatMap ('/' :: ·) ∧ ∀ t ∈ tokens, '/' ∉ t := by
  unfold tokens?
  constructor
  · intro h
    split at h
    · rename_i hnil
      cases h
      exact ⟨hnil, by simp⟩
    · rename_i rest hslash
      cases h
      exact ⟨hslash.trans (flatMap_split rest).symm, fun t => noSlash_of_mem_split⟩
    · cases h
  · rintro ⟨htext, htokens⟩
    rw [htext]
    cases tokens with
    | nil => rfl
    | cons token tokens =>
      simp only [List.flatMap_cons, List.cons_append]
      rw [split_append_flatMap htokens]

theorem write_eq_flatMap (keys : List (List Char)) :
    write keys = (keys.map escape).flatMap ('/' :: ·) := by
  rw [write, List.flatMap_map]

/-- A written pointer never starts with a `#`. -/
theorem dropHash_write (keys : List (List Char)) : dropHash (write keys) = write keys := by
  cases keys <;> rfl

/-- **A written pointer is read as its tokens.** -/
theorem tokens?_write (keys : List (List Char)) :
    tokens? (write keys) = some (keys.map escape) := by
  refine tokens?_eq_some_iff.2 ⟨by rw [dropHash_write, write_eq_flatMap], ?_⟩
  simp [slash_not_mem_escape]

theorem tokens?_hash_write (keys : List (List Char)) :
    tokens? ('#' :: write keys) = some (keys.map escape) := by
  refine tokens?_eq_some_iff.2 ⟨by rw [dropHash, write_eq_flatMap], ?_⟩
  simp [slash_not_mem_escape]

/-! ## Indices -/

theorem decimal_toDigits (i : Nat) : decimal (Nat.toDigits 10 i) = i := by
  have h := Nat.ofDigitChars_ten_toDigits (n := i)
  rw [Nat.ofDigitChars_eq_foldl] at h
  simpa [decimal, Nat.mul_comm] using h

/-- **A written index is read as itself.** -/
theorem index?_toDigits {i : Nat} (h : i < indexBound) : index? (Nat.toDigits 10 i) = some i := by
  have hdigit : ∀ c ∈ Nat.toDigits 10 i, c.isDigit = true :=
    fun c hc => Nat.isDigit_of_mem_toDigits (by decide) (by decide) hc
  have hall : (Nat.toDigits 10 i).all Char.isDigit = true := List.all_eq_true.2 hdigit
  have hne : (Nat.toDigits 10 i).isEmpty = false := by
    simp
  unfold index?
  split
  · rename_i rest hplus
    have hsign := hdigit '+' (by rw [hplus]; exact List.mem_cons_self)
    cases hsign
  · simp [hne, hall, decimal_toDigits, h]

end Pointer

/-! ## Following -/

theorem Pointer.map_unescape_map_escape (keys : List (List Char)) :
    (keys.map escape).map unescape = keys := by
  simp [Function.comp_def]

/-- **A written pointer leads where its keys lead.** -/
theorem Node.resolve?_write (n : Node) (keys : List (List Char)) :
    n.resolve? (.ofList (Pointer.write keys)) = n.descend? keys := by
  rw [resolve?, String.toList_ofList, Pointer.tokens?_write, Option.bind_some,
    Pointer.map_unescape_map_escape]

theorem Node.resolve?_hash_write (n : Node) (keys : List (List Char)) :
    n.resolve? (.ofList ('#' :: Pointer.write keys)) = n.descend? keys := by
  rw [resolve?, String.toList_ofList, Pointer.tokens?_hash_write, Option.bind_some,
    Pointer.map_unescape_map_escape]

end DocDrive
