import DocDrive.Proofs.Pointer

/-!
# Tokens of the grammar

In a token of a JSON pointer every `~` is followed by `0` or `1`, and an index is written without a
sign and without leading zeros. Unescaping replaces pairs wherever they stand, and indices are read
as numbers, so both also take texts that are no such tokens.

* `isWellEscaped_iff` — the tokens of the grammar are those that unescaping and escaping give back.
* `isIndex_iff` — the indices of the grammar are the numbers as they are written.
* `index?_eq_some_iff` — the texts that are read as an index.
-/

namespace DocDrive

namespace Pointer

variable {a b c x : Char} {rest key token digits : List Char} {i n : Nat}

/-! ## Escapes -/

/-- Every `~` is followed by `0` or `1`. -/
def isWellEscaped : List Char → Bool
  | [] => true
  | x :: rest =>
    (x != '~' || rest.head? == some '0' || rest.head? == some '1') && isWellEscaped rest

theorem isWellEscaped_cons : isWellEscaped (x :: rest) = true ↔
    (x = '~' → rest.head? = some '0' ∨ rest.head? = some '1') ∧ isWellEscaped rest = true := by
  simp only [isWellEscaped, Bool.and_eq_true, Bool.or_eq_true, bne_iff_ne, beq_iff_eq, or_assoc,
    Decidable.imp_iff_not_or]

theorem unescape_tilde_zero (rest : List Char) :
    unescape ('~' :: '0' :: rest) = '~' :: unescape rest := by
  have hfirst : replacePair '~' '1' '/' ('~' :: '0' :: rest) =
      '~' :: '0' :: replacePair '~' '1' '/' rest := by
    rw [replacePair_skip (by decide), replacePair_cons_ne (by decide)]
  rw [unescape, hfirst, replacePair_pair]
  rfl

theorem unescape_tilde_one (rest : List Char) :
    unescape ('~' :: '1' :: rest) = '/' :: unescape rest := by
  rw [unescape, replacePair_pair, replacePair_cons_ne (by decide)]
  rfl

theorem unescape_cons_ne (h : x ≠ '~') : unescape (x :: rest) = x :: unescape rest := by
  rw [unescape, replacePair_cons_ne h, replacePair_cons_ne h]
  rfl

/-- Replacing pairs leaves the first character, unless it is the first of a pair. -/
theorem exists_replacePair_cons (a b c x : Char) (rest : List Char) :
    ∃ y more, replacePair a b c (x :: rest) = y :: more ∧ (y = x ∨ y = c) := by
  cases rest with
  | nil => exact ⟨x, [], rfl, Or.inl rfl⟩
  | cons y rest =>
    rw [replacePair]
    split
    · exact ⟨c, _, rfl, Or.inr rfl⟩
    · exact ⟨x, _, rfl, Or.inl rfl⟩

/-- A `~` that begins no pair stays. -/
theorem unescape_tilde (hzero : rest.head? ≠ some '0') (hone : rest.head? ≠ some '1') :
    unescape ('~' :: rest) = '~' :: unescape rest := by
  cases rest with
  | nil => rfl
  | cons x rest =>
    have hx : x ≠ '0' ∧ x ≠ '1' := by simpa using And.intro hzero hone
    obtain ⟨y, more, hmore, hy⟩ := exists_replacePair_cons '~' '1' '/' x rest
    have hyzero : y ≠ '0' := by
      rcases hy with rfl | rfl
      · exact hx.1
      · decide
    rw [unescape, unescape, replacePair_skip hx.2, hmore, replacePair_skip hyzero]

/-- The first character of a token, and what it stands for. -/
theorem unescape_cons_cases (x : Char) (rest : List Char) :
    (∃ more, x = '~' ∧ rest = '0' :: more ∧ unescape (x :: rest) = '~' :: unescape more) ∨
    (∃ more, x = '~' ∧ rest = '1' :: more ∧ unescape (x :: rest) = '/' :: unescape more) ∨
    (¬(x = '~' ∧ (rest.head? = some '0' ∨ rest.head? = some '1')) ∧
      unescape (x :: rest) = x :: unescape rest) := by
  by_cases hx : x = '~'
  · subst hx
    by_cases hzero : rest.head? = some '0'
    · obtain ⟨more, rfl⟩ := List.head?_eq_some_iff.1 hzero
      exact Or.inl ⟨more, rfl, rfl, unescape_tilde_zero more⟩
    by_cases hone : rest.head? = some '1'
    · obtain ⟨more, rfl⟩ := List.head?_eq_some_iff.1 hone
      exact Or.inr (Or.inl ⟨more, rfl, rfl, unescape_tilde_one more⟩)
    · refine Or.inr (Or.inr ⟨fun h => ?_, unescape_tilde hzero hone⟩)
      exact h.2.elim hzero hone
  · exact Or.inr (Or.inr ⟨fun h => hx h.1, unescape_cons_ne hx⟩)

theorem isWellEscaped_escape (key : List Char) : isWellEscaped (escape key) = true := by
  induction key with
  | nil => rfl
  | cons x key ih =>
    obtain ⟨-, hcons⟩ | ⟨-, hcons⟩ | ⟨htilde, -, hcons⟩ := escape_cons_cases x key
    · simpa [hcons, isWellEscaped] using ih
    · simpa [hcons, isWellEscaped] using ih
    · simpa [hcons, isWellEscaped, htilde] using ih

theorem escape_unescape (hslash : '/' ∉ token) (h : isWellEscaped token = true) :
    escape (unescape token) = token := by
  induction token with
  | nil => rfl
  | cons x rest ih =>
    rw [isWellEscaped_cons] at h
    rw [List.mem_cons, not_or] at hslash
    have hrest := ih hslash.2 h.2
    -- In a pair, the rest of the token begins with a character that escaping leaves alone.
    obtain ⟨more, rfl, rfl, hx⟩ | ⟨more, rfl, rfl, hx⟩ | ⟨hx, hcons⟩ := unescape_cons_cases x rest
    · rw [unescape_cons_ne (by decide), escape_cons (by decide) (by decide)] at hrest
      rw [hx, escape_tilde, List.tail_eq_of_cons_eq hrest]
    · rw [unescape_cons_ne (by decide), escape_cons (by decide) (by decide)] at hrest
      rw [hx, escape_slash, List.tail_eq_of_cons_eq hrest]
    · have htilde : x ≠ '~' := fun htilde => hx ⟨htilde, h.1 htilde⟩
      rw [hcons, escape_cons htilde (Ne.symm hslash.1), hrest]

/-- **The tokens of the grammar** are those that unescaping and escaping give back. -/
theorem isWellEscaped_iff (hslash : '/' ∉ token) :
    isWellEscaped token = true ↔ escape (unescape token) = token := by
  refine ⟨escape_unescape hslash, fun h => ?_⟩
  rw [← h]
  exact isWellEscaped_escape _

/-- A token that stands for a text without `~` and `/` is that text. -/
theorem unescape_eq_self (h : ∀ c ∈ unescape token, c ≠ '~' ∧ c ≠ '/') :
    unescape token = token := by
  induction token with
  | nil => rfl
  | cons x rest ih =>
    obtain ⟨more, rfl, rfl, hx⟩ | ⟨more, rfl, rfl, hx⟩ | ⟨-, hx⟩ := unescape_cons_cases x rest
    · rw [hx] at h
      exact absurd rfl (h _ List.mem_cons_self).1
    · rw [hx] at h
      exact absurd rfl (h _ List.mem_cons_self).2
    · rw [hx] at h ⊢
      rw [ih fun c hc => h c (List.mem_cons_of_mem _ hc)]

/-! ## Numbers as they are written -/

theorem toNat_of_isDigit (h : x.isDigit = true) : 48 ≤ x.toNat ∧ x.toNat ≤ 57 := by
  simpa [Char.isDigit, UInt32.le_iff_toNat_le] using h

theorem digit_lt (h : x.isDigit = true) : x.toNat - '0'.toNat < 10 := by
  have hrange := toNat_of_isDigit h
  have hzero : '0'.toNat = 48 := rfl
  omega

theorem digitChar_sub (h : x.isDigit = true) : Nat.digitChar (x.toNat - '0'.toNat) = x := by
  have hrange := toNat_of_isDigit h
  have hzero : '0'.toNat = 48 := rfl
  apply Char.toNat_inj.1
  rw [Nat.toNat_digitChar_of_lt_ten (digit_lt h)]
  omega

theorem isDigit_of_mem_toDigits (h : x ∈ Nat.toDigits 10 i) : x.isDigit = true :=
  Nat.isDigit_of_mem_toDigits (by decide) (by decide) h

/-- One more digit behind a number. -/
def pushDigit (n : Nat) (x : Char) : Nat := n * 10 + (x.toNat - '0'.toNat)

theorem toDigits_pushDigit (hn : 0 < n) (h : x.isDigit = true) :
    Nat.toDigits 10 (pushDigit n x) = Nat.toDigits 10 n ++ [x] := by
  have hlast : Nat.toDigits 10 (x.toNat - '0'.toNat) = [x] := by
    rw [Nat.toDigits_of_lt_base (digit_lt h), digitChar_sub h]
  rw [pushDigit, Nat.mul_comm, ← Nat.toDigits_append_toDigits (by decide) hn (digit_lt h), hlast]

/-- Digits that are read behind a number stand behind it as it is written. -/
theorem toDigits_foldl_pushDigit (hn : 0 < n) (hdigits : ∀ c ∈ digits, c.isDigit = true) :
    Nat.toDigits 10 (digits.foldl pushDigit n) = Nat.toDigits 10 n ++ digits := by
  induction digits generalizing n with
  | nil => rw [List.foldl_nil, List.append_nil]
  | cons x digits ih =>
    obtain ⟨hx, hrest⟩ := List.forall_mem_cons.1 hdigits
    have hpos : 0 < pushDigit n x := by
      rw [pushDigit]
      omega
    rw [List.foldl_cons, ih hpos hrest, toDigits_pushDigit hn hx, List.append_assoc]
    rfl

theorem decimal_zero_cons (digits : List Char) : decimal ('0' :: digits) = decimal digits := rfl

theorem decimal_append_of_zeros {zeros : List Char} (h : ∀ c ∈ zeros, c = '0') :
    decimal (zeros ++ digits) = decimal digits := by
  induction zeros with
  | nil => rfl
  | cons x zeros ih =>
    obtain ⟨rfl, hzeros⟩ := List.forall_mem_cons.1 h
    rw [List.cons_append, decimal_zero_cons, ih hzeros]

/-- Digits without a zero at the front are the number that they are read as. -/
theorem toDigits_decimal_cons (hzero : x ≠ '0') (hdigits : ∀ c ∈ x :: digits, c.isDigit = true) :
    Nat.toDigits 10 (decimal (x :: digits)) = x :: digits := by
  obtain ⟨hx, hrest⟩ := List.forall_mem_cons.1 hdigits
  have hpos : 0 < x.toNat - '0'.toNat := by
    refine Nat.pos_of_ne_zero fun h => hzero ?_
    rw [← digitChar_sub hx, h]
    rfl
  have hread : decimal (x :: digits) = digits.foldl pushDigit (x.toNat - '0'.toNat) := by
    show digits.foldl pushDigit (0 * 10 + (x.toNat - '0'.toNat)) = _
    rw [Nat.zero_mul, Nat.zero_add]
  rw [hread, toDigits_foldl_pushDigit hpos hrest, Nat.toDigits_of_lt_base (digit_lt hx),
    digitChar_sub hx]
  rfl

/-- Digits are zeros and behind them the number that they are read as. -/
theorem exists_zeros (hne : digits ≠ []) (hdigits : ∀ c ∈ digits, c.isDigit = true) :
    ∃ zeros : List Char, (∀ c ∈ zeros, c = '0') ∧
      digits = zeros ++ Nat.toDigits 10 (decimal digits) := by
  induction digits with
  | nil => exact absurd rfl hne
  | cons x digits ih =>
    by_cases hx : x = '0'
    · subst hx
      by_cases hrest : digits = []
      · subst hrest
        exact ⟨[], nofun, rfl⟩
      · obtain ⟨zeros, hzeros, heq⟩ := ih hrest (List.forall_mem_cons.1 hdigits).2
        refine ⟨'0' :: zeros, List.forall_mem_cons.2 ⟨rfl, hzeros⟩, ?_⟩
        rw [decimal_zero_cons, List.cons_append, ← heq]
    · exact ⟨[], nofun, (toDigits_decimal_cons hx hdigits).symm⟩

/-- Digits that are read as an index, without a sign. -/
theorem exists_zeros_iff : (digits ≠ [] ∧ (∀ c ∈ digits, c.isDigit = true) ∧ decimal digits = i) ↔
    ∃ zeros : List Char, (∀ c ∈ zeros, c = '0') ∧ digits = zeros ++ Nat.toDigits 10 i := by
  constructor
  · rintro ⟨hne, hdigits, rfl⟩
    exact exists_zeros hne hdigits
  · rintro ⟨zeros, hzeros, rfl⟩
    refine ⟨by simp, ?_, by rw [decimal_append_of_zeros hzeros, decimal_toDigits]⟩
    intro c hc
    rcases List.mem_append.1 hc with hc | hc
    · rw [hzeros c hc]
      rfl
    · exact isDigit_of_mem_toDigits hc

/-! ## Indices -/

/-- A text without its sign. -/
def dropSign : List Char → List Char
  | '+' :: rest => rest
  | cs => cs

theorem exists_sign (token : List Char) :
    ∃ sign, (sign = [] ∨ sign = ['+']) ∧ token = sign ++ dropSign token := by
  unfold dropSign
  split
  · exact ⟨['+'], Or.inr rfl, rfl⟩
  · exact ⟨[], Or.inl rfl, rfl⟩

theorem dropSign_of_isDigit (h : ∀ c ∈ token, c.isDigit = true) : dropSign token = token := by
  unfold dropSign
  split
  · exact absurd (h '+' List.mem_cons_self) (by decide)
  · rfl

theorem index?_eq_some_iff_dropSign : index? token = some i ↔ (dropSign token ≠ [] ∧
    (∀ c ∈ dropSign token, c.isDigit = true) ∧ decimal (dropSign token) = i) ∧ i < indexBound := by
  have hread : index? token = if (dropSign token).isEmpty || !(dropSign token).all Char.isDigit
      then none else if decimal (dropSign token) < indexBound then some (decimal (dropSign token))
      else none := rfl
  rw [hread, ← List.all_eq_true]
  constructor
  · intro h
    split at h
    · cases h
    · rename_i hdigits
      simp only [Bool.or_eq_true, List.isEmpty_iff, Bool.not_eq_true', not_or] at hdigits
      split at h
      · rename_i hbound
        cases h
        exact ⟨⟨hdigits.1, by simpa using hdigits.2, rfl⟩, hbound⟩
      · cases h
  · rintro ⟨⟨hne, hdigits, rfl⟩, hbound⟩
    rw [hdigits, if_neg (by simpa using hne), if_pos hbound]

/-- **The texts that are read as an index**: perhaps a plus sign, then zeros, then the number. -/
theorem index?_eq_some_iff : index? token = some i ↔ ∃ sign zeros : List Char,
    (sign = [] ∨ sign = ['+']) ∧ (∀ c ∈ zeros, c = '0') ∧
      token = sign ++ (zeros ++ Nat.toDigits 10 i) ∧ i < indexBound := by
  rw [index?_eq_some_iff_dropSign, exists_zeros_iff]
  constructor
  · rintro ⟨⟨zeros, hzeros, hdigits⟩, hbound⟩
    obtain ⟨sign, hsign, htoken⟩ := exists_sign token
    rw [hdigits] at htoken
    exact ⟨sign, zeros, hsign, hzeros, htoken, hbound⟩
  · rintro ⟨sign, zeros, hsign, hzeros, rfl, hbound⟩
    refine ⟨⟨zeros, hzeros, ?_⟩, hbound⟩
    rcases hsign with rfl | rfl
    · obtain ⟨-, hdigits, -⟩ := exists_zeros_iff.2 ⟨zeros, hzeros, rfl⟩
      exact dropSign_of_isDigit hdigits
    · rfl

theorem eq_of_index?_toDigits {j : Nat} (h : index? (Nat.toDigits 10 i) = some j) : i = j := by
  obtain ⟨⟨-, -, hread⟩, -⟩ := index?_eq_some_iff_dropSign.1 h
  rwa [dropSign_of_isDigit fun c => isDigit_of_mem_toDigits, decimal_toDigits] at hread

/-- `0`, or digits with another one in front. -/
def isIndex (token : List Char) : Bool :=
  token == ['0'] || (!token.isEmpty && token.all Char.isDigit && token.head? != some '0')

theorem isIndex_cons (hzero : x ≠ '0') (hdigits : ∀ c ∈ x :: digits, c.isDigit = true) :
    isIndex (x :: digits) = true := by
  rw [isIndex, List.all_eq_true.2 hdigits]
  simp [hzero]

/-- **The indices of the grammar** are the numbers as they are written. -/
theorem isIndex_iff : isIndex token = true ↔ ∃ i, token = Nat.toDigits 10 i := by
  constructor
  · intro h
    rw [isIndex, Bool.or_eq_true, beq_iff_eq] at h
    rcases h with rfl | h
    · exact ⟨0, rfl⟩
    · simp only [Bool.and_eq_true, List.all_eq_true, bne_iff_ne] at h
      obtain ⟨⟨hne, hdigits⟩, hzero⟩ := h
      cases token with
      | nil => cases hne
      | cons x digits =>
        have hx : x ≠ '0' := fun h => hzero (congrArg some h)
        exact ⟨_, (toDigits_decimal_cons hx hdigits).symm⟩
  · rintro ⟨i, rfl⟩
    have hdigits : ∀ c ∈ Nat.toDigits 10 i, c.isDigit = true := fun _ => isDigit_of_mem_toDigits
    cases htoken : Nat.toDigits 10 i with
    | nil => exact absurd htoken Nat.toDigits_ne_nil
    | cons x digits =>
      rw [htoken] at hdigits
      by_cases hx : x = '0'
      · subst hx
        by_cases hrest : digits = []
        · rw [hrest]
          rfl
        · -- A zero in front would leave the same number to fewer digits.
          obtain ⟨zeros, -, heq⟩ := exists_zeros hrest (List.forall_mem_cons.1 hdigits).2
          rw [← decimal_zero_cons, ← htoken, decimal_toDigits, htoken] at heq
          have hlength := congrArg List.length heq
          simp only [List.length_append, List.length_cons] at hlength
          omega
      · exact isIndex_cons hx hdigits

end Pointer

end DocDrive
