import DocDrive.Proofs.Utf8
import Mathlib

/-!
# Text as bytes and back

The reader finds a character at the front of a byte string exactly if the bytes there are its
encoding (`pieces_eq_cons_iff`). So a byte string is read as a text exactly if it is that text
written out (`decode?_eq_some_iff`), and no two byte strings are read as one text.

An encoding of more than one byte is a first byte and continuation bytes with six bits each. The
reader takes the continuation bytes one by one, whatever their number (`piecesFrom_inside_iff`). The
first byte says how many follow, and what the next one has to be so that no shorter encoding would
have done (`first_cases`, `exists_first`).
-/

namespace DocDrive

namespace Utf8

variable {b low high : UInt8} {more n v : Nat} {c : Char} {bytes : Bytes} {text : List Char}
  {state : State} {tail : List (Option Char)}

/-! ## Continuation bytes -/

/-- The last bytes of the encoding of `n`: six bits each, the highest first. -/
def continuation : Nat → Nat → Bytes
  | 0, _ => []
  | count + 1, n => UInt8.ofNat (n / 64 ^ count % 64 + 0x80) :: continuation count n

theorem toNat_continuation_byte (m : Nat) :
    (UInt8.ofNat (m % 64 + 0x80)).toNat = m % 64 + 0x80 := by
  rw [UInt8.toNat_ofNat']
  omega

theorem continuation_byte_eq {m : Nat} (h : m % 64 + 0x80 = b.toNat) :
    UInt8.ofNat (m % 64 + 0x80) = b :=
  UInt8.toNat_inj.1 ((toNat_continuation_byte m).trans h)

/-- The first of `count + 1` continuation bytes of `n` lies in a range. -/
def BeginsWithin (low high : UInt8) (count n : Nat) : Prop :=
  low.toNat ≤ n / 64 ^ count % 64 + 0x80 ∧ n / 64 ^ count % 64 + 0x80 ≤ high.toNat

theorem beginsWithin_continuing (count n : Nat) : BeginsWithin 0x80 0xBF count n := by
  have hdigit : n / 64 ^ count % 64 < 64 := Nat.mod_lt _ (by decide)
  show 0x80 ≤ n / 64 ^ count % 64 + 0x80 ∧ n / 64 ^ count % 64 + 0x80 ≤ 0xBF
  omega

theorem div_pow_succ (n count : Nat) : n / 64 ^ (count + 1) = n / 64 ^ count / 64 := by
  rw [Nat.pow_succ, Nat.div_div_eq_div_mul]

/-- Inside a character, the reader comes to that character only through a byte that it expects. -/
theorem piecesFrom_inside_cons {rest : Bytes} :
    piecesFrom (.inside more low high v) (b :: rest) = some c :: tail ↔
      (low.toNat ≤ b.toNat ∧ b.toNat ≤ high.toNat) ∧
        match more with
        | 0 => c = Char.ofNat (v * 64 + (b.toNat - 0x80)) ∧ pieces rest = tail
        | more + 1 =>
          piecesFrom (.inside more 0x80 0xBF (v * 64 + (b.toNat - 0x80))) rest =
            some c :: tail := by
  rw [piecesFrom_cons, ← UInt8.le_iff_toNat_le, ← UInt8.le_iff_toNat_le]
  by_cases hb : low ≤ b ∧ b ≤ high
  · cases more with
    | zero => simp [next, hb, pieces, eq_comm]
    | succ more => simp [next, hb]
  · simp [next, hb]

/-- **The reader takes the continuation bytes of a number**, whatever their count, if the first of
them is one that it expects. -/
theorem piecesFrom_inside_iff (hlow : 0x80 ≤ low.toNat) (hhigh : high.toNat ≤ 0xBF) :
    piecesFrom (.inside more low high v) bytes = some c :: tail ↔
      ∃ n rest, n / 64 ^ (more + 1) = v ∧ BeginsWithin low high more n ∧
        bytes = continuation (more + 1) n ++ rest ∧ c = Char.ofNat n ∧ pieces rest = tail := by
  unfold BeginsWithin
  induction more generalizing low high v bytes with
  | zero =>
    cases bytes with
    | nil => simp [piecesFrom_nil, State.unfinished, continuation]
    | cons b rest =>
      rw [piecesFrom_inside_cons]
      simp only [continuation, Nat.pow_zero, Nat.div_one, Nat.pow_one, Nat.zero_add,
        List.cons_append, List.nil_append]
      constructor
      · rintro ⟨hb, hc, hrest⟩
        refine ⟨v * 64 + (b.toNat - 0x80), rest, by omega, by omega, ?_, hc, hrest⟩
        have hbyte : UInt8.ofNat ((v * 64 + (b.toNat - 0x80)) % 64 + 0x80) = b :=
          continuation_byte_eq (by omega)
        rw [hbyte]
      · rintro ⟨n, rest', rfl, hbounds, hbytes, hc, hrest⟩
        obtain ⟨rfl, rfl⟩ := List.cons.inj hbytes
        rw [toNat_continuation_byte]
        refine ⟨hbounds, hc.trans (congrArg Char.ofNat ?_), hrest⟩
        omega
  | succ more ih =>
    cases bytes with
    | nil => simp [piecesFrom_nil, State.unfinished, continuation]
    | cons b rest =>
      rw [piecesFrom_inside_cons]
      dsimp only
      rw [ih (by decide) (by decide)]
      simp only [div_pow_succ _ (more + 1)]
      constructor
      · rintro ⟨hb, n, rest', hn, -, rfl, hc, hrest⟩
        refine ⟨n, rest', ?_, ?_, ?_, hc, hrest⟩
        · rw [hn]
          omega
        · rw [hn]
          omega
        · have hbyte : UInt8.ofNat (n / 64 ^ (more + 1) % 64 + 0x80) = b :=
            continuation_byte_eq (by omega)
          show b :: (continuation (more + 1) n ++ rest') = UInt8.ofNat _ :: _ ++ rest'
          rw [hbyte, List.cons_append]
      · rintro ⟨n, rest', rfl, hbounds, hbytes, hc, hrest⟩
        rw [continuation, List.cons_append] at hbytes
        obtain ⟨rfl, rfl⟩ := List.cons.inj hbytes
        rw [toNat_continuation_byte]
        refine ⟨hbounds, n, rest', ?_, beginsWithin_continuing more n, rfl, hc, hrest⟩
        omega

/-! ## Encoded characters -/

/-- The encoding of a character: its bits, six by six, behind a mark of their number. -/
theorem encodeChar_ofNat (h : n.isValidChar) : String.utf8EncodeChar (Char.ofNat n) =
    if n < 0x80 then [UInt8.ofNat n]
    else if n < 0x800 then UInt8.ofNat (n / 64 ^ 1 + 0xC0) :: continuation 1 n
    else if n < 0x10000 then UInt8.ofNat (n / 64 ^ 2 + 0xE0) :: continuation 2 n
    else UInt8.ofNat (n / 64 ^ 3 + 0xF0) :: continuation 3 n := by
  have hvalid : n < 0xD800 ∨ 0xDFFF < n ∧ n < 0x110000 := h
  have hn : (Char.ofNat n).val.toNat = n := (Char.toNat_ofNat n).trans (if_pos h)
  rw [String.utf8EncodeChar]
  simp only [hn]
  by_cases h1 : n < 0x80
  · rw [if_pos h1, if_pos (by omega)]
  rw [if_neg h1, if_neg (by omega)]
  by_cases h2 : n < 0x800
  · have hmark : n / 64 % 32 = n / 64 := by omega
    rw [if_pos h2, if_pos (by omega)]
    simp [continuation, hmark]
  rw [if_neg h2, if_neg (by omega)]
  by_cases h3 : n < 0x10000
  · have hmark : n / 4096 % 16 = n / 4096 := by omega
    rw [if_pos h3, if_pos (by omega)]
    simp [continuation, hmark]
  · have hmark : n / 262144 % 8 = n / 262144 := by omega
    rw [if_neg h3, if_neg (by omega)]
    simp [continuation, hmark]

theorem encodeChar_one (hb : b < 0x80) : String.utf8EncodeChar (Char.ofNat b.toNat) = [b] := by
  have h : b.toNat < 0x80 := UInt8.lt_iff_toNat_lt.1 hb
  rw [encodeChar_ofNat (Or.inl (by omega)), if_pos h, UInt8.ofNat_toNat]

theorem encodeChar_two (h : 0x80 ≤ n) (h' : n < 0x800) (hb : b.toNat = n / 64 + 0xC0) :
    String.utf8EncodeChar (Char.ofNat n) = b :: continuation 1 n := by
  rw [encodeChar_ofNat (Or.inl (by omega)), if_neg (by omega), if_pos h']
  rw [show n / 64 ^ 1 + 0xC0 = b.toNat from hb.symm, UInt8.ofNat_toNat]

theorem encodeChar_three (h : 0x800 ≤ n) (h' : n < 0xD800 ∨ 0xDFFF < n ∧ n < 0x10000)
    (hb : b.toNat = n / 4096 + 0xE0) :
    String.utf8EncodeChar (Char.ofNat n) = b :: continuation 2 n := by
  have hvalid : n.isValidChar := h'.imp_right fun h => ⟨h.1, by omega⟩
  rw [encodeChar_ofNat hvalid, if_neg (by omega), if_neg (by omega), if_pos (by omega)]
  rw [show n / 64 ^ 2 + 0xE0 = b.toNat from hb.symm, UInt8.ofNat_toNat]

theorem encodeChar_four (h : 0x10000 ≤ n) (h' : n < 0x110000) (hb : b.toNat = n / 262144 + 0xF0) :
    String.utf8EncodeChar (Char.ofNat n) = b :: continuation 3 n := by
  have hvalid : n.isValidChar := Or.inr ⟨by omega, h'⟩
  rw [encodeChar_ofNat hvalid, if_neg (by omega), if_neg (by omega), if_neg (by omega)]
  rw [show n / 64 ^ 3 + 0xF0 = b.toNat from hb.symm, UInt8.ofNat_toNat]

/-! ## First bytes -/

theorem first_two (h : 0xC2 ≤ b.toNat) (h' : b.toNat < 0xE0) :
    first b = ([], .inside 0 0x80 0xBF (b.toNat - 0xC0)) := by
  simp only [first, UInt8.lt_iff_toNat_lt, UInt8.toNat_ofNat, Nat.reducePow, Nat.reduceMod]
  rw [if_neg (by omega), if_neg (by omega), if_pos h']

/-- After the lowest first byte of three, a low byte would spell a number that two bytes can; after
one other, a high byte would spell a surrogate. -/
theorem first_three (h : 0xE0 ≤ b.toNat) (h' : b.toNat < 0xF0) :
    first b = ([], .inside 1 (if b.toNat = 0xE0 then 0xA0 else 0x80)
      (if b.toNat = 0xED then 0x9F else 0xBF) (b.toNat - 0xE0)) := by
  simp only [first, UInt8.lt_iff_toNat_lt, ← UInt8.toNat_inj, UInt8.toNat_ofNat, Nat.reducePow,
    Nat.reduceMod]
  rw [if_neg (by omega), if_neg (by omega), if_neg (by omega), if_pos h']
  split
  · simp [*]
  · split <;> simp [*]

/-- After the lowest first byte of four, a low byte would spell a number that three bytes can; after
the highest, a high byte would spell a number beyond all characters. -/
theorem first_four (h : 0xF0 ≤ b.toNat) (h' : b.toNat ≤ 0xF4) :
    first b = ([], .inside 2 (if b.toNat = 0xF0 then 0x90 else 0x80)
      (if b.toNat = 0xF4 then 0x8F else 0xBF) (b.toNat - 0xF0)) := by
  simp only [first, UInt8.lt_iff_toNat_lt, ← UInt8.toNat_inj, UInt8.toNat_ofNat, Nat.reducePow,
    Nat.reduceMod]
  rw [if_neg (by omega), if_neg (by omega), if_neg (by omega), if_neg (by omega), if_neg (by omega),
    if_neg (by omega)]
  split
  · simp [*]
  · by_cases htop : b.toNat = 0xF4
    · simp [htop]
    · rw [if_pos (by omega), if_neg htop]

theorem first_none (h : 0x80 ≤ b.toNat) (h' : b.toNat < 0xC2 ∨ 0xF4 < b.toNat) :
    first b = ([none], .between) := by
  simp only [first, UInt8.lt_iff_toNat_lt, ← UInt8.toNat_inj, UInt8.toNat_ofNat, Nat.reducePow,
    Nat.reduceMod]
  rw [if_neg (by omega)]
  rcases h' with h' | h'
  · rw [if_pos h']
  · rw [if_neg (by omega), if_neg (by omega), if_neg (by omega), if_neg (by omega),
      if_neg (by omega), if_neg (by omega), if_neg (by omega), if_neg (by omega)]

/-- Whatever a first byte expects is a continuation byte. -/
theorem range_of_first (h : first b = ([], .inside more low high v)) :
    0x80 ≤ low.toNat ∧ high.toNat ≤ 0xBF := by
  unfold first at h
  repeat' split at h
  all_goals cases h <;> decide

/-- **What a first byte promises**: a character of its own, nothing, or the encoding of any number
that agrees with it and goes on with an expected byte. -/
theorem first_cases (b : UInt8) :
    b < 0x80 ∨ first b = ([none], .between) ∨
    ∃ more low high v, first b = ([], .inside more low high v) ∧
      ∀ n, n / 64 ^ (more + 1) = v → BeginsWithin low high more n →
        String.utf8EncodeChar (Char.ofNat n) = b :: continuation (more + 1) n := by
  by_cases h1 : b.toNat < 0x80
  · exact Or.inl (UInt8.lt_iff_toNat_lt.2 h1)
  right
  by_cases hnone : b.toNat < 0xC2 ∨ 0xF4 < b.toNat
  · exact Or.inl (first_none (by omega) hnone)
  right
  by_cases h2 : b.toNat < 0xE0
  · refine ⟨_, _, _, _, first_two (by omega) h2, fun n hn hd => ?_⟩
    simp only [BeginsWithin, UInt8.toNat_ofNat, Nat.reducePow, Nat.reduceMod, Nat.reduceAdd,
      Nat.pow_zero, Nat.div_one] at hn hd
    exact encodeChar_two (by omega) (by omega) (by omega)
  by_cases h3 : b.toNat < 0xF0
  · refine ⟨_, _, _, _, first_three (by omega) h3, fun n hn hd => ?_⟩
    simp only [BeginsWithin, apply_ite UInt8.toNat, UInt8.toNat_ofNat, Nat.reducePow,
      Nat.reduceMod, Nat.reduceAdd, Nat.pow_one] at hn hd
    split at hd <;> split at hd <;> exact encodeChar_three (by omega) (by omega) (by omega)
  · refine ⟨_, _, _, _, first_four (by omega) (by omega), fun n hn hd => ?_⟩
    simp only [BeginsWithin, apply_ite UInt8.toNat, UInt8.toNat_ofNat, Nat.reducePow,
      Nat.reduceMod, Nat.reduceAdd] at hn hd
    split at hd <;> split at hd <;> exact encodeChar_four (by omega) (by omega) (by omega)

theorem exists_byte {m : Nat} (hm : m < 0x100) : ∃ b : UInt8, b.toNat = m :=
  ⟨UInt8.ofNat m, UInt8.toNat_ofNat_of_lt hm⟩

/-- **A long encoding begins with a first byte** that leaves the reader inside the character, and
goes on with a byte that the reader then expects. -/
theorem exists_first (hn : n.isValidChar) (h : 0x80 ≤ n) :
    ∃ b more low high, first b = ([], .inside more low high (n / 64 ^ (more + 1))) ∧
      BeginsWithin low high more n ∧
      String.utf8EncodeChar (Char.ofNat n) = b :: continuation (more + 1) n := by
  have hvalid : n < 0xD800 ∨ 0xDFFF < n ∧ n < 0x110000 := hn
  unfold BeginsWithin
  by_cases h2 : n < 0x800
  · obtain ⟨b, hb⟩ := exists_byte (m := n / 64 + 0xC0) (by omega)
    have hfirst := first_two (b := b) (by omega) (by omega)
    rw [hb, Nat.add_sub_cancel] at hfirst
    refine ⟨b, 0, _, _, hfirst, ?_, encodeChar_two h h2 hb⟩
    simp only [UInt8.toNat_ofNat, Nat.reducePow, Nat.reduceMod, Nat.pow_zero, Nat.div_one]
    omega
  by_cases h3 : n < 0x10000
  · obtain ⟨b, hb⟩ := exists_byte (m := n / 4096 + 0xE0) (by omega)
    have hfirst := first_three (b := b) (by omega) (by omega)
    rw [hb, Nat.add_sub_cancel] at hfirst
    refine ⟨b, 1, _, _, hfirst, ?_, encodeChar_three (by omega) (by omega) hb⟩
    simp only [apply_ite UInt8.toNat, UInt8.toNat_ofNat, Nat.reducePow, Nat.reduceMod, Nat.pow_one]
    split <;> split <;> omega
  · obtain ⟨b, hb⟩ := exists_byte (m := n / 262144 + 0xF0) (by omega)
    have hfirst := first_four (b := b) (by omega) (by omega)
    rw [hb, Nat.add_sub_cancel] at hfirst
    refine ⟨b, 2, _, _, hfirst, ?_, encodeChar_four (by omega) (by omega) hb⟩
    simp only [apply_ite UInt8.toNat, UInt8.toNat_ofNat, Nat.reducePow, Nat.reduceMod]
    split <;> split <;> omega

/-! ## Characters and texts -/

/-- After a first byte, the reader comes to the character that the next bytes complete. -/
theorem pieces_cons_iff_of_first (h : first b = ([], .inside more low high v)) :
    pieces (b :: bytes) = some c :: tail ↔
      ∃ n rest, n / 64 ^ (more + 1) = v ∧ BeginsWithin low high more n ∧
        bytes = continuation (more + 1) n ++ rest ∧ c = Char.ofNat n ∧ pieces rest = tail := by
  obtain ⟨hlow, hhigh⟩ := range_of_first h
  rw [pieces, piecesFrom_cons, next, h]
  exact piecesFrom_inside_iff hlow hhigh

/-- **A byte string begins with a character** exactly if it begins with the encoding of it. -/
theorem pieces_eq_cons_iff : pieces bytes = some c :: tail ↔
    ∃ rest, bytes = String.utf8EncodeChar c ++ rest ∧ pieces rest = tail := by
  constructor
  · intro h
    cases bytes with
    | nil => cases h
    | cons b bytes =>
      rcases first_cases b with hb | hnone | ⟨more, low, high, v, hfirst, hencode⟩
      · have hcut : pieces (b :: bytes) = some (Char.ofNat b.toNat) :: pieces bytes :=
          pieces_append_ascii hb [] bytes
        obtain ⟨hc, htail⟩ := List.cons.inj (hcut.symm.trans h)
        refine ⟨bytes, ?_, htail⟩
        rw [← Option.some.inj hc, encodeChar_one hb, List.singleton_append]
      · rw [pieces, piecesFrom_cons, next, hnone] at h
        cases h
      · obtain ⟨n, rest, hn, hbegin, rfl, rfl, hrest⟩ := (pieces_cons_iff_of_first hfirst).1 h
        refine ⟨rest, ?_, hrest⟩
        rw [hencode n hn hbegin, List.cons_append]
  · rintro ⟨rest, rfl, rfl⟩
    obtain ⟨n, hvalid, rfl⟩ : ∃ n : Nat, n.isValidChar ∧ c = Char.ofNat n :=
      ⟨c.toNat, c.valid, (Char.ofNat_toNat c).symm⟩
    by_cases h : n < 0x80
    · obtain ⟨b, rfl⟩ := exists_byte (m := n) (by omega)
      have hascii : b < 0x80 := UInt8.lt_iff_toNat_lt.2 h
      rw [encodeChar_one hascii]
      exact pieces_append_ascii hascii [] rest
    · obtain ⟨b, more, low, high, hfirst, hbegin, hencode⟩ :=
        exists_first hvalid (Nat.le_of_not_lt h)
      rw [hencode, List.cons_append]
      exact (pieces_cons_iff_of_first hfirst).2 ⟨n, rest, rfl, hbegin, rfl, rfl, rfl⟩

theorem next_ne_between (state : State) (b : UInt8) : next state b ≠ ([], .between) := by
  have hfirst : first b ≠ ([], .between) := by
    rcases first_cases b with hb | hnone | ⟨more, low, high, v, hinside, -⟩
    · simp [first, hb]
    · simp [hnone]
    · simp [hinside]
  cases state with
  | between => exact hfirst
  | inside more low high v =>
    rw [next]
    split
    · cases more <;> simp
    · simp

/-- Only from nothing is nothing read. -/
theorem eq_nil_of_piecesFrom (h : piecesFrom state bytes = []) : state = .between ∧ bytes = [] := by
  induction bytes generalizing state with
  | nil =>
    cases state with
    | between => exact ⟨rfl, rfl⟩
    | inside more low high v => cases h
  | cons b rest ih =>
    rw [piecesFrom_cons, List.append_eq_nil_iff] at h
    obtain ⟨hafter, -⟩ := ih h.2
    exact absurd (Prod.ext h.1 hafter) (next_ne_between state b)

theorem pieces_eq_map_some_iff : pieces bytes = text.map some ↔ encode text = bytes := by
  induction text generalizing bytes with
  | nil =>
    constructor
    · intro h
      exact (eq_nil_of_piecesFrom h).2.symm
    · rintro rfl
      rfl
  | cons c text ih =>
    rw [List.map_cons, pieces_eq_cons_iff]
    constructor
    · rintro ⟨rest, rfl, hrest⟩
      show String.utf8EncodeChar c ++ encode text = _
      rw [ih.1 hrest]
    · rintro rfl
      exact ⟨encode text, rfl, ih.2 rfl⟩

/-- **A byte string is read as a text exactly if it is that text, written out.** -/
theorem decode?_eq_some_iff : decode? bytes = some text ↔ encode text = bytes := by
  rw [decode?_eq_some_iff_pieces, pieces_eq_map_some_iff]

theorem toString?_eq_some_iff {s : String} : toString? bytes = some s ↔ ofString s = bytes := by
  rw [toString?, ofString, ← decode?_eq_some_iff, Option.map_eq_some_iff]
  constructor
  · rintro ⟨text, htext, rfl⟩
    rw [htext, String.toList_ofList]
  · intro h
    exact ⟨_, h, String.ofList_toList⟩

end Utf8

end DocDrive
