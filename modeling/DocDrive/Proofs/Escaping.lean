import DocDrive.Proofs.Token
import Mathlib.Data.Set.Function

/-!
# Keys and tokens, one to one

Escaping and unescaping each go over a text twice, the second time over what the first has left. No
replacement takes hold of what another one wrote: either way, the outcome is that of a single pass
over the characters, or the escapes, of the text it was given. So keys are one to one with the texts
that hold no slash and in which every `~` begins an escape.

* `escape_eq_flatMap`, `unescape_eq_readEscapes` — each in one pass.
* `escaped_iff` — what a token may look like, said of its places and checked from the front.
* `escaping_bijective` — keys and tokens correspond.
-/

namespace DocDrive

namespace Pointer

variable {token : List Char}

/-! ## One pass -/

/-- A character of a key as a token has it. -/
def escapeChar (c : Char) : List Char :=
  if c = '~' then ['~', '0'] else if c = '/' then ['~', '1'] else [c]

/-- A token read from the front, a character or an escape at a time. -/
def readEscapes : List Char → List Char
  | [] => []
  | '~' :: '0' :: rest => '~' :: readEscapes rest
  | '~' :: '1' :: rest => '/' :: readEscapes rest
  | c :: rest => c :: readEscapes rest

/-- **Escaping is one pass**: the second replacement leaves alone what the first has written. -/
theorem escape_eq_flatMap (key : List Char) : escape key = key.flatMap escapeChar := by
  induction key with
  | nil => rfl
  | cons c key ih =>
    rw [List.flatMap_cons, ← ih]
    obtain ⟨rfl, hcons⟩ | ⟨rfl, hcons⟩ | ⟨htilde, hslash, hcons⟩ := escape_cons_cases c key
    · exact hcons
    · exact hcons
    · have hc : escapeChar c = [c] := by simp [escapeChar, htilde, hslash]
      rw [hcons, hc]
      rfl

/-- **Unescaping is one pass**, whatever the text: a `~` that the second replacement finds was there
at first, and so was the `0` behind it. -/
theorem unescape_eq_readEscapes (token : List Char) : unescape token = readEscapes token := by
  fun_induction readEscapes token with
  | case1 => rfl
  | case2 rest ih => rw [unescape_tilde_zero, ih]
  | case3 rest ih => rw [unescape_tilde_one, ih]
  | case4 c rest hzero hone ih =>
    obtain ⟨more, hc, hrest, -⟩ | ⟨more, hc, hrest, -⟩ | ⟨-, hcons⟩ := unescape_cons_cases c rest
    · exact absurd hrest (hzero more hc)
    · exact absurd hrest (hone more hc)
    · rw [hcons, ih]

/-! ## What a token may look like -/

/-- A text that a token may be: without slashes, and with an escape wherever there is a `~`. -/
structure Escaped (token : List Char) : Prop where
  noSlash : '/' ∉ token
  escapes : ∀ front rest, token = front ++ '~' :: rest →
    rest.head? = some '0' ∨ rest.head? = some '1'

theorem isWellEscaped_iff_forall : isWellEscaped token = true ↔
    ∀ front rest, token = front ++ '~' :: rest →
      rest.head? = some '0' ∨ rest.head? = some '1' := by
  induction token with
  | nil => simp [isWellEscaped]
  | cons c token ih =>
    rw [isWellEscaped_cons, ih]
    constructor
    · rintro ⟨hfirst, hlater⟩ front rest hsplit
      cases front with
      | nil =>
        obtain ⟨rfl, rfl⟩ := List.cons.inj hsplit
        exact hfirst rfl
      | cons d front => exact hlater front rest (List.cons.inj hsplit).2
    · intro h
      refine ⟨fun hc => h [] token (by rw [hc]; rfl), fun front rest hsplit => ?_⟩
      exact h (c :: front) rest (by rw [hsplit]; rfl)

theorem escaped_iff : Escaped token ↔ '/' ∉ token ∧ isWellEscaped token = true := by
  rw [isWellEscaped_iff_forall]
  exact ⟨fun h => ⟨h.noSlash, h.escapes⟩, fun h => ⟨h.1, h.2⟩⟩

instance (token : List Char) : Decidable (Escaped token) := decidable_of_iff _ escaped_iff.symm

theorem escaped_escape (key : List Char) : Escaped (escape key) :=
  escaped_iff.2 ⟨slash_not_mem_escape key, isWellEscaped_escape key⟩

theorem Escaped.escape_unescape (h : Escaped token) : escape (unescape token) = token :=
  Pointer.escape_unescape h.noSlash (isWellEscaped_iff_forall.2 h.escapes)

/-- Escaping and unescaping take back one another. -/
theorem invOn_unescape_escape : Set.InvOn unescape escape Set.univ {token | Escaped token} :=
  ⟨fun key _ => unescape_escape key, fun _ h => Escaped.escape_unescape h⟩

/-! ## Keys and tokens -/

/-- **Keys and tokens correspond.** A key is escaped as a text that holds no slash and in which
every `~` is followed by `0` or `1`, and unescaping gives the key back; every such text is the token
of what it unescapes to. So different keys have different tokens, and every such text is the token
of a key. The replacements that escaping and unescaping consist of never get in each other's way:
both come to one pass over the text they are given. -/
theorem escaping_bijective :
    (∀ key, Escaped (escape key) ∧ unescape (escape key) = key) ∧
    (∀ token, Escaped token → escape (unescape token) = token) ∧
    Set.BijOn escape Set.univ {token | Escaped token} ∧
    (∀ key, escape key = key.flatMap escapeChar) ∧
    ∀ token, unescape token = readEscapes token := by
  have hbijective : Set.BijOn escape Set.univ {token | Escaped token} :=
    invOn_unescape_escape.bijOn (fun key _ => escaped_escape key) fun _ _ => Set.mem_univ _
  exact ⟨fun key => ⟨escaped_escape key, unescape_escape key⟩,
    fun token h => h.escape_unescape, hbijective, escape_eq_flatMap, unescape_eq_readEscapes⟩

/-- The token of a key that looks like an escape itself. -/
theorem escaping_bijective_lookalike : Escaped "~01~1~00".toList ∧
    unescape "~01~1~00".toList = "~1/~0".toList ∧
    escape (unescape "~01~1~00".toList) = "~01~1~00".toList := by
  have hescaped : Escaped "~01~1~00".toList := by decide
  exact ⟨hescaped, rfl, escaping_bijective.2.1 _ hescaped⟩

/-- In the other order, the second replacement takes hold of what the first one wrote. -/
example : replacePair '~' '1' '/' (replacePair '~' '0' '~' "~01".toList) = ['/'] ∧
    unescape "~01".toList = "~1".toList := ⟨rfl, rfl⟩

end Pointer

end DocDrive
