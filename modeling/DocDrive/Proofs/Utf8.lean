import DocDrive.Proofs.Path.Components

/-!
# Text and its parts

A byte below 0x80 is a character of its own, and the reader stands between characters after it. So
such a byte cuts a byte string into two that are read apart, and the parts of a text between such
bytes are texts. The names of a path that is text are texts, too.

* `piecesFrom_append_ascii`, `pieces_append_ascii` — what is read on both sides of such a byte.
* `mapM_eq_some_iff`, `isSome_mapM_iff` — a pass that ends at the first failure.
* `isSome_decode?_iff`, `lossy_of_decode?` — a text has no ill-formed piece and is shown as it is.
* `isText_iff_segments`, `Path.isText_iff` — a path is text exactly if its names are.
-/

namespace DocDrive

/-! ## All or nothing -/

section AllOrNothing

variable {α β : Type} {f : α → Option β} {l : List α}

/-- A pass that ends at the first failure comes through exactly if it comes through everywhere. -/
theorem mapM_eq_some_iff {results : List β} :
    l.mapM f = some results ↔ l.map f = results.map some := by
  induction l generalizing results with
  | nil =>
    rw [List.mapM_nil, List.map_nil]
    exact Option.some_inj.trans ⟨fun h => h ▸ rfl, fun h => (List.map_eq_nil_iff.1 h.symm).symm⟩
  | cons a l ih =>
    rw [List.mapM_cons, List.map_cons]
    constructor
    · intro h
      obtain ⟨b, hb, h⟩ := Option.bind_eq_some_iff.1 h
      obtain ⟨rest, hrest, h⟩ := Option.bind_eq_some_iff.1 h
      obtain rfl : b :: rest = results := Option.some.inj h
      rw [hb, ih.1 hrest, List.map_cons]
    · intro h
      cases results with
      | nil => cases h
      | cons b rest =>
        obtain ⟨hb, hrest⟩ := List.cons.inj h
        rw [hb, ih.2 hrest]
        rfl

theorem isSome_mapM_iff : (l.mapM f).isSome = true ↔ ∀ a ∈ l, (f a).isSome = true := by
  induction l with
  | nil => exact ⟨fun _ => nofun, fun _ => rfl⟩
  | cons a l ih =>
    rw [List.mapM_cons, List.forall_mem_cons, ← ih]
    cases f a with
    | none => simp
    | some b => cases l.mapM f <;> simp

/-- What is told about the results can be told about what they came from. -/
theorem map_of_mapM_eq_some {γ : Type} {results : List β} {g : β → γ} {k : α → γ}
    (h : l.mapM f = some results) (hg : ∀ a b, f a = some b → g b = k a) :
    results.map g = l.map k := by
  rw [mapM_eq_some_iff] at h
  induction l generalizing results with
  | nil => rw [List.map_eq_nil_iff.1 h.symm, List.map_nil, List.map_nil]
  | cons a l ih =>
    cases results with
    | nil => cases h
    | cons b rest =>
      obtain ⟨hb, hrest⟩ := List.cons.inj h
      rw [List.map_cons, List.map_cons, hg a b hb, ih hrest]

end AllOrNothing

namespace Utf8

variable {state : State} {a b bytes : Bytes} {c : UInt8}

/-! ## Single-byte characters -/

/-- A state that the reader can be in: no single-byte character continues a longer one. -/
def State.Continues : State → Prop
  | between => True
  | inside _ low _ _ => 0x80 ≤ low

theorem continues_first (b : UInt8) : (first b).2.Continues := by
  unfold first
  repeat' split
  all_goals simp [State.Continues]

theorem continues_next (h : state.Continues) (b : UInt8) : (next state b).2.Continues := by
  cases state with
  | between => exact continues_first b
  | inside more low high value =>
    by_cases hb : low ≤ b ∧ b ≤ high
    · rw [next, if_pos hb]
      cases more with
      | zero => trivial
      | succ more => exact UInt8.le_refl 0x80
    · rw [next, if_neg hb]
      exact continues_first b

/-- The piece that is left unfinished in a state. -/
def State.unfinished : State → List (Option Char)
  | between => []
  | inside .. => [none]

theorem piecesFrom_nil (state : State) : piecesFrom state [] = state.unfinished := by
  cases state <;> rfl

theorem piecesFrom_cons (state : State) (b : UInt8) (rest : Bytes) :
    piecesFrom state (b :: rest) = (next state b).1 ++ piecesFrom (next state b).2 rest := by
  cases state <;> rfl

/-- A byte below 0x80 ends what was unfinished, and is a character. -/
theorem next_ascii (h : state.Continues) (hc : c < 0x80) :
    next state c = (state.unfinished ++ [some (Char.ofNat c.toNat)], .between) := by
  have hfirst : first c = ([some (Char.ofNat c.toNat)], .between) := if_pos hc
  cases state with
  | between => exact hfirst
  | inside more low high value =>
    have hlow : ¬(low ≤ c ∧ c ≤ high) := by
      rintro ⟨hle, -⟩
      exact absurd (UInt8.le_trans h hle) (UInt8.not_le.2 hc)
    rw [next, if_neg hlow, hfirst]
    rfl

/-- **A byte below 0x80 cuts a byte string** into two that are read apart. -/
theorem piecesFrom_append_ascii (h : state.Continues) (hc : c < 0x80) (a b : Bytes) :
    piecesFrom state (a ++ c :: b) =
      piecesFrom state a ++ some (Char.ofNat c.toNat) :: pieces b := by
  induction a generalizing state with
  | nil =>
    rw [List.nil_append, piecesFrom_cons, next_ascii h hc, piecesFrom_nil, List.append_assoc]
    rfl
  | cons x a ih =>
    rw [List.cons_append, piecesFrom_cons, piecesFrom_cons, ih (continues_next h x),
      List.append_assoc]

theorem pieces_append_ascii (hc : c < 0x80) (a b : Bytes) :
    pieces (a ++ c :: b) = pieces a ++ some (Char.ofNat c.toNat) :: pieces b :=
  @piecesFrom_append_ascii .between c trivial hc a b

/-! ## Texts -/

/-- **A text is what its pieces are**, if each of them is a character. -/
theorem decode?_eq_some_iff_pieces {text : List Char} :
    decode? bytes = some text ↔ pieces bytes = text.map some := by
  rw [decode?, mapM_eq_some_iff, List.map_id]

/-- Text is shown as it is. -/
theorem lossy_of_decode? {bytes : Bytes} {text : List Char} (h : decode? bytes = some text) :
    lossy bytes = text := by
  rw [lossy, decode?_eq_some_iff_pieces.1 h, List.map_map]
  exact List.map_id _

/-- **A text is what has no ill-formed piece.** -/
theorem isSome_decode?_iff : (decode? bytes).isSome = true ↔ none ∉ pieces bytes := by
  rw [decode?, isSome_mapM_iff]
  constructor
  · intro h hnone
    cases h none hnone
  · intro h piece hpiece
    cases piece with
    | none => exact absurd hpiece h
    | some c => rfl

/-- A byte below 0x80 cuts a text into texts. -/
theorem isSome_decode?_append_ascii (hc : c < 0x80) : (decode? (a ++ c :: b)).isSome = true ↔
    (decode? a).isSome = true ∧ (decode? b).isSome = true := by
  simp only [isSome_decode?_iff, pieces_append_ascii hc, List.mem_append, List.mem_cons,
    reduceCtorEq, false_or, not_or]

/-- A text that begins with a byte below 0x80 begins with that character. -/
theorem decode?_cons_ascii (hc : c < 0x80) (h : (decode? (c :: b)).isSome = true) :
    ∃ text, decode? (c :: b) = some (Char.ofNat c.toNat :: text) := by
  obtain ⟨text, htext⟩ := Option.isSome_iff_exists.1 h
  have hpieces : pieces (c :: b) = text.map some := decode?_eq_some_iff_pieces.1 htext
  have hcut : pieces (c :: b) = some (Char.ofNat c.toNat) :: pieces b :=
    pieces_append_ascii hc [] b
  rw [hcut] at hpieces
  cases text with
  | nil => cases hpieces
  | cons d text =>
    obtain ⟨hd, -⟩ := List.cons.inj hpieces
    obtain rfl := Option.some.inj hd
    exact ⟨text, htext⟩

/-! ## Names of a path -/

/-- **A byte string is text** exactly if its segments are. -/
theorem isText_iff_segments (bytes : Bytes) : (decode? bytes).isSome = true ↔
    ∀ s ∈ Path.segments bytes, (decode? s).isSome = true := by
  by_cases hslash : Component.slash ∈ bytes
  · obtain ⟨front, back, hbytes⟩ := List.append_of_mem hslash
    have hlength := congrArg List.length hbytes
    rw [List.length_append, List.length_cons] at hlength
    rw [hbytes, isSome_decode?_append_ascii (by decide), Path.segments_append,
      List.forall_mem_append, isText_iff_segments front, isText_iff_segments back]
  · rw [Path.segments_of_noSlash hslash, List.forall_mem_singleton]
termination_by bytes.length

end Utf8

namespace Path

variable {p : Path} {name : Bytes}

/-- A segment says nothing, is two dots, or is a name. -/
theorem component?_cases (s : Bytes) : (s = [] ∨ s = [Component.dot]) ∧ component? s = none ∨
    s = [Component.dot, Component.dot] ∧ component? s = some .parent ∨
    component? s = some (.normal s) := by
  unfold component?
  split
  · rename_i h
    exact Or.inl ⟨Or.inl h, rfl⟩
  split
  · rename_i h
    exact Or.inl ⟨Or.inr h, rfl⟩
  split
  · rename_i h
    exact Or.inr (Or.inl ⟨h, rfl⟩)
  · exact Or.inr (Or.inr rfl)

/-- The names of a path are among its segments. -/
theorem normal_mem_components_iff : .normal name ∈ p.components ↔
    name ∈ segments p.bytes ∧ component? name = some (.normal name) := by
  have hstart : .normal name ∉ p.start := by
    intro h
    have hshape := p.isStart_start
    cases hs : p.start with
    | nil => simp [hs] at h
    | cons c cs =>
      rw [hs] at hshape h
      cases hshape with
      | root => simp at h
      | current => simp at h
  rw [components_eq, List.mem_append, or_iff_right hstart, steps, List.mem_filterMap]
  constructor
  · rintro ⟨s, hs, hcomponent⟩
    obtain ⟨-, h⟩ | ⟨-, h⟩ | h := component?_cases s
    · cases h.symm.trans hcomponent
    · cases h.symm.trans hcomponent
    · cases h.symm.trans hcomponent
      exact ⟨hs, h⟩
  · rintro ⟨hs, h⟩
    exact ⟨name, hs, h⟩

/-- **A path is text** exactly if its names are. -/
theorem isText_iff : p.toString?.isSome = true ↔
    ∀ name, .normal name ∈ p.components → (Utf8.decode? name).isSome = true := by
  rw [toString?, Utf8.toString?, Option.isSome_map, Utf8.isText_iff_segments]
  constructor
  · intro h name hname
    exact h name (normal_mem_components_iff.1 hname).1
  · intro h s hs
    obtain ⟨rfl | rfl, -⟩ | ⟨rfl, -⟩ | hname := component?_cases s
    · decide
    · decide
    · decide
    · exact h s (normal_mem_components_iff.2 ⟨hs, hname⟩)

/-- **The names of a path that is text are texts.** -/
theorem isText_of_mem_components (h : p.toString?.isSome = true)
    (hname : .normal name ∈ p.components) : (Utf8.decode? name).isSome = true :=
  isText_iff.1 h name hname

end Path

end DocDrive
