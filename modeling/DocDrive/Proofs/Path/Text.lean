import DocDrive.Proofs.Encoding
import DocDrive.Proofs.Path.Joining
import DocDrive.Proofs.Path.Names

/-!
# Paths that are text

A path is text exactly if its names are, so whatever only moves names about keeps text: normal
forms, joins, parents. A name that stands in a path stands in every path below it.

* `IsText.normalize`, `IsText.join`, `IsText.parent`, `IsText.resolveAgainst` — what keeps text.
* `isText_ofNames_of_resolveAgainst` — names below a directory are text if the address is.
-/

namespace DocDrive

namespace Path

/-- A path whose bytes are text. -/
def IsText (p : Path) : Prop := p.toString?.isSome = true

instance (p : Path) : Decidable p.IsText := inferInstanceAs (Decidable (_ = true))

variable {p q base : Path} {names : List Bytes} {stack cs : List Component} {c : Component}

theorem isText_ofString (s : String) : (ofString s).IsText := by
  have htext : Utf8.toString? (ofString s).bytes = some s := Utf8.toString?_eq_some_iff.2 rfl
  rw [IsText, toString?, htext]
  rfl

theorem isText_iff_bytes : p.IsText ↔ (Utf8.decode? p.bytes).isSome = true := by
  rw [IsText, toString?, Utf8.toString?, Option.isSome_map]

/-- A path of names from a text is text. -/
theorem IsText.of_subset (h : p.IsText) (hsubset : ∀ name, .normal name ∈ q.components →
    .normal name ∈ p.components) : q.IsText :=
  isText_iff.2 fun name hname => isText_iff.1 h name (hsubset name hname)

/-! ## What keeps text -/

theorem mem_pushStep {d : Component} (h : c ∈ pushStep stack d) : c ∈ stack ∨ c = d := by
  cases d with
  | root => exact Or.inr (List.mem_singleton.1 h)
  | current =>
    rw [pushStep_current] at h
    exact Or.inl h
  | parent =>
    cases stack with
    | nil => exact Or.inr (List.mem_singleton.1 h)
    | cons top below =>
      cases top with
      | normal name => exact Or.inl (List.mem_cons_of_mem _ h)
      | root => exact Or.inl h
      | current => exact (List.mem_cons.1 h).symm
      | parent => exact (List.mem_cons.1 h).symm
  | normal name =>
    rw [pushStep_normal] at h
    exact (List.mem_cons.1 h).symm

/-- Nothing new comes onto a stack. -/
theorem mem_foldl_pushStep (h : c ∈ cs.foldl pushStep stack) : c ∈ stack ∨ c ∈ cs := by
  induction cs generalizing stack with
  | nil => exact Or.inl h
  | cons d cs ih =>
    rcases ih h with h | h
    · rcases mem_pushStep h with h | rfl
      · exact Or.inl h
      · exact Or.inr List.mem_cons_self
    · exact Or.inr (List.mem_cons_of_mem d h)

theorem IsText.normalize (h : p.IsText) : p.normalize.IsText := by
  apply h.of_subset
  intro name hname
  rw [components_normalize, normalComponents, List.mem_reverse] at hname
  exact (mem_foldl_pushStep hname).resolve_left List.not_mem_nil

theorem IsText.join (hp : p.IsText) (hq : q.IsText) : (p.join q).IsText := by
  unfold Path.join
  split
  · exact hq
  split
  · exact hq
  rw [isText_iff_bytes] at hp hq ⊢
  split
  · rename_i hlast
    obtain ⟨body, hbody⟩ := List.getLast?_eq_some_iff.1 hlast
    rw [hbody, Utf8.isSome_decode?_append_ascii (by decide)] at hp
    rw [hbody, List.append_assoc]
    exact (Utf8.isSome_decode?_append_ascii (by decide)).2 ⟨hp.1, hq⟩
  · exact (Utf8.isSome_decode?_append_ascii (by decide)).2 ⟨hp, hq⟩

theorem IsText.resolveAgainst (hbase : base.IsText) (hp : p.IsText) :
    (base.resolveAgainst p).IsText := by
  unfold Path.resolveAgainst
  split
  · exact hp.normalize
  · exact (hbase.join hp).normalize

theorem IsText.parent (h : p.IsText) (hq : p.parent = some q) : q.IsText := by
  have hcomponents : q.components = p.components.dropLast := by
    have hspelled : Spelled p.components.dropLast := by
      rw [List.dropLast_eq_take]
      exact p.components_spelled.take _
    unfold Path.parent at hq
    split at hq
    · cases hq
    · cases hq
    · rw [← Option.some.inj hq, components_ofComponents hspelled]
  apply h.of_subset
  intro name hname
  rw [hcomponents] at hname
  exact List.mem_of_mem_dropLast hname

/-! ## Names below a directory -/

theorem foldl_pushStep_names (names : List Bytes) (stack : List Component) :
    (names.map Component.normal).foldl pushStep stack =
      (names.map Component.normal).reverse ++ stack := by
  induction names generalizing stack with
  | nil => rfl
  | cons name names ih => simp [ih]

/-- Names below a directory are text if the address is. -/
theorem isText_ofNames_of_resolveAgainst (hnames : ∀ n ∈ names, IsName n)
    (h : (base.resolveAgainst (ofNames names)).IsText) : (ofNames names).IsText := by
  have hrelative := isAbsolute_ofNames hnames
  apply h.of_subset
  intro name hname
  rw [components_ofNames hnames] at hname
  rw [Path.resolveAgainst, hrelative, if_neg Bool.false_ne_true, components_normalize,
    normalComponents, foldl_join base hrelative, components_ofNames hnames, foldl_pushStep_names,
    List.mem_reverse]
  exact List.mem_append_left _ (List.mem_reverse.2 hname)

end Path

end DocDrive
