import DocDrive.Proofs.Unreadable
import DocDrive.Proofs.Utf8

/-!
# Hidden entries

A path is hidden when one of its names begins with a dot. No file of a hidden entry enters a drive,
but a walk that has a problem with a hidden entry is reported all the same: the problem is noted
before anyone asks whether the entry is hidden.

* `Path.isHidden_of_hasDottedName` — the paths that are turned away for a dot.
* `Scope.visit_of_isHidden` — what a hidden entry comes to.
* `hidden_entries_inert` — leaving hidden entries out of a walk takes away their walk errors, and
  nothing else.
* `hidden_directory_reported` — a hidden directory that cannot be read is an error of the drive.
-/

namespace DocDrive

/-! ## Dotted names -/

/-- A name with a dot in front. -/
def Component.isDotted : Component → Bool
  | .normal name => name.head? == some Component.dot
  | _ => false

/-- A path with a dotted name among its steps. `.` and `..` are steps, but no names. -/
def Path.hasDottedName (p : Path) : Bool := p.components.any Component.isDotted

/-- **A path that is text is turned away for a dotted name.** -/
theorem Path.isHidden_of_hasDottedName {p : Path} (htext : p.toString?.isSome = true)
    (h : p.hasDottedName = true) : p.isHidden = true := by
  obtain ⟨c, hc, hdotted⟩ := List.any_eq_true.1 h
  refine List.any_eq_true.2 ⟨c, hc, ?_⟩
  cases c with
  | root => cases hdotted
  | current => cases hdotted
  | parent => cases hdotted
  | normal name =>
    obtain ⟨rest, rfl⟩ : ∃ rest, name = Component.dot :: rest := by
      rw [Component.isDotted, beq_iff_eq] at hdotted
      exact List.head?_eq_some_iff.1 hdotted
    obtain ⟨text, hdecode⟩ :=
      Utf8.decode?_cons_ascii (by decide) (Path.isText_of_mem_components htext hc)
    rw [Component.isHidden, hdecode]
    rfl

/-! ## Visits -/

section Visits

variable {s : Scope} {tree : FileTree} {e : WalkEntry} {walk : List WalkEntry}

/-- **What a hidden entry comes to**: its walk error, if there is one; else it is passed or turned
away. -/
theorem Scope.visit_of_isHidden (hall : s.only = none) (h : e.path.isHidden = true) :
    (s.visit tree e).record? = none ∧ (s.visit tree e).errors =
      e.error.toList.map fun io =>
        .walk (s.directory.resolveAgainst e.path) io.kind io.message := by
  have hcounts : s.ignores e.path = false := by rw [Scope.ignores, hall]
  have hrejected : admission s.filters e.path = .error .hidden := by
    rw [admission, if_pos h]
  unfold Scope.visit
  rw [hcounts, if_neg Bool.false_ne_true]
  cases e.error with
  | some io => exact ⟨rfl, rfl⟩
  | none =>
    dsimp only
    by_cases hdirectory : e.isDirectory = true
    · rw [if_pos hdirectory]
      exact ⟨rfl, rfl⟩
    · rw [if_neg hdirectory, hrejected]
      exact ⟨rfl, rfl⟩

end Visits

/-! ## Parts of a list -/

section Parts

variable {α β : Type} {f : α → List β} {keep : α → Bool} {l : List α}

/-- What is left out is missed exactly if something comes of it. -/
theorem flatMap_filter_eq_iff :
    (l.filter keep).flatMap f = l.flatMap f ↔ ∀ a ∈ l, keep a = false → f a = [] := by
  induction l with
  | nil => simp
  | cons a l ih =>
    rw [List.forall_mem_cons, ← ih, List.flatMap_cons]
    cases hkeep : keep a with
    | true =>
      rw [List.filter_cons_of_pos hkeep, List.flatMap_cons, List.append_cancel_left_eq]
      simp
    | false =>
      rw [List.filter_cons_of_neg (by simp [hkeep])]
      constructor
      · intro heq
        -- The rest alone cannot make up for what came of the first.
        have hsub : (l.filter keep).Sublist l := List.filter_sublist
        have hshort := (hsub.flatMap f).length_le
        have hlength := congrArg List.length heq
        rw [List.length_append] at hlength
        have hnone : f a = [] := List.eq_nil_of_length_eq_zero (by omega)
        rw [hnone, List.nil_append] at heq
        exact ⟨fun _ => hnone, heq⟩
      · rintro ⟨hnone, heq⟩
        rw [hnone rfl, List.nil_append]
        exact heq

end Parts

/-! ## Walks without hidden entries -/

section Discoveries

variable {host : Host} {c : DiscoveryConfig} {walk : List WalkEntry}

/-- **Hidden entries change nothing but the walk errors.** Let a walk of a directory list paths that
are text, and let some entries with a dotted name be left out of it. Both walks make a drive, with
the same root and the same records. The errors are the same in the same order, but for the walk
errors of the entries that were left out; so they are the same exactly if none of those entries had
one. -/
theorem hidden_entries_inert {keep : WalkEntry → Bool} (first : Nat) (tree : FileTree)
    (hplaced : host.refusal? c.base = none)
    (hdirectory : FileClass.classify c.base = .unsupported)
    (htext : ∀ e ∈ walk, e.path.toString?.isSome = true)
    (hkeep : ∀ e ∈ walk, keep e = false → e.path.hasDottedName = true) :
    ∃ d d', discover host first (c.walking tree walk) = .ok d ∧
      discover host first (c.walking tree (walk.filter keep)) = .ok d' ∧
      d'.root = d.root ∧ d'.entries = d.entries ∧ d'.errors.Sublist d.errors ∧
      (∀ err, err ∈ d.errors ↔ err ∈ d'.errors ∨ ∃ e ∈ walk, keep e = false ∧
        ∃ io, e.error = some io ∧ err = .walk (d.resolve e.path) io.kind io.message) ∧
      (d'.errors = d.errors ↔ ∀ e ∈ walk, keep e = false → e.error = none) := by
  have hmade : ∀ w, ∃ d, discover host first (c.walking tree w) = .ok d :=
    fun w => exists_discover (c := c.walking tree w) first hplaced rfl
  obtain ⟨d, hd⟩ := hmade walk
  obtain ⟨d', hd'⟩ := hmade (walk.filter keep)
  have hall : (c.scope host.cwd).only = none := by
    rw [DiscoveryConfig.scope_of_unsupported hdirectory]
  have hvisit : ∀ e ∈ walk, keep e = false →
      ((c.scope host.cwd).visit tree e).record? = none ∧
      ((c.scope host.cwd).visit tree e).errors = e.error.toList.map fun io =>
        .walk ((c.scope host.cwd).directory.resolveAgainst e.path) io.kind io.message :=
    fun e he hdropped => Scope.visit_of_isHidden hall
      (Path.isHidden_of_hasDottedName (htext e he) (hkeep e he hdropped))
  obtain ⟨hroot, -⟩ := discover_eq_ok_of_walk hd rfl
  obtain ⟨hroot', -⟩ := discover_eq_ok_of_walk hd' rfl
  have hresolve : ∀ p, d.resolve p = (c.scope host.cwd).directory.resolveAgainst p := by
    intro p
    rw [Drive.resolve, hroot]
    rfl
  refine ⟨d, d', hd, hd', hroot'.trans hroot.symm, ?_, ?_, fun err => ?_, ?_⟩
  · have hrecords : (c.scope host.cwd).records tree (walk.filter keep) =
        (c.scope host.cwd).records tree walk := by
      refine Scope.records_filter fun e he r hr => ?_
      cases hkept : keep e with
      | true => rfl
      | false => cases (hvisit e he hkept).1.symm.trans hr
    rw [entries_of_walking hd, entries_of_walking hd', Scope.entries, Scope.entries, hrecords]
  · rw [errors_of_walking hd, errors_of_walking hd']
    exact List.filter_sublist.flatMap _
  · rw [errors_of_walking hd, errors_of_walking hd', List.mem_flatMap, List.mem_flatMap]
    constructor
    · rintro ⟨e, he, herr⟩
      cases hkept : keep e with
      | true => exact Or.inl ⟨e, List.mem_filter.2 ⟨he, hkept⟩, herr⟩
      | false =>
        rw [(hvisit e he hkept).2] at herr
        obtain ⟨io, hio, rfl⟩ := List.mem_map.1 herr
        rw [← hresolve]
        exact Or.inr ⟨e, he, hkept, io, Option.mem_toList.1 hio, rfl⟩
    · rintro (⟨e, he, herr⟩ | ⟨e, he, hdropped, io, hio, rfl⟩)
      · exact ⟨e, List.mem_of_mem_filter he, herr⟩
      · refine ⟨e, he, ?_⟩
        rw [(hvisit e he hdropped).2, hresolve]
        exact List.mem_map.2 ⟨io, Option.mem_toList.2 hio, rfl⟩
  · rw [errors_of_walking hd, errors_of_walking hd', flatMap_filter_eq_iff]
    refine forall_congr' fun e => forall_congr' fun he => forall_congr' fun hdropped => ?_
    rw [(hvisit e he hdropped).2, List.map_eq_nil_iff, Option.toList_eq_nil_iff]

/-! ## A hidden directory that cannot be read -/

/-- A document beside a hidden directory that cannot be read and a hidden document. -/
def hiddenTree : MemoryTree :=
  (({} : MemoryTree).withFile (.ofString "a.json") { data := [0x7B, 0x7D] }).withUnreadable
    (.ofString ".git") |>.withFile (.ofString "b/.c.json") { data := [0x7B, 0x7D] }

/-- A walk without the entries that have a dotted name. -/
def shownOf (walk : List WalkEntry) : List WalkEntry :=
  walk.filter fun e => !e.path.hasDottedName

/-- The hidden document makes no difference, and the hidden directory makes an error. -/
theorem hidden_entries_inert_document : ∃ d d' r,
    discover aliasHost 0 (({} : DiscoveryConfig).walking hiddenTree.toFileTree hiddenTree.walk) =
      .ok d ∧
    discover aliasHost 0 (({} : DiscoveryConfig).walking hiddenTree.toFileTree
      (shownOf hiddenTree.walk)) = .ok d' ∧
    d.entries = [(.ofString "/w/a.json", r)] ∧ d'.entries = d.entries ∧ d'.errors ≠ d.errors := by
  have hkeep : ∀ e ∈ hiddenTree.walk, (!e.path.hasDottedName) = false →
      e.path.hasDottedName = true := by
    intro e _ hdropped
    rwa [Bool.not_eq_false'] at hdropped
  obtain ⟨d, d', hd, hd', -, hsame, -, -, herrors⟩ :=
    @hidden_entries_inert aliasHost {} hiddenTree.walk _ 0 hiddenTree.toFileTree rfl rfl
      (by decide) hkeep
  obtain ⟨d₀, r, hd₀, hentries⟩ : ∃ d r, discover aliasHost 0
      (({} : DiscoveryConfig).walking hiddenTree.toFileTree hiddenTree.walk) = .ok d ∧
        d.entries = [(.ofString "/w/a.json", r)] := ⟨_, _, rfl, rfl⟩
  obtain rfl : d₀ = d := Except.ok.inj (hd₀.symm.trans hd)
  refine ⟨d₀, d', r, hd, hd', hentries, hsame, ?_⟩
  rw [Ne, herrors]
  decide

/-- **A hidden directory that cannot be read is an error of the drive**, and without its entry there
is none. -/
theorem hidden_directory_reported : ∃ (config : DiscoveryConfig) (tree : MemoryTree)
    (d d' : LocalDrive), FileClass.classify config.base = .unsupported ∧
    (∀ e ∈ tree.walk, e.path.toString?.isSome = true) ∧
    discover aliasHost 0 (config.walking tree.toFileTree tree.walk) = .ok d ∧
    discover aliasHost 0 (config.walking tree.toFileTree (shownOf tree.walk)) = .ok d' ∧
    d.errors.map DiscoveryError.path = [.ofString "/w/.git"] ∧ d'.errors = [] :=
  ⟨{}, ({} : MemoryTree).withUnreadable (.ofString ".git"), _, _, rfl, by decide, rfl, rfl, rfl,
    rfl⟩

end Discoveries

end DocDrive
