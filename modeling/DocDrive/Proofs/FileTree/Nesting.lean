import DocDrive.Proofs.FileTree.Reachable

/-!
# Files with something below them

On a disk, only a directory has something below it. A tree in memory is built entry by entry: with
an entry come the directories above it, but only where nothing is stored yet, and what is added
replaces what was there. So a file that was added above other entries stays a file, in whichever
order they were added, and the walk yields what is below it.

* `nested_add_iff` — the additions that leave every file without anything below it.
* `stored?_eq_file_iff`, `nested_built_iff` — where files are stored in the end, and whether
  something is below them.
* `Sorted.exists_walk_below` — what is stored below a file shows in the walk.
* `files_above_additions` — the extent, over all trees that additions build.
-/

namespace DocDrive

namespace MemoryTree

variable {t : MemoryTree} {p q : Path} {entry : MemoryEntry} {f : MemoryFile}
  {additions : List Addition}

/-- Everything that stands above something stored is a directory. -/
def Nested (t : MemoryTree) : Prop :=
  ∀ p q, (∃ entry, t.find? p = some entry) → q.Above p →
    ∃ unreadable, t.find? q = some (.directory unreadable)

/-! ## One addition -/

/-- **The additions that a nested tree can take**: there is no file above them, and nothing below a
file that they bring. -/
theorem nested_add_iff (h : t.Nested) (p : Path) (entry : MemoryEntry) :
    (t.add p entry).Nested ↔ (∀ q f, q.Above p → t.find? q ≠ some (.file f)) ∧
      ∀ f, entry = .file f → ∀ q, p.Above q → t.find? q = none := by
  constructor
  · intro hnested
    constructor
    · intro q f hq hfile
      obtain ⟨unreadable, hdirectory⟩ := hnested p q ⟨entry, find?_add_self t p entry⟩ hq
      rw [find?_add_of_above hq, hfile] at hdirectory
      cases hdirectory
    · rintro f rfl q hq
      cases hold : t.find? q with
      | none => rfl
      | some old =>
        have hstays := find?_add_of_stored hq.same_eq_false hold (.file f)
        obtain ⟨unreadable, hdirectory⟩ := hnested q p ⟨old, hstays⟩ hq
        cases (find?_add_self t p (.file f)).symm.trans hdirectory
  · rintro ⟨hclear, hbare⟩ r q hr hq
    -- Above the addition there was a directory or nothing.
    have hover : q.Above p →
        ∃ unreadable, (t.add p entry).find? q = some (.directory unreadable) := by
      intro hqp
      rw [find?_add_of_above hqp]
      cases hold : t.find? q with
      | none => exact ⟨false, rfl⟩
      | some old =>
        cases old with
        | file f => exact absurd hold (hclear q f hqp)
        | directory unreadable => exact ⟨unreadable, rfl⟩
    obtain ⟨old, hr⟩ := hr
    rcases exists_find?_add hr with hsame | habove | hold
    · exact hover (hq.of_same (Path.same_iff.1 hsame).symm)
    · exact hover (hq.trans habove)
    · cases hpq : p.same q with
      | false =>
        obtain ⟨unreadable, hdirectory⟩ := h r q ⟨old, hold⟩ hq
        exact ⟨unreadable, find?_add_of_stored hpq hdirectory entry⟩
      | true =>
        rw [← find?_congr _ hpq, find?_add_self]
        cases entry with
        | directory unreadable => exact ⟨unreadable, rfl⟩
        | file f =>
          -- A file that is put there has nothing below it.
          have hpr : p.Above r := by
            unfold Path.Above at hq ⊢
            rwa [Path.same_iff.1 hpq]
          cases (hbare f rfl r hpr).symm.trans hold

/-! ## All additions -/

/-- What the last of the additions at an address puts there. -/
def last? (additions : List Addition) (q : Path) : Option MemoryEntry :=
  (additions.reverse.find? fun a => a.path.same q).map Addition.entry

/-- **Files are stored where the last addition brings one.** -/
theorem stored?_eq_file_iff :
    stored? additions q = some (.file f) ↔ last? additions q = some (.file f) := by
  rw [stored?, Option.or_eq_some_iff]
  constructor
  · rintro (hlast | ⟨-, hdirectory⟩)
    · exact hlast
    · split at hdirectory
      · cases hdirectory
      · cases hdirectory
  · intro hlast
    exact Or.inl hlast

/-- **Whether additions build a nested tree**: no file is left above an addition. -/
theorem nested_built_iff (additions : List Addition) : (built additions).Nested ↔
    ∀ q f, last? additions q = some (.file f) → ∀ a ∈ additions, ¬q.Above a.path := by
  unfold Nested
  simp only [find?_built]
  constructor
  · intro hnested q f hlast a ha habove
    have hstored := exists_stored_iff.2 ⟨a, ha, Or.inl (Path.same_iff.2 rfl)⟩
    obtain ⟨unreadable, hdirectory⟩ := hnested a.path q hstored habove
    cases (stored?_eq_file_iff.2 hlast).symm.trans hdirectory
  · rintro hclear p q ⟨entry, hp⟩ hq
    obtain ⟨upper, hupper⟩ := exists_stored_of_above hp hq
    cases upper with
    | directory unreadable => exact ⟨unreadable, hupper⟩
    | file f =>
      have hlast := stored?_eq_file_iff.1 hupper
      obtain ⟨a, ha, hsame | habove⟩ := exists_stored_iff.1 ⟨entry, hp⟩
      · exact absurd (hq.of_same (Path.same_iff.1 hsame).symm) (hclear q f hlast a ha)
      · exact absurd (hq.trans habove) (hclear q f hlast a ha)

/-! ## The walk -/

/-- **What is stored below a file shows in the walk**, at least as the unreadable directory that
hides the rest. -/
theorem Sorted.exists_walk_below (h : t.Sorted) {g : WalkEntry} (hg : g ∈ t.walk)
    (hfile : g.isDirectory = false) (hp : t.find? p = some entry) (habove : g.path.Above p) :
    ∃ e ∈ t.walk, g.path.Above e.path := by
  obtain ⟨stored, hstored, hlisted, hreach⟩ := find?_of_mem_walk h hg
  have hstoredFile : stored ≠ .directory true := by
    rintro rfl
    rw [← hlisted] at hfile
    cases hfile
  -- The induction goes up from what is hidden to what hides it.
  induction hlength : p.components.length using Nat.strongRecOn generalizing p entry with
  | ind n ih =>
    by_cases hclear : t.Reachable p
    · obtain ⟨e, he, hsame⟩ := h.reaches_iff.2 ⟨⟨entry, hp⟩, hclear⟩
      exact ⟨e, he, habove.of_same (Path.same_iff.1 hsame).symm⟩
    · unfold Reachable at hclear
      simp only [not_forall] at hclear
      obtain ⟨d, hd, hstarts, hne⟩ := hclear
      rw [Path.same_iff] at hne
      have hfront := Path.startsWith_iff.1 hstarts
      have hgd : g.path.Above d := by
        have hdg : ¬d.components <+: g.path.components := by
          intro hdg
          have hsame := hreach d hd (Path.startsWith_iff.2 hdg)
          rw [find?_congr t hsame] at hd
          exact hstoredFile (Option.some.inj (hstored.symm.trans hd))
        refine ⟨habove.1, ?_, ?_⟩
        · exact (List.prefix_or_prefix_of_prefix hfront habove.2.1).resolve_left hdg
        · intro hsame
          exact hdg (hsame ▸ List.prefix_rfl)
      refine ih d.components.length ?_ hd hgd rfl
      rw [← hlength]
      exact Nat.lt_of_le_of_ne hfront.length_le fun hall => hne (hfront.eq_of_length hall)

/-- **How far a tree in memory is one.** Let additions build a tree, in any order and with any
spellings. What stands above something stored is stored too: as a file if the last addition at its
address brings a file, and as a directory otherwise. So nothing but directories has something below
it exactly if no addition stands below an address at which a file was added last. The walk yields
something below a file that it yields exactly if some addition stands below that file. And while
only directories have something below them, one more addition leaves it at that exactly if no file
is stored above it and, in case it brings a file, nothing is stored below it. -/
theorem files_above_additions (additions : List Addition) :
    (∀ p entry q, (built additions).find? p = some entry → q.Above p →
      (∃ upper, (built additions).find? q = some upper) ∧
        ∀ f, (built additions).find? q = some (.file f) ↔ last? additions q = some (.file f)) ∧
    ((built additions).Nested ↔
      ∀ q f, last? additions q = some (.file f) → ∀ a ∈ additions, ¬q.Above a.path) ∧
    (∀ g ∈ (built additions).walk, g.isDirectory = false →
      ((∃ e ∈ (built additions).walk, g.path.Above e.path) ↔
        ∃ a ∈ additions, g.path.Above a.path)) ∧
    ∀ a, (built additions).Nested → ((built (additions ++ [a])).Nested ↔
      (∀ q f, q.Above a.path → (built additions).find? q ≠ some (.file f)) ∧
        ∀ f, a.entry = .file f → ∀ q, a.path.Above q → (built additions).find? q = none) := by
  have hsorted := sorted_built additions
  have hfind := find?_built additions
  refine ⟨fun p entry q hp hq => ?_, nested_built_iff additions, fun g hg hfile => ?_,
    fun a hnested => ?_⟩
  · rw [hfind] at hp ⊢
    exact ⟨exists_stored_of_above hp hq, fun f => stored?_eq_file_iff⟩
  · constructor
    · rintro ⟨e, he, habove⟩
      obtain ⟨entry, hentry, -⟩ := find?_of_mem_walk hsorted he
      obtain ⟨a, ha, hsame | hbelow⟩ := exists_stored_iff.1 ⟨entry, (hfind _).symm.trans hentry⟩
      · exact ⟨a, ha, habove.of_same (Path.same_iff.1 hsame).symm⟩
      · exact ⟨a, ha, habove.trans hbelow⟩
    · rintro ⟨a, ha, habove⟩
      obtain ⟨entry, hentry⟩ := exists_stored_iff.2 ⟨a, ha, Or.inl (Path.same_iff.2 rfl)⟩
      exact hsorted.exists_walk_below hg hfile ((hfind _).trans hentry) habove
  · rw [built_concat]
    exact nested_add_iff hnested a.path a.entry

/-- A file, and then a file below it. -/
def stackedAdditions : List Addition :=
  [.file (.ofString "a") { data := [] }, .file (.ofString "a/b") { data := [] }]

/-- The first file alone has nothing below it. The second is added below it nevertheless, and the
walk yields it. -/
theorem files_above_additions_stacked :
    (built [.file (.ofString "a") { data := [] }]).Nested ∧ ¬(built stackedAdditions).Nested ∧
      ∃ e ∈ (built stackedAdditions).walk, (Path.ofString "a").Above e.path := by
  obtain ⟨-, hnested, -, hstep⟩ :=
    files_above_additions [.file (.ofString "a") { data := [] }]
  obtain ⟨-, -, hwalk, -⟩ := files_above_additions stackedAdditions
  have hfirst : (built [.file (.ofString "a") { data := [] }]).Nested := by
    refine hnested.2 fun q f hlast a ha habove => ?_
    obtain rfl := List.mem_singleton.1 ha
    obtain ⟨b, hfound, -⟩ := Option.map_eq_some_iff.1 hlast
    obtain rfl := List.mem_singleton.1 (List.mem_of_find?_eq_some hfound)
    have hsame := List.find?_some hfound
    rw [Path.same_iff] at hsame
    exact habove.2.2 hsame.symm
  refine ⟨hfirst, fun hstacked => ?_, ?_⟩
  · obtain ⟨hclear, -⟩ := (hstep (.file (.ofString "a/b") { data := [] }) hfirst).1 hstacked
    exact hclear (.ofString "a") { data := [] } (by decide) rfl
  · have hmem : { path := .ofString "a" } ∈ (built stackedAdditions).walk := List.mem_cons_self
    exact (hwalk _ hmem rfl).2 ⟨.file (.ofString "a/b") { data := [] }, by decide, by decide⟩

/-- A file is stored, and walked, with another file below it. -/
theorem file_walked_above_file :
    (built stackedAdditions).walk = [{ path := .ofString "a" }, { path := .ofString "a/b" }] ∧
    (built stackedAdditions).find? (.ofString "a") = some (.file { data := [] }) ∧
    (built stackedAdditions).find? (.ofString "a/b") = some (.file { data := [] }) ∧
    (Path.ofString "a").Above (.ofString "a/b") ∧ ¬(built stackedAdditions).Nested := by
  refine ⟨rfl, rfl, rfl, by decide, fun hnested => ?_⟩
  obtain ⟨unreadable, hdirectory⟩ :=
    hnested (.ofString "a/b") (.ofString "a") ⟨_, rfl⟩ (by decide)
  cases hdirectory

end MemoryTree

end DocDrive
