import DocDrive.Proofs.Discovery
import Mathlib.Data.List.Flatten

/-!
# Discoveries that differ in their allow-list

Two requests that differ in nothing but the allow-list walk the same tree, and an entry comes to the
same in both where the lists agree on its path. So a discovery with a list is the discovery without
one, looked at through the list: an entry is collected where it would be and its path is allowed
(`Scope.collectsAt_filtering_iff`), and its problems are those it would have, or none
(`Scope.errors_visit_sublist`). This goes entry by entry. Which of several entries holds an address
does not: the list may turn away the entry that would have come first.

* `allowed_append_iff` — two lists in one allow what either allows.
* `Scope.exists_mem_entries_value_iff` — the record at an address, by the entry that brings it.
* `Scope.exists_mem_entries_append_iff`, `Scope.mem_entries_append` — the addresses that two lists
  in one collect, and the records there.
* `filtering_distributes` — all of this for whole discoveries.
-/

namespace DocDrive

variable {p : Path} {filters filters' : Option (List String)} {F G : List String}
  {s : Scope} {tree : FileTree} {e : WalkEntry} {walk : List WalkEntry} {k : Path} {r : Record}
  {first : Nat}

/-! ## The list and a path -/

/-- A list with anything on it allows exactly the paths that it names. -/
theorem allowed_some_iff (hne : F ≠ []) : allowed (some F) p = true ↔ p.display ∈ F := by
  cases F with
  | nil => exact absurd rfl hne
  | cons f rest => exact List.contains_iff_mem

theorem allowed_append_iff (hF : F ≠ []) (hG : G ≠ []) : allowed (some (F ++ G)) p = true ↔
    allowed (some F) p = true ∨ allowed (some G) p = true := by
  have hne : F ++ G ≠ [] := List.append_ne_nil_of_left_ne_nil hF G
  rw [allowed_some_iff hne, allowed_some_iff hF, allowed_some_iff hG, List.mem_append]

theorem allowed_append_left (hF : F ≠ []) (hG : G ≠ []) (p : Path)
    (h : allowed (some F) p = true) : allowed (some (F ++ G)) p = true :=
  (allowed_append_iff hF hG).2 (Or.inl h)

theorem allowed_append_right (hF : F ≠ []) (hG : G ≠ []) (p : Path)
    (h : allowed (some G) p = true) : allowed (some (F ++ G)) p = true :=
  (allowed_append_iff hF hG).2 (Or.inr h)

/-- The order of a list and its repetitions do not matter. -/
theorem allowed_congr (h : ∀ f, f ∈ F ↔ f ∈ G) : allowed (some F) p = allowed (some G) p := by
  by_cases hF : F = []
  · have hG : G = [] := by
      apply List.eq_nil_iff_forall_not_mem.2
      intro f hf
      simpa [hF] using (h f).2 hf
    rw [hF, hG]
  · have hG : G ≠ [] := by
      rintro rfl
      obtain ⟨f, hf⟩ := List.exists_mem_of_ne_nil F hF
      simpa using (h f).1 hf
    rw [Bool.eq_iff_iff, allowed_some_iff hF, allowed_some_iff hG, h]

/-- Admission asks the list about nothing but the path. -/
theorem admission_congr (h : allowed filters p = allowed filters' p) :
    admission filters p = admission filters' p := by
  unfold admission
  rw [h]

/-! ## One entry under two lists -/

/-- The same scope under another list. -/
def Scope.filtering (s : Scope) (filters : Option (List String)) : Scope := { s with filters }

/-- The list is asked last, about a file that counts and that the walk met no problem with. -/
theorem Scope.visit_filtering : (s.filtering filters).visit tree e =
    if s.ignores e.path then .passed
    else
      match e.error with
      | some error => .failed (s.directory.resolveAgainst e.path) error.kind error.message
      | none =>
        if e.isDirectory then .passed
        else
          match admission filters e.path with
          | .error reason => .rejected e.path reason
          | .ok _ => .acquired (acquire tree s.directory e.path) := rfl

/-- **Where two lists agree, an entry comes to the same.** -/
theorem Scope.visit_filtering_congr (h : allowed filters e.path = allowed filters' e.path) :
    (s.filtering filters).visit tree e = (s.filtering filters').visit tree e := by
  rw [visit_filtering, visit_filtering, admission_congr h]

/-- **An entry is collected** where it would be without a list, if its path is allowed. -/
theorem Scope.collectsAt_filtering_iff : (s.filtering filters).CollectsAt tree k e ↔
    allowed filters e.path = true ∧ (s.filtering none).CollectsAt tree k e := by
  constructor
  · rintro ⟨⟨file, bytes, hcollects⟩, hk⟩
    obtain ⟨c, hadmitted⟩ := hcollects.admitted
    obtain ⟨hhidden, hallowed, hclass⟩ := admission_eq_ok_iff.1 hadmitted
    refine ⟨hallowed, ⟨file, bytes, { hcollects with admitted := ⟨c, ?_⟩ }⟩, hk⟩
    exact admission_eq_ok_iff.2 ⟨hhidden, rfl, hclass⟩
  · rintro ⟨hallowed, ⟨file, bytes, hcollects⟩, hk⟩
    obtain ⟨c, hadmitted⟩ := hcollects.admitted
    obtain ⟨hhidden, -, hclass⟩ := admission_eq_ok_iff.1 hadmitted
    refine ⟨⟨file, bytes, { hcollects with admitted := ⟨c, ?_⟩ }⟩, hk⟩
    exact admission_eq_ok_iff.2 ⟨hhidden, hallowed, hclass⟩

theorem Scope.collectsAt_append_iff (hF : F ≠ []) (hG : G ≠ []) :
    (s.filtering (some (F ++ G))).CollectsAt tree k e ↔
      (s.filtering (some F)).CollectsAt tree k e ∨ (s.filtering (some G)).CollectsAt tree k e := by
  rw [collectsAt_filtering_iff, allowed_append_iff hF hG, or_and_right,
    ← collectsAt_filtering_iff, ← collectsAt_filtering_iff]

/-- What an entry that is allowed brings does not depend on the list that allows it. -/
theorem Scope.collectsAs_filtering_iff (h : allowed filters e.path = allowed filters' e.path) :
    (s.filtering filters).CollectsAs tree k e r ↔ (s.filtering filters').CollectsAs tree k e r := by
  rw [← visit_record?_at_iff, ← visit_record?_at_iff, visit_filtering_congr h]

/-- An entry that the list turns away is rejected, unless it would never have been asked about. -/
theorem Scope.visit_of_not_allowed (filters' : Option (List String))
    (h : allowed filters e.path = false) :
    (s.filtering filters).visit tree e = (s.filtering filters').visit tree e ∨
      ∃ reason, (s.filtering filters).visit tree e = .rejected e.path reason := by
  cases hadmission : admission filters e.path with
  | ok c =>
    obtain ⟨-, hallowed, -⟩ := admission_eq_ok_iff.1 hadmission
    cases h.symm.trans hallowed
  | error reason =>
    rw [visit_filtering, visit_filtering, hadmission]
    by_cases hignored : s.ignores e.path = true
    · left
      rw [if_pos hignored, if_pos hignored]
    · rw [if_neg hignored, if_neg hignored]
      cases e.error with
      | some error => exact Or.inl rfl
      | none =>
        cases e.isDirectory with
        | true => exact Or.inl rfl
        | false => exact Or.inr ⟨reason, rfl⟩

/-- **A list that allows more leaves the problems of an entry as they are, or lets them in.** -/
theorem Scope.errors_visit_sublist
    (h : allowed filters e.path = true → allowed filters' e.path = true) :
    ((s.filtering filters).visit tree e).errors.Sublist
      ((s.filtering filters').visit tree e).errors := by
  cases hallowed : allowed filters e.path with
  | true => rw [visit_filtering_congr (hallowed.trans (h hallowed).symm)]
  | false =>
    rcases visit_of_not_allowed filters' hallowed with hsame | ⟨reason, hrejected⟩
    · rw [hsame]
    · rw [hrejected]
      exact List.nil_sublist _

/-! ## A whole walk under two lists -/

/-- A list that allows more collects at every address at which the other does. -/
theorem Scope.exists_mem_entries_mono
    (h : ∀ p, allowed filters p = true → allowed filters' p = true)
    (hk : ∃ x, (k, x) ∈ (s.filtering filters).entries tree first walk) :
    ∃ x, (k, x) ∈ (s.filtering filters').entries tree first walk := by
  obtain ⟨e, he, hcollects⟩ := (exists_mem_entries_iff first).1 hk
  obtain ⟨hallowed, hcollects⟩ := collectsAt_filtering_iff.1 hcollects
  exact (exists_mem_entries_iff first).2
    ⟨e, he, collectsAt_filtering_iff.2 ⟨h e.path hallowed, hcollects⟩⟩

theorem Scope.errors_walk_sublist
    (h : ∀ p, allowed filters p = true → allowed filters' p = true) :
    (walk.flatMap fun e => ((s.filtering filters).visit tree e).errors).Sublist
      (walk.flatMap fun e => ((s.filtering filters').visit tree e).errors) := by
  apply List.Sublist.flatMap_right
  intro e _
  exact errors_visit_sublist (h e.path)

/-- **Two lists in one collect at the addresses of either.** -/
theorem Scope.exists_mem_entries_append_iff (hF : F ≠ []) (hG : G ≠ []) :
    (∃ x, (k, x) ∈ (s.filtering (some (F ++ G))).entries tree first walk) ↔
      (∃ x, (k, x) ∈ (s.filtering (some F)).entries tree first walk) ∨
        ∃ x, (k, x) ∈ (s.filtering (some G)).entries tree first walk := by
  constructor
  · intro hk
    obtain ⟨e, he, hcollects⟩ := (exists_mem_entries_iff first).1 hk
    rcases (collectsAt_append_iff hF hG).1 hcollects with hcollects | hcollects
    · exact Or.inl ((exists_mem_entries_iff first).2 ⟨e, he, hcollects⟩)
    · exact Or.inr ((exists_mem_entries_iff first).2 ⟨e, he, hcollects⟩)
  · rintro (hk | hk)
    · exact exists_mem_entries_mono (allowed_append_left hF hG) hk
    · exact exists_mem_entries_mono (allowed_append_right hF hG) hk

/-- What a longer list finds first at an address, a shorter list that allows it finds first. -/
theorem Scope.mem_entries_of_first {front back : List WalkEntry}
    (h : ∀ p, allowed filters p = true → allowed filters' p = true)
    (hallowed : allowed filters e.path = true) (hwalk : walk = front ++ e :: back)
    (hcollects : (s.filtering filters').CollectsAs tree k e r)
    (hfront : ∀ f ∈ front, ¬(s.filtering filters').CollectsAt tree k f) :
    ∃ x, (k, x) ∈ (s.filtering filters).entries tree first walk ∧ x.value = r := by
  apply (exists_mem_entries_value_iff first).2
  refine ⟨front, e, back, hwalk, ?_, fun f hf hat => hfront f hf ?_⟩
  · exact (collectsAs_filtering_iff (hallowed.trans (h e.path hallowed).symm)).2 hcollects
  · obtain ⟨hf, hat⟩ := collectsAt_filtering_iff.1 hat
    exact collectsAt_filtering_iff.2 ⟨h f.path hf, hat⟩

/-- **Two lists in one collect no record of their own**: what they find at an address, one of them
finds there alone. -/
theorem Scope.mem_entries_append (hF : F ≠ []) (hG : G ≠ [])
    {x : Shared Record} (hx : (k, x) ∈ (s.filtering (some (F ++ G))).entries tree first walk) :
    (∃ y, (k, y) ∈ (s.filtering (some F)).entries tree first walk ∧ y.value = x.value) ∨
      ∃ y, (k, y) ∈ (s.filtering (some G)).entries tree first walk ∧ y.value = x.value := by
  obtain ⟨front, e, back, hwalk, hcollects, hfront⟩ := first_of_mem_entries hx
  obtain ⟨hallowed, -⟩ := collectsAt_filtering_iff.1 hcollects.collectsAt
  rcases (allowed_append_iff hF hG).1 hallowed with hallowed | hallowed
  · left
    exact mem_entries_of_first (allowed_append_left hF hG) hallowed hwalk hcollects hfront
  · right
    exact mem_entries_of_first (allowed_append_right hF hG) hallowed hwalk hcollects hfront

/-! ## Whole discoveries -/

variable {host : Host} {c : DiscoveryConfig}

/-- The same request with another list. -/
def DiscoveryConfig.filtering (c : DiscoveryConfig) (filters : Option (List String)) :
    DiscoveryConfig := { c with filters }

@[simp] theorem DiscoveryConfig.scope_filtering (c : DiscoveryConfig)
    (filters : Option (List String)) (cwd : Path) :
    (c.filtering filters).scope cwd = (c.scope cwd).filtering filters := by
  unfold scope filtering Scope.filtering
  dsimp only
  split <;> rfl

/-- What is walked does not depend on the list. -/
@[simp] theorem DiscoveryConfig.fileTree_filtering (c : DiscoveryConfig)
    (filters : Option (List String)) (host : Host) :
    (c.filtering filters).fileTree host = c.fileTree host := by
  unfold fileTree
  rw [scope_filtering]
  rfl

theorem discover_filtering_error_iff {err : DriveError} :
    discover host first (c.filtering filters) = .error err ↔
      discover host first c = .error err := by
  rw [discover_eq_error_iff, discover_eq_error_iff, DiscoveryConfig.scope_filtering,
    DiscoveryConfig.fileTree_filtering]
  rfl

/-- Lists that allow the same paths make the same discovery. -/
theorem discover_filtering_congr (h : ∀ p, allowed filters p = allowed filters' p) :
    discover host first (c.filtering filters) = discover host first (c.filtering filters') := by
  have hvisit : ((c.filtering filters).scope host.cwd).visit (c.fileTree host) =
      ((c.filtering filters').scope host.cwd).visit (c.fileTree host) := by
    funext e
    rw [DiscoveryConfig.scope_filtering, DiscoveryConfig.scope_filtering]
    exact Scope.visit_filtering_congr (h e.path)
  unfold discover
  simp only [DiscoveryConfig.fileTree_filtering, hvisit]
  simp only [DiscoveryConfig.scope_filtering]
  rfl

/-- What a discovery with a list finds, of a walk that is known. -/
theorem discover_filtering_eq_ok {d : LocalDrive} (hwalk : (c.fileTree host).walk = .ok walk)
    (h : discover host first (c.filtering filters) = .ok d) :
    d.entries =
      ((c.scope host.cwd).filtering filters).entries (c.fileTree host) first walk ∧
    d.errors = walk.flatMap fun e =>
      (((c.scope host.cwd).filtering filters).visit (c.fileTree host) e).errors := by
  rw [← c.fileTree_filtering filters] at hwalk
  obtain ⟨-, hfound⟩ := discover_eq_ok_of_walk h hwalk
  rwa [DiscoveryConfig.scope_filtering, DiscoveryConfig.fileTree_filtering] at hfound

/-- **Two lists in one collect what either does**, and no list collects everything that some list
does. Whether a discovery fails, and how, does not depend on its list. Where two lists are put into
one, an address is taken exactly if it is under one of the two alone, by a record that one of them
finds there; it is then taken without a list, too, though perhaps by another record. The problems
under a list are among those under a longer one, in the same order. The order of a list and its
repetitions change nothing, and a list with nothing on it is no list. -/
theorem filtering_distributes (host : Host) (first : Nat) (c : DiscoveryConfig) :
    (∀ filters err, discover host first (c.filtering filters) = .error err ↔
      discover host first c = .error err) ∧
    (∀ F G dF dG d dAll, F ≠ [] → G ≠ [] →
      discover host first (c.filtering (some F)) = .ok dF →
      discover host first (c.filtering (some G)) = .ok dG →
      discover host first (c.filtering (some (F ++ G))) = .ok d →
      discover host first (c.filtering none) = .ok dAll →
      (∀ k, (∃ x, (k, x) ∈ d.entries) ↔
        (∃ x, (k, x) ∈ dF.entries) ∨ ∃ x, (k, x) ∈ dG.entries) ∧
      (∀ k, (∃ x, (k, x) ∈ d.entries) → ∃ x, (k, x) ∈ dAll.entries) ∧
      (∀ k x, (k, x) ∈ d.entries → (∃ y, (k, y) ∈ dF.entries ∧ y.value = x.value) ∨
        ∃ y, (k, y) ∈ dG.entries ∧ y.value = x.value) ∧
      dF.errors.Sublist d.errors ∧ d.errors.Sublist dAll.errors) ∧
    (∀ F G, (∀ f, f ∈ F ↔ f ∈ G) → discover host first (c.filtering (some F)) =
      discover host first (c.filtering (some G))) ∧
    discover host first (c.filtering (some [])) = discover host first (c.filtering none) := by
  refine ⟨fun filters err => discover_filtering_error_iff, ?_,
    fun F G h => discover_filtering_congr fun p => allowed_congr h,
    discover_filtering_congr fun p => rfl⟩
  intro F G dF dG d dAll hF hG hdF hdG hd hdAll
  obtain ⟨walk, -, hwalk, -⟩ := discover_eq_ok hdAll
  rw [DiscoveryConfig.fileTree_filtering] at hwalk
  obtain ⟨hentriesF, herrorsF⟩ := discover_filtering_eq_ok hwalk hdF
  obtain ⟨hentriesG, -⟩ := discover_filtering_eq_ok hwalk hdG
  obtain ⟨hentries, herrors⟩ := discover_filtering_eq_ok hwalk hd
  obtain ⟨hentriesAll, herrorsAll⟩ := discover_filtering_eq_ok hwalk hdAll
  rw [hentriesF, hentriesG, hentries, hentriesAll, herrorsF, herrors, herrorsAll]
  refine ⟨fun k => Scope.exists_mem_entries_append_iff hF hG, fun k => ?_,
    fun k x hx => Scope.mem_entries_append hF hG hx, ?_, ?_⟩
  · exact Scope.exists_mem_entries_mono fun p _ => rfl
  · exact Scope.errors_walk_sublist (allowed_append_left hF hG)
  · exact Scope.errors_walk_sublist fun p _ => rfl

/-- Of the spellings of one file, the last is collected if it alone is listed. With an earlier one
on the list, the address is taken by that one's record. -/
theorem filtering_distributes_alias : ∃ dF dG d dAll x y,
    discover aliasHost 0 (aliasConfig.filtering (some ["./a.yaml"])) = .ok dF ∧
    discover aliasHost 0 (aliasConfig.filtering (some ["a.yaml"])) = .ok dG ∧
    discover aliasHost 0 (aliasConfig.filtering (some ["./a.yaml", "a.yaml"])) = .ok d ∧
    discover aliasHost 0 (aliasConfig.filtering none) = .ok dAll ∧
    (Path.ofString "/w/a.yaml", y) ∈ dG.entries ∧ y.value.content = [0x32] ∧
    (Path.ofString "/w/a.yaml", x) ∈ d.entries ∧ x.value.content = [0x31] ∧
    (∃ z, (Path.ofString "/w/a.yaml", z) ∈ dAll.entries) ∧
    dF.errors.Sublist d.errors ∧ d.errors.Sublist dAll.errors ∧
    d.errors.length < dAll.errors.length := by
  obtain ⟨dF, hdF⟩ : ∃ dF,
      discover aliasHost 0 (aliasConfig.filtering (some ["./a.yaml"])) = .ok dF := ⟨_, rfl⟩
  obtain ⟨dG, hdG, y, hy, hlate⟩ : ∃ dG,
      discover aliasHost 0 (aliasConfig.filtering (some ["a.yaml"])) = .ok dG ∧
        ∃ y, dG.entries = [(.ofString "/w/a.yaml", y)] ∧ y.value.content = [0x32] :=
    ⟨_, rfl, _, rfl, rfl⟩
  obtain ⟨d, hd, hentries, herrors⟩ : ∃ d,
      discover aliasHost 0 (aliasConfig.filtering (some ["./a.yaml", "a.yaml"])) = .ok d ∧
        d.entries = [(.ofString "/w/a.yaml", ⟨0, aliasRecord⟩)] ∧ d.errors.length = 1 :=
    ⟨_, rfl, rfl, rfl⟩
  obtain ⟨dAll, hdAll, herrorsAll⟩ : ∃ dAll,
      discover aliasHost 0 (aliasConfig.filtering none) = .ok dAll ∧ dAll.errors.length = 2 :=
    ⟨_, rfl, rfl⟩
  obtain ⟨-, hlists, -, -⟩ := filtering_distributes aliasHost 0 aliasConfig
  obtain ⟨hkeys, hall, -, hshort, hlong⟩ := hlists ["./a.yaml"] ["a.yaml"] dF dG d dAll
    (List.cons_ne_nil _ _) (List.cons_ne_nil _ _) hdF hdG hd hdAll
  have hymem : (Path.ofString "/w/a.yaml", y) ∈ dG.entries := by
    rw [hy]
    exact List.mem_singleton_self _
  obtain ⟨x, hx⟩ := (hkeys _).2 (Or.inr ⟨y, hymem⟩)
  refine ⟨dF, dG, d, dAll, x, y, hdF, hdG, hd, hdAll, hymem, hlate, hx, ?_, hall _ ⟨x, hx⟩,
    hshort, hlong, ?_⟩
  · rw [hentries, List.mem_singleton] at hx
    obtain ⟨-, rfl⟩ := Prod.mk.inj hx
    rfl
  · rw [herrors, herrorsAll]
    decide

end DocDrive
