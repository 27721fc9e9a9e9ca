import DocDrive.Discovery
import DocDrive.Proofs.Entries

/-!
# The catalogue of a walk

A catalogue files the records that visits bring, one claim after the other. Its entries are
therefore the claims of those records in order (`catalogue_entries`), and its errors those of the
visits.

* `lookup_claimAll` — the first record that claims a path is found there.
* `claimAll_append` — later claims only add entries.
* `acquire_record_iff`, `visit_record?_iff` — when a file or an entry brings a record, and which.
* `mem_acquire_failures_iff` — the failures that acquiring a file comes with.
* `discover_eq_ok` — what a discovery that succeeds has done.
-/

namespace DocDrive

namespace Entries

variable {entries taken : Entries} {p : Path} {r : Record} {first : Nat}

/-! ## Claims -/

/-- Entries with records that arrive one after the other. -/
def claimAll (taken : Entries) (first : Nat) (records : List Record) : Entries :=
  records.foldl (fun entries r => entries.claim first r) taken

theorem claim_of_has (h : entries.has r.absolutePath = true) : entries.claim first r = entries :=
  if_pos h

theorem claim_of_not_has (h : ¬entries.has r.absolutePath = true) :
    entries.claim first r = entries ++ [(r.absolutePath, ⟨first + entries.length, r⟩)] :=
  if_neg h

theorem Distinct.claim (h : entries.Distinct) (first : Nat) (r : Record) :
    (entries.claim first r).Distinct := by
  by_cases hr : entries.has r.absolutePath = true
  · rwa [claim_of_has hr]
  · rw [claim_of_not_has hr]
    exact h.append_singleton hr _

theorem Distinct.claimAll (h : entries.Distinct) (first : Nat) (records : List Record) :
    (entries.claimAll first records).Distinct := by
  induction records generalizing entries with
  | nil => exact h
  | cons r records ih => exact ih (h.claim first r)

theorem claim_append (entries : Entries) (first : Nat) (r : Record) :
    ∃ more, entries.claim first r = entries ++ more := by
  by_cases hr : entries.has r.absolutePath = true
  · exact ⟨[], by rw [claim_of_has hr, List.append_nil]⟩
  · exact ⟨_, claim_of_not_has hr⟩

/-- **Claims only add entries**: whatever arrives later leaves the entries before it in place. -/
theorem claimAll_append (entries : Entries) (first : Nat) (records : List Record) :
    ∃ more, entries.claimAll first records = entries ++ more := by
  induction records generalizing entries with
  | nil => exact ⟨[], (List.append_nil _).symm⟩
  | cons r records ih =>
    obtain ⟨front, hfront⟩ := claim_append entries first r
    obtain ⟨back, hback⟩ := ih (entries.claim first r)
    refine ⟨front ++ back, ?_⟩
    rw [← List.append_assoc, ← hfront]
    exact hback

theorem claimAll_cons (entries : Entries) (first : Nat) (r : Record) (records : List Record) :
    entries.claimAll first (r :: records) = (entries.claim first r).claimAll first records := rfl

/-- Every entry was there before or is a record under its own path. -/
theorem mem_claimAll {records : List Record} {e : Path × Shared Record}
    (h : e ∈ entries.claimAll first records) :
    e ∈ entries ∨ e.2.value ∈ records ∧ e.1 = e.2.value.absolutePath := by
  induction records generalizing entries with
  | nil => exact Or.inl h
  | cons r records ih =>
    rw [claimAll_cons] at h
    rcases ih h with h | ⟨hr, he⟩
    · by_cases hr : entries.has r.absolutePath = true
      · rw [claim_of_has hr] at h
        exact Or.inl h
      · rw [claim_of_not_has hr] at h
        rcases List.mem_append.1 h with h | h
        · exact Or.inl h
        · rw [List.mem_singleton.1 h]
          exact Or.inr ⟨List.mem_cons_self, rfl⟩
    · exact Or.inr ⟨List.mem_cons_of_mem _ hr, he⟩

theorem lookup_claim (entries : Entries) (first : Nat) (r : Record) (p : Path) :
    ((entries.claim first r).lookup p).map Shared.value =
      ((entries.lookup p).map Shared.value).or (if r.absolutePath = p then some r else none) := by
  by_cases hr : entries.has r.absolutePath = true
  · rw [claim_of_has hr]
    split
    · rename_i hp
      subst hp
      obtain ⟨x, hx⟩ := Option.isSome_iff_exists.1 hr
      rw [hx]
      rfl
    · rw [Option.or_none]
  · rw [claim_of_not_has hr, List.lookup_append, Option.map_or, List.lookup_cons]
    congr 1
    by_cases hp : r.absolutePath = p
    · simp [hp]
    · have hne : (p == r.absolutePath) = false := beq_eq_false_iff_ne.2 (Ne.symm hp)
      simp [hp, hne]

/-- **The first record that claims a path is found there.** -/
theorem lookup_claimAll (entries : Entries) (first : Nat) (records : List Record) (p : Path) :
    ((entries.claimAll first records).lookup p).map Shared.value =
      ((entries.lookup p).map Shared.value).or (records.find? fun r => r.absolutePath = p) := by
  induction records generalizing entries with
  | nil => simp [claimAll]
  | cons r records ih =>
    rw [claimAll_cons, ih, lookup_claim, Option.or_assoc, List.find?_cons]
    congr 1
    by_cases hp : r.absolutePath = p <;> simp [hp]

end Entries

/-! ## Acquired files -/

/-- A record of the file that was found at `p`, opened and read to its end: size and time come from
its stat, and a stat that failed is the only problem on record. -/
structure Record.Holds (r : Record) (path p : Path) (file : OpenFile) (bytes : Bytes) : Prop where
  logicalName : r.logicalName = p
  absolutePath : r.absolutePath = path
  content : r.content = bytes
  stated : ∀ stat, file.stat = .ok stat →
    r.size = stat.size ∧ r.modified = stat.modified.getD .clock ∧ r.errors = []
  unstated : ∀ e, file.stat = .error e →
    r.size = bytes.length ∧ r.modified = .clock ∧ r.errors = [.ofIo .stating path e]

variable {tree : FileTree} {directory path p : Path} {r : Record} {file : OpenFile} {bytes : Bytes}

/-- What a file holds settles its record. -/
theorem Record.Holds.unique {s : Record} (hr : r.Holds path p file bytes)
    (hs : s.Holds path p file bytes) : r = s := by
  have hfacts : r.size = s.size ∧ r.modified = s.modified ∧ r.errors = s.errors := by
    cases hstat : file.stat with
    | ok stat =>
      obtain ⟨h1, h2, h3⟩ := hr.stated stat hstat
      obtain ⟨h4, h5, h6⟩ := hs.stated stat hstat
      exact ⟨h1.trans h4.symm, h2.trans h5.symm, h3.trans h6.symm⟩
    | error e =>
      obtain ⟨h1, h2, h3⟩ := hr.unstated e hstat
      obtain ⟨h4, h5, h6⟩ := hs.unstated e hstat
      exact ⟨h1.trans h4.symm, h2.trans h5.symm, h3.trans h6.symm⟩
  have hname := hr.logicalName.trans hs.logicalName.symm
  have hpath := hr.absolutePath.trans hs.absolutePath.symm
  have hcontent := hr.content.trans hs.content.symm
  cases r
  cases s
  simp_all

/-- A file that is opened and read to its end is acquired, whatever its stat. -/
theorem acquire_of_read (directory : Path) (hopen : tree.openFile p = .ok file)
    (hread : file.readAll = .ok bytes) :
    ∃ r, (acquire tree directory p).record = some r ∧
      r.Holds (directory.resolveAgainst p) p file bytes := by
  unfold acquire
  rw [hopen]
  dsimp only
  rw [hread]
  refine ⟨_, rfl, rfl, rfl, rfl, fun stat hstat => ?_, fun e hstat => ?_⟩
  · simp [hstat]
  · simp [hstat]

/-- **A file is acquired exactly if it opens and can be read to its end**, and its record says what
was found there. -/
theorem acquire_record_iff : (acquire tree directory p).record = some r ↔
    ∃ file bytes, tree.openFile p = .ok file ∧ file.readAll = .ok bytes ∧
      r.Holds (directory.resolveAgainst p) p file bytes := by
  constructor
  · intro h
    cases hopen : tree.openFile p with
    | error e => simp [acquire, hopen] at h
    | ok file =>
      cases hread : file.readAll with
      | error e => simp [acquire, hopen, hread] at h
      | ok bytes =>
        obtain ⟨s, hs, hholds⟩ := acquire_of_read directory hopen hread
        obtain rfl : s = r := Option.some.inj (hs.symm.trans h)
        exact ⟨file, bytes, rfl, hread, hholds⟩
  · rintro ⟨file, bytes, hopen, hread, hr⟩
    obtain ⟨s, hs, hholds⟩ := acquire_of_read directory hopen hread
    rw [hs, hr.unique hholds]

/-- **What a file that is acquired has failed at**: the first of its open and its read, and its stat
besides. -/
theorem mem_acquire_failures_iff {failure : AcquisitionError} :
    failure ∈ (acquire tree directory p).failures ↔
      (∃ io, tree.openFile p = .error io ∧
        failure = .ofIo .opening (directory.resolveAgainst p) io) ∨
      ∃ file, tree.openFile p = .ok file ∧
        ((∃ io, file.stat = .error io ∧
            failure = .ofIo .stating (directory.resolveAgainst p) io) ∨
          ∃ io, file.readAll = .error io ∧
            failure = .ofIo .reading (directory.resolveAgainst p) io) := by
  unfold acquire
  cases hopen : tree.openFile p with
  | error io => simp
  | ok file => cases hread : file.readAll <;> cases hstat : file.stat <;> simp [hread, hstat]

/-! ## Visited entries -/

/-- An entry of a walk whose file enters the drive: the walk met no problem with it, it is no
directory, it counts for the scope, it is admitted, and its file opens and is read to the end. -/
structure Scope.Collects (s : Scope) (tree : FileTree) (e : WalkEntry) (file : OpenFile)
    (bytes : Bytes) : Prop where
  walked : e.error = none
  isFile : e.isDirectory = false
  counts : ∀ only, s.only = some only → e.path.same only = true
  admitted : ∃ c, admission s.filters e.path = .ok c
  opened : tree.openFile e.path = .ok file
  read : file.readAll = .ok bytes

variable {s : Scope} {e : WalkEntry}

theorem ignores_eq_false_iff :
    s.ignores p = false ↔ ∀ only, s.only = some only → p.same only = true := by
  unfold Scope.ignores
  cases s.only with
  | none => simp
  | some only => simp

/-- **An entry brings a record exactly if its file enters the drive.** -/
theorem visit_record?_iff : (s.visit tree e).record? = some r ↔
    ∃ file bytes, s.Collects tree e file bytes ∧
      r.Holds (s.directory.resolveAgainst e.path) e.path file bytes := by
  constructor
  · intro h
    unfold Scope.visit at h
    split at h
    · cases h
    rename_i hcounts
    split at h
    · cases h
    rename_i hwalked
    split at h
    · cases h
    rename_i hfile
    split at h
    · cases h
    · rename_i c hadm
      obtain ⟨file, bytes, hopen, hread, hr⟩ := acquire_record_iff.1 h
      refine ⟨file, bytes, ⟨hwalked, by simpa using hfile, ?_, ⟨c, hadm⟩, hopen, hread⟩, hr⟩
      exact ignores_eq_false_iff.1 (by simpa using hcounts)
  · rintro ⟨file, bytes, ⟨hwalked, hfile, hcounts, ⟨c, hadm⟩, hopen, hread⟩, hr⟩
    have hvisit : s.visit tree e = .acquired (acquire tree s.directory e.path) := by
      simp [Scope.visit, ignores_eq_false_iff.2 hcounts, hwalked, hfile, hadm]
    rw [hvisit]
    exact acquire_record_iff.2 ⟨file, bytes, hopen, hread, hr⟩

/-- **An entry is passed by** if it does not count, or is a sound directory. -/
theorem visit_eq_passed_iff : s.visit tree e = .passed ↔
    s.ignores e.path = true ∨ (e.error = none ∧ e.isDirectory = true) := by
  unfold Scope.visit
  split
  · simp [*]
  rename_i hcounts
  split
  · simp [*]
  rename_i hwalked
  split
  · simp [*]
  rename_i hfile
  split <;> simp [*]

/-! ## The whole walk -/

variable {first : Nat} {taken : Entries}

theorem catalogue_entries (first : Nat) (taken : Entries) (visits : List Visit) :
    (catalogue first taken visits).entries =
      taken.claimAll first (visits.filterMap Visit.record?) := by
  induction visits generalizing taken with
  | nil => rfl
  | cons v rest ih =>
    rw [catalogue, ih, List.filterMap_cons]
    cases v.record? <;> rfl

theorem catalogue_errors (first : Nat) (taken : Entries) (visits : List Visit) :
    (catalogue first taken visits).errors = visits.flatMap Visit.errors := by
  induction visits generalizing taken with
  | nil => rfl
  | cons v rest ih => rw [catalogue, ih, List.flatMap_cons]

/-- **Visits that pass by leave no trace.** -/
theorem catalogue_of_passed {visits : List Visit} (first : Nat) (taken : Entries)
    (h : ∀ v ∈ visits, v = .passed) : catalogue first taken visits = ⟨taken, [], []⟩ := by
  induction visits with
  | nil => rfl
  | cons v visits ih =>
    obtain ⟨rfl, hrest⟩ := List.forall_mem_cons.1 h
    have hnow : (Visit.passed).record? = none := rfl
    simp [catalogue, hnow, ih hrest, Visit.errors, Visit.events]

/-- The records that a walk brings, in order. -/
def Scope.records (s : Scope) (tree : FileTree) (walk : List WalkEntry) : List Record :=
  walk.filterMap fun e => (s.visit tree e).record?

/-- The records of a walk, filed from the beginning. -/
def Scope.entries (s : Scope) (tree : FileTree) (first : Nat) (walk : List WalkEntry) : Entries :=
  Entries.claimAll [] first (s.records tree walk)

/-- **What a discovery that succeeds has done.** -/
theorem discover_eq_ok {host : Host} {c : DiscoveryConfig} {d : LocalDrive}
    (h : discover host first c = .ok d) :
    ∃ walk, host.refusal? c.base = none ∧ (c.fileTree host).walk = .ok walk ∧
      d.root = (c.scope host.cwd).directory ∧
      d.entries = (c.scope host.cwd).entries (c.fileTree host) first walk ∧
      d.errors = walk.flatMap fun e => ((c.scope host.cwd).visit (c.fileTree host) e).errors := by
  unfold discover at h
  split at h
  · cases h
  rename_i hplaced
  dsimp only at h
  split at h
  · cases h
  · rename_i walk hwalk
    cases h
    refine ⟨walk, hplaced, hwalk, rfl, ?_, ?_⟩
    · rw [catalogue_entries, List.filterMap_map]
      rfl
    · rw [catalogue_errors, List.flatMap_map]

/-- The same of a walk that is known. -/
theorem discover_eq_ok_of_walk {host : Host} {c : DiscoveryConfig} {d : LocalDrive}
    {walk : List WalkEntry} (h : discover host first c = .ok d)
    (hwalk : (c.fileTree host).walk = .ok walk) : d.root = (c.scope host.cwd).directory ∧
      d.entries = (c.scope host.cwd).entries (c.fileTree host) first walk ∧
      d.errors = walk.flatMap fun e => ((c.scope host.cwd).visit (c.fileTree host) e).errors := by
  obtain ⟨walk', -, hwalk', hfound⟩ := discover_eq_ok h
  obtain rfl : walk' = walk := Except.ok.inj (hwalk'.symm.trans hwalk)
  exact hfound

/-! ## Three spellings of one file -/

/-- A working directory, and a disk that nobody looks at. -/
def aliasHost : Host := { cwd := .ofString "/w" }

/-- A tree whose walk spells one file three times. The first spelling cannot be opened, and the
other two find different bytes. -/
def aliasTree : FileTree where
  walk := .ok [{ path := .ofString "b/../a.yaml" }, { path := .ofString "./a.yaml" },
    { path := .ofString "a.yaml" }]
  openFile p :=
    if p = .ofString "b/../a.yaml" then .error (.plain .notFound)
    else if p = .ofString "./a.yaml" then
      .ok { stat := .error (.plain .permissionDenied), ahead := [.bytes [0x31]] }
    else .ok { stat := .ok ⟨7, none⟩, ahead := [.bytes [0x32]] }

/-- The discovery of that tree. -/
def aliasConfig : DiscoveryConfig := { tree := some aliasTree }

/-- The record of the second spelling: the first was never read, and the third came too late. -/
def aliasRecord : Record where
  logicalName := .ofString "./a.yaml"
  absolutePath := .ofString "/w/a.yaml"
  content := [0x31]
  errors := [.ofIo .stating (.ofString "/w/a.yaml") (.plain .permissionDenied)]

theorem discover_alias : ∃ d, discover aliasHost 0 aliasConfig = .ok d ∧ d.root = .ofString "/w" ∧
    d.entries = [(.ofString "/w/a.yaml", ⟨0, aliasRecord⟩)] :=
  ⟨_, rfl, rfl, rfl⟩

end DocDrive
