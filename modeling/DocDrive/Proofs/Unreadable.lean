import DocDrive.Proofs.Discovery
import DocDrive.Proofs.Identity
import DocDrive.Proofs.Indexing

/-!
# Unreadable files

A report calls unreadable whatever a discovery had a problem with. That includes files whose stat
failed, and those are read and indexed all the same. So an unreadable path is listed a second time
exactly where the stat of a collected file failed, and a report is complete only if every stat
worked too.

* `Drive.Sees` — the entries that the discoveries behind a drive have walked.
* `Sighting.mem_errors_iff` — the problems with one entry.
* `Drive.Sees.mem_errors_iff`, `Drive.Sees.mem_keys_iff` — what becomes of the entries of a drive.
* `report_of_sightings` — which entries are unreadable, which are listed twice, and when a report is
  complete.
* `unstated_file_indexed` — a file that was read is both unreadable and indexed.
-/

namespace DocDrive

/-! ## One entry -/

/-- An entry that a discovery has walked. -/
structure Sighting where
  scope : Scope
  tree : FileTree
  entry : WalkEntry

namespace Sighting

variable {s : Sighting} {e : DiscoveryError}

def address (s : Sighting) : Path := s.scope.directory.resolveAgainst s.entry.path

/-- The file of the entry was to be acquired. -/
structure Admitted (s : Sighting) : Prop where
  counts : s.scope.ignores s.entry.path = false
  walked : s.entry.error = none
  isFile : s.entry.isDirectory = false
  admitted : ∃ c, admission s.scope.filters s.entry.path = .ok c

/-- The file of the entry entered the drive. -/
def Collected (s : Sighting) : Prop := s.scope.CollectsAt s.tree s.address s.entry

theorem collected_iff : s.Collected ↔ s.Admitted ∧
    ∃ file bytes, s.tree.openFile s.entry.path = .ok file ∧ file.readAll = .ok bytes := by
  constructor
  · rintro ⟨⟨file, bytes, h⟩, -⟩
    exact ⟨⟨ignores_eq_false_iff.2 h.counts, h.walked, h.isFile, h.admitted⟩, file, bytes, h.opened,
      h.read⟩
  · rintro ⟨h, file, bytes, hopen, hread⟩
    exact ⟨⟨file, bytes, h.walked, h.isFile, ignores_eq_false_iff.1 h.counts, h.admitted, hopen,
      hread⟩, rfl⟩

/-- The problems that there can be with an entry. -/
inductive Problem (s : Sighting) : DiscoveryError → Prop
  | unwalked {io : IoError} : s.scope.ignores s.entry.path = false → s.entry.error = some io →
      Problem s (.walk s.address io.kind io.message)
  | unopened {io : IoError} : s.Admitted → s.tree.openFile s.entry.path = .error io →
      Problem s (.acquisition (.ofIo .opening s.address io))
  | unstated {file : OpenFile} {io : IoError} : s.Admitted →
      s.tree.openFile s.entry.path = .ok file → file.stat = .error io →
      Problem s (.acquisition (.ofIo .stating s.address io))
  | unread {file : OpenFile} {io : IoError} : s.Admitted →
      s.tree.openFile s.entry.path = .ok file → file.readAll = .error io →
      Problem s (.acquisition (.ofIo .reading s.address io))

theorem visit_of_admitted (h : s.Admitted) : s.scope.visit s.tree s.entry =
    .acquired (acquire s.tree s.scope.directory s.entry.path) := by
  obtain ⟨c, hadm⟩ := h.admitted
  simp [Scope.visit, h.counts, h.walked, h.isFile, hadm]

theorem mem_errors_of_admitted (h : s.Admitted) :
    e ∈ (s.scope.visit s.tree s.entry).errors ↔ s.Problem e := by
  rw [visit_of_admitted h, Visit.errors, List.mem_map]
  constructor
  · rintro ⟨failure, hfailure, rfl⟩
    rcases mem_acquire_failures_iff.1 hfailure with
      ⟨io, hopen, rfl⟩ | ⟨file, hopen, ⟨io, hstat, rfl⟩ | ⟨io, hread, rfl⟩⟩
    · exact .unopened h hopen
    · exact .unstated h hopen hstat
    · exact .unread h hopen hread
  · intro he
    cases he with
    | unwalked _ herror => cases h.walked.symm.trans herror
    | unopened _ hopen => exact ⟨_, mem_acquire_failures_iff.2 (.inl ⟨_, hopen, rfl⟩), rfl⟩
    | unstated _ hopen hstat =>
      exact ⟨_, mem_acquire_failures_iff.2 (.inr ⟨_, hopen, .inl ⟨_, hstat, rfl⟩⟩), rfl⟩
    | unread _ hopen hread =>
      exact ⟨_, mem_acquire_failures_iff.2 (.inr ⟨_, hopen, .inr ⟨_, hread, rfl⟩⟩), rfl⟩

/-- **The problems of a visit** are those with its entry. -/
theorem mem_errors_iff : e ∈ (s.scope.visit s.tree s.entry).errors ↔ s.Problem e := by
  by_cases h : s.Admitted
  · exact mem_errors_of_admitted h
  · -- What is not admitted can have failed in the walk only.
    have hproblem : s.Problem e ↔ s.scope.ignores s.entry.path = false ∧
        ∃ io, s.entry.error = some io ∧ e = .walk s.address io.kind io.message := by
      constructor
      · intro he
        cases he with
        | unwalked hcounts herror => exact ⟨hcounts, _, herror, rfl⟩
        | unopened hadmitted => exact absurd hadmitted h
        | unstated hadmitted => exact absurd hadmitted h
        | unread hadmitted => exact absurd hadmitted h
      · rintro ⟨hcounts, io, herror, rfl⟩
        exact .unwalked hcounts herror
    rw [hproblem, Scope.visit]
    cases hcounts : s.scope.ignores s.entry.path with
    | true => simp [Visit.errors]
    | false =>
      cases herror : s.entry.error with
      | some io => simp [Visit.errors, address]
      | none =>
        cases hfile : s.entry.isDirectory with
        | true => simp [Visit.errors]
        | false =>
          cases hadm : admission s.scope.filters s.entry.path with
          | error reason => simp [Visit.errors]
          | ok c => exact absurd ⟨hcounts, herror, hfile, c, hadm⟩ h

theorem Problem.path_eq (h : s.Problem e) : e.path = s.address := by
  cases h <;> rfl

/-- A file that entered the drive can only have failed at its stat. -/
theorem Problem.of_collected (h : s.Problem e) (hcollected : s.Collected) :
    ∃ file io, s.tree.openFile s.entry.path = .ok file ∧ file.stat = .error io ∧
      e = .acquisition (.ofIo .stating s.address io) := by
  obtain ⟨hadmitted, file, bytes, hopen, hread⟩ := collected_iff.1 hcollected
  cases h with
  | unwalked _ herror => cases hadmitted.walked.symm.trans herror
  | unopened _ hopen' => cases hopen.symm.trans hopen'
  | unstated _ hopen' hstat => exact ⟨_, _, hopen', hstat, rfl⟩
  | unread _ hopen' hread' =>
    cases hopen.symm.trans hopen'
    cases hread.symm.trans hread'

/-- Nothing went wrong with the entry, its stat included. -/
structure Clean (s : Sighting) : Prop where
  walked : s.scope.ignores s.entry.path = false → s.entry.error = none
  acquired : s.Admitted → ∃ file stat bytes, s.tree.openFile s.entry.path = .ok file ∧
    file.stat = .ok stat ∧ file.readAll = .ok bytes

theorem clean_iff : s.Clean ↔ ∀ e, ¬s.Problem e := by
  constructor
  · intro h e he
    -- Each problem is a step that did not end as it has to.
    cases he with
    | unwalked hcounts herror => cases (h.walked hcounts).symm.trans herror
    | unopened hadmitted hopen =>
      obtain ⟨file, stat, bytes, hopen', -, -⟩ := h.acquired hadmitted
      cases hopen'.symm.trans hopen
    | unstated hadmitted hopen hstat =>
      obtain ⟨file, stat, bytes, hopen', hstat', -⟩ := h.acquired hadmitted
      cases hopen'.symm.trans hopen
      cases hstat'.symm.trans hstat
    | unread hadmitted hopen hread =>
      obtain ⟨file, stat, bytes, hopen', -, hread'⟩ := h.acquired hadmitted
      cases hopen'.symm.trans hopen
      cases hread'.symm.trans hread
  · intro h
    refine ⟨fun hcounts => ?_, fun hadmitted => ?_⟩
    · cases herror : s.entry.error with
      | none => rfl
      | some io => exact absurd (.unwalked hcounts herror) (h _)
    · cases hopen : s.tree.openFile s.entry.path with
      | error io => exact absurd (.unopened hadmitted hopen) (h _)
      | ok file =>
        cases hstat : file.stat with
        | error io => exact absurd (.unstated hadmitted hopen hstat) (h _)
        | ok stat =>
          cases hread : file.readAll with
          | error io => exact absurd (.unread hadmitted hopen hread) (h _)
          | ok bytes => exact ⟨file, stat, bytes, rfl, hstat, hread⟩

end Sighting

/-! ## All entries of a drive -/

/-- A drive that was built, and the entries that its discoveries have walked, in order. -/
inductive Drive.Sees : Drive → List Sighting → Prop
  | discovered {host : Host} {first : Nat} {c : DiscoveryConfig} {d : LocalDrive}
      {walk : List WalkEntry} : c.base.isAbsolute = true ∨ host.cwd.isAbsolute = true →
      discover host first c = .ok d → (c.fileTree host).walk = .ok walk →
      Sees d.toDrive (walk.map (Sighting.mk (c.scope host.cwd) (c.fileTree host)))
  | mounted {cwd root : Path} {sources : List (Drive × List Sighting)} :
      root.isAbsolute = true ∨ cwd.isAbsolute = true → (∀ s ∈ sources, Sees s.1 s.2) →
      Sees (mount cwd root (sources.map Prod.fst)).toDrive (sources.flatMap Prod.snd)

/-- **Every drive that can be built sees some entries.** -/
theorem Drive.Built.exists_sees {d : Drive} (h : d.Built) : ∃ sightings, d.Sees sightings := by
  induction h with
  | discovered hcwd hd =>
    obtain ⟨walk, _, hwalk, _⟩ := discover_eq_ok hd
    exact ⟨_, .discovered hcwd hd hwalk⟩
  | @mounted cwd root sources hroot _ ih =>
    -- The sources come without what they have seen, so it is chosen for each of them.
    choose! seen hseen using ih
    have hpairs : ∀ s ∈ sources.map fun s => (s, seen s), Drive.Sees s.1 s.2 := by
      intro s hs
      obtain ⟨source, hsource, rfl⟩ := List.mem_map.1 hs
      exact hseen source hsource
    have hsees := Drive.Sees.mounted hroot hpairs
    have hsources : (sources.map fun s => (s, seen s)).map Prod.fst = sources := by
      simp [Function.comp_def]
    rw [hsources] at hsees
    exact ⟨_, hsees⟩

namespace Drive.Sees

variable {d : Drive} {sightings : List Sighting} {e : DiscoveryError} {p : Path}

theorem built (h : d.Sees sightings) : d.Built := by
  induction h with
  | discovered hcwd hd _ => exact .discovered hcwd hd
  | mounted hroot _ ih =>
    refine .mounted hroot fun s hs => ?_
    obtain ⟨source, hsource, rfl⟩ := List.mem_map.1 hs
    exact ih source hsource

/-- **The errors of a drive** are the problems with its entries. -/
theorem mem_errors_iff (h : d.Sees sightings) : e ∈ d.errors ↔ ∃ s ∈ sightings, s.Problem e := by
  induction h with
  | @discovered host first c d walk _ hd hwalk =>
    obtain ⟨-, -, herrors⟩ := discover_eq_ok_of_walk hd hwalk
    simp only [herrors, List.mem_flatMap, List.mem_map, exists_exists_and_eq_and]
    exact exists_congr fun w => and_congr_right fun _ =>
      @Sighting.mem_errors_iff ⟨c.scope host.cwd, c.fileTree host, w⟩ e
  | @mounted cwd root sources _ _ ih =>
    simp only [mount, List.mem_flatMap, List.mem_map]
    constructor
    · rintro ⟨_, ⟨source, hsource, rfl⟩, he⟩
      obtain ⟨s, hs, hproblem⟩ := (ih source hsource).1 he
      exact ⟨s, ⟨source, hsource, hs⟩, hproblem⟩
    · rintro ⟨s, ⟨source, hsource, hs⟩, hproblem⟩
      exact ⟨source.1, ⟨source, hsource, rfl⟩, (ih source hsource).2 ⟨s, hs, hproblem⟩⟩

/-- **The paths of a drive** are the addresses of the files that entered it. -/
theorem mem_keys_iff (h : d.Sees sightings) :
    p ∈ d.entries.map Prod.fst ↔ ∃ s ∈ sightings, s.Collected ∧ s.address = p := by
  induction h with
  | @discovered host first c d walk _ hd hwalk =>
    obtain ⟨-, hentries, -⟩ := discover_eq_ok_of_walk hd hwalk
    have hkeys : p ∈ d.entries.map Prod.fst ↔ ∃ x, (p, x) ∈ d.entries := by simp
    rw [hkeys, hentries, Scope.exists_mem_entries_iff]
    simp only [List.mem_map, exists_exists_and_eq_and]
    refine exists_congr fun w => and_congr_right fun _ => ?_
    constructor
    · rintro ⟨hcollects, rfl⟩
      exact ⟨⟨hcollects, rfl⟩, rfl⟩
    · rintro ⟨hcollects, rfl⟩
      exact hcollects
  | @mounted cwd root sources _ _ ih =>
    have hkeys : p ∈ (mount cwd root (sources.map Prod.fst)).entries.map Prod.fst ↔
        ∃ source ∈ sources, p ∈ source.1.entries.map Prod.fst := by
      rw [mount, Entries.mem_keys_joinAll]
      simp
    rw [hkeys]
    simp only [List.mem_flatMap]
    constructor
    · rintro ⟨source, hsource, hp⟩
      obtain ⟨s, hs, hcollected⟩ := (ih source hsource).1 hp
      exact ⟨s, ⟨source, hsource, hs⟩, hcollected⟩
    · rintro ⟨s, ⟨source, hsource, hs⟩, hcollected⟩
      exact ⟨source, hsource, (ih source hsource).2 ⟨s, hs, hcollected⟩⟩

end Drive.Sees

/-! ## Reports -/

/-- **What the report of a drive makes of its entries.** Its unreadable are the problems with them,
and it lists the addresses of the files that entered the drive. If no address comes twice, a path
that is unreadable is listed again exactly if the file entered the drive and its stat failed. The
report is complete exactly if nothing went wrong with any entry, stats included, and no file
failed. -/
theorem report_of_sightings {d : Drive} {sightings : List Sighting} {order : Entries} {c : Caches}
    {indexer : Indexer} {config : IndexConfig} {report : IndexReport} (hsees : d.Sees sightings)
    (horder : order.Perm d.entries) (hrun : (d.indexInOrder order indexer config c).1 = report) :
    (∀ e, e ∈ report.unreadable ↔ ∃ s ∈ sightings, s.Problem e) ∧
    (∀ p, p ∈ report.indexed.map Prod.fst ∨ p ∈ report.failed.map Prod.fst ↔
      ∃ s ∈ sightings, s.Collected ∧ s.address = p) ∧
    ((sightings.map Sighting.address).Nodup → ∀ e ∈ report.unreadable,
      (e.path ∈ report.indexed.map Prod.fst ∨ e.path ∈ report.failed.map Prod.fst ↔
        ∃ s ∈ sightings, s.Collected ∧ ∃ file io, s.tree.openFile s.entry.path = .ok file ∧
          file.stat = .error io ∧ e = .acquisition (.ofIo .stating s.address io))) ∧
    (report.isComplete = true ↔ (∀ s ∈ sightings, s.Clean) ∧ report.failed = []) := by
  subst hrun
  have hunreadable : ∀ e, e ∈ (d.indexInOrder order indexer config c).1.unreadable ↔
      ∃ s ∈ sightings, s.Problem e := fun e => hsees.mem_errors_iff
  have hkeys := fun p => (d.mem_keys_indexInOrder horder indexer config c p).symm.trans
    hsees.mem_keys_iff
  refine ⟨hunreadable, hkeys, fun hdistinct e he => ?_, ?_⟩
  · obtain ⟨s, hs, hproblem⟩ := (hunreadable e).1 he
    rw [hkeys, hproblem.path_eq]
    constructor
    · rintro ⟨s', hs', hcollected, haddress⟩
      -- The file at the path is that of the entry with the problem.
      obtain rfl : s' = s := List.inj_on_of_nodup_map hdistinct hs' hs haddress
      exact ⟨s', hs, hcollected, hproblem.of_collected hcollected⟩
    · rintro ⟨s', hs', hcollected, file, io, -, -, rfl⟩
      exact ⟨s', hs', hcollected, hproblem.path_eq⟩
  · have hnone : (d.indexInOrder order indexer config c).1.unreadable = [] ↔
        ∀ s ∈ sightings, s.Clean := by
      rw [List.eq_nil_iff_forall_not_mem]
      simp only [hunreadable, Sighting.clean_iff]
      exact ⟨fun h s hs e he => h e ⟨s, hs, he⟩, fun h e ⟨s, hs, he⟩ => h s hs e he⟩
    rw [IndexReport.isComplete, Bool.and_eq_true, List.isEmpty_iff, List.isEmpty_iff, hnone]
    exact and_comm

/-! ## A document whose stat fails -/

def unstatedTree : MemoryTree :=
  ({} : MemoryTree).withFile (.ofString "a.json") { data := [0x7B, 0x7D], fault := some .stating }

def unstatedConfig : DiscoveryConfig where
  tree := some unstatedTree.toFileTree

/-- The document beside one that cannot be opened. -/
def unopenedConfig : DiscoveryConfig where
  tree := some (unstatedTree.withFile (.ofString "b.json")
    { data := [0x7B, 0x7D], fault := some .opening }).toFileTree

def statFailure : DiscoveryError :=
  .acquisition (.ofIo .stating (.ofString "/w/a.json")
    (MemoryTree.injected .other "stat" (.ofString "a.json")))

def openFailure : DiscoveryError :=
  .acquisition (.ofIo .opening (.ofString "/w/b.json")
    (MemoryTree.injected .permissionDenied "open" (.ofString "b.json")))

def unstatedEntries : Entries :=
  [(.ofString "/w/a.json", ⟨0,
    { logicalName := .ofString "a.json"
      absolutePath := .ofString "/w/a.json"
      content := [0x7B, 0x7D]
      errors := [.ofIo .stating (.ofString "/w/a.json")
        (MemoryTree.injected .other "stat" (.ofString "a.json"))] }⟩)]

theorem discover_unstated : ∃ d, discover aliasHost 0 unstatedConfig = .ok d ∧
    d.entries = unstatedEntries ∧ d.errors = [statFailure] :=
  ⟨_, rfl, rfl, rfl⟩

/-- **A file that was read to its end is both unreadable and indexed**, and so the report of a drive
where everything was walked, read and indexed is not complete. -/
theorem unstated_file_indexed : ∃ (d : LocalDrive) (sightings : List Sighting)
    (report : IndexReport), d.Sees sightings ∧ (sightings.map Sighting.address).Nodup ∧
    (∀ s ∈ sightings, s.entry.error = none ∧ s.Collected) ∧
    (d.indexAll Indexer.references {} {}).1 = report ∧ report.failed = [] ∧
    statFailure ∈ report.unreadable ∧ statFailure.path ∈ report.indexed.map Prod.fst ∧
    report.isComplete = false := by
  obtain ⟨d, hd, hentries, herrors⟩ := discover_unstated
  have hpass : (d.indexAll Indexer.references {} {}).1.failed = [] ∧
      (d.indexAll Indexer.references {} {}).1.indexed.map Prod.fst = [.ofString "/w/a.json"] := by
    rw [Drive.indexAll, hentries]
    constructor
    · cbv
    · cbv
  have hcollected : Sighting.Collected ⟨unstatedConfig.scope aliasHost.cwd,
      unstatedConfig.fileTree aliasHost, { path := .ofString "a.json" }⟩ := by
    refine ⟨⟨_, _, rfl, rfl, ?_, ⟨.json, rfl⟩, rfl, rfl⟩, rfl⟩
    intro p hp
    cases hp
  have hunreadable : (d.indexAll Indexer.references {} {}).1.unreadable = [statFailure] := herrors
  refine ⟨d, _, _, .discovered (Or.inr rfl) hd rfl, List.nodup_singleton _, ?_, rfl, hpass.1, ?_, ?_,
    ?_⟩
  · exact List.forall_mem_singleton.2 ⟨rfl, hcollected⟩
  · rw [hunreadable]
    exact List.mem_cons_self
  · rw [hpass.2]
    exact List.mem_cons_self
  · rw [IndexReport.isComplete, hunreadable]
    exact Bool.and_false _

def unopenedSighting (name : String) : Sighting where
  scope := unopenedConfig.scope aliasHost.cwd
  tree := unopenedConfig.fileTree aliasHost
  entry := { path := .ofString name }

/-- In a mount, the document is unreadable and listed again, and its neighbour is unreadable only. -/
theorem report_of_sightings_mounted : ∃ (d : LocalDrive) (report : IndexReport),
    discover aliasHost 0 unopenedConfig = .ok d ∧
    ((mount aliasHost.cwd .empty [d.toDrive]).indexAll Indexer.references {} {}).1 = report ∧
    statFailure ∈ report.unreadable ∧
    (statFailure.path ∈ report.indexed.map Prod.fst ∨
      statFailure.path ∈ report.failed.map Prod.fst) ∧
    openFailure ∈ report.unreadable ∧
    ¬(openFailure.path ∈ report.indexed.map Prod.fst ∨
      openFailure.path ∈ report.failed.map Prod.fst) ∧
    report.isComplete = false := by
  obtain ⟨d, hd⟩ : ∃ d, discover aliasHost 0 unopenedConfig = .ok d := ⟨_, rfl⟩
  have hlocal : d.Sees [unopenedSighting "a.json", unopenedSighting "b.json"] :=
    .discovered (Or.inr rfl) hd rfl
  have hsees : (mount aliasHost.cwd .empty [d.toDrive]).Sees
      [unopenedSighting "a.json", unopenedSighting "b.json"] :=
    @Drive.Sees.mounted aliasHost.cwd .empty [(d.toDrive, _)] (Or.inr rfl)
      (List.forall_mem_singleton.2 hlocal)
  obtain ⟨report, hrun⟩ : ∃ report,
      ((mount aliasHost.cwd .empty [d.toDrive]).indexAll Indexer.references {} {}).1 = report :=
    ⟨_, rfl⟩
  obtain ⟨hunreadable, -, htwice, hcomplete⟩ := report_of_sightings hsees (List.Perm.refl _) hrun
  have hadmitted : (unopenedSighting "a.json").Admitted := ⟨rfl, rfl, rfl, .json, rfl⟩
  have hadmitted' : (unopenedSighting "b.json").Admitted := ⟨rfl, rfl, rfl, .json, rfl⟩
  have hcollected := Sighting.collected_iff.2 ⟨hadmitted, _, _, rfl, rfl⟩
  have hstat : (unopenedSighting "a.json").Problem statFailure := .unstated hadmitted rfl rfl
  have hopen : (unopenedSighting "b.json").Problem openFailure := .unopened hadmitted' rfl
  have hfirst := (hunreadable _).2 ⟨_, List.mem_cons_self, hstat⟩
  have hsecond := (hunreadable _).2 ⟨_, by simp, hopen⟩
  refine ⟨d, report, hd, hrun, hfirst, ?_, hsecond, ?_, ?_⟩
  · exact (htwice (by decide) _ hfirst).2 ⟨_, List.mem_cons_self, hcollected, _, _, rfl, rfl, rfl⟩
  · rw [htwice (by decide) _ hsecond]
    rintro ⟨s, -, -, file, io, -, -, hsame⟩
    cases hsame
  · rw [Bool.eq_false_iff, Ne, hcomplete]
    rintro ⟨hclean, -⟩
    exact Sighting.clean_iff.1 (hclean _ List.mem_cons_self) _ hstat

end DocDrive
