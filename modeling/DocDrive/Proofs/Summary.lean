import DocDrive.Proofs.Indexing
import DocDrive.Proofs.Path.Names
import DocDrive.Report

/-!
# Rows of a report

Indexing a drive lists each of its paths once, as indexed or as failed, and a report has one row for
each of them: the record of an indexed path is always found, because the path is one of the drive.

* `IndexReport.perm_keys`, `IndexReport.pairwise_keys` — every result is listed once, and both lists
  are in the strict order of paths.
* `Report.forall₂_indexed`, `Report.forall₂_failed` — a report has one row for each listed path.
* `Report.mem_indexed_iff` — what a row for an indexed file tells.
* `report_loses_nothing` — a report on a whole drive, row by row.
-/

namespace DocDrive

/-! ## Paths of an index report -/

namespace IndexReport

variable {results : List (Path × Except DriveError (Derived StructuralIndex))}
  {unreadable : List DiscoveryError}

/-- **Every result is listed once**, as indexed or as failed. -/
theorem perm_keys (results : List (Path × Except DriveError (Derived StructuralIndex)))
    (unreadable : List DiscoveryError) :
    ((ofResults results unreadable).indexed.map Prod.fst ++
      (ofResults results unreadable).failed.map Prod.fst).Perm (results.map Prod.fst) := by
  have hsorted := (List.mergeSort_perm results fun a b => a.1.le b.1).map Prod.fst
  refine List.Perm.trans ?_ hsorted
  rw [ofResults]
  generalize results.mergeSort (fun a b => a.1.le b.1) = sorted
  induction sorted with
  | nil => exact List.Perm.nil
  | cons result sorted ih =>
    obtain ⟨p, x | x⟩ := result
    · exact List.perm_middle.trans (ih.cons p)
    · exact ih.cons p

/-- **Both lists are in the strict order of paths**, if the results have different normal paths. -/
theorem pairwise_keys (hdistinct : (results.map Prod.fst).Nodup)
    (hnormal : ∀ a ∈ results, a.1.Normal) :
    ((ofResults results unreadable).indexed.map Prod.fst).Pairwise (fun p q => p.order q = .lt) ∧
      ((ofResults results unreadable).failed.map Prod.fst).Pairwise fun p q => p.order q = .lt := by
  have hsorted := Path.pairwise_lt_mergeSort hdistinct hnormal
  unfold ofResults
  rw [List.pairwise_map, List.pairwise_map]
  constructor
  · refine hsorted.filterMap _ fun a a' hlt b hb b' hb' => ?_
    obtain ⟨p, x | x⟩ := a <;> obtain ⟨p', x' | x'⟩ := a' <;> cases hb <;> cases hb'
    exact hlt
  · refine hsorted.filterMap _ fun a a' hlt b hb b' hb' => ?_
    obtain ⟨p, x | x⟩ := a <;> obtain ⟨p', x' | x'⟩ := a' <;> cases hb <;> cases hb'
    exact hlt

end IndexReport

namespace Drive

variable {d : Drive} {order : Entries}

/-- A pass over a drive has one result for each of its paths. -/
theorem perm_keys_requestAll (horder : order.Perm d.entries) (indexer : Indexer)
    (config : IndexConfig) (c : Caches) :
    ((c.requestAll indexer config order).1.map Prod.fst).Perm (d.entries.map Prod.fst) := by
  rw [c.keys_requestAll]
  exact horder.map Prod.fst

/-- A pass over a drive lists each of its paths once. -/
theorem perm_keys_indexInOrder (horder : order.Perm d.entries) (indexer : Indexer)
    (config : IndexConfig) (c : Caches) :
    ((d.indexInOrder order indexer config c).1.indexed.map Prod.fst ++
      (d.indexInOrder order indexer config c).1.failed.map Prod.fst).Perm
        (d.entries.map Prod.fst) :=
  (IndexReport.perm_keys _ _).trans (perm_keys_requestAll horder indexer config c)

/-- A pass over a drive lists its paths in their strict order. -/
theorem pairwise_keys_indexInOrder (h : d.Addressed) (horder : order.Perm d.entries)
    (indexer : Indexer) (config : IndexConfig) (c : Caches) :
    ((d.indexInOrder order indexer config c).1.indexed.map Prod.fst).Pairwise
        (fun p q => p.order q = .lt) ∧
      ((d.indexInOrder order indexer config c).1.failed.map Prod.fst).Pairwise
        fun p q => p.order q = .lt := by
  have hkeys := perm_keys_requestAll horder indexer config c
  apply IndexReport.pairwise_keys
  · exact hkeys.nodup_iff.2 h.distinct
  · intro a ha
    obtain ⟨e, he, hpath⟩ := List.mem_map.1 (hkeys.mem_iff.1 (List.mem_map_of_mem ha))
    rw [← hpath]
    exact (h.entry e he).normal

end Drive

/-! ## Rows -/

/-- The row for an indexed path, if it is filed in the drive. -/
def IndexedRow.ofEntry? (d : Drive) (e : Path × Derived StructuralIndex) : Option IndexedRow :=
  (d.entries.lookup e.1).map fun record => .ofRecord record.value e.2.value

/-- What a row tells about the record at a path and about its index. Every reference of the index is
counted once, as local or as external. -/
structure IndexedRow.Tells (row : IndexedRow) (p : Path) (r : Record) (x : StructuralIndex) :
    Prop where
  path : row.file.path = p
  logicalName : row.file.logicalName = r.logicalName
  fileClass : row.file.fileClass = r.fileClass
  size : row.file.size = r.size
  errors : row.file.errors = r.errors.map AcquisitionError.display
  nodes : row.nodes = x.nodes
  references : row.localReferences + row.externalReferences = x.references.length
  externalFiles : row.externalFiles = x.externalFiles

/-- What a row tells about a file that could not be indexed. -/
structure FailedRow.Tells (row : FailedRow) (p : Path) (e : DriveError) : Prop where
  path : row.path = p
  error : row.error = e.message
  cause : row.cause = e.rootCause

theorem IndexedRow.tells_ofRecord {p : Path} {r : Record} (hpath : r.absolutePath = p)
    (x : StructuralIndex) : (IndexedRow.ofRecord r x).Tells p r x where
  path := hpath
  logicalName := rfl
  fileClass := rfl
  size := rfl
  errors := rfl
  nodes := rfl
  references := (List.length_eq_length_filter_add _).symm
  externalFiles := rfl

namespace Report

variable {d : Drive} {r : IndexReport} {row : IndexedRow} {order : Entries}

theorem indexed_ofIndexing (d : Drive) (r : IndexReport) :
    (ofIndexing d r).indexed = r.indexed.filterMap (IndexedRow.ofEntry? d) := rfl

/-- **What a row for an indexed file tells**: its record and its index. -/
theorem mem_indexed_iff : row ∈ (ofIndexing d r).indexed ↔ ∃ p x record,
    (p, x) ∈ r.indexed ∧ d.entries.lookup p = some record ∧
      row = .ofRecord record.value x.value := by
  rw [indexed_ofIndexing, List.mem_filterMap]
  constructor
  · rintro ⟨⟨p, x⟩, hx, hrow⟩
    obtain ⟨record, hrecord, rfl⟩ := Option.map_eq_some_iff.1 hrow
    exact ⟨p, x, record, hx, hrecord, rfl⟩
  · rintro ⟨p, x, record, hx, hrecord, rfl⟩
    exact ⟨(p, x), hx, Option.map_eq_some_iff.2 ⟨record, hrecord, rfl⟩⟩

/-- **No indexed path is left without a row**, if they are paths of the drive: the rows stand in the
order of the paths, each for the record at its path. -/
theorem forall₂_indexed (h : d.Addressed)
    (hkeys : ∀ p ∈ r.indexed.map Prod.fst, p ∈ d.entries.map Prod.fst) :
    List.Forall₂ (fun row e => ∃ record, (e.1, record) ∈ d.entries ∧
      IndexedRow.Tells row e.1 record.value e.2.value) (ofIndexing d r).indexed r.indexed := by
  rw [indexed_ofIndexing]
  generalize r.indexed = indexed at hkeys ⊢
  induction indexed with
  | nil => exact .nil
  | cons e indexed ih =>
    obtain ⟨p, x⟩ := e
    rw [List.map_cons, List.forall_mem_cons] at hkeys
    obtain ⟨⟨k, record⟩, hmem, rfl⟩ := List.mem_map.1 hkeys.1
    have hlookup : d.entries.lookup k = some record := h.distinct.lookup_eq_some_iff.2 hmem
    have hrow : IndexedRow.ofEntry? d (k, x) = some (.ofRecord record.value x.value) := by
      rw [IndexedRow.ofEntry?, hlookup]
      rfl
    rw [List.filterMap_cons_some hrow]
    refine .cons ⟨record, hmem, ?_⟩ (ih hkeys.2)
    exact IndexedRow.tells_ofRecord (h.entry _ hmem).stamped x.value

theorem forall₂_failed (d : Drive) (r : IndexReport) :
    List.Forall₂ (fun row e => FailedRow.Tells row e.1 e.2) (ofIndexing d r).failed r.failed := by
  unfold ofIndexing
  rw [List.forall₂_map_left_iff]
  exact List.forall₂_same.2 fun e _ => ⟨rfl, rfl, rfl⟩

theorem paths_indexed (h : d.Addressed)
    (hkeys : ∀ p ∈ r.indexed.map Prod.fst, p ∈ d.entries.map Prod.fst) :
    (ofIndexing d r).indexed.map (fun row => row.file.path) = r.indexed.map Prod.fst := by
  rw [← List.forall₂_eq_eq_eq, List.forall₂_map_left_iff, List.forall₂_map_right_iff]
  exact (forall₂_indexed h hkeys).imp fun row e ⟨_, _, htells⟩ => htells.path

theorem paths_failed (d : Drive) (r : IndexReport) :
    (ofIndexing d r).failed.map (fun row => row.path) = r.failed.map Prod.fst := by
  rw [← List.forall₂_eq_eq_eq, List.forall₂_map_left_iff, List.forall₂_map_right_iff]
  exact (forall₂_failed d r).imp fun row e htells => htells.path

/-- **A report on a whole drive has one row for each file.** -/
theorem perm_paths_indexInOrder (h : d.Addressed) (horder : order.Perm d.entries)
    (indexer : Indexer) (config : IndexConfig) (c : Caches) {report : Report}
    (hreport : report = ofIndexing d (d.indexInOrder order indexer config c).1) :
    (report.indexed.map (fun row => row.file.path) ++ report.failed.map fun row => row.path).Perm
      (d.entries.map Prod.fst) := by
  have hperm := d.perm_keys_indexInOrder horder indexer config c
  rw [hreport, paths_failed, paths_indexed h]
  · exact hperm
  · intro p hp
    exact hperm.subset (List.mem_append_left _ hp)

theorem perm_paths (h : d.Addressed) (indexer : Indexer) (config : IndexConfig) (c : Caches)
    {report : Report} (hreport : report = ofIndexing d (d.indexAll indexer config c).1) :
    (report.indexed.map (fun row => row.file.path) ++ report.failed.map fun row => row.path).Perm
      (d.entries.map Prod.fst) :=
  perm_paths_indexInOrder h (List.Perm.refl _) indexer config c hreport

end Report

/-! ## Reports on whole drives -/

/-- **A report loses nothing.** Index any drive of a session, from any caches, with any indexer and
in any order, and report on it. The report has one row for each indexed file and one for each that
failed, both in the strict order of paths, so that every path of the drive has exactly one row. A
row for an indexed file describes the record at its path and the index that this record has cached,
and counts each reference of the index once. The unreadable are the problems of the drive in their
order. -/
theorem report_loses_nothing {next : Nat} {drives : List Drive} {d : Drive} {order : Entries}
    {c c' : Caches} {indexer : Indexer} {config : IndexConfig} {report : IndexReport}
    {summary : Report} (hs : Session next drives) (hd : d ∈ drives) (horder : order.Perm d.entries)
    (hrun : d.indexInOrder order indexer config c = (report, c'))
    (hsummary : Report.ofIndexing d report = summary) :
    summary.root = d.root ∧
    List.Forall₂ (fun row e => ∃ record, d.lookup e.1 = some record ∧
      (c'.state record.number).index = .ready e.2 ∧
      IndexedRow.Tells row e.1 record.value e.2.value) summary.indexed report.indexed ∧
    List.Forall₂ (fun row e => FailedRow.Tells row e.1 e.2) summary.failed report.failed ∧
    (summary.indexed.map fun row => row.file.path).Pairwise (fun p q => p.order q = .lt) ∧
    (summary.failed.map fun row => row.path).Pairwise (fun p q => p.order q = .lt) ∧
    (summary.indexed.map (fun row => row.file.path) ++ summary.failed.map fun row => row.path).Perm
      (d.entries.map Prod.fst) ∧
    (d.entries.map Prod.fst).Nodup ∧
    summary.unreadable = d.errors.map DiscoveryError.display := by
  have haddr := hs.sound.addressed d hd
  obtain rfl : (d.indexInOrder order indexer config c).1 = report := congrArg Prod.fst hrun
  obtain rfl : (d.indexInOrder order indexer config c).2 = c' := congrArg Prod.snd hrun
  have hkeys : ∀ p ∈ (d.indexInOrder order indexer config c).1.indexed.map Prod.fst,
      p ∈ d.entries.map Prod.fst := by
    intro p hp
    apply (d.perm_keys_indexInOrder horder indexer config c).subset
    exact List.mem_append_left _ hp
  obtain ⟨hindexed, hfailed⟩ := d.pairwise_keys_indexInOrder haddr horder indexer config c
  rw [← Report.paths_indexed haddr hkeys] at hindexed
  rw [← Report.paths_failed d] at hfailed
  have hperm := Report.perm_paths_indexInOrder haddr horder indexer config c hsummary.symm
  subst hsummary
  refine ⟨rfl, ?_, Report.forall₂_failed d _, hindexed, hfailed, hperm, haddr.distinct, rfl⟩
  obtain ⟨hlength, hrows⟩ := List.forall₂_iff_zip.1 (Report.forall₂_indexed haddr hkeys)
  refine List.forall₂_iff_zip.2 ⟨hlength, fun {row e} hzip => ?_⟩
  obtain ⟨record, hrecord, htells⟩ := hrows hzip
  refine ⟨record, hs.lookup_eq hd hrecord, ?_, htells⟩
  -- The index that is listed is the one that the request has left in the cell.
  obtain ⟨record', hrecord', hok⟩ := (hs.mem_indexed_iff hd horder).1 (List.of_mem_zip hzip).2
  obtain rfl : record = record' :=
    Option.some.inj ((hs.lookup_eq hd hrecord).symm.trans (hs.lookup_eq hd hrecord'))
  rw [hs.state_eq hd horder hrecord]
  exact ready_of_requestIndex_ok hok

/-- A mount of a tree with a document and with a file that has none in it is indexed from its end:
one row for each of them. -/
theorem report_loses_nothing_mounted : ∃ (d : LocalDrive) (m : Drive) (report : IndexReport)
    (c : Caches) (summary : Report), Session 2 [m, d.toDrive] ∧
    m.indexInOrder m.entries.reverse Indexer.references {} {} = (report, c) ∧
    Report.ofIndexing m report = summary ∧
    (summary.indexed.map (fun row => row.file.path) ++ summary.failed.map fun row => row.path).Perm
      [.ofString "/w/a.json", .ofString "/w/b.json"] ∧
    summary.unreadable = [] := by
  obtain ⟨d, hd, hentries, herrors⟩ := discover_pair
  have hdiscovered : Session (0 + d.entries.length) [d.toDrive] :=
    .discovered .start (Or.inr rfl) hd
  rw [hentries] at hdiscovered
  obtain ⟨m, hm⟩ : ∃ m, m = (mount aliasHost.cwd .empty [d.toDrive]).toDrive := ⟨_, rfl⟩
  have hs : Session 2 [m, d.toDrive] := hm ▸ hdiscovered.mounted (Or.inr rfl) (by simp)
  have hfiles : m.entries = pairEntries := by
    rw [hm, mount, List.map_singleton, hentries]
    rfl
  have hproblems : m.errors = [] := by
    rw [hm, mount, List.flatMap_singleton, herrors]
  obtain ⟨report, c, hrun⟩ : ∃ report c,
      m.indexInOrder m.entries.reverse Indexer.references {} {} = (report, c) := ⟨_, _, rfl⟩
  obtain ⟨-, -, -, -, -, hperm, -, hunreadable⟩ :=
    report_loses_nothing hs List.mem_cons_self (List.reverse_perm m.entries) hrun rfl
  have hkeys : m.entries.map Prod.fst = [.ofString "/w/a.json", .ofString "/w/b.json"] := by
    rw [hfiles]
    rfl
  rw [hkeys] at hperm
  refine ⟨d, m, report, c, _, hs, hrun, rfl, hperm, hunreadable.trans ?_⟩
  rw [hproblems]
  rfl

end DocDrive
