import DocDrive.CommandLine
import DocDrive.Proofs.Discovery
import DocDrive.Proofs.FileTree.Depth
import DocDrive.Proofs.Path.Text
import DocDrive.Proofs.Summary
import DocDrive.Proofs.Targets

/-!
# Printing reports as JSON

A report is printed as JSON if all its paths are text. Nothing but names decides about that: the
files that a document refers to are text if its own path is, because targets are. So one file with a
name that is no text, indexed or failed, leaves nothing of the whole report.

* `Report.isSome_json?_iff` — which reports have a JSON form; `Report.json?_spec` tells what it
  holds.
* `isText_of_mem_externalFiles` — the files that a document at a text refers to are text.
* `json_report_all_or_nothing` — what a command line that asks for JSON prints.
* `report_lost_to_one_file` — a file that takes the report of its neighbour with it.
-/

namespace DocDrive

/-! ## Parts of a JSON value -/

namespace Json.Value

/-- What an object has under a name. -/
def member? (name : String) : Value → Option Value
  | object members => members.lookup name
  | _ => none

def elements : Value → List Value
  | array items => items
  | _ => []

/-- The paths that the rows of a list in a report tell. -/
def rowPaths (v : Value) (list : String) : List (Option Value) :=
  (((v.member? list).map elements).getD []).map (member? "path")

end Json.Value

open Json Json.Value

/-! ## Reports with a JSON form -/

theorem Path.isSome_json?_iff {p : Path} : p.json?.isSome = true ↔ p.IsText := by
  rw [json?, Option.isSome_map, IsText]

/-- The paths of a row are text. -/
structure IndexedRow.IsText (row : IndexedRow) : Prop where
  path : row.file.path.IsText
  logicalName : row.file.logicalName.IsText
  externalFiles : ∀ q ∈ row.externalFiles, q.IsText

theorem IndexedRow.isSome_json?_iff {row : IndexedRow} :
    row.json?.isSome = true ↔ row.IsText := by
  have hfiles := isSome_mapM_iff (f := Path.json?) (l := row.externalFiles)
  simp only [Path.isSome_json?_iff] at hfiles
  have hrow : row.IsText ↔ row.file.path.json?.isSome = true ∧
      row.file.logicalName.json?.isSome = true ∧
        (row.externalFiles.mapM Path.json?).isSome = true := by
    rw [Path.isSome_json?_iff, Path.isSome_json?_iff, hfiles]
    exact ⟨fun h => ⟨h.path, h.logicalName, h.externalFiles⟩, fun h => ⟨h.1, h.2.1, h.2.2⟩⟩
  rw [hrow, json?]
  cases row.file.path.json? <;> cases row.file.logicalName.json? <;>
    cases row.externalFiles.mapM Path.json? <;> simp

theorem IndexedRow.member?_path {row : IndexedRow} {v : Value} (h : row.json? = some v) :
    v.member? "path" = row.file.path.json? := by
  obtain ⟨path, hpath, h⟩ := Option.bind_eq_some_iff.1 h
  obtain ⟨logicalName, -, h⟩ := Option.bind_eq_some_iff.1 h
  obtain ⟨externalFiles, -, h⟩ := Option.bind_eq_some_iff.1 h
  rw [hpath, ← Option.some.inj h]
  rfl

theorem FailedRow.isSome_json?_iff {row : FailedRow} :
    row.json?.isSome = true ↔ row.path.IsText := by
  rw [← Path.isSome_json?_iff, json?]
  cases row.path.json? <;> simp

theorem FailedRow.member?_path {row : FailedRow} {v : Value} (h : row.json? = some v) :
    v.member? "path" = row.path.json? := by
  obtain ⟨path, hpath, h⟩ := Option.bind_eq_some_iff.1 h
  rw [hpath, ← Option.some.inj h]
  rfl

namespace Report

variable {r : Report} {v : Value}

/-- **Which reports have a JSON form.** -/
theorem isSome_json?_iff : r.json?.isSome = true ↔ r.root.IsText ∧
    (∀ row ∈ r.indexed, row.IsText) ∧ ∀ row ∈ r.failed, row.path.IsText := by
  have hindexed := isSome_mapM_iff (f := IndexedRow.json?) (l := r.indexed)
  have hfailed := isSome_mapM_iff (f := FailedRow.json?) (l := r.failed)
  simp only [IndexedRow.isSome_json?_iff] at hindexed
  simp only [FailedRow.isSome_json?_iff] at hfailed
  rw [← Path.isSome_json?_iff, ← hindexed, ← hfailed, json?]
  cases r.root.json? <;> cases r.indexed.mapM IndexedRow.json? <;>
    cases r.failed.mapM FailedRow.json? <;> simp

/-- **What the JSON form of a report holds**: the root, the paths of the rows, and every line for a
problem of the discovery. -/
theorem json?_spec (h : r.json? = some v) : v.member? "root" = r.root.json? ∧
    v.rowPaths "indexed" = r.indexed.map (fun row => row.file.path.json?) ∧
    v.rowPaths "failed" = r.failed.map (fun row => row.path.json?) ∧
    v.member? "unreadable" = some (.texts r.unreadable) := by
  obtain ⟨root, hroot, h⟩ := Option.bind_eq_some_iff.1 h
  obtain ⟨indexed, hindexed, h⟩ := Option.bind_eq_some_iff.1 h
  obtain ⟨failed, hfailed, h⟩ := Option.bind_eq_some_iff.1 h
  rw [← Option.some.inj h, hroot]
  refine ⟨rfl, ?_, ?_, rfl⟩
  · exact map_of_mapM_eq_some hindexed fun row w => IndexedRow.member?_path
  · exact map_of_mapM_eq_some hfailed fun row w => FailedRow.member?_path

end Report

/-! ## Files that a document refers to -/

theorem isText_of_mem_externalFiles {x : StructuralIndex} {p q : Path} (hbase : x.base = none)
    (horigin : x.origin = some p) (hp : p.IsText) (hq : q ∈ x.externalFiles) : q.IsText := by
  obtain ⟨ref, -, f, -, rfl⟩ := StructuralIndex.mem_externalFiles_iff.1 hq
  have hstart : x.start = p.parent.getD .empty := by
    rw [StructuralIndex.start, hbase, horigin]
    rfl
  rw [hstart]
  refine Path.IsText.resolveAgainst ?_ (Path.isText_ofString f)
  cases hparent : p.parent with
  | none => exact Path.isText_ofString ""
  | some directory => exact hp.parent hparent

/-- An index that a record is asked for the first time has no base, and belongs to its path. -/
theorem base_origin_of_requestIndex {r : Record} {file : Nat} {x : Derived StructuralIndex}
    (h : (r.requestIndex file Indexer.references {} {}).1 = .ok x) :
    x.value.base = none ∧ x.value.origin = some r.absolutePath := by
  obtain ⟨y, hready, -⟩ | ⟨-, e, s, -, heq⟩ | ⟨-, t, s, cause, -, -, heq⟩ |
    ⟨-, t, s, y, -, hy, heq⟩ := requestIndex_cases r file Indexer.references {} {}
  · cases hready
  · rw [heq] at h
    cases h
  · rw [heq] at h
    cases h
  · rw [heq] at h
    rw [← Except.ok.inj h]
    exact ⟨base_of_references hy, rfl⟩

/-! ## Discovered names -/

section Discovered

variable {host : Host} {first : Nat} {c : DiscoveryConfig} {d : LocalDrive} {k : Path}
  {r : Shared Record}

/-- On a disk, a file whose address is text was found under a name that is text. -/
theorem LocalDrive.isText_logicalName (hnamed : host.disk.root.Named) (hdisk : c.tree = none)
    (hd : discover host first c = .ok d) (hr : (k, r) ∈ d.entries) (hk : k.IsText) :
    r.value.logicalName.IsText := by
  obtain ⟨walk, -, hwalk, -, hentries, -⟩ := discover_eq_ok hd
  rw [hentries] at hr
  obtain ⟨front, e, back, hcut, ⟨file, bytes, -, hresolve, hholds⟩, -⟩ :=
    Scope.first_of_mem_entries hr
  rw [hholds.logicalName]
  have he : e ∈ walk := by
    rw [hcut]
    simp
  rw [DiscoveryConfig.fileTree, hdisk] at hwalk
  obtain ⟨names, hnames, hpath⟩ := Disk.exists_names_of_mem_walk hnamed hwalk he
  rw [hpath] at hresolve ⊢
  exact Path.isText_ofNames_of_resolveAgainst hnames (hresolve ▸ hk)

end Discovered

namespace CommandLine

variable {host : Host} {program : String} {arguments : List String} {o : Options} {d : LocalDrive}

/-- The report on a drive whose files are indexed for the first time. -/
def reportOn (d : Drive) : Report := .ofIndexing d (d.indexAll Indexer.references {} {}).1

theorem run_json (hread : readArguments arguments = .ok (some o)) (hjson : o.json = true)
    (hd : discover host 0 o.discovery = .ok d) : run host program arguments =
      match (reportOn d.toDrive).json? with
      | some value => { stdout := value.pretty 0 ++ "\n" }
      | none => fatal "path contains invalid UTF-8 characters" := by
  rw [run, hread]
  show execute host o = _
  rw [execute, hd]
  show present o.json (reportOn d.toDrive) = _
  rw [present, hjson]
  rfl

/-- **Which reports on a discovered drive have a JSON form.** -/
theorem isSome_json?_reportOn (hcwd : o.root.isAbsolute = true ∨ host.cwd.isAbsolute = true)
    (hnamed : host.disk.root.Named) (hd : discover host 0 o.discovery = .ok d) :
    (reportOn d.toDrive).json?.isSome = true ↔
      d.root.IsText ∧ ∀ p ∈ d.entries.map Prod.fst, p.IsText := by
  have hs : Session (0 + d.entries.length) [d.toDrive] := .discovered .start hcwd hd
  have haddr := LocalDrive.addressed hcwd hd
  have hperm := Report.perm_paths haddr Indexer.references {} {} rfl
  rw [Report.isSome_json?_iff]
  constructor
  · rintro ⟨hroot, hindexed, hfailed⟩
    refine ⟨hroot, fun p hp => ?_⟩
    rcases List.mem_append.1 (hperm.mem_iff.2 hp) with hp | hp
    · obtain ⟨row, hrow, rfl⟩ := List.mem_map.1 hp
      exact (hindexed row hrow).path
    · obtain ⟨row, hrow, rfl⟩ := List.mem_map.1 hp
      exact hfailed row hrow
  · rintro ⟨hroot, hkeys⟩
    refine ⟨hroot, fun row hrow => ?_, fun row hrow => ?_⟩
    · obtain ⟨p, x, record, hx, hlookup, rfl⟩ := Report.mem_indexed_iff.1 hrow
      have hrecord := haddr.distinct.lookup_eq_some_iff.1 hlookup
      have hstamped := (haddr.entry _ hrecord).stamped
      have hp : p.IsText := hkeys p (List.mem_map_of_mem hrecord)
      obtain ⟨record', hrecord', hok⟩ :=
        (hs.mem_indexed_iff List.mem_cons_self (List.Perm.refl _)).1 hx
      obtain ⟨hbase, horigin⟩ := base_origin_of_requestIndex hok
      have hstamped' := (haddr.entry _ hrecord').stamped
      refine ⟨?_, ?_, fun q hq => ?_⟩
      · show record.value.absolutePath.IsText
        rw [hstamped]
        exact hp
      · exact LocalDrive.isText_logicalName hnamed rfl hd hrecord hp
      · exact isText_of_mem_externalFiles hbase horigin (hstamped' ▸ hp) hq
    · refine hkeys _ (hperm.mem_iff.1 (List.mem_append_right _ ?_))
      exact List.mem_map_of_mem hrow

/-- **A command line that asks for JSON prints all or nothing.** Let it discover a drive, on a disk
whose names are such as paths can have. If the root and the paths of all files are text, it prints a
JSON value that tells the root, the path of every file exactly once, as indexed or as failed, and
every problem of the discovery. If one of these paths is no text, nothing is printed and the run
ends with an error. -/
theorem json_report_all_or_nothing (hread : readArguments arguments = .ok (some o))
    (hjson : o.json = true) (hcwd : o.root.isAbsolute = true ∨ host.cwd.isAbsolute = true)
    (hnamed : host.disk.root.Named) (hd : discover host 0 o.discovery = .ok d) :
    (d.entries.map Prod.fst).Nodup ∧
    ((d.root.IsText ∧ ∀ p ∈ d.entries.map Prod.fst, p.IsText) → ∃ v : Value,
      run host program arguments = { stdout := v.pretty 0 ++ "\n" } ∧
      v.member? "root" = d.root.json? ∧
      (v.rowPaths "indexed" ++ v.rowPaths "failed").Perm (d.entries.map fun e => e.1.json?) ∧
      v.member? "unreadable" = some (.texts (d.errors.map DiscoveryError.display))) ∧
    ((¬(d.root.IsText ∧ ∀ p ∈ d.entries.map Prod.fst, p.IsText)) →
      run host program arguments =
        { status := 1, stderr := "Error: path contains invalid UTF-8 characters\n" }) := by
  have haddr := LocalDrive.addressed hcwd hd
  have hiff := isSome_json?_reportOn hcwd hnamed hd
  have hrun : run host program arguments = _ := run_json hread hjson hd
  refine ⟨haddr.distinct, fun htext => ?_, fun htext => ?_⟩
  · obtain ⟨v, hv⟩ := Option.isSome_iff_exists.1 (hiff.2 htext)
    obtain ⟨hroot, hindexed, hfailed, hunreadable⟩ := Report.json?_spec hv
    refine ⟨v, by rw [hrun, hv], hroot, ?_, hunreadable⟩
    have hperm := (Report.perm_paths haddr Indexer.references {} {} rfl).map Path.json?
    rw [List.map_append, List.map_map, List.map_map, List.map_map] at hperm
    rw [hindexed, hfailed]
    exact hperm
  · have hnone : (reportOn d.toDrive).json? = none :=
      Option.not_isSome_iff_eq_none.1 (mt hiff.1 htext)
    rw [hrun, hnone]
    rfl

/-! ## A file beside another -/

/-- A process at the root of a disk, and empty objects under some names there. -/
def objectsHost (names : List Bytes) : Host where
  cwd := .ofString "/"
  disk := { root := .directory (names.map fun name => (name, .file [0x7B, 0x7D])) }

/-- The options of `/ --json`. -/
def slashOptions : Options := { root := .ofString "/", json := true }

/-- The name `a.json`. -/
def plainName : Bytes := Utf8.ofString "a.json"

/-- A name with the ending of a JSON document that is no text. -/
def oddName : Bytes := 0x62 :: 0xFF :: Utf8.ofString ".json"

/-- The address of a name in the root. -/
def inRoot (name : Bytes) : Path := (Path.ofString "/").resolveAgainst (.ofNames [name])

theorem named_objectsHost {names : List Bytes} (hnames : ∀ name ∈ names, IsName name) :
    (objectsHost names).disk.root.Named := by
  refine .directory ?_ ?_
  · intro e he
    obtain ⟨name, hname, rfl⟩ := List.mem_map.1 he
    exact hnames name hname
  · intro e he
    obtain ⟨name, -, rfl⟩ := List.mem_map.1 he
    exact .file _

theorem child?_objectsHost {names : List Bytes} {name : Bytes} (hname : name ∈ names) :
    (objectsHost names).disk.root.child? name = some (.file [0x7B, 0x7D]) := by
  have hfind : names.find? (· == name) = some name := by
    have hsome : (names.find? (· == name)).isSome = true :=
      List.find?_isSome.2 ⟨name, hname, beq_self_eq_true name⟩
    obtain ⟨found, hfound⟩ := Option.isSome_iff_exists.1 hsome
    have hsame : (found == name) = true := List.find?_some (p := (· == name)) hfound
    rw [hfound, eq_of_beq hsame]
  show ((names.map _).find? _).map _ = _
  rw [List.find?_map]
  show ((names.find? (· == name)).map _).map _ = _
  rw [hfind]
  rfl

/-- A walk of files lists their names. -/
theorem walkEntries_files {names : List Bytes} (hnames : ∀ name ∈ names, IsName name)
    (data : Bytes) (depth : Nat) :
    Disk.walkEntries .empty depth (names.map fun name => (name, .file data)) =
      names.map fun name => { path := .ofNames [name] } := by
  induction names with
  | nil => rfl
  | cons name names ih =>
    obtain ⟨hname, hrest⟩ := List.forall_mem_cons.1 hnames
    rw [List.map_cons, List.map_cons, Disk.walkEntries, ih hrest, Disk.below_empty hname]
    cases depth <;> rfl

theorem walk_objectsHost {names : List Bytes} (hnames : ∀ name ∈ names, IsName name) :
    (objectsHost names).disk.walk (.ofString "/") (.ofString "/") none =
      .ok (names.map fun name => { path := .ofNames [name] }) := by
  rw [Disk.walk, Disk.find_slash _ _ rfl]
  obtain ⟨depth, hdepth⟩ := Nat.exists_eq_add_of_le'
    (Nat.le_max_right (Disk.height (objectsHost names).disk.root) 1)
  show Except.ok (Disk.walkEntry .empty (max (Disk.height (objectsHost names).disk.root) 1) _) = _
  rw [hdepth]
  exact congrArg Except.ok (walkEntries_files hnames _ depth)

/-- Exactly the objects under names that are admitted are collected. -/
theorem discover_objectsHost {names : List Bytes} (hlegal : ∀ name ∈ names, IsDiskName name)
    (hadmitted : ∀ name ∈ names, admission none (.ofNames [name]) = .ok .json)
    (hbound : ∀ name ∈ names, ((Path.ofString "/").join (.ofNames [name])).bytes.length <
      Disk.pathBound) :
    ∃ d, discover (objectsHost names) 0 slashOptions.discovery = .ok d ∧ d.root = .ofString "/" ∧
      ∀ p, p ∈ d.entries.map Prod.fst ↔ ∃ name ∈ names, inRoot name = p := by
  have hwalk : (slashOptions.discovery.fileTree (objectsHost names)).walk =
      .ok (names.map fun name => { path := .ofNames [name] }) :=
    walk_objectsHost fun name hname => (hlegal name hname).toIsName
  have hplaced : (objectsHost names).refusal? slashOptions.discovery.base = none := rfl
  obtain ⟨d, hd⟩ := exists_discover 0 hplaced hwalk
  obtain ⟨hroot, hentries, -⟩ := discover_eq_ok_of_walk hd hwalk
  have hdirectory : (slashOptions.discovery.scope (.ofString "/")).directory = .ofString "/" := by
    decide
  refine ⟨d, hd, hroot.trans hdirectory, fun p => ?_⟩
  have hkey : p ∈ d.entries.map Prod.fst ↔ ∃ x, (p, x) ∈ d.entries := by simp
  rw [hkey, hentries, Scope.exists_mem_entries_iff 0]
  constructor
  · rintro ⟨e, he, -, rfl⟩
    obtain ⟨name, hname, rfl⟩ := List.mem_map.1 he
    exact ⟨name, hname, rfl⟩
  · rintro ⟨name, hname, rfl⟩
    have hopen : (objectsHost names).disk.openFile (.ofString "/") (.ofString "/")
        (.ofNames [name]) = .ok (Disk.opened (.file [0x7B, 0x7D])) := by
      refine Disk.openFile_of_descend? rfl (Disk.find_slash _ _ rfl)
        (List.forall_mem_singleton.2 (hlegal name hname)) (List.cons_ne_nil _ _) ?_
        (hbound name hname)
      rw [DiskEntry.descend?_cons]
      exact Option.bind_eq_some_iff.2 ⟨_, child?_objectsHost hname, rfl⟩
    exact ⟨_, List.mem_map.2 ⟨name, hname, rfl⟩, ⟨_, _, rfl, rfl, nofun,
      ⟨.json, hadmitted name hname⟩, hopen, rfl⟩, rfl⟩

/-- A report with the one file that is there. -/
theorem json_report_all_or_nothing_plain : ∃ v : Value,
    run (objectsHost [plainName]) "drive" ["/", "--json"] = { stdout := v.pretty 0 ++ "\n" } ∧
      some (.string "/a.json") ∈ v.rowPaths "indexed" ++ v.rowPaths "failed" := by
  obtain ⟨d, hd, hroot, hkeys⟩ := @discover_objectsHost [plainName] (by decide) (by decide)
    (by decide)
  have hplain : inRoot plainName ∈ d.entries.map Prod.fst := by simp [hkeys]
  have htext : d.root.IsText ∧ ∀ p ∈ d.entries.map Prod.fst, p.IsText := by
    rw [hroot]
    refine ⟨by decide, fun p hp => ?_⟩
    obtain ⟨name, hname, rfl⟩ := (hkeys p).1 hp
    obtain rfl := List.mem_singleton.1 hname
    decide
  obtain ⟨-, hprinted, -⟩ := @json_report_all_or_nothing (objectsHost [plainName]) "drive"
    ["/", "--json"] slashOptions d rfl rfl (Or.inl rfl) (named_objectsHost (by decide)) hd
  obtain ⟨v, hrun, -, hpaths, -⟩ := hprinted htext
  refine ⟨v, hrun, hpaths.mem_iff.2 ?_⟩
  obtain ⟨e, he, hpath⟩ := List.mem_map.1 hplain
  exact List.mem_map.2 ⟨e, he, by rw [hpath]; rfl⟩

/-- **One file can leave nothing of a report.** Two files with the same content are collected, and
nothing is printed about either because the name of one is no text. -/
theorem report_lost_to_one_file : ∃ d,
    discover (objectsHost [plainName, oddName]) 0 slashOptions.discovery = .ok d ∧
      (∀ name ∈ [plainName, oddName], inRoot name ∈ d.entries.map Prod.fst) ∧
      run (objectsHost [plainName, oddName]) "drive" ["/", "--json"] =
        { status := 1, stderr := "Error: path contains invalid UTF-8 characters\n" } := by
  obtain ⟨d, hd, -, hkeys⟩ := @discover_objectsHost [plainName, oddName] (by decide) (by decide)
    (by decide)
  have hcollected : ∀ name ∈ [plainName, oddName], inRoot name ∈ d.entries.map Prod.fst :=
    fun name hname => (hkeys _).2 ⟨name, hname, rfl⟩
  refine ⟨d, hd, hcollected, ?_⟩
  have hodd : inRoot oddName ∈ d.entries.map Prod.fst := hcollected oddName (by simp)
  have hnone : (reportOn d.toDrive).json? = none := by
    rw [← Option.not_isSome_iff_eq_none,
      isSome_json?_reportOn (Or.inl rfl) (named_objectsHost (by decide)) hd]
    intro h
    exact absurd (h.2 _ hodd) (by decide)
  rw [run_json (rfl : readArguments ["/", "--json"] = .ok (some slashOptions)) rfl hd, hnone]
  rfl

end CommandLine

end DocDrive
