import DocDrive.Proofs.Discovery
import DocDrive.Proofs.FileTree.Disk
import DocDrive.Proofs.FileTree.Memory
import DocDrive.Proofs.Utf8

/-!
# Disk and memory discover the same drive

The files of a directory tree can be copied into a tree in memory, in any order. The walk of the
memory tree then lists the files that the walk of the disk lists, in the same order, and those below
dotted directories besides, which no discovery admits. So a discovery makes the same drive of both,
up to the times of the records.

* `Entries.undated_claimAll` — records that are the same but for their times are filed alike.
* `DiskEntry.Copied.files_eq` — the copied files are in the order of the tree.
* `Disk.walk_eq_shownFiles`, `MemoryTree.walk_eq_shownFiles` — the files that both walks list.
* `exists_discover_of_serves` — a walk over files that can be read makes a drive without errors.
* `disk_memory_agree` — both discoveries make the same drive.
-/

namespace DocDrive

/-! ## Records without their times -/

/-- A record with the time forgotten. -/
def Record.undated (r : Record) : Record := { r with modified := .clock }

namespace Entries

/-- Records by their paths, without their numbers and times. -/
def undated (entries : Entries) : List (Path × Record) :=
  entries.map fun e => (e.1, e.2.value.undated)

variable {entries entries' : Entries} {records records' : List Record}

theorem has_congr (h : entries.undated = entries'.undated) (p : Path) :
    entries.has p = entries'.has p := by
  have hkeys : entries.map Prod.fst = entries'.map Prod.fst := by
    have hmap := congrArg (List.map Prod.fst) h
    rw [undated, undated, List.map_map, List.map_map] at hmap
    exact hmap
  rw [Bool.eq_iff_iff, has_iff, has_iff, hkeys]

theorem undated_claim {r r' : Record} (h : entries.undated = entries'.undated)
    (hr : r.undated = r'.undated) (first first' : Nat) :
    (entries.claim first r).undated = (entries'.claim first' r').undated := by
  have hpath : r.undated.absolutePath = r'.undated.absolutePath := by rw [hr]
  change r.absolutePath = r'.absolutePath at hpath
  by_cases hhas : entries.has r.absolutePath = true
  · have hhas' : entries'.has r'.absolutePath = true := by rw [← hpath, ← has_congr h, hhas]
    rw [claim_of_has hhas, claim_of_has hhas', h]
  · have hhas' : ¬entries'.has r'.absolutePath = true := by rwa [← hpath, ← has_congr h]
    rw [claim_of_not_has hhas, claim_of_not_has hhas', undated, undated, List.map_append,
      List.map_append]
    rw [undated, undated] at h
    simp only [List.map_cons, List.map_nil]
    rw [h, hr, hpath]

/-- **Records that are the same but for their times are filed alike.** -/
theorem undated_claimAll (h : entries.undated = entries'.undated)
    (hrecords : records.map Record.undated = records'.map Record.undated) (first first' : Nat) :
    (entries.claimAll first records).undated = (entries'.claimAll first' records').undated := by
  induction records generalizing entries entries' records' with
  | nil =>
    obtain rfl : records' = [] := List.map_eq_nil_iff.1 hrecords.symm
    exact h
  | cons r records ih =>
    cases records' with
    | nil => cases hrecords
    | cons r' records' =>
      obtain ⟨hr, hrest⟩ := List.cons.inj hrecords
      rw [claimAll_cons, claimAll_cons]
      exact ih (undated_claim h hr first first') hrest

end Entries

/-! ## Dotted directories -/

/-- A path below a directory whose name is shown with a dot at its beginning. -/
def Path.isBelowDotted (p : Path) : Bool :=
  p.components.dropLast.any fun c => match c with
    | .normal name => DiskEntry.isDotted name
    | _ => false

section Names

variable {names : List Bytes} {name : Bytes}

theorem isHidden_of_isDotted (hname : IsFileName name) (h : DiskEntry.isDotted name = true) :
    (Component.normal name).isHidden = true := by
  obtain ⟨text, htext⟩ := Option.isSome_iff_exists.1 hname.isText
  rw [DiskEntry.isDotted, Utf8.lossy_of_decode? htext] at h
  rw [Component.isHidden, htext]
  cases text with
  | nil => cases h
  | cons c text =>
    obtain rfl : c = '.' := by simpa using h
    rfl

theorem isBelowDotted_ofNames (hnames : ∀ n ∈ names, IsFileName n) :
    (Path.ofNames names).isBelowDotted = !DiskEntry.isShown names := by
  rw [Path.isBelowDotted, components_ofNames_of_isFileName hnames,
    ← List.map_dropLast, List.any_map, DiskEntry.isShown, List.not_all_eq_any_not]
  simp [Function.comp_def]

/-- What lies below a dotted directory is hidden. -/
theorem isHidden_ofNames (hnames : ∀ n ∈ names, IsFileName n)
    (h : DiskEntry.isShown names = false) : (Path.ofNames names).isHidden = true := by
  obtain ⟨name, hname, hdotted⟩ : ∃ n ∈ names.dropLast, DiskEntry.isDotted n = true := by
    simpa [DiskEntry.isShown] using h
  have hmem : name ∈ names := (List.dropLast_sublist names).subset hname
  rw [Path.isHidden, components_ofNames_of_isFileName hnames, List.any_map]
  exact List.any_eq_true.2 ⟨name, hmem, isHidden_of_isDotted (hnames name hmem) hdotted⟩

end Names

/-! ## Copies -/

/-- What a tree in memory is filled with to hold the files of a directory tree: each of them once,
at its relative path, without a fault. They may come in any order and with any times. -/
structure DiskEntry.Copied (top : DiskEntry) (fill : List (Path × MemoryFile)) : Prop where
  perm : (fill.map fun f => (f.1, f.2.data)).Perm (top.files.map fun f => (.ofNames f.1, f.2))
  sound : ∀ f ∈ fill, f.2.fault = none

section Copies

variable {top : DiskEntry} {fill : List (Path × MemoryFile)}

/-- The files of a tree, by their paths. -/
def DiskEntry.pathFiles (top : DiskEntry) : List (Path × Bytes) :=
  top.files.map fun f => (.ofNames f.1, f.2)

theorem DiskEntry.Regular.pairwise_pathFiles (hregular : top.Regular) :
    top.pathFiles.Pairwise fun a b => a.1.order b.1 = .lt := by
  rw [pathFiles, List.pairwise_map]
  refine hregular.pairwise_files.imp_of_mem fun {f g} hf hg hbefore => ?_
  have hnames := (hregular.descend?_of_mem_files hf).1
  have hnames' := (hregular.descend?_of_mem_files hg).1
  rw [Path.order, components_ofNames_of_isFileName hnames, components_ofNames_of_isFileName hnames']
  exact hbefore

namespace DiskEntry.Copied

theorem plain (hcopied : top.Copied fill) (hregular : top.Regular) :
    ∀ a ∈ fill, Path.ofComponents a.1.components = a.1 := by
  intro a ha
  obtain ⟨f, hf, hfa⟩ := List.mem_map.1 (hcopied.perm.mem_iff.1 (List.mem_map_of_mem ha))
  have hpath : Path.ofNames f.1 = a.1 := congrArg Prod.fst hfa
  have hnames := (hregular.descend?_of_mem_files hf).1
  rw [← hpath, components_ofNames_of_isFileName hnames]
  rfl

/-- No two files have one address. -/
theorem distinct (hcopied : top.Copied fill) (hregular : top.Regular) :
    fill.Pairwise fun a b => a.1.same b.1 = false := by
  have hfiles : top.pathFiles.Pairwise fun a b => a.1.same b.1 = false := by
    refine hregular.pairwise_pathFiles.imp fun hlt => ?_
    rw [Bool.eq_false_iff, Ne, Path.same_iff, ← Path.order_eq_iff, hlt]
    decide
  have hsymm : ∀ {a b : Path × Bytes}, a.1.same b.1 = false → b.1.same a.1 = false := by
    intro a b h
    rw [Bool.eq_false_iff, Ne, Path.same_iff] at h ⊢
    exact fun hba => h hba.symm
  exact List.pairwise_map.1 ((hcopied.perm.pairwise_iff hsymm).2 hfiles)

theorem holds (hcopied : top.Copied fill) (hregular : top.Regular) :
    (({} : MemoryTree).filled fill).Holds fill :=
  MemoryTree.holds_filled .empty (hcopied.plain hregular) (hcopied.distinct hregular)

/-- **The copied files are in the order of the tree**, whatever the order in which they came. -/
theorem files_eq (hcopied : top.Copied fill) (hregular : top.Regular) :
    (({} : MemoryTree).filled fill).files.map (fun f => (f.1, f.2.data)) = top.pathFiles := by
  have hholds := hcopied.holds hregular
  have hnodup : fill.Nodup := (hcopied.distinct hregular).imp fun {a b} hdistinct heq => by
    rw [heq, Path.same_iff.2 rfl] at hdistinct
    cases hdistinct
  have hperm := (hholds.files_perm (hcopied.plain hregular) hnodup).map fun f => (f.1, f.2.data)
  refine List.Perm.eq_of_pairwise (fun a b _ _ hab hba => ?_)
    (List.pairwise_map.2 hholds.sorted.pairwise_files) hregular.pairwise_pathFiles
    (hperm.trans hcopied.perm)
  exact absurd (Path.order_lt_trans hab hba) (Path.not_order_lt_self _)

end DiskEntry.Copied

/-! ## Walks -/

/-- The files of a tree that no dotted directory stands above, as a walk lists them. -/
def DiskEntry.shownFiles (top : DiskEntry) : List WalkEntry :=
  (top.files.filter fun f => isShown f.1).map fun f => { path := .ofNames f.1 }

/-- **The walk of the disk lists the shown files.** -/
theorem Disk.walk_eq_shownFiles {disk : Disk} {cwd dir : Path} (hfind : disk.find cwd dir = .ok top)
    (htop : top.isDirectory = true) (hregular : top.Regular) :
    ∃ walk, disk.walk cwd dir none = .ok walk ∧
      (walk.filter fun e => !e.isDirectory) = top.shownFiles ∧ ∀ e ∈ walk, e.error = none := by
  refine ⟨walkEntry .empty ((height top).max 1) top, ?_, ?_, fun e => error_of_mem_walkEntry _ _ _⟩
  · rw [walk, hfind]
    exact if_pos htop
  · have hlists := hregular.walkListsFiles (Nat.le_max_left (height top) 1) [] nofun
    rw [List.filter_cons_of_neg (by simp [htop])] at hlists
    exact hlists

/-- The walk of a copy in memory lists all files. -/
theorem MemoryTree.walk_files_of_copied (hregular : top.Regular) (hcopied : top.Copied fill) :
    ((({} : MemoryTree).filled fill).walk.filter fun e => !e.isDirectory) =
      top.files.map fun f => { path := .ofNames f.1 } := by
  have hpaths := congrArg (List.map fun f => ({ path := f.1 } : WalkEntry))
    (hcopied.files_eq hregular)
  rw [DiskEntry.pathFiles, List.map_map, List.map_map] at hpaths
  rw [walk_files_of_readable (hcopied.holds hregular).readable_entries]
  exact hpaths

/-- **It lists the shown files**, once those below dotted directories are left out. -/
theorem MemoryTree.walk_eq_shownFiles (hregular : top.Regular) (hcopied : top.Copied fill) :
    ((({} : MemoryTree).filled fill).walk.filter fun e =>
      !e.isDirectory && !e.path.isBelowDotted) = top.shownFiles := by
  have hboth : ((({} : MemoryTree).filled fill).walk.filter fun e =>
      !e.isDirectory && !e.path.isBelowDotted) =
      ((({} : MemoryTree).filled fill).walk.filter fun e => !e.isDirectory).filter
        fun e => !e.path.isBelowDotted := by
    rw [List.filter_filter]
    exact List.filter_congr fun e _ => Bool.and_comm _ _
  rw [hboth, walk_files_of_copied hregular hcopied, List.filter_map, DiskEntry.shownFiles]
  congr 1
  refine List.filter_congr fun f hf => ?_
  simp only [Function.comp_apply]
  rw [isBelowDotted_ofNames (hregular.descend?_of_mem_files hf).1, Bool.not_not]

/-! ## Opening -/

/-- A tree opens a path, and the file can be stated and read. -/
def FileTree.Serves (tree : FileTree) (p : Path) (data : Bytes) : Prop :=
  ∃ file modified, tree.openFile p = .ok file ∧ file.stat = .ok ⟨data.length, modified⟩ ∧
    file.readAll = .ok data

theorem readAll_bytes (stat : Except IoError FileStat) (data : Bytes) :
    OpenFile.readAll { stat, ahead := [.bytes data] } = .ok data :=
  congrArg Except.ok (List.append_nil data)

/-- **The disk serves every file of the tree.** -/
theorem Disk.serves {disk : Disk} {cwd dir : Path} (hdir : dir.isAbsolute = true)
    (hfind : disk.find cwd dir = .ok top) (htop : top.isDirectory = true)
    (hregular : top.Regular) {f : List Bytes × Bytes} (hf : f ∈ top.files)
    (hbound : (dir.join (.ofNames f.1)).bytes.length < pathBound) :
    (disk.toFileTree cwd dir).Serves (.ofNames f.1) f.2 :=
  ⟨_, _, openFile_of_mem_files hdir hfind htop hregular hf hbound, rfl, readAll_bytes _ _⟩

/-- **The copy in memory serves them, too.** -/
theorem MemoryTree.serves (hregular : top.Regular) (hcopied : top.Copied fill)
    {f : List Bytes × Bytes} (hf : f ∈ top.files) :
    (({} : MemoryTree).filled fill).toFileTree.Serves (.ofNames f.1) f.2 := by
  have hholds := hcopied.holds hregular
  obtain ⟨g, hg, hgf⟩ := List.mem_map.1 (hcopied.perm.mem_iff.2 (List.mem_map_of_mem hf))
  obtain ⟨hpath, hdata⟩ := Prod.mk.inj hgf
  have hfound := (hholds.found g.1 g.2).2 ⟨g.1, hg, Path.same_iff.2 rfl⟩
  have hsound := hcopied.sound g hg
  rw [← hpath, ← hdata]
  refine ⟨opened g.2 g.1, g.2.modified, ?_, ?_, ?_⟩
  · change MemoryTree.openFile _ _ = _
    rw [openFile, hfound]
    simp [hsound]
  · simp [opened, hsound]
  · simp only [opened, hsound, reduceCtorEq, if_false]
    exact readAll_bytes _ _

end Copies

/-! ## Visits -/

section Visits

variable {s : Scope} {tree tree' : FileTree} {e : WalkEntry} {p : Path} {data : Bytes}
  {walk : List WalkEntry}

/-- The record that a file brings, without its time. -/
def Scope.recordOf? (s : Scope) (p : Path) (data : Bytes) : Option Record :=
  match admission s.filters p with
  | .error _ => none
  | .ok _ => some
    { logicalName := p, absolutePath := s.directory.resolveAgainst p, content := data }

/-- **What a served file comes to**: its record, if it is admitted, and no error. -/
theorem visit_of_serves (hall : s.only = none) (hserves : tree.Serves p data) :
    (s.visit tree { path := p }).record?.map Record.undated = s.recordOf? p data ∧
      (s.visit tree { path := p }).errors = [] := by
  obtain ⟨file, modified, hopen, hstat, hread⟩ := hserves
  have hcounts : s.ignores p = false := by rw [Scope.ignores, hall]
  unfold Scope.visit Scope.recordOf?
  rw [hcounts]
  cases hadmitted : admission s.filters p with
  | error reason => simp [Visit.record?, Visit.errors]
  | ok c =>
    simp [Visit.record?, Visit.errors, acquire, hopen, hstat, hread, Record.undated]

theorem visit_errors_of_isDirectory (hall : s.only = none) (herror : e.error = none)
    (hdir : e.isDirectory = true) : (s.visit tree e).errors = [] := by
  have hcounts : s.ignores e.path = false := by rw [Scope.ignores, hall]
  unfold Scope.visit
  simp [hcounts, herror, hdir, Visit.errors]

/-- A walk that met no problem, over a tree that serves the files in it. -/
def FileTree.Sound (tree : FileTree) (walk : List WalkEntry) : Prop :=
  ∀ e ∈ walk, e.error = none ∧ (e.isDirectory = false → ∃ data, tree.Serves e.path data)

theorem FileTree.Sound.visit_errors (h : tree.Sound walk) (hall : s.only = none) (he : e ∈ walk) :
    (s.visit tree e).errors = [] := by
  obtain ⟨herror, hserves⟩ := h e he
  cases hdir : e.isDirectory with
  | true => exact visit_errors_of_isDirectory hall herror hdir
  | false =>
    obtain ⟨data, hdata⟩ := hserves hdir
    have hentry : e = { path := e.path } := by
      obtain ⟨path, isDirectory, error⟩ := e
      obtain rfl : isDirectory = false := hdir
      obtain rfl : error = none := herror
      rfl
    rw [hentry]
    exact (visit_of_serves hall hdata).2

end Visits

/-! ## Discoveries -/

section Discoveries

variable {host : Host} {c : DiscoveryConfig} {top : DiskEntry} {fill : List (Path × MemoryFile)}
  {walk : List WalkEntry}

/-- The records that the shown files of a tree bring, without their times. -/
def Scope.recordsOf (s : Scope) (top : DiskEntry) : List Record :=
  (top.files.filter fun f => DiskEntry.isShown f.1).filterMap fun f =>
    s.recordOf? (.ofNames f.1) f.2

/-- **A discovery of served files** makes a drive of their records, without errors. The files that
the walk keeps are the shown ones; it may list others of the tree, if they bring no record. -/
theorem exists_discover_of_serves {keep : WalkEntry → Bool} (first : Nat)
    (hplaced : host.refusal? c.base = none) (hall : (c.scope host.cwd).only = none)
    (hwalk : (c.fileTree host).walk = .ok walk) (hnoError : ∀ e ∈ walk, e.error = none)
    (hlisted : ∀ e ∈ walk, e.isDirectory = false → ∃ f ∈ top.files, e.path = .ofNames f.1)
    (hserves : ∀ f ∈ top.files, (c.fileTree host).Serves (.ofNames f.1) f.2)
    (hfiles : walk.filter keep = top.shownFiles)
    (hmatters : ∀ e ∈ walk, ∀ r,
      ((c.scope host.cwd).visit (c.fileTree host) e).record? = some r → keep e = true) :
    ∃ d records, discover host first c = .ok d ∧ d.errors = [] ∧
      d.entries = Entries.claimAll [] first records ∧
      records.map Record.undated = (c.scope host.cwd).recordsOf top := by
  obtain ⟨d, hd⟩ := exists_discover first hplaced hwalk
  obtain ⟨-, hentries, herrors⟩ := discover_eq_ok_of_walk hd hwalk
  have hsound : (c.fileTree host).Sound walk := by
    intro e he
    refine ⟨hnoError e he, fun hfile => ?_⟩
    obtain ⟨f, hf, hpath⟩ := hlisted e he hfile
    rw [hpath]
    exact ⟨f.2, hserves f hf⟩
  refine ⟨d, _, hd, ?_, hentries, ?_⟩
  · rw [herrors]
    exact List.flatMap_eq_nil_iff.2 fun e he => hsound.visit_errors hall he
  · rw [← Scope.records_filter hmatters, hfiles, DiskEntry.shownFiles, Scope.records,
      List.filterMap_map, List.map_filterMap, Scope.recordsOf]
    refine List.filterMap_congr fun f hf => ?_
    exact (visit_of_serves hall (hserves f (List.mem_of_mem_filter hf))).1

/-- The disk of a process shows a directory tree: a regular one, in which no path of a file is too
long to be opened. -/
structure Host.Shows (host : Host) (dir : Path) (top : DiskEntry) : Prop where
  found : host.disk.find host.cwd dir = .ok top
  isDirectory : top.isDirectory = true
  regular : top.Regular
  reachable : ∀ f ∈ top.files, (dir.join (.ofNames f.1)).bytes.length < Disk.pathBound

theorem mem_shownFiles {e : WalkEntry} (h : e ∈ top.shownFiles) :
    ∃ f ∈ top.files, e.path = .ofNames f.1 := by
  obtain ⟨f, hf, rfl⟩ := List.mem_map.1 h
  exact ⟨f, List.mem_of_mem_filter hf, rfl⟩

/-- **Discovering a directory on the disk.** -/
theorem exists_discover_disk (first : Nat) (hdisk : c.tree = none)
    (hdirectory : FileClass.classify c.base = .unsupported)
    (hplaced : host.refusal? c.base = none)
    (habsolute : c.base.isAbsolute = true ∨ host.cwd.isAbsolute = true)
    (hshows : host.Shows (c.scope host.cwd).directory top) :
    ∃ walk d records, (c.fileTree host).walk = .ok walk ∧
      (walk.filter fun e => !e.isDirectory) = top.shownFiles ∧
      discover host first c = .ok d ∧ d.errors = [] ∧
      d.entries = Entries.claimAll [] first records ∧
      records.map Record.undated = (c.scope host.cwd).recordsOf top := by
  have hscope := DiscoveryConfig.scope_of_unsupported hdirectory host.cwd
  have hdir : (c.scope host.cwd).directory.isAbsolute = true := by
    rw [hscope]
    exact Path.isAbsolute_absolutize habsolute
  have htree : c.fileTree host = host.disk.toFileTree host.cwd (c.scope host.cwd).directory := by
    rw [DiscoveryConfig.fileTree, hdisk, hscope]
    rfl
  have hserves : ∀ f ∈ top.files, (c.fileTree host).Serves (.ofNames f.1) f.2 := by
    intro f hf
    rw [htree]
    exact Disk.serves hdir hshows.found hshows.isDirectory hshows.regular hf (hshows.reachable f hf)
  obtain ⟨walk, hwalk, hfiles, hnoError⟩ :=
    Disk.walk_eq_shownFiles hshows.found hshows.isDirectory hshows.regular
  have hwalk' : (c.fileTree host).walk = .ok walk := by rw [htree]; exact hwalk
  have hlisted : ∀ e ∈ walk, e.isDirectory = false → ∃ f ∈ top.files, e.path = .ofNames f.1 := by
    intro e he hfile
    exact mem_shownFiles (hfiles ▸ List.mem_filter.2 ⟨he, by rw [hfile]; rfl⟩)
  have hmatters : ∀ e ∈ walk, ∀ r, ((c.scope host.cwd).visit (c.fileTree host) e).record? = some r →
      (!e.isDirectory) = true := by
    intro e _ r hrecord
    obtain ⟨file, bytes, hcollects, -⟩ := visit_record?_iff.1 hrecord
    rw [hcollects.isFile]
    rfl
  obtain ⟨d, records, hd, herrors, hentries, hrecords⟩ :=
    exists_discover_of_serves first hplaced (by rw [hscope]) hwalk' hnoError hlisted hserves hfiles
      hmatters
  exact ⟨walk, d, records, hwalk', hfiles, hd, herrors, hentries, hrecords⟩

/-- **Discovering a copy in memory.** -/
theorem exists_discover_memory (first : Nat)
    (htree : c.tree = some (({} : MemoryTree).filled fill).toFileTree)
    (hdirectory : FileClass.classify c.base = .unsupported)
    (hplaced : host.refusal? c.base = none) (hregular : top.Regular)
    (hcopied : top.Copied fill) :
    ∃ d records, discover host first c = .ok d ∧ d.errors = [] ∧
      d.entries = Entries.claimAll [] first records ∧
      records.map Record.undated = (c.scope host.cwd).recordsOf top := by
  have hall : (c.scope host.cwd).only = none := by
    rw [DiscoveryConfig.scope_of_unsupported hdirectory]
  have htree' : c.fileTree host = (({} : MemoryTree).filled fill).toFileTree := by
    rw [DiscoveryConfig.fileTree, htree]
  have hserves : ∀ f ∈ top.files, (c.fileTree host).Serves (.ofNames f.1) f.2 := by
    intro f hf
    rw [htree']
    exact MemoryTree.serves hregular hcopied hf
  have hnoError : ∀ e ∈ (({} : MemoryTree).filled fill).walk, e.error = none := by
    intro e he
    rw [MemoryTree.walk_of_readable (hcopied.holds hregular).readable_entries] at he
    obtain ⟨a, -, rfl⟩ := List.mem_map.1 he
    rfl
  have hlisted : ∀ e ∈ (({} : MemoryTree).filled fill).walk, e.isDirectory = false →
      ∃ f ∈ top.files, e.path = .ofNames f.1 := by
    intro e he hfile
    have hmem : e ∈ (({} : MemoryTree).filled fill).walk.filter fun e => !e.isDirectory :=
      List.mem_filter.2 ⟨he, by rw [hfile]; rfl⟩
    rw [MemoryTree.walk_files_of_copied hregular hcopied] at hmem
    obtain ⟨f, hf, rfl⟩ := List.mem_map.1 hmem
    exact ⟨f, hf, rfl⟩
  have hmatters : ∀ e ∈ (({} : MemoryTree).filled fill).walk, ∀ r,
      ((c.scope host.cwd).visit (c.fileTree host) e).record? = some r →
      (!e.isDirectory && !e.path.isBelowDotted) = true := by
    intro e he r hrecord
    obtain ⟨file, bytes, hcollects, -⟩ := visit_record?_iff.1 hrecord
    obtain ⟨f, hf, hpath⟩ := hlisted e he hcollects.isFile
    obtain ⟨class', hadmitted⟩ := hcollects.admitted
    have hnames := (hregular.descend?_of_mem_files hf).1
    -- Nothing that is hidden is admitted.
    have hshown : DiskEntry.isShown f.1 = true := by
      cases hshown : DiskEntry.isShown f.1 with
      | true => rfl
      | false =>
        have hhidden := (admission_eq_ok_iff.1 hadmitted).1
        rw [hpath, isHidden_ofNames hnames hshown] at hhidden
        cases hhidden
    rw [hcollects.isFile, hpath, isBelowDotted_ofNames hnames, hshown]
    rfl
  refine exists_discover_of_serves first hplaced hall ?_ hnoError hlisted hserves
    (MemoryTree.walk_eq_shownFiles hregular hcopied) hmatters
  rw [htree']
  rfl

/-- **Disk and memory discover the same drive.** Let a directory tree be on the disk below a base
that is no single file, and let a tree in memory be filled with its files, in any order. The walk of
the disk then lists the files that the walk of the memory lists, in the same order, but for those
below a dotted directory. Both discoveries succeed without errors, whatever the filters are, and
their drives have the same paths in the same order, with records that are the same but for their
times. -/
theorem disk_memory_agree (first first' : Nat) (hdisk : c.tree = none)
    (hdirectory : FileClass.classify c.base = .unsupported)
    (hplaced : host.refusal? c.base = none)
    (habsolute : c.base.isAbsolute = true ∨ host.cwd.isAbsolute = true)
    (hshows : host.Shows (c.scope host.cwd).directory top) (hcopied : top.Copied fill) :
    ∃ walk d d', (c.fileTree host).walk = .ok walk ∧
      (walk.filter fun e => !e.isDirectory) =
        ((({} : MemoryTree).filled fill).walk.filter fun e =>
          !e.isDirectory && !e.path.isBelowDotted) ∧
      discover host first c = .ok d ∧
      discover host first' { c with tree := some (({} : MemoryTree).filled fill).toFileTree } =
        .ok d' ∧
      d.errors = [] ∧ d'.errors = [] ∧ d.entries.undated = d'.entries.undated := by
  obtain ⟨walk, d, records, hwalk, hfiles, hd, herrors, hentries, hrecords⟩ :=
    exists_discover_disk first hdisk hdirectory hplaced habsolute hshows
  obtain ⟨d', records', hd', herrors', hentries', hrecords'⟩ :=
    exists_discover_memory (c := { c with tree := some (({} : MemoryTree).filled fill).toFileTree })
      first' rfl hdirectory hplaced hshows.regular hcopied
  refine ⟨walk, d, d', hwalk, ?_, hd, hd', herrors, herrors', ?_⟩
  · rw [hfiles, MemoryTree.walk_eq_shownFiles hshows.regular hcopied]
  · rw [hentries, hentries']
    exact Entries.undated_claimAll rfl (hrecords.trans hrecords'.symm) first first'

end Discoveries

/-! ## A directory beside a file of nearly the same name -/

/-- A dotted directory, a directory, and a file whose name begins like that of the directory. -/
def sampleTop : DiskEntry :=
  .directory [
    (Utf8.ofString ".git", .directory [(Utf8.ofString "x.json", .file [0x31])]),
    (Utf8.ofString "a", .directory [(Utf8.ofString "b.json", .file [0x32])]),
    (Utf8.ofString "a.yaml", .file [0x33])]

def sampleHost : Host where
  cwd := .ofString "/w"
  disk := { root := .directory [(Utf8.ofString "w", sampleTop)] }

/-- The files of that tree, the last one first. -/
def sampleFill : List (Path × MemoryFile) :=
  [(.ofString "a.yaml", { data := [0x33] }), (.ofString "a/b.json", { data := [0x32] }),
    (.ofString ".git/x.json", { data := [0x31] })]

theorem regular_sampleTop : sampleTop.Regular := by
  refine .directory (by decide) (by decide) fun e he => ?_
  simp only [List.mem_cons, List.not_mem_nil, or_false] at he
  rcases he with rfl | rfl | rfl
  · exact .directory (by decide) (by decide) (List.forall_mem_singleton.2 (.file _))
  · exact .directory (by decide) (by decide) (List.forall_mem_singleton.2 (.file _))
  · exact .file _

theorem shows_sampleTop : sampleHost.Shows (.ofString "/w") sampleTop where
  found := by
    refine (Disk.find_eq_ok_iff rfl).2 ⟨by decide, by decide, ?_⟩
    have hsteps : Disk.steps (.ofString "/w") = [Utf8.ofString "w"] := by decide
    rw [hsteps]
    exact Disk.follow_names (by decide) nofun rfl
  isDirectory := rfl
  regular := regular_sampleTop
  reachable := by decide

theorem copied_sampleFill : sampleTop.Copied sampleFill where
  perm := by decide
  sound := by decide

/-- The two drives of that tree, with the directory before the file. -/
theorem disk_memory_agree_sample : ∃ d d', discover sampleHost 0 {} = .ok d ∧
    discover sampleHost 7 { tree := some (({} : MemoryTree).filled sampleFill).toFileTree } =
      .ok d' ∧ d.entries.undated = d'.entries.undated ∧
    d'.entries.map Prod.fst = [.ofString "/w/a/b.json", .ofString "/w/a.yaml"] := by
  obtain ⟨-, d, d', -, -, hd, hd', -, -, hsame⟩ :=
    disk_memory_agree (c := {}) 0 7 rfl rfl rfl (Or.inr rfl) shows_sampleTop copied_sampleFill
  refine ⟨d, d', hd, hd', hsame, ?_⟩
  cases hd'
  rfl

end DocDrive
