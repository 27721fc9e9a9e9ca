import Mathlib
import DocDrive.FileTree.Memory
import DocDrive.Proofs.Identity
import DocDrive.Proofs.Path.Parent
import DocDrive.Proofs.Requests

/-!
# The files that references name

An index lists the files that the references of its document name. What a relative name is seen from
is the base that the index was configured with, or else the directory of the file. The directory of
a file in a drive is absolute, but a base is taken as it comes: with a relative base the listed
paths are relative, and what they lead to depends on the drive that is asked.

* `StructuralIndex.mem_externalFiles_iff` — the files of an index are the addresses of its names.
* `StructuralIndex.forall_isAbsolute_externalFiles_iff` — when all of them are absolute.
* `Drive.Built.start_isAbsolute_iff` — what the names in a file of a drive are seen from.
* `external_files_addressed` — exactly the absolute ones are addresses of drives.
* `relative_base_unaddressed` — a base that is relative, and a target that is no address.
-/

namespace DocDrive

/-! ## The files of an index -/

namespace StructuralIndex

variable {x : StructuralIndex} {q : Path} {l : List Path}

/-- Among normal paths, a repeat is dropped for an equal one. -/
theorem mem_dropRepeats_iff (hnormal : ∀ p ∈ l, p.Normal) : q ∈ dropRepeats l ↔ q ∈ l := by
  induction l using dropRepeats.induct with
  | case1 => rw [dropRepeats]
  | case2 p => rw [dropRepeats]
  | case3 p p' rest hsame ih =>
    obtain ⟨hp, htail⟩ := List.forall_mem_cons.1 hnormal
    obtain ⟨hp', hrest⟩ := List.forall_mem_cons.1 htail
    obtain rfl : p = p' := Path.eq_of_same hp.plain hp'.plain hsame
    rw [dropRepeats, if_pos hsame, ih (List.forall_mem_cons.2 ⟨hp, hrest⟩)]
    simp
  | case4 p p' rest hdistinct ih =>
    obtain ⟨-, htail⟩ := List.forall_mem_cons.1 hnormal
    rw [dropRepeats, if_neg hdistinct, List.mem_cons, ih htail]
    exact List.mem_cons.symm

/-- **The files of an index are the addresses of the names in it.** -/
theorem mem_externalFiles_iff : q ∈ x.externalFiles ↔ ∃ ref ∈ x.externalReferences,
    ∃ f, ref.localFile? = some f ∧ x.start.resolveAgainst (.ofString f) = q := by
  have hnormal : ∀ p ∈ ((x.externalReferences.filterMap Reference.localFile?).map fun f =>
      x.start.resolveAgainst (.ofString f)).mergeSort Path.le, p.Normal := by
    intro p hp
    obtain ⟨f, -, rfl⟩ := List.mem_map.1 (List.mem_mergeSort.1 hp)
    exact Path.normal_resolveAgainst _ _
  unfold externalFiles
  dsimp only
  rw [mem_dropRepeats_iff hnormal, List.mem_mergeSort, List.mem_map]
  constructor
  · rintro ⟨f, hf, rfl⟩
    obtain ⟨ref, href, hfile⟩ := List.mem_filterMap.1 hf
    exact ⟨ref, href, f, hfile, rfl⟩
  · rintro ⟨ref, href, f, hfile, rfl⟩
    exact ⟨f, List.mem_filterMap.2 ⟨ref, href, hfile⟩, rfl⟩

theorem normal_of_mem_externalFiles (hq : q ∈ x.externalFiles) : q.Normal := by
  obtain ⟨_, -, f, -, rfl⟩ := mem_externalFiles_iff.1 hq
  exact Path.normal_resolveAgainst _ _

/-- **All files of an index are absolute** exactly if what its names are seen from is, or every
name. -/
theorem forall_isAbsolute_externalFiles_iff : (∀ q ∈ x.externalFiles, q.isAbsolute = true) ↔
    x.start.isAbsolute = true ∨ ∀ ref ∈ x.externalReferences, ∀ f, ref.localFile? = some f →
      (Path.ofString f).isAbsolute = true := by
  constructor
  · intro hall
    by_cases hstart : x.start.isAbsolute = true
    · exact Or.inl hstart
    · refine Or.inr fun ref href f hfile => ?_
      have hq := hall _ (mem_externalFiles_iff.2 ⟨ref, href, f, hfile, rfl⟩)
      exact (Path.isAbsolute_resolveAgainst_iff.1 hq).resolve_left hstart
  · intro h q hq
    obtain ⟨ref, href, f, hfile, rfl⟩ := mem_externalFiles_iff.1 hq
    exact Path.isAbsolute_resolveAgainst_iff.2 (h.imp_right fun hnames => hnames ref href f hfile)

end StructuralIndex

/-! ## Indexes in a drive -/

section Drives

variable {d : Drive} {k q : Path} {r : Shared Record} {x : StructuralIndex}

/-- Only files stand in a drive, and files have names. -/
theorem Drive.Built.exists_fileName (h : d.Built) (hr : (k, r) ∈ d.entries) :
    ∃ name, k.fileName = some name := by
  induction h generalizing k r with
  | discovered hcwd hd =>
    obtain ⟨e, file, bytes, hcollects, -, hresolve⟩ := LocalDrive.mem_entries hd hr
    obtain ⟨c, hadmitted⟩ := hcollects.admitted
    obtain ⟨-, -, hclass, hsupported⟩ := admission_eq_ok_iff.1 hadmitted
    obtain ⟨name, hname⟩ := FileClass.fileName_of_classify_ne (hclass ▸ hsupported)
    exact ⟨name, hresolve ▸ Path.fileName_resolveAgainst _ hname⟩
  | mounted _ _ ih =>
    rcases Entries.mem_joinAll hr with hr | ⟨source, hsource, hr⟩
    · cases hr
    · obtain ⟨s, hs, rfl⟩ := List.mem_map.1 hsource
      exact ih s hs hr

/-- The directory of a file in a drive is absolute. -/
theorem Drive.Built.exists_parent (h : d.Built) (hr : (k, r) ∈ d.entries) :
    ∃ directory, k.parent = some directory ∧ directory.isAbsolute = true := by
  obtain ⟨name, hname⟩ := h.exists_fileName hr
  obtain ⟨directory, hdirectory⟩ := Path.exists_parent hname
  have haddress := h.addressed.entry _ hr
  have hparent := Path.normal_parent haddress.normal haddress.absolute hdirectory
  exact ⟨directory, hdirectory, hparent.2⟩

/-- **What the names in a file of a drive are seen from** is absolute, unless it is a relative base
that was asked for. -/
theorem Drive.Built.start_isAbsolute_iff (h : d.Built) (hr : (k, r) ∈ d.entries)
    (horigin : x.origin = some k) : x.start.isAbsolute = true ↔
      ∀ base, x.base = some base → base.isAbsolute = true := by
  obtain ⟨directory, hparent, habsolute⟩ := h.exists_parent hr
  unfold StructuralIndex.start
  cases x.base with
  | some base => simp
  | none =>
    have hstart : (x.origin.bind Path.parent).getD .empty = directory := by
      rw [horigin, Option.bind_some, hparent, Option.getD_some]
    simp [hstart, habsolute]

/-- **A normal absolute path is found where it is a key**, whatever the root of the drive is. -/
theorem Drive.exists_openFile_iff_of_normal (d : Drive) (hq : q.Normal)
    (habsolute : q.isAbsolute = true) :
    d.resolve q = q ∧ ((∃ handle, d.openFile q = .ok handle) ↔ q ∈ d.entries.map Prod.fst) := by
  have hresolve : d.resolve q = q := Path.resolveAgainst_of_normal d.root hq habsolute
  refine ⟨hresolve, ?_⟩
  rw [← Entries.has_iff, Entries.has, Option.isSome_iff_exists]
  have hlookup : d.lookup q = d.entries.lookup q := by rw [Drive.lookup, hresolve]
  constructor
  · rintro ⟨handle, hopen⟩
    exact ⟨handle.record, hlookup ▸ (Drive.openFile_eq_ok_iff.1 hopen).1⟩
  · rintro ⟨record, hrecord⟩
    exact ⟨{ record }, Drive.openFile_eq_ok_iff.2 ⟨hlookup.trans hrecord, rfl⟩⟩

/-- A relative path is no address of a drive. -/
theorem Drive.Built.not_address (h : d.Built) (hq : q.isAbsolute = false) :
    d.resolve q ≠ q ∧ q ∉ d.entries.map Prod.fst := by
  constructor
  · intro hresolve
    have habsolute := Path.isAbsolute_resolveAgainst h.addressed.root q
    rw [← Drive.resolve, hresolve, hq] at habsolute
    cases habsolute
  · intro hkey
    obtain ⟨e, he, rfl⟩ := List.mem_map.1 hkey
    cases (h.addressed.entry e he).absolute.symm.trans hq

/-- The reference indexer keeps the base that it was configured with. -/
theorem base_of_references {t : Derived Node} {config : IndexConfig}
    (h : Indexer.references t config = .ok x) : x.base = config.base := by
  obtain rfl := Except.ok.inj h
  rfl

/-- **The files that references name are addresses exactly if they are absolute.** Let callers ask a
record of a drive anything, the reference indexer being the only indexer among them. An index that
they get was built with the base of one of the requests, and belongs to the path of the record. All
files that it lists are absolute exactly if there is no such base, or the base is absolute, or every
name in the document is absolute itself. A listed file that is absolute stands for itself on every
drive, and is found exactly on those that have it as a key, whatever their roots. One that is
relative is resolved to something else by every drive, and is a key of none. -/
theorem external_files_addressed {requests : List Request} {answers : List Answer} {s : FileState}
    {x : Derived StructuralIndex} (hbuilt : d.Built) (hr : (k, r) ∈ d.entries)
    (hindexers : ∀ indexer config, .index indexer config ∈ requests → indexer = Indexer.references)
    (hrun : r.value.answerAll r.number requests {} = (answers, s))
    (hx : .index (.ok x) ∈ answers) :
    ∃ config, .index Indexer.references config ∈ requests ∧ x.value.base = config.base ∧
      x.value.origin = some k ∧
      ((∀ q ∈ x.value.externalFiles, q.isAbsolute = true) ↔
        (∀ base, config.base = some base → base.isAbsolute = true) ∨
          ∀ ref ∈ x.value.externalReferences, ∀ f, ref.localFile? = some f →
            (Path.ofString f).isAbsolute = true) ∧
      (∀ q ∈ x.value.externalFiles, q.isAbsolute = true → ∀ d' : Drive, d'.resolve q = q ∧
        ((∃ handle, d'.openFile q = .ok handle) ↔ q ∈ d'.entries.map Prod.fst)) ∧
      (∀ q ∈ x.value.externalFiles, q.isAbsolute = false → ∀ d' : Drive, d'.Built →
        d'.resolve q ≠ q ∧ q ∉ d'.entries.map Prod.fst) := by
  have hsound : s.Sound r.value requests := by
    have h := sound_answerAll r.number (FileState.Sound.fresh r.value requests) fun q hq => hq
    rwa [hrun] at h
  have hready : s.index = .ready x := by
    have h := cachedIn_answerAll r.value r.number requests {}
    rw [hrun] at h
    exact h _ hx x rfl
  obtain ⟨t, indexer, config, y, -, hasked, hbuild, hvalue⟩ := hsound.built x hready
  obtain rfl := hindexers indexer config hasked
  have hbase : x.value.base = config.base := by
    rw [hvalue, ← base_of_references hbuild]
    rfl
  have horigin : x.value.origin = some k := by
    have hstamped : r.value.absolutePath = k := (hbuilt.addressed.entry _ hr).stamped
    rw [hvalue, hstamped]
    rfl
  refine ⟨config, hasked, hbase, horigin, ?_, fun q hq habsolute d' => ?_,
    fun q _ hrelative d' hbuilt' => ?_⟩
  · rw [StructuralIndex.forall_isAbsolute_externalFiles_iff,
      hbuilt.start_isAbsolute_iff hr horigin, hbase]
  · have hnormal := StructuralIndex.normal_of_mem_externalFiles hq
    exact d'.exists_openFile_iff_of_normal hnormal habsolute
  · exact hbuilt'.not_address hrelative

/-! ## One document and two bases -/

/-- The text `{"$ref":"b.json"}`. -/
def pointingBytes : Bytes :=
  [0x7B, 0x22, 0x24, 0x72, 0x65, 0x66, 0x22, 0x3A, 0x22, 0x62, 0x2E, 0x6A, 0x73, 0x6F, 0x6E, 0x22,
    0x7D]

def pointingNode : Node := .mapping [(.string "$ref", .string "b.json")]

/-- A process that works in the root of a tree. -/
def rootHost : Host := { cwd := .ofString "/" }

/-- The document at the root of a tree, and a file of the name it holds in a directory. -/
def pointingConfig : DiscoveryConfig where
  tree := some ((({} : MemoryTree).withFile (.ofString "a.json") { data := pointingBytes }).withFile
    (.ofString "s/b.json") { data := [0x7B, 0x7D] }).toFileTree

def pointingRecord : Record where
  logicalName := .ofString "a.json"
  absolutePath := .ofString "/a.json"
  content := pointingBytes

theorem discover_pointing : ∃ d target, discover rootHost 0 pointingConfig = .ok d ∧
    d.root = .ofString "/" ∧ d.entries =
      [(.ofString "/a.json", ⟨0, pointingRecord⟩), (.ofString "/s/b.json", target)] :=
  ⟨_, _, rfl, rfl, rfl⟩

/-- The index of the document with a base. -/
def pointingIndex (base : Path) : StructuralIndex where
  root := ⟨0, 0, pointingNode⟩
  origin := some (.ofString "/a.json")
  base := some base
  references := [⟨"/", "b.json"⟩]
  nodes := 2

theorem requestIndex_pointing (base : Path) : ∃ s,
    pointingRecord.requestIndex 0 Indexer.references { base := some base } {} =
      (.ok ⟨0, 0, pointingIndex base⟩, s) := by
  have hparse : pointingRecord.parser pointingRecord.content = .ok pointingNode := by cbv
  have hdocument : pointingRecord.document 0 {} = .ok ⟨0, 0, pointingNode⟩ :=
    congrArg (Except.map _) hparse
  have hbuild : Indexer.references ⟨0, 0, pointingNode⟩ { base := some base } =
      .ok { pointingIndex base with origin := none } := by
    have hreferences : pointingNode.references = [⟨"/", "b.json"⟩] := by cbv
    unfold Indexer.references
    rw [if_pos rfl]
    dsimp only
    rw [hreferences]
    rfl
  obtain ⟨parses, hrequest⟩ := requestIndex_of_indexer_ok rfl hdocument hbuild
  exact ⟨_, hrequest⟩

/-- The one name in the document is seen from the base. -/
theorem externalFiles_pointing (base : Path) :
    (pointingIndex base).externalFiles = [base.resolveAgainst (.ofString "b.json")] := by
  have hnames : (pointingIndex base).externalReferences.filterMap Reference.localFile? =
      ["b.json"] := by
    change (([⟨"/", "b.json"⟩] : List Reference).filter (!·.isLocal)).filterMap _ = _
    decide
  unfold StructuralIndex.externalFiles
  dsimp only
  rw [hnames, List.map_singleton, List.mergeSort_singleton, StructuralIndex.dropRepeats]
  rfl

/-- With an absolute base the target is found through a mount with any root. -/
theorem external_files_addressed_mounted : ∃ (d : LocalDrive) (r : Shared Record)
    (x : Derived StructuralIndex) (s : FileState) (q : Path),
    discover rootHost 0 pointingConfig = .ok d ∧ (.ofString "/a.json", r) ∈ d.entries ∧
    r.value.requestIndex r.number Indexer.references { base := some (.ofString "/s") } {} =
      (.ok x, s) ∧ q ∈ x.value.externalFiles ∧ q.isAbsolute = true ∧
    ∀ root, ∃ handle, (mount rootHost.cwd root [d.toDrive]).openFile q = .ok handle := by
  obtain ⟨d, target, hd, -, hentries⟩ := discover_pointing
  have hbuilt : d.Built := .discovered (Or.inr rfl) hd
  have hmem : (Path.ofString "/a.json", ⟨0, pointingRecord⟩) ∈ d.entries := by
    rw [hentries]
    exact List.mem_cons_self
  obtain ⟨s, hrequest⟩ := requestIndex_pointing (.ofString "/s")
  have hrun : pointingRecord.answerAll 0
      [.index Indexer.references { base := some (.ofString "/s") }] {} =
        ([.index (.ok ⟨0, 0, pointingIndex (.ofString "/s")⟩)], s) := by
    simp only [Record.answerAll, Record.answer, hrequest, Prod.map, id]
  obtain ⟨config, -, hbase, -, habsolute, hfound, -⟩ := external_files_addressed hbuilt hmem
    (by simp) hrun List.mem_cons_self
  have hall := habsolute.2 (Or.inl fun base hconfig => by
    obtain rfl : .ofString "/s" = base := Option.some.inj (hbase.trans hconfig)
    rfl)
  have hfiles : (pointingIndex (.ofString "/s")).externalFiles = [.ofString "/s/b.json"] := by
    rw [externalFiles_pointing]
    decide
  have hq : .ofString "/s/b.json" ∈ (pointingIndex (.ofString "/s")).externalFiles := by
    rw [hfiles]
    exact List.mem_cons_self
  refine ⟨d, _, _, s, _, hd, hmem, hrequest, hq, hall _ hq, fun root => ?_⟩
  refine ((hfound _ hq (hall _ hq) _).2).2 ?_
  rw [mount, Entries.mem_keys_joinAll]
  simp [hentries]

/-- **With a relative base the target is no address.** It is relative and the drive resolves it to
something else. The drive opens it although it is no key, and a mount of the same records below
another root does not open it. -/
theorem relative_base_unaddressed : ∃ (d : LocalDrive) (r : Shared Record)
    (x : Derived StructuralIndex) (s : FileState) (q : Path),
    discover rootHost 0 pointingConfig = .ok d ∧ (.ofString "/a.json", r) ∈ d.entries ∧
    r.value.requestIndex r.number Indexer.references { base := some (.ofString "s") } {} =
      (.ok x, s) ∧ x.value.externalFiles = [q] ∧ q.isAbsolute = false ∧
    d.resolve q ≠ q ∧ q ∉ d.entries.map Prod.fst ∧ (∃ handle, d.openFile q = .ok handle) ∧
    (mount rootHost.cwd (.ofString "/m") [d.toDrive]).openFile q =
      .error (.notFound (.ofString "/m/s/b.json")) := by
  obtain ⟨d, target, hd, hroot, hentries⟩ := discover_pointing
  have hbuilt : d.Built := .discovered (Or.inr rfl) hd
  have hmem : (Path.ofString "/a.json", ⟨0, pointingRecord⟩) ∈ d.entries := by
    rw [hentries]
    exact List.mem_cons_self
  obtain ⟨s, hrequest⟩ := requestIndex_pointing (.ofString "s")
  have hfiles : (pointingIndex (.ofString "s")).externalFiles = [.ofString "s/b.json"] := by
    rw [externalFiles_pointing]
    decide
  have hrelative : (Path.ofString "s/b.json").isAbsolute = false := by decide
  obtain ⟨hresolve, hkey⟩ := hbuilt.not_address hrelative
  refine ⟨d, _, _, s, _, hd, hmem, hrequest, hfiles, hrelative, hresolve, hkey, ?_, ?_⟩
  · have haddress : d.resolve (.ofString "s/b.json") = .ofString "/s/b.json" := by
      rw [Drive.resolve, hroot]
      decide
    refine ⟨{ record := target }, Drive.openFile_eq_ok_iff.2 ⟨?_, rfl⟩⟩
    rw [Drive.lookup, haddress, hentries]
    rfl
  · refine Drive.openFile_of_lookup_eq_none ?_
    rw [Drive.lookup, mount, List.map_cons, List.map_nil, hentries]
    rfl

end Drives

end DocDrive
