import DocDrive.Drive.Indexing
import DocDrive.FileTree.Memory
import DocDrive.Proofs.Path.Order
import DocDrive.Proofs.Requests
import DocDrive.Proofs.Session
import Mathlib

/-!
# Indexing whole drives

A request touches the state of one record only. Since the records of a drive have different numbers
(`Session.nodup_numbers`), a pass over them comes to the same in every order: each record answers
from the state that it was in before (`Caches.requestAll_spec`).

* `Caches.requestAll_spec` — what a pass answers, and the states that it leaves.
* `IndexReport.mem_indexed_iff`, `IndexReport.mem_failed_iff` — what a report lists.
* `IndexReport.ofResults_eq_of_perm` — a report forgets the order of its results.
* `Session.report_eq`, `Session.state_eq` — a pass over a drive of a session, in any order.
* `indexing_partitions` — every file is indexed or failed, in any order, and only failures are tried
  again.
-/

namespace DocDrive

/-! ## One record among others -/

namespace Caches

variable {c c' : Caches} {indexer : Indexer} {config : IndexConfig} {r : Shared Record}

@[simp] theorem state_update (c : Caches) (file other : Nat) (s : FileState) :
    (c.update file s).state other = if other = file then s else c.state other := by
  unfold state update
  by_cases h : other = file
  · simp [h]
  · have hbeq : (other == file) = false := beq_eq_false_iff_ne.2 h
    have hrest : (c.states.filter (·.1 != file)).lookup other = c.states.lookup other := by
      induction c.states with
      | nil => rfl
      | cons e rest ih =>
        obtain ⟨n, t⟩ := e
        by_cases hn : n = file
        · simp [hn, hbeq, List.lookup_cons, ih]
        · simp [hn, List.lookup_cons, ih]
    simp [List.lookup_cons, hbeq, h, hrest]

/-- What a request for the index of a record comes to, and the state that it leaves the record in. -/
def indexRequest (c : Caches) (r : Shared Record) (indexer : Indexer) (config : IndexConfig) :
    Except DriveError (Derived StructuralIndex) × FileState :=
  r.value.requestIndex r.number indexer config (c.state r.number)

theorem requestIndex_eq (c : Caches) (r : Shared Record) (indexer : Indexer)
    (config : IndexConfig) : c.requestIndex r indexer config =
      ((c.indexRequest r indexer config).1, c.update r.number (c.indexRequest r indexer config).2) :=
  rfl

theorem keys_requestAll (c : Caches) (indexer : Indexer) (config : IndexConfig) (order : Entries) :
    (c.requestAll indexer config order).1.map Prod.fst = order.map Prod.fst := by
  induction order generalizing c with
  | nil => rfl
  | cons e rest ih =>
    obtain ⟨p, r⟩ := e
    rw [requestAll, List.map_cons, List.map_cons, ih]

theorem indexRequest_congr (h : c.state r.number = c'.state r.number) :
    c.indexRequest r indexer config = c'.indexRequest r indexer config := by
  rw [indexRequest, h]
  rfl

/-- **A pass over records with different numbers** asks each of them as it was before. -/
theorem requestAll_spec {order : Entries} (hnumbers : order.numbers.Nodup) (c : Caches)
    (indexer : Indexer) (config : IndexConfig) :
    (c.requestAll indexer config order).1 =
        order.map (fun e => (e.1, (c.indexRequest e.2 indexer config).1)) ∧
      (∀ e ∈ order, (c.requestAll indexer config order).2.state e.2.number =
        (c.indexRequest e.2 indexer config).2) ∧
      ∀ file, file ∉ order.numbers →
        (c.requestAll indexer config order).2.state file = c.state file := by
  induction order generalizing c with
  | nil => exact ⟨rfl, nofun, fun _ _ => rfl⟩
  | cons e rest ih =>
    obtain ⟨p, r⟩ := e
    obtain ⟨hfresh, hrest⟩ := List.nodup_cons.1 hnumbers
    obtain ⟨hresults, hstates, hothers⟩ := ih hrest (c.requestIndex r indexer config).2
    -- The request before leaves the rest of the records as they were.
    have hkept : ∀ f ∈ rest, (c.requestIndex r indexer config).2.indexRequest f.2 indexer config =
        c.indexRequest f.2 indexer config := by
      intro f hf
      have hne : f.2.number ≠ r.number := by
        intro hsame
        have hmem : f.2.number ∈ Entries.numbers rest := List.mem_map_of_mem hf
        rw [hsame] at hmem
        exact hfresh hmem
      exact indexRequest_congr (by simp [requestIndex_eq, hne])
    refine ⟨?_, List.forall_mem_cons.2 ⟨?_, fun f hf => ?_⟩, fun file hfile => ?_⟩
    · rw [requestAll, List.map_cons]
      refine congrArg _ (hresults.trans (List.map_congr_left fun f hf => ?_))
      rw [hkept f hf]
    · rw [requestAll]
      refine (hothers _ hfresh).trans ?_
      simp [requestIndex_eq]
    · rw [requestAll, ← hkept f hf]
      exact hstates f hf
    · simp only [Entries.numbers, List.map_cons, List.mem_cons, not_or] at hfile
      rw [requestAll]
      refine (hothers _ hfile.2).trans ?_
      simp [requestIndex_eq, hfile.1]

/-- **The order of a pass does not matter** to any record. -/
theorem state_requestAll_of_perm {order order' : Entries} (hperm : order.Perm order')
    (hnumbers : order.numbers.Nodup) (c : Caches) (indexer : Indexer) (config : IndexConfig)
    (file : Nat) : (c.requestAll indexer config order).2.state file =
      (c.requestAll indexer config order').2.state file := by
  have hnumbers' : order'.numbers.Nodup := (hperm.map _).nodup_iff.1 hnumbers
  obtain ⟨-, hstates, hothers⟩ := requestAll_spec hnumbers c indexer config
  obtain ⟨-, hstates', hothers'⟩ := requestAll_spec hnumbers' c indexer config
  by_cases hfile : file ∈ order.numbers
  · obtain ⟨e, he, rfl⟩ := List.mem_map.1 hfile
    rw [hstates e he, hstates' e (hperm.mem_iff.1 he)]
  · have hfile' : file ∉ order'.numbers := fun h => hfile ((hperm.map _).mem_iff.2 h)
    rw [hothers file hfile, hothers' file hfile']

end Caches

/-! ## Reports -/

namespace IndexReport

variable {results results' : List (Path × Except DriveError (Derived StructuralIndex))}
  {unreadable : List DiscoveryError} {p : Path}

theorem mem_indexed_iff {x : Derived StructuralIndex} :
    (p, x) ∈ (ofResults results unreadable).indexed ↔ (p, .ok x) ∈ results := by
  unfold ofResults
  simp only [List.mem_filterMap, List.mem_mergeSort]
  constructor
  · rintro ⟨⟨q, result⟩, hmem, hrow⟩
    cases result with
    | ok y =>
      cases hrow
      exact hmem
    | error e => cases hrow
  · exact fun h => ⟨_, h, rfl⟩

theorem mem_failed_iff {e : DriveError} :
    (p, e) ∈ (ofResults results unreadable).failed ↔ (p, .error e) ∈ results := by
  unfold ofResults
  simp only [List.mem_filterMap, List.mem_mergeSort]
  constructor
  · rintro ⟨⟨q, result⟩, hmem, hrow⟩
    cases result with
    | ok y => cases hrow
    | error e =>
      cases hrow
      exact hmem
  · exact fun h => ⟨_, h, rfl⟩

/-- Every result is listed. -/
theorem mem_keys_iff : p ∈ results.map Prod.fst ↔
    p ∈ (ofResults results unreadable).indexed.map Prod.fst ∨
      p ∈ (ofResults results unreadable).failed.map Prod.fst := by
  constructor
  · intro h
    obtain ⟨⟨q, result⟩, hmem, rfl⟩ := List.mem_map.1 h
    cases result with
    | ok x => exact Or.inl (List.mem_map_of_mem (mem_indexed_iff.2 hmem))
    | error e => exact Or.inr (List.mem_map_of_mem (mem_failed_iff.2 hmem))
  · rintro (h | h)
    · obtain ⟨⟨q, x⟩, hmem, rfl⟩ := List.mem_map.1 h
      exact List.mem_map_of_mem (mem_indexed_iff.1 hmem)
    · obtain ⟨⟨q, e⟩, hmem, rfl⟩ := List.mem_map.1 h
      exact List.mem_map_of_mem (mem_failed_iff.1 hmem)

/-- No path is listed both ways. -/
theorem not_mem_failed_of_mem_indexed (hdistinct : (results.map Prod.fst).Nodup)
    (h : p ∈ (ofResults results unreadable).indexed.map Prod.fst) :
    p ∉ (ofResults results unreadable).failed.map Prod.fst := by
  intro hfailed
  obtain ⟨⟨q, x⟩, hx, rfl⟩ := List.mem_map.1 h
  obtain ⟨⟨q', e⟩, he, hq⟩ := List.mem_map.1 hfailed
  -- Both rows come from one result, and that is an index or an error.
  have hsame := List.inj_on_of_nodup_map hdistinct (mem_indexed_iff.1 hx) (mem_failed_iff.1 he) hq.symm
  cases congrArg Prod.snd hsame

/-- **A report forgets the order of its results.** -/
theorem ofResults_eq_of_perm (hperm : results.Perm results')
    (hdistinct : (results.map Prod.fst).Nodup) (hnormal : ∀ a ∈ results, a.1.Normal) :
    ofResults results unreadable = ofResults results' unreadable := by
  have hsorted := Path.mergeSort_eq_of_perm hperm hdistinct hnormal
  unfold Path.leFst at hsorted
  rw [ofResults, ofResults, hsorted]

end IndexReport

/-! ## Whole drives -/

/-- What became of a file whose index was not cached: its parser ran once more and failed, or the
indexer ran once more on its document, and the report says how that ended. -/
structure Retried (r : Shared Record) (p : Path) (indexer : Indexer) (config : IndexConfig)
    (s s' : FileState) (report : IndexReport) : Prop where
  unparsed : ∀ cause, r.value.document r.number s = .error cause →
    s'.parses = s.parses + 1 ∧ s'.indexings = s.indexings ∧ (p, .parse p cause) ∈ report.failed
  refused : ∀ t cause, r.value.document r.number s = .ok t → indexer t config = .error cause →
    s'.indexings = s.indexings + 1 ∧ (p, .index p cause) ∈ report.failed
  built : ∀ t y, r.value.document r.number s = .ok t → indexer t config = .ok y →
    s'.indexings = s.indexings + 1 ∧
      ∃ x, x.value = y.withOrigin p ∧ (p, x) ∈ report.indexed

section Drives

variable {next : Nat} {drives : List Drive} {d : Drive} {order : Entries} {c : Caches}
  {indexer : Indexer} {config : IndexConfig} {p : Path} {r : Shared Record}

/-- What the records of a drive answer, each from its own state. -/
def Drive.results (d : Drive) (indexer : Indexer) (config : IndexConfig) (c : Caches) :
    List (Path × Except DriveError (Derived StructuralIndex)) :=
  d.entries.map fun e => (e.1, (c.indexRequest e.2 indexer config).1)

theorem Drive.mem_results {result : Except DriveError (Derived StructuralIndex)} :
    (p, result) ∈ d.results indexer config c ↔
      ∃ r, (p, r) ∈ d.entries ∧ (c.indexRequest r indexer config).1 = result := by
  simp [results]

theorem Drive.results_keys : (d.results indexer config c).map Prod.fst = d.entries.map Prod.fst := by
  simp [results]

/-- **A report lists the paths of its drive.** -/
theorem Drive.mem_keys_indexInOrder (horder : order.Perm d.entries) (indexer : Indexer)
    (config : IndexConfig) (c : Caches) (p : Path) : p ∈ d.entries.map Prod.fst ↔
      p ∈ (d.indexInOrder order indexer config c).1.indexed.map Prod.fst ∨
        p ∈ (d.indexInOrder order indexer config c).1.failed.map Prod.fst := by
  rw [← (horder.map Prod.fst).mem_iff, ← c.keys_requestAll indexer config order]
  exact IndexReport.mem_keys_iff

namespace Session

/-- **The report of a pass in any order.** -/
theorem report_eq (hs : Session next drives) (hd : d ∈ drives) (horder : order.Perm d.entries)
    (c : Caches) (indexer : Indexer) (config : IndexConfig) :
    (d.indexInOrder order indexer config c).1 =
      .ofResults (d.results indexer config c) d.errors := by
  have haddr := hs.sound.addressed d hd
  have hnumbers := (horder.map _).nodup_iff.2 (hs.nodup_numbers hd)
  obtain ⟨hresults, -, -⟩ := Caches.requestAll_spec hnumbers c indexer config
  have hperm : (c.requestAll indexer config order).1.Perm (d.results indexer config c) := by
    rw [hresults]
    exact horder.map _
  refine (IndexReport.ofResults_eq_of_perm hperm.symm ?_ fun a ha => ?_).symm
  · rw [Drive.results_keys]
    exact haddr.distinct
  · obtain ⟨e, he, rfl⟩ := List.mem_map.1 ha
    exact (haddr.entry e he).normal

/-- **The state that a pass in any order leaves a record in.** -/
theorem state_eq (hs : Session next drives) (hd : d ∈ drives) (horder : order.Perm d.entries)
    (hr : (p, r) ∈ d.entries) : (d.indexInOrder order indexer config c).2.state r.number =
      (c.indexRequest r indexer config).2 := by
  have hnumbers := (horder.map _).nodup_iff.2 (hs.nodup_numbers hd)
  obtain ⟨-, hstates, -⟩ := Caches.requestAll_spec hnumbers c indexer config
  exact hstates _ (horder.mem_iff.2 hr)

theorem mem_indexed_iff (hs : Session next drives) (hd : d ∈ drives)
    (horder : order.Perm d.entries) {x : Derived StructuralIndex} :
    (p, x) ∈ (d.indexInOrder order indexer config c).1.indexed ↔
      ∃ r, (p, r) ∈ d.entries ∧ (c.indexRequest r indexer config).1 = .ok x := by
  rw [hs.report_eq hd horder, IndexReport.mem_indexed_iff, Drive.mem_results]

theorem mem_failed_iff (hs : Session next drives) (hd : d ∈ drives)
    (horder : order.Perm d.entries) {e : DriveError} :
    (p, e) ∈ (d.indexInOrder order indexer config c).1.failed ↔
      ∃ r, (p, r) ∈ d.entries ∧ (c.indexRequest r indexer config).1 = .error e := by
  rw [hs.report_eq hd horder, IndexReport.mem_failed_iff, Drive.mem_results]

theorem lookup_eq (hs : Session next drives) (hd : d ∈ drives) (hr : (p, r) ∈ d.entries) :
    d.lookup p = some r := by
  have haddr := hs.sound.addressed d hd
  have hfound := haddr.lookup_absolutePath hr
  rwa [(haddr.entry _ hr).stamped] at hfound

/-- What is cached is listed again, and its record is left alone. -/
theorem indexed_of_ready (hs : Session next drives) (hd : d ∈ drives)
    (horder : order.Perm d.entries) (hr : (p, r) ∈ d.entries) {x : Derived StructuralIndex}
    (hready : (c.state r.number).index = .ready x) (indexer : Indexer) (config : IndexConfig) :
    (p, x) ∈ (d.indexInOrder order indexer config c).1.indexed ∧
      (d.indexInOrder order indexer config c).2.state r.number = c.state r.number := by
  have heq : c.indexRequest r indexer config = (.ok x, c.state r.number) :=
    requestIndex_of_ready hready
  constructor
  · exact (hs.mem_indexed_iff hd horder).2 ⟨r, hr, congrArg Prod.fst heq⟩
  · rw [hs.state_eq hd horder hr, heq]

/-- What is not cached is tried. -/
theorem retried (hs : Session next drives) (hd : d ∈ drives) (horder : order.Perm d.entries)
    (hr : (p, r) ∈ d.entries) (hnone : (c.state r.number).index.get? = none) (indexer : Indexer)
    (config : IndexConfig) :
    Retried r p indexer config (c.state r.number)
      ((d.indexInOrder order indexer config c).2.state r.number)
      (d.indexInOrder order indexer config c).1 := by
  have hpath : r.value.absolutePath = p := ((hs.sound.addressed d hd).entry _ hr).stamped
  rw [hs.state_eq hd horder hr]
  constructor
  · intro cause hdoc
    have heq : r.value.requestIndex r.number indexer config (c.state r.number) = _ :=
      requestIndex_of_document_error hnone hdoc
    rw [hpath] at heq
    have hrow := (hs.mem_failed_iff hd horder).2 ⟨r, hr, congrArg Prod.fst heq⟩
    rw [Caches.indexRequest, heq]
    exact ⟨rfl, rfl, hrow⟩
  · intro t cause hdoc hbuild
    obtain ⟨parses, heq⟩ := requestIndex_of_indexer_error hnone hdoc hbuild
    rw [hpath] at heq
    have hrow := (hs.mem_failed_iff hd horder).2 ⟨r, hr, congrArg Prod.fst heq⟩
    rw [Caches.indexRequest, heq]
    exact ⟨rfl, hrow⟩
  · intro t y hdoc hbuild
    obtain ⟨parses, heq⟩ := requestIndex_of_indexer_ok hnone hdoc hbuild
    rw [hpath] at heq
    have hrow := (hs.mem_indexed_iff hd horder).2 ⟨r, hr, congrArg Prod.fst heq⟩
    rw [Caches.indexRequest, heq]
    exact ⟨rfl, _, rfl, hrow⟩

end Session

end Drives

/-- **Indexing partitions a drive.** Take any drive of a session, any caches, and its records in any
order. Every file is listed as indexed or as failed, and none as both. An index that is listed is
the one that its record has cached, an error is the parse or index error of its path, and the
unreadable are the errors of the drive. Another order gives the same report and the same states. A
second pass, with any indexer, lists every index again and leaves its record alone, and it tries all
failures again. -/
theorem indexing_partitions {next : Nat} {drives : List Drive} {d : Drive} {order : Entries}
    {c c' : Caches} {indexer : Indexer} {config : IndexConfig} {report : IndexReport}
    (hs : Session next drives) (hd : d ∈ drives) (horder : order.Perm d.entries)
    (hrun : d.indexInOrder order indexer config c = (report, c')) :
    (∀ p, p ∈ d.entries.map Prod.fst ↔
      p ∈ report.indexed.map Prod.fst ∨ p ∈ report.failed.map Prod.fst) ∧
    (∀ p ∈ report.indexed.map Prod.fst, p ∉ report.failed.map Prod.fst) ∧
    (∀ p x, (p, x) ∈ report.indexed →
      ∃ r, d.lookup p = some r ∧ (c'.state r.number).index = .ready x) ∧
    (∀ p e, (p, e) ∈ report.failed → ∃ cause, e = .parse p cause ∨ e = .index p cause) ∧
    report.unreadable = d.errors ∧
    (∀ order', order'.Perm d.entries →
      (d.indexInOrder order' indexer config c).1 = report ∧
      ∀ file, (d.indexInOrder order' indexer config c).2.state file = c'.state file) ∧
    (∀ order' indexer' config' report' c'', order'.Perm d.entries →
      d.indexInOrder order' indexer' config' c' = (report', c'') →
      (∀ p x, (p, x) ∈ report.indexed → (p, x) ∈ report'.indexed ∧
        ∃ r, d.lookup p = some r ∧ c''.state r.number = c'.state r.number) ∧
      (∀ p e, (p, e) ∈ report.failed → ∃ r, d.lookup p = some r ∧
        Retried r p indexer' config' (c'.state r.number) (c''.state r.number) report')) := by
  have haddr := hs.sound.addressed d hd
  have hreport := hs.report_eq hd horder c indexer config
  obtain rfl : (d.indexInOrder order indexer config c).1 = report := congrArg Prod.fst hrun
  obtain rfl : (d.indexInOrder order indexer config c).2 = c' := congrArg Prod.snd hrun
  refine ⟨d.mem_keys_indexInOrder horder indexer config c, fun p hp => ?_, fun p x hx => ?_,
    fun p e he => ?_, rfl, fun order' horder' => ⟨?_, fun file => ?_⟩,
    fun order' indexer' config' report' c'' horder' hagain => ⟨fun p x hx => ?_, fun p e he => ?_⟩⟩
  · rw [hreport] at hp ⊢
    refine IndexReport.not_mem_failed_of_mem_indexed ?_ hp
    rw [Drive.results_keys]
    exact haddr.distinct
  · obtain ⟨r, hr, hok⟩ := (hs.mem_indexed_iff hd horder).1 hx
    refine ⟨r, hs.lookup_eq hd hr, ?_⟩
    rw [hs.state_eq hd horder hr]
    exact ready_of_requestIndex_ok hok
  · obtain ⟨r, hr, herror⟩ := (hs.mem_failed_iff hd horder).1 he
    have hpath : r.value.absolutePath = p := (haddr.entry _ hr).stamped
    rw [← hpath]
    exact (requestIndex_error herror).1
  · rw [hreport, hs.report_eq hd horder']
  · have hnumbers := (horder'.map _).nodup_iff.2 (hs.nodup_numbers hd)
    exact Caches.state_requestAll_of_perm (horder'.trans horder.symm) hnumbers c indexer config file
  · obtain ⟨r, hr, hok⟩ := (hs.mem_indexed_iff hd horder).1 hx
    -- The first pass has left the index in the cell, and the second finds it there.
    have hready : ((d.indexInOrder order indexer config c).2.state r.number).index = .ready x := by
      rw [hs.state_eq hd horder hr]
      exact ready_of_requestIndex_ok hok
    have hsecond := hs.indexed_of_ready hd horder' hr hready indexer' config'
    rw [hagain] at hsecond
    exact ⟨hsecond.1, r, hs.lookup_eq hd hr, hsecond.2⟩
  · obtain ⟨r, hr, herror⟩ := (hs.mem_failed_iff hd horder).1 he
    have hnone : ((d.indexInOrder order indexer config c).2.state r.number).index.get? = none := by
      rw [hs.state_eq hd horder hr]
      exact (requestIndex_error herror).2
    have hsecond := hs.retried hd horder' hr hnone indexer' config'
    rw [hagain] at hsecond
    exact ⟨r, hs.lookup_eq hd hr, hsecond⟩

/-- The discovery of a tree with a document and with a file that has none in it. -/
def pairConfig : DiscoveryConfig where
  tree := some ((({} : MemoryTree).withFile (.ofString "a.json") { data := [0x7B, 0x7D] }).withFile
    (.ofString "b.json") { data := [] }).toFileTree

/-- The records of that tree. -/
def pairEntries : Entries := [
  (.ofString "/w/a.json", ⟨0, { logicalName := .ofString "a.json"
                                absolutePath := .ofString "/w/a.json", content := [0x7B, 0x7D] }⟩),
  (.ofString "/w/b.json", ⟨1, { logicalName := .ofString "b.json"
                                absolutePath := .ofString "/w/b.json", content := [] }⟩)]

theorem discover_pair :
    ∃ d, discover aliasHost 0 pairConfig = .ok d ∧ d.entries = pairEntries ∧ d.errors = [] :=
  ⟨_, rfl, rfl, rfl⟩

/-- A mount that has the tree twice is indexed from its end. The document is indexed and the other
file is not; an indexer that always fails gets to see neither of the indexes again. -/
theorem indexing_partitions_mounted : ∃ (d : LocalDrive) (m : Drive) (report report' : IndexReport)
    (c c' : Caches) (x : Derived StructuralIndex), Session 2 [m, d.toDrive] ∧
    m.indexInOrder m.entries.reverse Indexer.references {} {} = (report, c) ∧
    m.indexAll (.failing "no") {} c = (report', c') ∧
    (m.indexAll Indexer.references {} {}).1 = report ∧
    (.ofString "/w/a.json", x) ∈ report.indexed ∧ (.ofString "/w/a.json", x) ∈ report'.indexed ∧
    report.failed.map Prod.fst = [.ofString "/w/b.json"] := by
  obtain ⟨d, hd, hentries, herrors⟩ := discover_pair
  have habs : pairConfig.base.isAbsolute = true ∨ aliasHost.cwd.isAbsolute = true := Or.inr rfl
  have hdiscovered : Session (0 + d.entries.length) [d.toDrive] := .discovered .start habs hd
  rw [hentries] at hdiscovered
  obtain ⟨m, hm⟩ : ∃ m, m = (mount aliasHost.cwd .empty [d.toDrive, d.toDrive]).toDrive := ⟨_, rfl⟩
  have hs : Session 2 [m, d.toDrive] := hm ▸ hdiscovered.mounted (Or.inr rfl) (by simp)
  have hkeys : m.entries = pairEntries := by
    rw [hm, mount, List.map_cons, List.map_cons, hentries]
    rfl
  obtain ⟨report, c, hrun⟩ : ∃ report c,
      m.indexInOrder m.entries.reverse Indexer.references {} {} = (report, c) := ⟨_, _, rfl⟩
  obtain ⟨report', c', hrun'⟩ : ∃ report' c',
      m.indexAll (.failing "no") {} c = (report', c') := ⟨_, _, rfl⟩
  obtain ⟨-, -, -, -, -, horder, hagain⟩ :=
    indexing_partitions hs List.mem_cons_self (List.reverse_perm _) hrun
  have hreport : report.indexed.map Prod.fst = [.ofString "/w/a.json"] ∧
      report.failed.map Prod.fst = [.ofString "/w/b.json"] := by
    have hpass : (m.indexInOrder m.entries.reverse Indexer.references {} {}).1 = report :=
      congrArg Prod.fst hrun
    rw [hkeys] at hpass
    rw [← hpass]
    constructor
    · cbv
    · cbv
  obtain ⟨⟨p, x⟩, hx, rfl⟩ : ∃ e ∈ report.indexed, e.1 = .ofString "/w/a.json" := by
    rw [← List.mem_map, hreport.1]
    exact List.mem_cons_self
  have hx' := (hagain m.entries (.failing "no") {} report' c' (List.Perm.refl _) hrun').1 _ _ hx
  exact ⟨d, m, report, report', c, c', x, hs, hrun, hrun', (horder _ (List.Perm.refl _)).1, hx,
    hx'.1, hreport.2⟩

end DocDrive
