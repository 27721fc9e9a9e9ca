import DocDrive.Proofs.Admission
import DocDrive.Proofs.Catalogue
import DocDrive.Proofs.Path.Normal

/-!
# What discovery collects

An entry of the walk is *collected at* an address when its file enters the drive there. The record
at an address is the record of the first entry that is collected at it. Entries that are collected
nowhere, or at an address that an earlier entry has, might as well not be walked.

* `Scope.find?_records` — the first record with a given path is that of the first entry collected
  there.
* `claimAll_records_skip` — an entry without effect leaves all entries as they are.
* `discover_eq_error_iff` — when a discovery fails.
* `discovery_collects` — which records a discovered drive holds, and which entries of the walk they
  come from.
-/

namespace DocDrive

variable {s : Scope} {tree : FileTree} {e : WalkEntry} {k : Path} {r : Record}
  {walk front back : List WalkEntry}

/-! ## Collected entries -/

/-- The file of an entry enters the drive at an address. -/
def Scope.CollectsAt (s : Scope) (tree : FileTree) (k : Path) (e : WalkEntry) : Prop :=
  (∃ file bytes, s.Collects tree e file bytes) ∧ s.directory.resolveAgainst e.path = k

/-- The record at an address holds what the file of an entry held, and that file entered the drive
there. -/
def Scope.CollectsAs (s : Scope) (tree : FileTree) (k : Path) (e : WalkEntry) (r : Record) : Prop :=
  ∃ file bytes, s.Collects tree e file bytes ∧ s.directory.resolveAgainst e.path = k ∧
    r.Holds k e.path file bytes

theorem visit_record?_at_iff :
    ((s.visit tree e).record? = some r ∧ r.absolutePath = k) ↔ s.CollectsAs tree k e r := by
  rw [visit_record?_iff]
  constructor
  · rintro ⟨⟨file, bytes, hcollects, hholds⟩, rfl⟩
    have hk := hholds.absolutePath
    exact ⟨file, bytes, hcollects, hk.symm, hk ▸ hholds⟩
  · rintro ⟨file, bytes, hcollects, rfl, hholds⟩
    exact ⟨⟨file, bytes, hcollects, hholds⟩, hholds.absolutePath⟩

/-- What an entry is collected as is there to be found. -/
theorem Scope.CollectsAt.exists_record (h : s.CollectsAt tree k e) :
    ∃ r, s.CollectsAs tree k e r := by
  obtain ⟨⟨file, bytes, hcollects⟩, rfl⟩ := h
  obtain ⟨r, _, hholds⟩ := acquire_of_read s.directory hcollects.opened hcollects.read
  exact ⟨r, file, bytes, hcollects, rfl, hholds⟩

theorem Scope.CollectsAs.collectsAt (h : s.CollectsAs tree k e r) : s.CollectsAt tree k e := by
  obtain ⟨file, bytes, hcollects, hk, _⟩ := h
  exact ⟨⟨file, bytes, hcollects⟩, hk⟩

/-- An entry is collected at an address exactly if its visit brings a record with that path. -/
theorem any_record?_iff : ((s.visit tree e).record?.any fun r => r.absolutePath = k) = true ↔
    s.CollectsAt tree k e := by
  rw [Option.any_eq_true]
  constructor
  · rintro ⟨r, hr, hk⟩
    exact (visit_record?_at_iff.1 ⟨hr, of_decide_eq_true hk⟩).collectsAt
  · intro h
    obtain ⟨r, hr⟩ := h.exists_record
    obtain ⟨hrecord, hk⟩ := visit_record?_at_iff.2 hr
    exact ⟨r, hrecord, decide_eq_true hk⟩

/-! ## First come, first served -/

theorem Scope.records_append (s : Scope) (tree : FileTree) (front back : List WalkEntry) :
    s.records tree (front ++ back) = s.records tree front ++ s.records tree back :=
  List.filterMap_append

/-- **The first record with a path is that of the first entry collected there.** -/
theorem Scope.find?_records :
    ((s.records tree walk).find? fun r => r.absolutePath = k) = some r ↔
      ∃ front e back, walk = front ++ e :: back ∧ s.CollectsAs tree k e r ∧
        ∀ f ∈ front, ¬s.CollectsAt tree k f := by
  rw [Scope.records, List.find?_filterMap, Option.bind_eq_some_iff]
  constructor
  · rintro ⟨e, hfind, hr⟩
    obtain ⟨hany, front, back, rfl, hfront⟩ := List.find?_eq_some_iff_append.1 hfind
    obtain ⟨r', hr', hk⟩ := Option.any_eq_true _ _ |>.1 hany
    obtain rfl : r' = r := Option.some.inj (hr'.symm.trans hr)
    refine ⟨front, e, back, rfl, visit_record?_at_iff.1 ⟨hr, of_decide_eq_true hk⟩, ?_⟩
    intro f hf hat
    have hnot := hfront f hf
    rw [any_record?_iff.2 hat] at hnot
    cases hnot
  · rintro ⟨front, e, back, rfl, hcollects, hfront⟩
    refine ⟨e, ?_, (visit_record?_at_iff.2 hcollects).1⟩
    refine List.find?_eq_some_iff_append.2
      ⟨any_record?_iff.2 hcollects.collectsAt, front, back, rfl, ?_⟩
    intro f hf
    have hnot := mt any_record?_iff.1 (hfront f hf)
    simpa using hnot

/-! ## Entries of discovered drives -/

variable {host : Host} {first : Nat} {c : DiscoveryConfig} {d : LocalDrive} {x : Shared Record}

theorem Scope.distinct_entries (s : Scope) (tree : FileTree) (first : Nat) (walk : List WalkEntry) :
    (s.entries tree first walk).Distinct :=
  Entries.Distinct.nil.claimAll first _

theorem Scope.lookup_entries (s : Scope) (tree : FileTree) (first : Nat) (walk : List WalkEntry)
    (k : Path) : ((s.entries tree first walk).lookup k).map Shared.value =
      (s.records tree walk).find? fun r => r.absolutePath = k :=
  Entries.lookup_claimAll [] first _ k

/-- The record at an address is that of the first entry collected there. -/
theorem Scope.first_of_mem_entries (h : (k, x) ∈ s.entries tree first walk) :
    ∃ front e back, walk = front ++ e :: back ∧ s.CollectsAs tree k e x.value ∧
      ∀ f ∈ front, ¬s.CollectsAt tree k f := by
  rw [← (s.distinct_entries tree first walk).lookup_eq_some_iff] at h
  have hfind := s.lookup_entries tree first walk k
  rw [h] at hfind
  exact Scope.find?_records.1 hfind.symm

/-- **The record at an address** is there exactly if the first entry that is collected there brings
it. -/
theorem Scope.exists_mem_entries_value_iff (first : Nat) :
    (∃ x, (k, x) ∈ s.entries tree first walk ∧ x.value = r) ↔
      ∃ front e back, walk = front ++ e :: back ∧ s.CollectsAs tree k e r ∧
        ∀ f ∈ front, ¬s.CollectsAt tree k f := by
  constructor
  · rintro ⟨x, hx, rfl⟩
    exact Scope.first_of_mem_entries hx
  · intro h
    have hfind := Scope.find?_records.2 h
    rw [← s.lookup_entries tree first walk k, Option.map_eq_some_iff] at hfind
    obtain ⟨x, hx, hr⟩ := hfind
    exact ⟨x, Entries.mem_of_lookup hx, hr⟩

/-- **The addresses of a walk** are those at which it collects something. -/
theorem Scope.exists_mem_entries_iff (first : Nat) : (∃ x, (k, x) ∈ s.entries tree first walk) ↔
    ∃ e ∈ walk, s.CollectsAt tree k e := by
  constructor
  · rintro ⟨x, hx⟩
    obtain ⟨front, e, back, rfl, hcollects, _⟩ := Scope.first_of_mem_entries hx
    exact ⟨e, by simp, hcollects.collectsAt⟩
  · rintro ⟨e, he, hat⟩
    obtain ⟨r, hr⟩ := hat.exists_record
    obtain ⟨hrecord, hk⟩ := visit_record?_at_iff.2 hr
    have hmem : r ∈ s.records tree walk := List.mem_filterMap.2 ⟨e, he, hrecord⟩
    have hsome : ((s.entries tree first walk).lookup k).isSome = true := by
      rw [← Option.isSome_map, Scope.lookup_entries, List.find?_isSome]
      exact ⟨r, hmem, decide_eq_true hk⟩
    obtain ⟨x, hx⟩ := Option.isSome_iff_exists.1 hsome
    exact ⟨x, Entries.mem_of_lookup hx⟩

/-! ## Entries without effect -/

theorem Scope.entries_append (s : Scope) (tree : FileTree) (first : Nat)
    (front back : List WalkEntry) : s.entries tree first (front ++ back) =
      (s.entries tree first front).claimAll first (s.records tree back) := by
  rw [entries, records_append]
  exact List.foldl_append

/-- What is walked later leaves the entries before it in place. -/
theorem Scope.prefix_entries (s : Scope) (tree : FileTree) (first : Nat)
    (front back : List WalkEntry) :
    s.entries tree first front <+: s.entries tree first (front ++ back) := by
  rw [entries_append]
  obtain ⟨more, hmore⟩ := Entries.claimAll_append (s.entries tree first front) first
    (s.records tree back)
  exact ⟨more, hmore.symm⟩

/-- **An entry that is collected nowhere, or where an earlier one was, changes nothing.** -/
theorem Scope.entries_skip
    (h : ∀ k, s.CollectsAt tree k e → ∃ f ∈ front, s.CollectsAt tree k f) :
    s.entries tree first (front ++ e :: back) = s.entries tree first (front ++ back) := by
  rw [entries_append, entries_append]
  cases hr : (s.visit tree e).record? with
  | none =>
    have hrecords : s.records tree (e :: back) = s.records tree back := List.filterMap_cons_none hr
    rw [hrecords]
  | some r =>
    have hrecords : s.records tree (e :: back) = r :: s.records tree back :=
      List.filterMap_cons_some hr
    have hat := (visit_record?_at_iff.1 ⟨hr, rfl⟩).collectsAt
    obtain ⟨x, hx⟩ := (Scope.exists_mem_entries_iff first).2 (h _ hat)
    have htaken : (s.entries tree first front).has r.absolutePath = true :=
      Entries.has_iff.2 (List.mem_map_of_mem hx)
    rw [hrecords, Entries.claimAll_cons, Entries.claim_of_has htaken]

/-- Only entries that can bring a record matter for the records of a walk. -/
theorem Scope.records_filter {keep : WalkEntry → Bool}
    (h : ∀ e ∈ walk, ∀ r, (s.visit tree e).record? = some r → keep e = true) :
    s.records tree (walk.filter keep) = s.records tree walk := by
  rw [records, records, List.filterMap_filter]
  refine List.filterMap_congr fun e he => ?_
  cases hrecord : (s.visit tree e).record? with
  | none => simp
  | some r => simp [h e he r hrecord]

/-! ## Whole discoveries -/

/-- **A discovery fails** exactly if its base cannot be placed or its walk cannot start. -/
theorem discover_eq_error_iff {err : DriveError} : discover host first c = .error err ↔
    (∃ io, host.refusal? c.base = some io ∧ err = .io io) ∨
      (host.refusal? c.base = none ∧ ∃ io, (c.fileTree host).walk = .error io ∧
        err = .discovery (c.scope host.cwd).directory io) := by
  unfold discover
  cases hrefusal : host.refusal? c.base with
  | some io => simp [eq_comm]
  | none => cases hwalk : (c.fileTree host).walk <;> simp [hwalk, eq_comm]

/-- A base that can be placed and a walk that starts make a drive. -/
theorem exists_discover (first : Nat) (hplaced : host.refusal? c.base = none)
    (hwalk : (c.fileTree host).walk = .ok walk) : ∃ d, discover host first c = .ok d := by
  cases hdiscover : discover host first c with
  | ok d => exact ⟨d, rfl⟩
  | error err =>
    rcases discover_eq_error_iff.1 hdiscover with ⟨io, hrefused, -⟩ | ⟨-, io, hfailed, -⟩
    · cases hplaced.symm.trans hrefused
    · cases hwalk.symm.trans hfailed

@[simp] theorem DiscoveryConfig.filters_scope (c : DiscoveryConfig) (cwd : Path) :
    (c.scope cwd).filters = c.filters := by
  unfold scope
  split <;> rfl

/-- A base that is no document is a directory of which every file counts. -/
theorem DiscoveryConfig.scope_of_unsupported (h : FileClass.classify c.base = .unsupported)
    (cwd : Path) : c.scope cwd = ⟨Path.absolutize cwd c.base, none, c.filters⟩ := by
  simp [scope, FileClass.isSupported, h]

/-- The only file that counts, where there is one, is named like the base. -/
theorem DiscoveryConfig.scope_only_iff {cwd only : Path} : (c.scope cwd).only = some only ↔
    FileClass.classify c.base ≠ .unsupported ∧ c.base.fileName = some only.bytes := by
  by_cases hclass : FileClass.classify c.base = .unsupported
  · simp [scope_of_unsupported hclass, hclass]
  · obtain ⟨name, hname⟩ := FileClass.fileName_of_classify_ne hclass
    have hbase : (Path.absolutize cwd c.base).fileName = some name :=
      Path.fileName_resolveAgainst cwd hname
    have honly : (c.scope cwd).only = some ⟨name⟩ := by
      simp [scope, FileClass.isSupported, hclass, hbase]
    obtain ⟨bytes⟩ := only
    simp [honly, hclass, hname]

/-- A request about the same files, walked differently. -/
def DiscoveryConfig.walking (c : DiscoveryConfig) (tree : FileTree) (walk : List WalkEntry) :
    DiscoveryConfig :=
  { c with tree := some { tree with walk := .ok walk } }

theorem entries_of_walking {w : List WalkEntry}
    (h : discover host first (c.walking tree w) = .ok d) :
    d.entries = (c.scope host.cwd).entries tree first w := by
  obtain ⟨-, hentries, -⟩ := discover_eq_ok_of_walk h rfl
  exact hentries

theorem errors_of_walking {w : List WalkEntry}
    (h : discover host first (c.walking tree w) = .ok d) :
    d.errors = w.flatMap fun e => ((c.scope host.cwd).visit tree e).errors := by
  obtain ⟨-, -, herrors⟩ := discover_eq_ok_of_walk h rfl
  exact herrors

/-- **What discovery collects.** It fails only where the base cannot be placed or the walk cannot
start. Otherwise an address is taken exactly if some entry of the walk is collected there, and the
record at it holds what the file of the first such entry held. An entry that is collected nowhere,
or where an earlier one was, leaves all entries as they are, and whatever is walked later leaves the
entries before it in place. -/
theorem discovery_collects (host : Host) (first : Nat) (c : DiscoveryConfig) :
    (∀ err, discover host first c = .error err ↔
      (∃ io, host.refusal? c.base = some io ∧ err = .io io) ∨
        (host.refusal? c.base = none ∧ ∃ io, (c.fileTree host).walk = .error io ∧
          err = .discovery (c.scope host.cwd).directory io)) ∧
    (∀ d walk, discover host first c = .ok d → (c.fileTree host).walk = .ok walk →
      d.root = (c.scope host.cwd).directory ∧ d.entries.Distinct ∧
      (∀ only, (c.scope host.cwd).only = some only ↔
        FileClass.classify c.base ≠ .unsupported ∧ c.base.fileName = some only.bytes) ∧
      (∀ k, (∃ x, (k, x) ∈ d.entries) ↔
        ∃ e ∈ walk, (c.scope host.cwd).CollectsAt (c.fileTree host) k e) ∧
      (∀ k x, (k, x) ∈ d.entries → ∃ front e back, walk = front ++ e :: back ∧
        (c.scope host.cwd).CollectsAs (c.fileTree host) k e x.value ∧
        ∀ f ∈ front, ¬(c.scope host.cwd).CollectsAt (c.fileTree host) k f)) ∧
    (∀ tree front e back d d',
      discover host first (c.walking tree (front ++ e :: back)) = .ok d →
      discover host first (c.walking tree (front ++ back)) = .ok d' →
      (∀ k, (c.scope host.cwd).CollectsAt tree k e →
        ∃ f ∈ front, (c.scope host.cwd).CollectsAt tree k f) →
      d.entries = d'.entries) ∧
    (∀ tree front back d d',
      discover host first (c.walking tree front) = .ok d →
      discover host first (c.walking tree (front ++ back)) = .ok d' →
      d.entries <+: d'.entries) := by
  refine ⟨fun err => discover_eq_error_iff, fun d walk h hwalk => ?_, ?_, ?_⟩
  · obtain ⟨w, _, hw, hroot, hentries, _⟩ := discover_eq_ok h
    obtain rfl : w = walk := Except.ok.inj (hw.symm.trans hwalk)
    rw [hentries]
    exact ⟨hroot, Scope.distinct_entries _ _ _ _, fun only => DiscoveryConfig.scope_only_iff,
      fun k => Scope.exists_mem_entries_iff first, fun k x hx => Scope.first_of_mem_entries hx⟩
  · intro tree front e back d d' h h' hskip
    rw [entries_of_walking h, entries_of_walking h', Scope.entries_skip hskip]
  · intro tree front back d d' h h'
    rw [entries_of_walking h, entries_of_walking h']
    exact Scope.prefix_entries _ _ _ _ _

/-- Of three spellings of one file, the first that can be read is collected, and the last could go
unwalked. -/
theorem discovery_collects_alias : ∃ d x, discover aliasHost 0 aliasConfig = .ok d ∧
    (Path.ofString "/w/a.yaml", x) ∈ d.entries ∧ x.value.logicalName = .ofString "./a.yaml" ∧
      ∀ d', discover aliasHost 0 (aliasConfig.walking aliasTree
        [{ path := .ofString "b/../a.yaml" }, { path := .ofString "./a.yaml" }]) = .ok d' →
      d.entries = d'.entries := by
  obtain ⟨d, hd, -, -⟩ := discover_alias
  have hsecond : (aliasConfig.scope aliasHost.cwd).CollectsAt aliasTree (.ofString "/w/a.yaml")
      { path := .ofString "./a.yaml" } :=
    ⟨⟨_, _, rfl, rfl, nofun, ⟨.yaml, rfl⟩, rfl, rfl⟩, rfl⟩
  obtain ⟨-, hcollects, hskip, -⟩ := discovery_collects aliasHost 0 aliasConfig
  obtain ⟨-, -, -, hkeys, hfirst⟩ := hcollects d _ hd rfl
  obtain ⟨x, hx⟩ := (hkeys _).2 ⟨_, by simp, hsecond⟩
  refine ⟨d, x, hd, hx, ?_, fun d' hd' => ?_⟩
  · obtain ⟨front, e, back, hwalk, ⟨file, bytes, hread, _, hholds⟩, hnone⟩ := hfirst _ _ hx
    rw [hholds.logicalName]
    rcases front with _ | ⟨f, _ | ⟨g, front⟩⟩
    · obtain ⟨rfl, -⟩ := List.cons.inj hwalk
      cases hread.opened
    · obtain ⟨-, hwalk⟩ := List.cons.inj hwalk
      obtain ⟨rfl, -⟩ := List.cons.inj hwalk
      rfl
    · obtain ⟨-, hwalk⟩ := List.cons.inj hwalk
      obtain ⟨rfl, -⟩ := List.cons.inj hwalk
      exact absurd hsecond (hnone _ (by simp))
  · refine hskip aliasTree [{ path := .ofString "b/../a.yaml" }, { path := .ofString "./a.yaml" }]
      { path := .ofString "a.yaml" } [] d d' hd hd' ?_
    rintro k ⟨-, rfl⟩
    exact ⟨_, by simp, hsecond⟩

end DocDrive
