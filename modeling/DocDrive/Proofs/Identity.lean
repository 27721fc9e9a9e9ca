import DocDrive.Proofs.Admission
import DocDrive.Proofs.Catalogue
import DocDrive.Proofs.Path.Normal

/-!
# One record, one address

A drive is discovered or mounted from drives (`Drive.Built`). However it was built, its entries are
`Addressed`: each record stands once, under its own normal absolute path. Looking up a spelling
therefore comes down to comparing addresses.

* `Drive.Built.addressed` — the invariant holds of every drive that can be built.
* `Drive.Addressed.lookup_eq_some_iff` — a spelling leads to a record exactly if it resolves to the
  path of the record.
* `LocalDrive.mem_entries` — where an entry of a discovered drive comes from.
* `record_identity` — identity of records, over all drives and all spellings.
-/

namespace DocDrive

/-- The drives that can be built. What a relative base or root is seen from is absolute. -/
inductive Drive.Built : Drive → Prop
  | discovered {host : Host} {first : Nat} {c : DiscoveryConfig} {d : LocalDrive} :
      c.base.isAbsolute = true ∨ host.cwd.isAbsolute = true →
      discover host first c = .ok d → Built d.toDrive
  | mounted {cwd root : Path} {sources : List Drive} :
      root.isAbsolute = true ∨ cwd.isAbsolute = true →
      (∀ s ∈ sources, Built s) → Built (mount cwd root sources).toDrive

/-- An entry whose record stands under its own normal absolute path. -/
structure AtAddress (e : Path × Shared Record) : Prop where
  absolute : e.1.isAbsolute = true
  normal : e.1.Normal
  stamped : e.2.value.absolutePath = e.1

/-- Every record stands once, under its own address. -/
structure Drive.Addressed (d : Drive) : Prop where
  root : d.root.isAbsolute = true
  distinct : d.entries.Distinct
  entry : ∀ e ∈ d.entries, AtAddress e

variable {d : Drive} {p q k : Path} {r : Shared Record}

/-! ## Looking up addresses -/

namespace Drive.Addressed

/-- The path of a record resolves to itself. -/
theorem resolve_key (h : d.Addressed) {e : Path × Shared Record} (he : e ∈ d.entries) :
    d.resolve e.1 = e.1 :=
  Path.resolveAgainst_of_normal d.root (h.entry e he).normal (h.entry e he).absolute

/-- **A spelling leads to a record exactly if it resolves to the path of the record.** -/
theorem lookup_eq_some_iff (h : d.Addressed) :
    d.lookup p = some r ↔ r ∈ d.entries.map Prod.snd ∧ d.resolve p = r.value.absolutePath := by
  rw [Drive.lookup, h.distinct.lookup_eq_some_iff]
  constructor
  · intro he
    exact ⟨List.mem_map_of_mem he, (h.entry _ he).stamped.symm⟩
  · rintro ⟨hr, hp⟩
    obtain ⟨e, he, rfl⟩ := List.mem_map.1 hr
    rw [hp, (h.entry e he).stamped]
    exact he

theorem lookup_absolutePath (h : d.Addressed) (he : (k, r) ∈ d.entries) :
    d.lookup r.value.absolutePath = some r := by
  rw [(h.entry _ he).stamped, Drive.lookup, h.resolve_key he]
  exact h.distinct.lookup_eq_some_iff.2 he

end Drive.Addressed

theorem Drive.openFile_eq_ok_iff {handle : Handle} :
    d.openFile p = .ok handle ↔ d.lookup p = some handle.record ∧ handle.offset = 0 := by
  unfold Drive.openFile
  cases d.lookup p with
  | none => simp
  | some r =>
    obtain ⟨record, offset⟩ := handle
    simp [eq_comm]

theorem Drive.openFile_of_lookup_eq_none (h : d.lookup p = none) :
    d.openFile p = .error (.notFound (d.resolve p)) := by
  rw [Drive.openFile, h]

/-- Resolving twice changes nothing. -/
theorem Drive.resolve_resolve (h : d.root.isAbsolute = true) (p : Path) :
    d.resolve (d.resolve p) = d.resolve p :=
  Path.resolveAgainst_of_normal d.root (Path.normal_resolveAgainst _ _)
    (Path.isAbsolute_resolveAgainst h _)

/-- The path that a failed request tells is not found either. -/
theorem Drive.lookup_resolve (h : d.root.isAbsolute = true) (p : Path) :
    d.lookup (d.resolve p) = d.lookup p := by
  rw [Drive.lookup, Drive.lookup, Drive.resolve_resolve h]

/-! ## Discovered drives -/

/-- The directory of a discovery is a normal absolute path, also where a file was asked for. -/
theorem DiscoveryConfig.isAbsolute_directory {c : DiscoveryConfig} {cwd : Path}
    (h : c.base.isAbsolute = true ∨ cwd.isAbsolute = true) :
    (c.scope cwd).directory.isAbsolute = true := by
  have habs := Path.isAbsolute_absolutize h
  unfold DiscoveryConfig.scope
  dsimp only
  split
  · cases hq : (Path.absolutize cwd c.base).parent with
    | none => exact habs
    | some q => exact (Path.normal_parent (Path.normal_absolutize _ _) habs hq).2
  · exact habs

/-- **Where an entry of a discovered drive comes from**: from an entry of the walk whose file
entered the drive, filed at the address of that entry. -/
theorem LocalDrive.mem_entries {host : Host} {first : Nat} {c : DiscoveryConfig} {d : LocalDrive}
    (h : discover host first c = .ok d) (he : (k, r) ∈ d.entries) :
    ∃ e file bytes, (c.scope host.cwd).Collects (c.fileTree host) e file bytes ∧
      r.value.Holds k e.path file bytes ∧ d.resolve e.path = k := by
  obtain ⟨walk, _, _, hroot, hentries, _⟩ := discover_eq_ok h
  rw [hentries] at he
  rcases Entries.mem_claimAll he with he | ⟨hr, hk⟩
  · cases he
  obtain ⟨e, _, hvisit⟩ := List.mem_filterMap.1 hr
  obtain ⟨file, bytes, hcollects, hholds⟩ := visit_record?_iff.1 hvisit
  have hresolve : d.resolve e.path = k := by
    rw [Drive.resolve, hroot]
    exact (hk.trans hholds.absolutePath).symm
  rw [← hroot] at hholds
  exact ⟨e, file, bytes, hcollects, hresolve ▸ hholds, hresolve⟩

theorem LocalDrive.addressed {host : Host} {first : Nat} {c : DiscoveryConfig} {d : LocalDrive}
    (hcwd : c.base.isAbsolute = true ∨ host.cwd.isAbsolute = true)
    (h : discover host first c = .ok d) : d.Addressed := by
  obtain ⟨walk, _, _, hroot, hentries, _⟩ := discover_eq_ok h
  have habs : d.root.isAbsolute = true := by
    rw [hroot]
    exact DiscoveryConfig.isAbsolute_directory hcwd
  refine ⟨habs, ?_, fun e he => ?_⟩
  · rw [hentries]
    exact Entries.Distinct.nil.claimAll first _
  · obtain ⟨w, _, _, _, hholds, hk⟩ := LocalDrive.mem_entries h he
    refine ⟨?_, ?_, hholds.absolutePath⟩
    · exact hk ▸ Path.isAbsolute_resolveAgainst habs w.path
    · exact hk ▸ Path.normal_resolveAgainst d.root w.path

/-! ## Mounted drives -/

theorem mount_addressed {cwd root : Path} {sources : List Drive}
    (hroot : root.isAbsolute = true ∨ cwd.isAbsolute = true) (h : ∀ s ∈ sources, s.Addressed) :
    (mount cwd root sources).Addressed := by
  refine ⟨Path.isAbsolute_absolutize hroot, Entries.Distinct.nil.joinAll _, fun e he => ?_⟩
  rcases Entries.mem_joinAll he with he | ⟨source, hsource, he⟩
  · cases he
  · obtain ⟨s, hs, rfl⟩ := List.mem_map.1 hsource
    exact (h s hs).entry e he

/-- **Every drive that can be built is addressed**, however deep its mounts are nested. -/
theorem Drive.Built.addressed (h : d.Built) : d.Addressed := by
  induction h with
  | discovered hcwd hd => exact LocalDrive.addressed hcwd hd
  | mounted hroot _ ih => exact mount_addressed hroot ih

/-! ## Identity -/

/-- **Identity of records.** In every drive that can be built, each record is filed under a normal
absolute path that is stamped on it. A spelling leads to a record exactly if it resolves to that
path, so that spellings which resolve alike lead to one record; any other request fails and names
the address, which is not found either. In a discovered drive the name under which a record was
found leads back to it, and its class is the class of its address. -/
theorem record_identity :
    (∀ d : Drive, d.Built →
      (∀ k r, (k, r) ∈ d.entries →
        k.isAbsolute = true ∧ k.normalize = k ∧ r.value.absolutePath = k ∧
          d.lookup r.value.absolutePath = some r) ∧
      (∀ p r, d.lookup p = some r ↔
        r ∈ d.entries.map Prod.snd ∧ d.resolve p = r.value.absolutePath) ∧
      (∀ p r, (∃ handle, d.openFile p = .ok handle ∧ handle.record = r) ↔
        r ∈ d.entries.map Prod.snd ∧ d.resolve p = r.value.absolutePath) ∧
      (∀ p q, d.resolve p = d.resolve q →
        d.lookup p = d.lookup q ∧ d.openFile p = d.openFile q) ∧
      (∀ p, (¬∃ r ∈ d.entries.map Prod.snd, d.resolve p = r.value.absolutePath) →
        d.lookup p = none ∧ d.openFile p = .error (.notFound (d.resolve p)) ∧
          d.openFile (d.resolve p) = .error (.notFound (d.resolve p)))) ∧
    (∀ (host : Host) (first : Nat) (c : DiscoveryConfig) (d : LocalDrive),
      c.base.isAbsolute = true ∨ host.cwd.isAbsolute = true → discover host first c = .ok d →
      ∀ k r, (k, r) ∈ d.entries →
        d.lookup r.value.logicalName = some r ∧
        (∃ name, k.fileName = some name ∧ r.value.logicalName.fileName = some name) ∧
        r.value.fileClass = FileClass.classify k ∧ r.value.fileClass ≠ .unsupported) := by
  refine ⟨fun d hbuilt => ?_, fun host first c d hcwd h k r he => ?_⟩
  · have h := hbuilt.addressed
    refine ⟨fun k r he => ?_, fun p r => h.lookup_eq_some_iff, fun p r => ?_, fun p q hpq => ?_,
      fun p hp => ?_⟩
    · have haddr := h.entry _ he
      exact ⟨haddr.absolute, Path.normalize_of_normal haddr.normal, haddr.stamped,
        h.lookup_absolutePath he⟩
    · rw [← h.lookup_eq_some_iff]
      constructor
      · rintro ⟨handle, hopen, rfl⟩
        exact (Drive.openFile_eq_ok_iff.1 hopen).1
      · intro hlookup
        exact ⟨{ record := r }, Drive.openFile_eq_ok_iff.2 ⟨hlookup, rfl⟩, rfl⟩
    · have hlookup : d.lookup p = d.lookup q := by rw [Drive.lookup, Drive.lookup, hpq]
      refine ⟨hlookup, ?_⟩
      rw [Drive.openFile, Drive.openFile, hlookup, hpq]
    · have hnone : d.lookup p = none := by
        rw [Option.eq_none_iff_forall_ne_some]
        intro r hr
        exact hp ⟨r, h.lookup_eq_some_iff.1 hr⟩
      have hagain : d.lookup (d.resolve p) = none := by
        rw [Drive.lookup_resolve h.root, hnone]
      refine ⟨hnone, Drive.openFile_of_lookup_eq_none hnone, ?_⟩
      rw [Drive.openFile_of_lookup_eq_none hagain, Drive.resolve_resolve h.root]
  · obtain ⟨e, file, bytes, hcollects, hholds, hresolve⟩ := LocalDrive.mem_entries h he
    have haddr := LocalDrive.addressed hcwd h
    obtain ⟨cls, hadm⟩ := hcollects.admitted
    obtain ⟨_, _, hcls, hsupported⟩ := admission_eq_ok_iff.1 hadm
    have hclass : r.value.fileClass ≠ .unsupported := by
      rw [Record.fileClass, hholds.logicalName, hcls]
      exact hsupported
    obtain ⟨name, hname⟩ := FileClass.fileName_of_classify_ne hclass
    have hkey : k.fileName = some name := by
      rw [← hresolve, Drive.resolve]
      exact Path.fileName_resolveAgainst _ (hholds.logicalName ▸ hname)
    refine ⟨?_, ⟨name, hkey, hname⟩, ?_, hclass⟩
    · rw [Drive.lookup, hholds.logicalName, hresolve]
      exact haddr.distinct.lookup_eq_some_iff.2 he
    · exact FileClass.classify_congr (hname.trans hkey.symm)

/-- Through a mount of a mount, another spelling leads to the one record of the tree. -/
theorem record_identity_alias : ∃ (d : LocalDrive) (r : Shared Record),
    discover aliasHost 0 aliasConfig = .ok d ∧ d.lookup r.value.logicalName = some r ∧
      (mount .empty (.ofString "/m/..") [(mount aliasHost.cwd .empty [d.toDrive]).toDrive]).lookup
        (.ofString "m//../w/./a.yaml") = some r ∧
      d.openFile (.ofString "b/a.yaml") = .error (.notFound (.ofString "/w/b/a.yaml")) := by
  obtain ⟨d, hd, hroot, hentries⟩ := discover_alias
  have hcwd : aliasConfig.base.isAbsolute = true ∨ aliasHost.cwd.isAbsolute = true := Or.inr rfl
  have hlocal := Drive.Built.discovered hcwd hd
  have hinner : (mount aliasHost.cwd .empty [d.toDrive]).Built :=
    .mounted (Or.inr rfl) (by simpa using hlocal)
  have houter : (mount .empty (.ofString "/m/..")
      [(mount aliasHost.cwd .empty [d.toDrive]).toDrive]).Built :=
    .mounted (Or.inl rfl) (by simpa using hinner)
  have hmem : (Path.ofString "/w/a.yaml", ⟨0, aliasRecord⟩) ∈ d.entries := by
    rw [hentries]
    exact List.mem_cons_self
  refine ⟨d, ⟨0, aliasRecord⟩, hd, (record_identity.2 _ _ _ _ hcwd hd _ _ hmem).1, ?_, ?_⟩
  · refine ((record_identity.1 _ houter).2.1 _ _).2 ⟨?_, rfl⟩
    simp only [mount, List.map_cons, List.map_nil, hentries]
    decide
  · have hresolve : d.resolve (.ofString "b/a.yaml") = .ofString "/w/b/a.yaml" := by
      rw [Drive.resolve, hroot]
      decide
    have hfail := (record_identity.1 _ hlocal).2.2.2.2 (.ofString "b/a.yaml")
    rw [hresolve, hentries] at hfail
    exact (hfail (by decide)).2.1

end DocDrive
