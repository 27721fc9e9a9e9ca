import DocDrive.Proofs.Indexing

/-!
# Mounts as merges

A mount shows the record of the first source that has a path, and drops what later sources have
there. Mounts of mounts come to the same as one mount of all their sources: the same records at the
same paths, the same errors, and the same claims dropped, though by other mounts. Nothing hangs on
the order in which the entries of a drive are handed on.

* `lookup_mount`, `dropped_mount`, `length_mount` — what one mount shows, drops and holds.
* `mountFor_eq_error_iff`, `mountFor_eq_ok_iff` — when a process is refused a mount.
* `Nest.Built.lookup_eq`, `Nest.Built.perm_keys` — what mounts of mounts show and drop.
* `mounting_merges` — a mount is a left-biased merge, however it is nested.
-/

namespace DocDrive

open scoped List

/-! ## One mount -/

section Mount

variable {cwd root p : Path} {sources : List Drive} {d : Drive}

theorem distinct_mount (cwd root : Path) (sources : List Drive) :
    (mount cwd root sources).entries.Distinct :=
  Entries.Distinct.nil.joinAll _

/-- **A mount shows the first source that has a path.** -/
theorem lookup_mount (cwd root : Path) (sources : List Drive) (p : Path) :
    (mount cwd root sources).entries.lookup p = sources.findSome? fun d => d.entries.lookup p := by
  rw [mount, Entries.lookup_joinAll, List.findSome?_map]
  rfl

/-- Every claim of the sources is kept or dropped. -/
theorem perm_keys_mount (cwd root : Path) (sources : List Drive) :
    (mount cwd root sources).entries.map Prod.fst ++ (mount cwd root sources).dropped ~
      sources.flatMap fun d => d.entries.map Prod.fst := by
  have hclaims := Entries.perm_keys_joinAll [] (sources.map Drive.entries)
  rwa [List.flatMap_map] at hclaims

/-- **The claims that a mount drops**, source by source. -/
theorem dropped_mount (cwd root : Path) (h : ∀ d ∈ sources, d.entries.Distinct) :
    (mount cwd root sources).dropped = (sources.mapIdx fun i d =>
      d.entries.claimed ((sources.take i).map Drive.entries)).flatten := by
  have hdistinct : ∀ source ∈ sources.map Drive.entries, source.Distinct := by
    intro source hsource
    obtain ⟨d, hd, rfl⟩ := List.mem_map.1 hsource
    exact h d hd
  have hnone : ∀ p, Entries.has [] p = ([] : List Entries).any fun other => other.has p :=
    fun p => rfl
  have hdropped := Entries.dropped_joinAll hdistinct hnone
  refine hdropped.trans ?_
  simp [List.mapIdx_eq_zipIdx_map, List.zipIdx_map, Function.comp_def]

theorem length_mount (cwd root : Path) (sources : List Drive) :
    (mount cwd root sources).dropped.length + (mount cwd root sources).size =
      (sources.map Drive.size).sum := by
  have hlength := (perm_keys_mount cwd root sources).length_eq
  rw [List.length_append, List.length_map, List.length_flatMap] at hlength
  have hsizes : (sources.map fun d => (d.entries.map Prod.fst).length) =
      sources.map Drive.size := by
    simp only [List.length_map]
    rfl
  rw [hsizes] at hlength
  rw [← hlength, Nat.add_comm]
  rfl

/-- A source that is mounted already adds nothing. -/
theorem lookup_mount_again (cwd root : Path) (hd : d ∈ sources) (p : Path) :
    (mount cwd root (sources ++ [d])).entries.lookup p =
      (mount cwd root sources).entries.lookup p := by
  rw [lookup_mount, lookup_mount, List.findSome?_append, List.findSome?_singleton]
  cases hfirst : sources.findSome? fun d => d.entries.lookup p with
  | some r => rfl
  | none => exact List.findSome?_eq_none_iff.1 hfirst d hd

end Mount

/-! ## Mounts of a process -/

section MountFor

variable {host : Host} {root : Path} {sources : List Drive}

/-- **A mount is refused** exactly if its root cannot be placed, whatever the sources are. -/
theorem mountFor_eq_error_iff {err : DriveError} : mountFor host root sources = .error err ↔
    ∃ io, host.refusal? root = some io ∧ err = .io io := by
  unfold mountFor
  cases host.refusal? root <;> simp [eq_comm]

/-- **A mount that is not refused is the merge of its sources.** -/
theorem mountFor_eq_ok_iff {m : Mount} : mountFor host root sources = .ok m ↔
    host.refusal? root = none ∧ m = mount host.cwd root sources := by
  unfold mountFor
  cases host.refusal? root <;> simp [eq_comm]

/-- What a process mounts of drives that can be built, can be built. -/
theorem Drive.Built.of_mountFor {m : Mount} (hm : mountFor host root sources = .ok m)
    (hroot : root.isAbsolute = true ∨ host.cwd.isAbsolute = true)
    (hsources : ∀ d ∈ sources, d.Built) : m.toDrive.Built := by
  obtain ⟨-, rfl⟩ := mountFor_eq_ok_iff.1 hm
  exact .mounted hroot hsources

end MountFor

/-! ## Mounts of mounts -/

/-- A drive made by mounts, which may be mounts of mounts. -/
structure Nest where
  drive : Drive
  /-- The drives that the mounts started from, in order. -/
  sources : List Drive
  /-- The claims that any of the mounts has dropped. -/
  dropped : List Path

namespace Nest

/-- A drive that no mount has touched. -/
def ofDrive (d : Drive) : Nest := ⟨d, [d], []⟩

/-- A mount of nests. -/
def mounted (cwd root : Path) (parts : List Nest) : Nest where
  drive := (mount cwd root (parts.map drive)).toDrive
  sources := parts.flatMap sources
  dropped := (mount cwd root (parts.map drive)).dropped ++ parts.flatMap dropped

/-- The nest with its entries in another order. -/
def handingOn (n : Nest) (entries : Entries) : Nest := { n with drive := { n.drive with entries } }

/-- The nests that can be built. A drive hands its entries on in any order. -/
inductive Built : Nest → Prop
  | ofDrive (d : Drive) : Built (.ofDrive d)
  | handingOn {n : Nest} {entries : Entries} :
      n.Built → entries.Perm n.drive.entries → Built (n.handingOn entries)
  | mounted (cwd root : Path) {parts : List Nest} :
      (∀ n ∈ parts, n.Built) → Built (.mounted cwd root parts)

end Nest

namespace Nest.Built

variable {n : Nest} {p : Path}

theorem distinct (h : n.Built) (hsources : ∀ d ∈ n.sources, d.entries.Distinct) :
    n.drive.entries.Distinct := by
  induction h with
  | ofDrive d => exact hsources d List.mem_cons_self
  | handingOn _ hperm ih => exact (hperm.map Prod.fst).nodup_iff.2 (ih hsources)
  | mounted cwd root _ _ => exact distinct_mount cwd root _

/-- **Mounts of mounts show the first source that has a path.** -/
theorem lookup_eq (h : n.Built) (hsources : ∀ d ∈ n.sources, d.entries.Distinct) (p : Path) :
    n.drive.entries.lookup p = n.sources.findSome? fun d => d.entries.lookup p := by
  induction h with
  | ofDrive d => exact List.findSome?_singleton.symm
  | handingOn hn hperm ih =>
    refine Eq.trans ?_ (ih hsources)
    exact ((hn.distinct hsources).lookup_congr hperm.symm p).symm
  | @mounted cwd root parts hbuilt ih =>
    rw [Nest.mounted, lookup_mount, List.findSome?_map]
    have hparts : ∀ part ∈ parts, part.drive.entries.lookup p =
        part.sources.findSome? fun d => d.entries.lookup p := by
      intro part hpart
      exact ih part hpart fun d hd => hsources d (List.mem_flatMap.2 ⟨part, hpart, hd⟩)
    clear ih hsources hbuilt
    induction parts with
    | nil => rfl
    | cons part rest ih =>
      obtain ⟨hpart, hrest⟩ := List.forall_mem_cons.1 hparts
      rw [List.flatMap_cons, List.findSome?_append, List.findSome?_cons, ih hrest,
        Function.comp_apply, hpart]
      cases part.sources.findSome? fun d => d.entries.lookup p <;> rfl

theorem errors_eq (h : n.Built) : n.drive.errors = n.sources.flatMap Drive.errors := by
  induction h with
  | ofDrive d => exact (List.flatMap_singleton _ d).symm
  | handingOn _ _ ih => exact ih
  | @mounted cwd root parts _ ih =>
    have hparts : (mount cwd root (parts.map Nest.drive)).errors =
        parts.flatMap fun part => part.drive.errors := List.flatMap_map _ _ parts
    rw [Nest.mounted, hparts, List.flatMap_assoc]
    exact List.flatMap_congr ih

/-- **Every claim of a source is shown by the nest or dropped by one of its mounts.** -/
theorem perm_keys (h : n.Built) : n.drive.entries.map Prod.fst ++ n.dropped ~
    n.sources.flatMap fun d => d.entries.map Prod.fst := by
  induction h with
  | ofDrive d => simp [Nest.ofDrive]
  | handingOn _ hperm ih => exact ((hperm.map Prod.fst).append_right _).trans ih
  | @mounted cwd root parts _ ih =>
    have hmount := perm_keys_mount cwd root (parts.map Nest.drive)
    rw [List.flatMap_map] at hmount
    rw [Nest.mounted, ← List.append_assoc, List.flatMap_assoc]
    calc _ ++ parts.flatMap Nest.dropped
      _ ~ (parts.flatMap fun part => part.drive.entries.map Prod.fst) ++
            parts.flatMap Nest.dropped := hmount.append_right _
      _ ~ parts.flatMap fun part => part.drive.entries.map Prod.fst ++ part.dropped :=
          List.flatMap_append_perm _ _ _
      _ ~ parts.flatMap fun part => part.sources.flatMap fun d => d.entries.map Prod.fst :=
          List.Perm.flatMap_left parts ih

end Nest.Built

/-! ## The merge -/

/-- **A mount is a left-biased merge, however it is nested.** Whatever the sources hold, each with
its paths distinct, a mount shows at a path the very record of the first source that has the path,
and nothing else. Its errors are those of the sources in order. What it drops, and tells of in this
order, are source by source the paths that an earlier source has, and so no claim is lost without a
trace. A nest of mounts, in which entries are handed on in any order, holds the same records, has
the same errors and has dropped the same claims as one mount of all its sources. A drive alone, or
again behind itself, is mounted as it is. A process is refused a mount only where it cannot place
the root, and otherwise gets this merge. -/
theorem mounting_merges :
    (∀ (cwd root : Path) (sources : List Drive), (∀ d ∈ sources, d.entries.Distinct) →
      (mount cwd root sources).entries.Distinct ∧
      (∀ p, (mount cwd root sources).entries.lookup p =
        sources.findSome? fun d => d.entries.lookup p) ∧
      (mount cwd root sources).errors = sources.flatMap Drive.errors ∧
      (mount cwd root sources).dropped = (sources.mapIdx fun i d =>
        d.entries.claimed ((sources.take i).map Drive.entries)).flatten ∧
      (mount cwd root sources).transcript =
        (mount cwd root sources).dropped.map Event.duplicateDropped ∧
      (mount cwd root sources).dropped.length + (mount cwd root sources).size =
        (sources.map Drive.size).sum) ∧
    (∀ (n : Nest) (cwd root : Path), n.Built → (∀ d ∈ n.sources, d.entries.Distinct) →
      n.drive.entries ~ (mount cwd root n.sources).entries ∧
      n.drive.errors = (mount cwd root n.sources).errors ∧
      n.dropped ~ (mount cwd root n.sources).dropped) ∧
    (∀ (cwd root : Path) (sources : List Drive) (d : Drive), d ∈ sources →
      (mount cwd root (sources ++ [d])).entries ~ (mount cwd root sources).entries) ∧
    (∀ (cwd root : Path) (d : Drive), d.entries.Distinct →
      (mount cwd root [d]).entries ~ d.entries ∧
      (mount cwd root [d, d]).entries ~ d.entries) ∧
    (∀ (host : Host) (root : Path) (sources : List Drive),
      (∀ err, mountFor host root sources = .error err ↔
        ∃ io, host.refusal? root = some io ∧ err = .io io) ∧
      ∀ m, mountFor host root sources = .ok m ↔
        host.refusal? root = none ∧ m = mount host.cwd root sources) := by
  refine ⟨fun cwd root sources h => ?_, fun n cwd root hn h => ?_, fun cwd root sources d hd => ?_,
    fun cwd root d h => ?_, fun host root sources => ?_⟩
  · exact ⟨distinct_mount cwd root sources, lookup_mount cwd root sources, rfl,
      dropped_mount cwd root h, rfl, length_mount cwd root sources⟩
  · have hentries : n.drive.entries ~ (mount cwd root n.sources).entries := by
      refine (hn.distinct h).perm_of_lookup (distinct_mount cwd root n.sources) fun p => ?_
      rw [hn.lookup_eq h, lookup_mount]
    refine ⟨hentries, hn.errors_eq, ?_⟩
    -- What is shown is the same, so what is left of the claims is the same.
    have hflat := perm_keys_mount cwd root n.sources
    have hnest := ((hentries.map Prod.fst).append_right n.dropped).symm.trans hn.perm_keys
    exact (List.perm_append_left_iff _).1 (hnest.trans hflat.symm)
  · refine (distinct_mount _ _ _).perm_of_lookup (distinct_mount _ _ _) fun p => ?_
    exact lookup_mount_again cwd root hd p
  · have halone : ∀ p, (mount cwd root [d]).entries.lookup p = d.entries.lookup p := by
      intro p
      rw [lookup_mount, List.findSome?_singleton]
    refine ⟨(distinct_mount _ _ _).perm_of_lookup h halone, ?_⟩
    refine (distinct_mount _ _ _).perm_of_lookup h fun p => ?_
    rw [← halone p]
    exact lookup_mount_again cwd root (List.mem_singleton_self d) p
  · exact ⟨fun err => mountFor_eq_error_iff, fun m => mountFor_eq_ok_iff⟩

/-! ## Two drives with one path in common -/

def overlapLeft : Drive := { root := .ofString "/w", entries := pairEntries, errors := [] }

/-- Another file at a path of the first drive, and a file of its own. -/
def overlapRight : Drive where
  root := .ofString "/w"
  entries := [
    (.ofString "/w/b.json", ⟨2, { logicalName := .ofString "b.json"
                                  absolutePath := .ofString "/w/b.json", content := [0x32] }⟩),
    (.ofString "/w/c.json", ⟨3, { logicalName := .ofString "c.json"
                                  absolutePath := .ofString "/w/c.json", content := [0x33] }⟩)]
  errors := [.walk (.ofString "/w/d") .permissionDenied "no"]

/-- The first drive before a mount that has it behind the second and hands its entries on the other
way round. -/
def overlapNest : Nest :=
  let inner := Nest.mounted .empty (.ofString "/n") [.ofDrive overlapRight, .ofDrive overlapLeft]
  .mounted .empty (.ofString "/m")
    [.ofDrive overlapLeft, inner.handingOn inner.drive.entries.reverse]

theorem overlapNest_built : overlapNest.Built := by
  have hinner : (Nest.mounted .empty (.ofString "/n")
      [.ofDrive overlapRight, .ofDrive overlapLeft]).Built := by
    refine .mounted _ _ (List.forall_mem_cons.2 ⟨.ofDrive _, List.forall_mem_singleton.2 ?_⟩)
    exact .ofDrive _
  refine .mounted _ _ (List.forall_mem_cons.2 ⟨.ofDrive _, List.forall_mem_singleton.2 ?_⟩)
  exact hinner.handingOn (List.reverse_perm _)

/-- Both mounts have dropped claims, and together they are those of one mount. -/
theorem mounting_merges_nested :
    overlapNest.drive.entries.lookup (.ofString "/w/b.json") =
      overlapLeft.entries.lookup (.ofString "/w/b.json") ∧
    overlapNest.drive.errors = overlapRight.errors ∧
    overlapNest.dropped ~
      [.ofString "/w/b.json", .ofString "/w/a.json", .ofString "/w/b.json"] ∧
    (mount .empty (.ofString "/m") [overlapNest.drive, overlapNest.drive]).entries ~
      overlapNest.drive.entries := by
  have hsources : overlapNest.sources = [overlapLeft, overlapRight, overlapLeft] := rfl
  have hdistinct : ∀ d ∈ overlapNest.sources, d.entries.Distinct := by
    rw [hsources]
    simp only [List.forall_mem_cons, List.not_mem_nil, false_imp_iff, implies_true, and_true]
    unfold Entries.Distinct
    decide
  obtain ⟨hmount, hnest, -, halone, -⟩ := mounting_merges
  obtain ⟨hentries, herrors, hdropped⟩ :=
    hnest overlapNest .empty .empty overlapNest_built hdistinct
  obtain ⟨-, hlookup, -, hclaims, -, -⟩ := hmount .empty .empty overlapNest.sources hdistinct
  have hkeys := overlapNest_built.distinct hdistinct
  refine ⟨?_, ?_, ?_, (halone _ _ _ hkeys).2⟩
  · rw [hkeys.lookup_congr hentries, hlookup, hsources]
    decide
  · rw [herrors]
    rfl
  · refine hdropped.trans (List.Perm.of_eq ?_)
    rw [hclaims, hsources]
    decide

end DocDrive
