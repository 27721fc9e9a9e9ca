import DocDrive.Proofs.Identity
import Mathlib.Data.List.Nodup

/-!
# Sessions

A program discovers drives and mounts drives that it has, in any order, and numbers its records as
they arrive. However the mounts share records, a number then stands for one record
(`Session.Sound`), and so no drive holds two records with one number.

* `LocalDrive.numbers` — a discovery numbers its records one after the other.
* `Session.sound` — the invariant holds of every session.
* `Session.nodup_numbers` — the records of a drive have different numbers.
-/

namespace DocDrive

/-- The drives that a program has, and the number of its next record. -/
inductive Session : Nat → List Drive → Prop
  | start : Session 0 []
  | discovered {next : Nat} {drives : List Drive} {host : Host} {c : DiscoveryConfig}
      {d : LocalDrive} : Session next drives →
      c.base.isAbsolute = true ∨ host.cwd.isAbsolute = true → discover host next c = .ok d →
      Session (next + d.entries.length) (d.toDrive :: drives)
  | mounted {next : Nat} {drives sources : List Drive} {cwd root : Path} : Session next drives →
      root.isAbsolute = true ∨ cwd.isAbsolute = true → (∀ s ∈ sources, s ∈ drives) →
      Session next ((mount cwd root sources).toDrive :: drives)

/-- The numbers of the records in their order. -/
def Entries.numbers (entries : Entries) : List Nat := entries.map fun e => e.2.number

/-! ## Numbers of one discovery -/

namespace Entries

variable {entries : Entries} {first : Nat}

theorem numbers_claim (h : entries.numbers = List.range' first entries.length) (r : Record) :
    (entries.claim first r).numbers = List.range' first (entries.claim first r).length := by
  by_cases hr : entries.has r.absolutePath = true
  · rwa [claim_of_has hr]
  · rw [claim_of_not_has hr, List.length_append, List.length_singleton, List.range'_1_concat, ← h]
    simp [numbers]

/-- Records are numbered in the order of their arrival. -/
theorem numbers_claimAll (h : entries.numbers = List.range' first entries.length)
    (records : List Record) : (entries.claimAll first records).numbers =
      List.range' first (entries.claimAll first records).length := by
  induction records generalizing entries with
  | nil => exact h
  | cons r records ih => exact ih (numbers_claim h r)

end Entries

theorem LocalDrive.numbers {host : Host} {first : Nat} {c : DiscoveryConfig} {d : LocalDrive}
    (h : discover host first c = .ok d) :
    d.entries.numbers = List.range' first d.entries.length := by
  obtain ⟨walk, _, _, _, hentries, _⟩ := discover_eq_ok h
  rw [hentries]
  exact Entries.numbers_claimAll rfl _

/-! ## Numbers of all drives -/

namespace Session

variable {next : Nat} {drives : List Drive} {d : Drive} {r r' : Shared Record}

/-- A record that one of the drives holds. -/
def Held (drives : List Drive) (r : Shared Record) : Prop :=
  ∃ d ∈ drives, r ∈ d.entries.map Prod.snd

theorem Held.of_cons (h : Held (d :: drives) r) : r ∈ d.entries.map Prod.snd ∨ Held drives r := by
  obtain ⟨d', hd', hr⟩ := h
  rcases List.mem_cons.1 hd' with rfl | hd'
  · exact Or.inl hr
  · exact Or.inr ⟨d', hd', hr⟩

/-- A mount holds no records of its own. -/
theorem Held.of_mount {cwd root : Path} {sources : List Drive} (h : ∀ s ∈ sources, s ∈ drives)
    (hr : Held ((mount cwd root sources).toDrive :: drives) r) : Held drives r := by
  rcases hr.of_cons with hr | hr
  · obtain ⟨e, he, rfl⟩ := List.mem_map.1 hr
    rcases Entries.mem_joinAll he with he | ⟨source, hsource, he⟩
    · cases he
    · obtain ⟨s, hs, rfl⟩ := List.mem_map.1 hsource
      exact ⟨s, h s hs, List.mem_map_of_mem he⟩
  · exact hr

/-- What holds of the drives of a session: numbers that were given are taken, and each of them was
given to one record. -/
structure Sound (next : Nat) (drives : List Drive) : Prop where
  addressed : ∀ d ∈ drives, d.Addressed
  bounded : ∀ r, Held drives r → r.number < next
  identified : ∀ r r', Held drives r → Held drives r' → r.number = r'.number → r = r'

theorem sound_discovered {host : Host} {c : DiscoveryConfig} {d : LocalDrive}
    (h : Sound next drives) (hcwd : c.base.isAbsolute = true ∨ host.cwd.isAbsolute = true)
    (hd : discover host next c = .ok d) :
    Sound (next + d.entries.length) (d.toDrive :: drives) := by
  have hnumbers := LocalDrive.numbers hd
  have hnew : ∀ r ∈ d.entries.map Prod.snd, next ≤ r.number ∧ r.number < next + d.entries.length := by
    intro r hr
    obtain ⟨e, he, rfl⟩ := List.mem_map.1 hr
    have hmem : e.2.number ∈ d.entries.numbers := List.mem_map_of_mem he
    rw [hnumbers, List.mem_range'_1] at hmem
    exact hmem
  refine ⟨?_, fun r hr => ?_, fun r r' hr hr' hsame => ?_⟩
  · exact List.forall_mem_cons.2 ⟨LocalDrive.addressed hcwd hd, h.addressed⟩
  · rcases hr.of_cons with hr | hr
    · exact (hnew r hr).2
    · have hold := h.bounded r hr
      omega
  · -- Two new records were numbered apart; a new and an old one are kept apart by `next`.
    rcases hr.of_cons with hr | hr <;> rcases hr'.of_cons with hr' | hr'
    · obtain ⟨e, he, rfl⟩ := List.mem_map.1 hr
      obtain ⟨e', he', rfl⟩ := List.mem_map.1 hr'
      have hnodup : d.entries.numbers.Nodup := hnumbers ▸ List.nodup_range'
      rw [List.inj_on_of_nodup_map hnodup he he' hsame]
    · have hold := h.bounded r' hr'
      have hlate := (hnew r hr).1
      omega
    · have hold := h.bounded r hr
      have hlate := (hnew r' hr').1
      omega
    · exact h.identified r r' hr hr' hsame

/-- **The invariant of sessions.** -/
theorem sound (h : Session next drives) : Sound next drives := by
  induction h with
  | start => exact ⟨nofun, fun r ⟨_, hd, _⟩ => (nomatch hd), fun r _ ⟨_, hd, _⟩ => (nomatch hd)⟩
  | discovered _ hcwd hd ih => exact sound_discovered ih hcwd hd
  | mounted _ hroot hsources ih =>
    refine ⟨List.forall_mem_cons.2 ⟨?_, ih.addressed⟩, fun r hr => ?_, fun r r' hr hr' => ?_⟩
    · exact mount_addressed hroot fun s hs => ih.addressed s (hsources s hs)
    · exact ih.bounded r (hr.of_mount hsources)
    · exact ih.identified r r' (hr.of_mount hsources) (hr'.of_mount hsources)

/-- **The records of a drive have different numbers**: equal numbers mean one record, which stands
at its own address only. -/
theorem nodup_numbers (h : Session next drives) (hd : d ∈ drives) :
    d.entries.numbers.Nodup := by
  have haddr := h.sound.addressed d hd
  have hentries : d.entries.Nodup := List.Nodup.of_map _ haddr.distinct
  refine List.Nodup.map_on (fun e he f hf hsame => ?_) hentries
  have hrecord : e.2 = f.2 := h.sound.identified e.2 f.2 ⟨d, hd, List.mem_map_of_mem he⟩
    ⟨d, hd, List.mem_map_of_mem hf⟩ hsame
  have hpath : e.1 = f.1 := by
    rw [← (haddr.entry e he).stamped, hrecord, (haddr.entry f hf).stamped]
  exact Prod.ext hpath hrecord

end Session

end DocDrive
