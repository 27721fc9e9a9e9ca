import DocDrive.Proofs.Unreadable

/-!
# The transcript of a discovery

A discovery keeps three accounts of one walk: the transcript, the error list and the entries. What
it says of an entry of the walk is settled by that entry (`Sighting.Told`), up to whether its file
came first or too late.

* `told_visit` — what one entry adds to the transcript and to the error list.
* `exists_told_catalogue`, `collected_catalogue`, `collected_before_dropped` — the accounts of a
  walk.
* `transcript_agrees` — the three accounts tell the same.
-/

namespace DocDrive

/-! ## Events and errors -/

/-- What the transcript tells of an error. -/
def DiscoveryError.event : DiscoveryError → Event
  | walk p _ m => .walkFailed p m
  | acquisition e => .acquisitionFailed e

namespace Event

/-- An event that stands for an error of the drive. -/
def isFailure : Event → Bool
  | acquisitionFailed _ => true
  | walkFailed .. => true
  | _ => false

/-- The path and the size of a file that was collected. -/
def collected? : Event → Option (Path × Nat)
  | collected p n => some (p, n)
  | _ => none

end Event

/-- The path and the size of a record, as the transcript tells them. -/
def Entries.told (entries : Entries) : List (Path × Nat) :=
  entries.map fun e => (e.1, e.2.value.size)

/-! ## One entry -/

namespace Sighting

/-- The failure of the stat of a file, if it failed. -/
def statFailures (s : Sighting) (file : OpenFile) : List AcquisitionError :=
  match file.stat with
  | .error io => [.ofIo .stating s.address io]
  | .ok _ => []

/-- What the transcript tells of an entry, and the errors that go with it. -/
inductive Told (s : Sighting) : List Event → List DiscoveryError → Prop
  | ignored : s.scope.ignores s.entry.path = true → Told s [] []
  | unwalked {io : IoError} : s.scope.ignores s.entry.path = false → s.entry.error = some io →
      Told s [.walkFailed s.address io.message] [.walk s.address io.kind io.message]
  | directory : s.scope.ignores s.entry.path = false → s.entry.error = none →
      s.entry.isDirectory = true → Told s [] []
  | rejected {reason : Rejection} : s.scope.ignores s.entry.path = false → s.entry.error = none →
      s.entry.isDirectory = false → admission s.scope.filters s.entry.path = .error reason →
      Told s [.skipped s.entry.path reason] []
  | unopened {io : IoError} : s.Admitted → s.tree.openFile s.entry.path = .error io →
      Told s [.acquisitionFailed (.ofIo .opening s.address io)]
        [.acquisition (.ofIo .opening s.address io)]
  | unread {file : OpenFile} {io : IoError} : s.Admitted →
      s.tree.openFile s.entry.path = .ok file → file.readAll = .error io →
      Told s
        ((s.statFailures file).map .acquisitionFailed ++
          [.acquisitionFailed (.ofIo .reading s.address io)])
        ((s.statFailures file).map .acquisition ++ [.acquisition (.ofIo .reading s.address io)])
  | read {file : OpenFile} {bytes : Bytes} {r : Record} {claim : Event} : s.Admitted →
      s.tree.openFile s.entry.path = .ok file → file.readAll = .ok bytes →
      r.Holds s.address s.entry.path file bytes →
      claim = .collected s.address r.size ∨ claim = .duplicateDropped s.address →
      Told s ((s.statFailures file).map .acquisitionFailed ++ [claim])
        ((s.statFailures file).map .acquisition)

variable {s : Sighting}

/-- What acquiring the file of an entry has failed at. -/
theorem failures_of_open {file : OpenFile} (h : s.tree.openFile s.entry.path = .ok file) :
    (acquire s.tree s.scope.directory s.entry.path).failures =
      match file.readAll with
      | .error io => s.statFailures file ++ [.ofIo .reading s.address io]
      | .ok _ => s.statFailures file := by
  unfold acquire statFailures
  rw [h]
  dsimp only
  cases hread : file.readAll with
  | error io => rfl
  | ok bytes => rfl

theorem told_of_admitted (h : s.Admitted) (taken : Entries) :
    s.Told ((s.scope.visit s.tree s.entry).events taken)
      (s.scope.visit s.tree s.entry).errors := by
  rw [visit_of_admitted h, Visit.events, Visit.errors]
  cases hopen : s.tree.openFile s.entry.path with
  | error io =>
    simp only [acquire, hopen]
    exact .unopened h hopen
  | ok file =>
    rw [failures_of_open hopen]
    cases hread : file.readAll with
    | error io =>
      have hrecord : (acquire s.tree s.scope.directory s.entry.path).record = none := by
        simp [acquire, hopen, hread]
      rw [hrecord]
      simpa using Told.unread h hopen hread
    | ok bytes =>
      obtain ⟨r, hrecord, hholds⟩ := acquire_of_read s.scope.directory hopen hread
      rw [hrecord]
      refine Told.read h hopen hread hholds ?_
      rw [Visit.claimEvent, hholds.absolutePath]
      by_cases hhas : taken.has s.address = true
      · exact Or.inr (if_pos hhas)
      · exact Or.inl (if_neg hhas)

/-- **What one entry adds** to the transcript and to the error list. -/
theorem told_visit (s : Sighting) (taken : Entries) :
    s.Told ((s.scope.visit s.tree s.entry).events taken)
      (s.scope.visit s.tree s.entry).errors := by
  by_cases h : s.Admitted
  · exact told_of_admitted h taken
  · unfold Scope.visit
    cases hcounts : s.scope.ignores s.entry.path with
    | true => exact .ignored hcounts
    | false =>
      cases herror : s.entry.error with
      | some io => exact .unwalked hcounts herror
      | none =>
        cases hfile : s.entry.isDirectory with
        | true => exact .directory hcounts herror hfile
        | false =>
          cases hadm : admission s.scope.filters s.entry.path with
          | error reason => exact .rejected hcounts herror hfile hadm
          | ok c => exact absurd ⟨hcounts, herror, hfile, c, hadm⟩ h

end Sighting

/-! ## The whole walk -/

section Walk

variable {s : Scope} {tree : FileTree} {first : Nat} {taken : Entries} {walk : List WalkEntry}
  {v : Visit} {visits : List Visit} {p : Path}

/-- One visit after the other. -/
theorem catalogue_cons (first : Nat) (taken : Entries) (v : Visit) (visits : List Visit) :
    (catalogue first taken (v :: visits)).entries =
        (catalogue first (taken.claimAll first v.record?.toList) visits).entries ∧
      (catalogue first taken (v :: visits)).errors =
        v.errors ++ (catalogue first (taken.claimAll first v.record?.toList) visits).errors ∧
      (catalogue first taken (v :: visits)).events = v.events taken ++
        (catalogue first (taken.claimAll first v.record?.toList) visits).events := by
  rw [catalogue]
  cases v.record? with
  | none => exact ⟨rfl, rfl, rfl⟩
  | some r => exact ⟨rfl, rfl, rfl⟩

/-- **A walk is told entry by entry**, in its order. -/
theorem exists_told_catalogue (s : Scope) (tree : FileTree) (first : Nat) (taken : Entries)
    (walk : List WalkEntry) :
    ∃ told : List (List Event × List DiscoveryError),
      List.Forall₂ (fun e t => Sighting.Told ⟨s, tree, e⟩ t.1 t.2) walk told ∧
      (catalogue first taken (walk.map (s.visit tree))).events = told.flatMap Prod.fst ∧
      (catalogue first taken (walk.map (s.visit tree))).errors = told.flatMap Prod.snd := by
  induction walk generalizing taken with
  | nil => exact ⟨[], .nil, rfl, rfl⟩
  | cons e walk ih =>
    obtain ⟨-, herror, hevent⟩ :=
      catalogue_cons first taken (s.visit tree e) (walk.map (s.visit tree))
    obtain ⟨told, htold, hevents, herrors⟩ :=
      ih (taken.claimAll first (s.visit tree e).record?.toList)
    refine ⟨((s.visit tree e).events taken, (s.visit tree e).errors) :: told, ?_, ?_, ?_⟩
    · exact .cons (Sighting.told_visit ⟨s, tree, e⟩ taken) htold
    · rw [List.map_cons, hevent, hevents, List.flatMap_cons]
    · rw [List.map_cons, herror, herrors, List.flatMap_cons]

/-- What the failures of a file are told as collects nothing. -/
theorem collected_failures (failures : List AcquisitionError) :
    (failures.map Event.acquisitionFailed).filterMap Event.collected? = [] := by
  rw [List.filterMap_map]
  exact List.filterMap_eq_nil_iff.2 fun e _ => rfl

/-- **A visit files the record that it tells as collected**, if any. -/
theorem told_visit_record (first : Nat) (taken : Entries) (v : Visit) :
    (taken.claimAll first v.record?.toList).told =
      taken.told ++ (v.events taken).filterMap Event.collected? := by
  cases v with
  | passed => exact (List.append_nil _).symm
  | failed path kind message => exact (List.append_nil _).symm
  | rejected path reason => exact (List.append_nil _).symm
  | acquired result =>
    rw [Visit.events, List.filterMap_append, collected_failures, List.nil_append]
    change (taken.claimAll first result.record.toList).told = _
    cases result.record with
    | none => exact (List.append_nil _).symm
    | some r =>
      change (taken.claim first r).told = taken.told ++
        [Visit.claimEvent taken r].filterMap Event.collected?
      by_cases hr : taken.has r.absolutePath = true
      · rw [Entries.claim_of_has hr, Visit.claimEvent, if_pos hr]
        exact (List.append_nil _).symm
      · rw [Entries.claim_of_not_has hr, Visit.claimEvent, if_neg hr, Entries.told, List.map_append]
        rfl

/-- **The entries of a walk are those that it tells as collected.** -/
theorem collected_catalogue (first : Nat) (taken : Entries) (visits : List Visit) :
    (catalogue first taken visits).entries.told =
      taken.told ++ (catalogue first taken visits).events.filterMap Event.collected? := by
  induction visits generalizing taken with
  | nil => exact (List.append_nil _).symm
  | cons v rest ih =>
    obtain ⟨hentries, -, hevents⟩ := catalogue_cons first taken v rest
    rw [hentries, hevents, ih, told_visit_record, List.filterMap_append, List.append_assoc]

theorem has_iff_told : taken.has p = true ↔ ∃ n, (p, n) ∈ taken.told := by
  rw [Entries.has_iff, Entries.told, List.mem_map]
  simp only [List.mem_map, Prod.mk.injEq]
  constructor
  · rintro ⟨e, he, rfl⟩
    exact ⟨_, e, he, rfl, rfl⟩
  · rintro ⟨n, e, he, rfl, -⟩
    exact ⟨e, he, rfl⟩

theorem mem_collected_iff {events : List Event} {n : Nat} :
    (p, n) ∈ events.filterMap Event.collected? ↔ .collected p n ∈ events := by
  rw [List.mem_filterMap]
  constructor
  · rintro ⟨e, he, hcollected⟩
    cases e with
    | collected q m => cases hcollected; exact he
    | skipped => cases hcollected
    | acquisitionFailed => cases hcollected
    | walkFailed => cases hcollected
    | duplicateDropped => cases hcollected
    | finished => cases hcollected
  · exact fun he => ⟨_, he, rfl⟩

/-- A visit drops a file only where its path is taken. -/
theorem has_of_dropped (h : .duplicateDropped p ∈ v.events taken) : taken.has p = true := by
  cases v with
  | passed => cases h
  | failed path kind message => simp [Visit.events] at h
  | rejected path reason => simp [Visit.events] at h
  | acquired result =>
    simp only [Visit.events, List.mem_append, List.mem_map, reduceCtorEq, and_false, exists_false,
      false_or] at h
    obtain ⟨r, -, hr⟩ := h
    unfold Visit.claimEvent at hr
    split at hr
    · cases hr
      assumption
    · cases hr

/-- **What is dropped was collected earlier**, or was taken from the beginning. -/
theorem collected_before_dropped {front back : List Event}
    (h : (catalogue first taken visits).events = front ++ .duplicateDropped p :: back) :
    taken.has p = true ∨ ∃ n, .collected p n ∈ front := by
  induction visits generalizing taken front with
  | nil => cases (List.append_ne_nil_of_right_ne_nil front (List.cons_ne_nil _ _)) h.symm
  | cons v rest ih =>
    obtain ⟨-, -, hevents⟩ := catalogue_cons first taken v rest
    rw [hevents] at h
    -- The event was told by this visit, or later.
    by_cases hlong : front.length < (v.events taken).length
    · have hget := congrArg (fun events => events[front.length]?) h
      simp only [List.getElem?_append_left hlong, List.getElem?_append_right (Nat.le_refl _),
        Nat.sub_self, List.getElem?_cons_zero] at hget
      exact Or.inl (has_of_dropped (List.mem_of_getElem? hget))
    · obtain ⟨middle, rfl⟩ : v.events taken <+: front :=
        List.prefix_of_prefix_length_le ⟨_, rfl⟩ ⟨_, h.symm⟩ (Nat.le_of_not_lt hlong)
      rw [List.append_assoc] at h
      rcases ih (List.append_cancel_left h) with hnow | ⟨n, hn⟩
      · obtain ⟨n, hn⟩ := has_iff_told.1 hnow
        rw [told_visit_record] at hn
        rcases List.mem_append.1 hn with hn | hn
        · exact Or.inl (has_iff_told.2 ⟨n, hn⟩)
        · exact Or.inr ⟨n, List.mem_append_left _ (mem_collected_iff.1 hn)⟩
      · exact Or.inr ⟨n, List.mem_append_right _ hn⟩

/-- The errors of one entry are told as failures, in order. -/
theorem failures_of_told {s : Sighting} {events : List Event} {errors : List DiscoveryError}
    (h : s.Told events errors) :
    errors.map DiscoveryError.event = events.filter Event.isFailure := by
  have hfailures : ∀ failures : List AcquisitionError,
      (failures.map DiscoveryError.acquisition).map DiscoveryError.event =
        (failures.map Event.acquisitionFailed).filter Event.isFailure := by
    intro failures
    rw [List.map_map, List.filter_eq_self.2 (by simp [Event.isFailure])]
    rfl
  cases h with
  | ignored => rfl
  | unwalked => rfl
  | directory => rfl
  | rejected => rfl
  | unopened => rfl
  | unread => rw [List.map_append, List.filter_append, hfailures]; rfl
  | read _ _ _ _ hclaim =>
    rw [List.filter_append, hfailures]
    rcases hclaim with rfl | rfl
    · exact (List.append_nil _).symm
    · exact (List.append_nil _).symm

/-- **The error list of a walk is what it tells of failures**, in order. -/
theorem failures_of_told_walk {s : Scope} {tree : FileTree} {walk : List WalkEntry}
    {told : List (List Event × List DiscoveryError)}
    (h : List.Forall₂ (fun e t => Sighting.Told ⟨s, tree, e⟩ t.1 t.2) walk told) :
    (told.flatMap Prod.snd).map DiscoveryError.event =
      (told.flatMap Prod.fst).filter Event.isFailure := by
  induction h with
  | nil => rfl
  | cons ht _ ih =>
    rw [List.flatMap_cons, List.flatMap_cons, List.map_append, List.filter_append, ih,
      failures_of_told ht]

end Walk

/-! ## The whole discovery -/

section Discovery

variable {host : Host} {first : Nat} {c : DiscoveryConfig} {d : LocalDrive}

/-- **A discovery tells its walk**, and how much it has found. -/
theorem transcript_eq_of_discover (hd : discover host first c = .ok d) :
    ∃ walk, (c.fileTree host).walk = .ok walk ∧
      d.entries = (catalogue first [] (walk.map ((c.scope host.cwd).visit (c.fileTree host)))).entries ∧
      d.errors = (catalogue first [] (walk.map ((c.scope host.cwd).visit (c.fileTree host)))).errors ∧
      d.transcript =
        (catalogue first [] (walk.map ((c.scope host.cwd).visit (c.fileTree host)))).events ++
          [.finished d.root d.entries.length d.errors.length .unmeasured] := by
  unfold discover at hd
  split at hd
  · cases hd
  dsimp only at hd
  split at hd
  · cases hd
  · rename_i walk hwalk
    cases hd
    exact ⟨walk, hwalk, rfl, rfl, rfl⟩

/-- The errors of a record are among those of its drive, at the path of the record. -/
theorem mem_errors_of_record {k : Path} {r : Shared Record} {failure : AcquisitionError}
    (hd : discover host first c = .ok d) (hr : (k, r) ∈ d.entries)
    (hfailure : failure ∈ r.value.errors) :
    .acquisition failure ∈ d.errors ∧ failure.path = k := by
  obtain ⟨walk, -, -, -, hentries, herrors⟩ := discover_eq_ok hd
  rw [hentries] at hr
  obtain ⟨front, e, back, rfl, ⟨file, bytes, hcollects, rfl, hholds⟩, -⟩ :=
    Scope.first_of_mem_entries hr
  have hadmitted : Sighting.Admitted ⟨c.scope host.cwd, c.fileTree host, e⟩ :=
    ⟨ignores_eq_false_iff.2 hcollects.counts, hcollects.walked, hcollects.isFile,
      hcollects.admitted⟩
  cases hstat : file.stat with
  | ok stat =>
    obtain ⟨-, -, hnone⟩ := hholds.stated stat hstat
    rw [hnone] at hfailure
    cases hfailure
  | error io =>
    obtain ⟨-, -, hone⟩ := hholds.unstated io hstat
    rw [hone, List.mem_singleton] at hfailure
    subst hfailure
    refine ⟨?_, rfl⟩
    rw [herrors]
    have hproblem := Sighting.Problem.unstated hadmitted hcollects.opened hstat
    exact List.mem_flatMap.2 ⟨e, by simp, Sighting.mem_errors_iff.2 hproblem⟩

/-- **The transcript, the errors and the entries of a discovery agree.** The transcript tells the
walk entry by entry, and at its end how many entries and errors there are. The errors are its
failures, in order. The entries are the files it tells as collected, in order and with their sizes;
no path among them comes twice, and a path that was dropped had been collected earlier. What is on
record as wrong with a file is among the errors, at the path of the file. -/
theorem transcript_agrees (hd : discover host first c = .ok d) :
    (∃ walk told, (c.fileTree host).walk = .ok walk ∧
      List.Forall₂
        (fun e t => Sighting.Told ⟨c.scope host.cwd, c.fileTree host, e⟩ (Prod.fst t) (Prod.snd t))
        walk told ∧
      d.transcript = told.flatMap Prod.fst ++
        [.finished d.root d.entries.length d.errors.length .unmeasured] ∧
      d.errors = told.flatMap Prod.snd) ∧
    d.errors.map DiscoveryError.event = d.transcript.filter Event.isFailure ∧
    d.entries.told = d.transcript.filterMap Event.collected? ∧
    d.entries.Distinct ∧
    (∀ front p back, d.transcript = front ++ .duplicateDropped p :: back →
      ∃ n, .collected p n ∈ front) ∧
    (∀ k r, (k, r) ∈ d.entries → ∀ failure ∈ r.value.errors,
      .acquisition failure ∈ d.errors ∧ failure.path = k) := by
  obtain ⟨walk, hwalk, hentries, herrors, htranscript⟩ := transcript_eq_of_discover hd
  obtain ⟨told, htold, hevents, hfailures⟩ :=
    exists_told_catalogue (c.scope host.cwd) (c.fileTree host) first [] walk
  refine ⟨⟨walk, told, hwalk, htold, ?_, ?_⟩, ?_, ?_, ?_, ?_, ?_⟩
  · rw [htranscript, hevents]
  · rw [herrors, hfailures]
  · rw [htranscript, herrors, hfailures, failures_of_told_walk htold, List.filter_append, hevents]
    exact (List.append_nil _).symm
  · rw [htranscript, hentries, collected_catalogue, List.filterMap_append]
    exact (List.append_nil _).symm
  · obtain ⟨_, -, -, -, hclaims, -⟩ := discover_eq_ok hd
    rw [hclaims]
    exact Scope.distinct_entries _ _ _ _
  · intro front p back hdropped
    rw [htranscript] at hdropped
    rcases List.eq_nil_or_concat back with rfl | ⟨middle, last, rfl⟩
    · -- The last event tells no drop.
      obtain ⟨-, hlast⟩ := List.append_inj' hdropped rfl
      cases hlast
    rw [List.concat_eq_append, ← List.cons_append, ← List.append_assoc] at hdropped
    obtain ⟨htold, -⟩ := List.append_inj' hdropped rfl
    rcases collected_before_dropped htold with hnone | hcollected
    · cases hnone
    · exact hcollected
  · exact fun k r hr failure hfailure => mem_errors_of_record hd hr hfailure

/-- Of three spellings of one file, the first is told as a failure, the second is collected and the
third is dropped. -/
theorem transcript_agrees_alias : ∃ d front, discover aliasHost 0 aliasConfig = .ok d ∧
    d.transcript = front ++ [.duplicateDropped (.ofString "/w/a.yaml"),
      .finished d.root d.entries.length d.errors.length .unmeasured] ∧
    (∃ n, Event.collected (.ofString "/w/a.yaml") n ∈ front) ∧
    d.errors.map DiscoveryError.event = d.transcript.filter Event.isFailure ∧
    d.errors.length = 2 := by
  obtain ⟨d, hd, htranscript, hlength⟩ : ∃ d, discover aliasHost 0 aliasConfig = .ok d ∧
      d.transcript = [
        .acquisitionFailed (.ofIo .opening (.ofString "/w/a.yaml") (.plain .notFound)),
        .acquisitionFailed (.ofIo .stating (.ofString "/w/a.yaml") (.plain .permissionDenied)),
        .collected (.ofString "/w/a.yaml") 1] ++ [.duplicateDropped (.ofString "/w/a.yaml"),
          .finished d.root d.entries.length d.errors.length .unmeasured] ∧
      d.errors.length = 2 :=
    ⟨_, rfl, rfl, rfl⟩
  obtain ⟨-, hfailures, -, -, hdropped, -⟩ := transcript_agrees hd
  exact ⟨d, _, hd, htranscript, hdropped _ _ _ htranscript, hfailures, hlength⟩

end Discovery

end DocDrive
