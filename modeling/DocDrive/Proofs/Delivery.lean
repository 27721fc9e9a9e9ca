import DocDrive.Proofs.Cursor
import DocDrive.Proofs.Discovery
import DocDrive.Proofs.FileTree.Reachable
import DocDrive.Proofs.Identity

/-!
# What a drive delivers

While a drive is discovered, every file is read to its end, and from then on handles read what was
delivered. A handle moves a cursor over the content of its record; a file of a tree in memory moves
a position over its data (`MemoryCursor`). Whatever the sizes of the buffers, the two deliver the
same chunks, call by call.

* `MemoryCursor.Tracks.read`, `MemoryCursor.opened_refines` — an opened file of a tree in memory is
  such a position.
* `MemoryCursor.reads_eq_slices` — what a run of reads from a position yields.
* `drive_delivers_source` — a handle delivers what a freshly opened file does.
-/

namespace DocDrive

/-! ## Opened files -/

/-- A file that still delivers some bytes, and nothing else. -/
def OpenFile.Holds (file : OpenFile) (rest : Bytes) : Prop :=
  file.barrier = none ∧ (file.ahead = [.bytes rest] ∨ file.ahead = [] ∧ rest = [])

/-- What a read yields is no longer held. -/
theorem OpenFile.Holds.read {file : OpenFile} {rest : Bytes} (h : file.Holds rest) (n : Nat) :
    ∃ after, file.read n = (.ok (rest.take n), after) ∧ after.Holds (rest.drop n) := by
  obtain ⟨stat, ahead, barrier⟩ := file
  obtain ⟨hbarrier, hahead⟩ := h
  obtain rfl : barrier = none := hbarrier
  rcases hahead with hahead | ⟨hahead, rfl⟩
  · obtain rfl : ahead = [.bytes rest] := hahead
    cases rest with
    | nil =>
      rw [List.take_nil, List.drop_nil]
      exact ⟨⟨stat, [], none⟩, rfl, rfl, Or.inr ⟨rfl, rfl⟩⟩
    | cons b rest => exact ⟨_, rfl, rfl, Or.inl rfl⟩
  · obtain rfl : ahead = [] := hahead
    rw [List.take_nil, List.drop_nil]
    exact ⟨⟨stat, [], none⟩, rfl, rfl, Or.inr ⟨rfl, rfl⟩⟩

/-! ## Positions in a file -/

/-- A file of a tree in memory, opened under a path and read up to a position. -/
structure MemoryCursor where
  file : MemoryFile
  path : Path
  position : Nat := 0

namespace MemoryCursor

variable {m after : MemoryCursor} {file : OpenFile}

/-- A read of at most `n` bytes. A position beyond the end is taken for the end. -/
def read (m : MemoryCursor) (n : Nat) : Except IoError Bytes × MemoryCursor :=
  if m.file.fault = some .reading then (.error (MemoryTree.injected .other "read" m.path), m)
  else
    let remaining := m.file.data.drop (min m.position m.file.data.length)
    let count := min remaining.length n
    (.ok (remaining.take count), { m with position := m.position + count })

/-- What stands ahead of the position. -/
def ahead (m : MemoryCursor) : Bytes := m.file.data.drop m.position

/-- **A read yields what stands at the position**, and moves the position past it. -/
theorem read_of_readable (h : m.file.fault ≠ some .reading) (n : Nat) :
    ∃ after, m.read n = (.ok (m.ahead.take n), after) ∧ after.file = m.file ∧
      after.position = m.position + (m.ahead.take n).length ∧ after.ahead = m.ahead.drop n := by
  have hcount : min m.ahead.length n = (m.ahead.take n).length := by
    rw [List.length_take, Nat.min_comm]
  have hread : m.read n = (.ok (m.ahead.take n),
      { m with position := m.position + (m.ahead.take n).length }) := by
    unfold read
    rw [if_neg h, ← List.drop_eq_drop_min]
    show (Except.ok (m.ahead.take (min m.ahead.length n)),
      { m with position := m.position + min m.ahead.length n }) = _
    rw [hcount, List.length_take, ← List.take_eq_take_min]
  refine ⟨_, hread, rfl, rfl, ?_⟩
  show m.file.data.drop (m.position + (m.ahead.take n).length) = _
  rw [← List.drop_drop, ← hcount, Nat.min_comm]
  exact List.drop_eq_drop_min.symm

/-- **Reads yield the slices of what is ahead**, and leave the position behind them. -/
theorem reads_eq_slices (h : m.file.fault ≠ some .reading) (sizes : List Nat) :
    ∃ after, inTurn read m sizes = ((slices m.ahead sizes).map .ok, after) ∧ after.file = m.file ∧
      after.position = m.position + (slices m.ahead sizes).flatten.length := by
  have hstep : ∀ (m' : MemoryCursor) (n : Nat), m'.file = m.file →
      ∃ next, m'.read n = (.ok (m'.ahead.take n), next) ∧ next.file = m.file ∧
        (next.position : Int) = m'.position + (m'.ahead.take n).length ∧
        next.ahead = m'.ahead.drop n := by
    intro m' n hfile
    obtain ⟨next, hread, hsame, hmoved, hahead⟩ := read_of_readable (hfile ▸ h) n
    exact ⟨next, hread, hsame.trans hfile, by omega, hahead⟩
  obtain ⟨after, hreads, hfile, hposition⟩ := inTurn_eq_slices hstep rfl sizes
  exact ⟨after, hreads, hfile, by omega⟩

/-! ## In step with opened files -/

/-- An opened file that delivers what stands at a position, or shows the fault it was given. -/
structure Tracks (m : MemoryCursor) (file : OpenFile) : Prop where
  faulty : m.file.fault = some .reading →
    file.ahead = [] ∧ file.barrier = some (MemoryTree.injected .other "read" m.path)
  readable : m.file.fault ≠ some .reading → file.Holds m.ahead

theorem tracks_opened (f : MemoryFile) (p : Path) :
    Tracks { file := f, path := p } (MemoryTree.opened f p) where
  faulty := by
    intro (hfault : f.fault = some .reading)
    simp [MemoryTree.opened, hfault]
  readable := by
    intro (hfault : f.fault ≠ some .reading)
    simp [MemoryTree.opened, hfault, OpenFile.Holds, ahead]

/-- **One read** of an opened file is a read at the position. -/
theorem Tracks.read (h : m.Tracks file) (n : Nat) :
    (file.read n).1 = (m.read n).1 ∧ (m.read n).2.Tracks (file.read n).2 := by
  by_cases hfault : m.file.fault = some .reading
  · obtain ⟨hahead, hbarrier⟩ := h.faulty hfault
    have hread : m.read n = (.error (MemoryTree.injected .other "read" m.path), m) := if_pos hfault
    have hfile : file.read n = (.error (MemoryTree.injected .other "read" m.path), file) := by
      obtain ⟨stat, ahead, barrier⟩ := file
      subst hahead hbarrier
      rfl
    rw [hread, hfile]
    exact ⟨rfl, h⟩
  · obtain ⟨after, hread, hsame, -, hrest⟩ := read_of_readable hfault n
    obtain ⟨later, hfile, hholds⟩ := (h.readable hfault).read n
    rw [hread, hfile]
    refine ⟨rfl, ?_, fun _ => hrest ▸ hholds⟩
    intro hlost
    exact absurd (hsame ▸ hlost) hfault

/-- **An opened file is a position in its data**: whatever it is asked for, it answers alike. -/
theorem opened_refines (f : MemoryFile) (p : Path) (sizes : List Nat) :
    (inTurn OpenFile.read (MemoryTree.opened f p) sizes).1 =
        (inTurn read { file := f, path := p } sizes).1 ∧
      (inTurn read { file := f, path := p } sizes).2.Tracks
        (inTurn OpenFile.read (MemoryTree.opened f p) sizes).2 := by
  refine inTurn_simulates (R := fun file m => Tracks m file) ?_ (tracks_opened f p) sizes
  exact fun file m n h => h.read n

end MemoryCursor

/-! ## From the tree to the handle -/

/-- A file that is opened and read to its end opens at the position of its first byte, and delivers
all its data. -/
theorem MemoryTree.eq_opened_of_readAll {t : MemoryTree} {p : Path} {f : MemoryFile}
    {file : OpenFile} {bytes : Bytes} (hstored : t.find? p = some (.file f))
    (hopen : t.openFile p = .ok file) (hread : file.readAll = .ok bytes) :
    file = opened f p ∧ f.fault ≠ some .reading ∧ bytes = f.data := by
  obtain ⟨hopens, hreads⟩ := openFile_of_file hstored
  have hopening : f.fault ≠ some .opening := hopens.1 ⟨file, hopen⟩
  have hfile : t.openFile p = .ok (opened f p) := by
    unfold openFile
    rw [hstored]
    exact if_neg hopening
  obtain rfl : opened f p = file := Except.ok.inj (hfile.symm.trans hopen)
  by_cases hreading : f.fault = some .reading
  · have hfails : (opened f p).readAll = .error (injected .other "read" p) := by
      simp [opened, hreading, OpenFile.readAll, OpenFile.readAllAhead, OpenFile.atEnd]
    cases hfails.symm.trans hread
  · have hdata := (hreads _ hopen).2 hreading
    exact ⟨rfl, hreading, Except.ok.inj (hread.symm.trans hdata)⟩

section Discovered

variable {host : Host} {first : Nat} {c : DiscoveryConfig} {d : LocalDrive} {e : WalkEntry}
  {front back : List WalkEntry} {k : Path} {r : Record}

/-- **The spelling that is collected first opens its record**, at the start of the content. -/
theorem exists_openFile_of_first (hd : discover host first c = .ok d)
    (hwalk : (c.fileTree host).walk = .ok (front ++ e :: back))
    (has : (c.scope host.cwd).CollectsAs (c.fileTree host) k e r)
    (hfirst : ∀ g ∈ front, ¬(c.scope host.cwd).CollectsAt (c.fileTree host) k g) :
    ∃ handle, d.openFile e.path = .ok handle ∧ handle.record.value = r ∧ handle.offset = 0 := by
  obtain ⟨hroot, hentries, -⟩ := discover_eq_ok_of_walk hd hwalk
  obtain ⟨x, hx, rfl⟩ :=
    (Scope.exists_mem_entries_value_iff first).2 ⟨front, e, back, rfl, has, hfirst⟩
  have hkey : d.resolve e.path = k := by
    obtain ⟨-, -, -, hk, -⟩ := has
    rw [Drive.resolve, hroot]
    exact hk
  have hlookup : d.lookup e.path = some x := by
    rw [Drive.lookup, hkey, hentries]
    exact (Scope.distinct_entries _ _ _ _).lookup_eq_some_iff.2 hx
  exact ⟨{ record := x }, Drive.openFile_eq_ok_iff.2 ⟨hlookup, rfl⟩, rfl, rfl⟩

/-- **A drive delivers what its source does.** Let a tree in memory be discovered, and let an entry
of its walk be the first to be collected at some address. Then its path opens in the drive as in the
tree. Whatever buffers both are read into, call by call they deliver the same: the slices of the
data that is stored in the tree, of the sizes of the buffers. A call delivers nothing exactly if its
buffer is empty or the calls before it have delivered everything. The cursor of the handle and the
position in the file stand behind what was delivered, and so never beyond the end of the data. (Data
are shorter than half of the address space, so a cursor reaches all of them.) -/
theorem drive_delivers_source {t : MemoryTree} {f : MemoryFile}
    (htree : c.tree = some t.toFileTree) (hd : discover host first c = .ok d)
    (hwalk : t.walk = front ++ e :: back)
    (hat : (c.scope host.cwd).CollectsAt t.toFileTree k e)
    (hfirst : ∀ g ∈ front, ¬(c.scope host.cwd).CollectsAt t.toFileTree k g)
    (hstored : t.find? e.path = some (.file f)) (hfits : f.data.length < 2 ^ 63) :
    ∃ handle file, d.openFile e.path = .ok handle ∧ t.openFile e.path = .ok file ∧
      ∀ sizes : List Nat, ∃ handle' file' cursor',
        handle.answerAll (sizes.map .read) =
          ((slices f.data sizes).map fun chunk => .read (.ok chunk), handle') ∧
        inTurn OpenFile.read file sizes = ((slices f.data sizes).map .ok, file') ∧
        inTurn MemoryCursor.read { file := f, path := e.path } sizes =
          ((slices f.data sizes).map .ok, cursor') ∧
        cursor'.Tracks file' ∧
        handle'.offset.toInt = (slices f.data sizes).flatten.length ∧
        cursor'.position = (slices f.data sizes).flatten.length ∧
        (slices f.data sizes).flatten.length ≤ f.data.length ∧
        ∀ i n chunk, sizes[i]? = some n → (slices f.data sizes)[i]? = some chunk →
          (chunk = [] ↔ n = 0 ∨ ((slices f.data sizes).take i).flatten = f.data) := by
  have hsource : c.fileTree host = t.toFileTree := by
    unfold DiscoveryConfig.fileTree
    rw [htree]
  have hwalked : (c.fileTree host).walk = .ok (front ++ e :: back) := by
    rw [hsource, ← hwalk]
    rfl
  obtain ⟨r, has⟩ := hat.exists_record
  obtain ⟨handle, hopen, hrecord, hstart⟩ :=
    exists_openFile_of_first hd hwalked (hsource ▸ has) (hsource ▸ hfirst)
  -- The file was read to its end when it was collected, so the record holds its data.
  obtain ⟨file, bytes, hcollects, -, hholds⟩ := has
  obtain ⟨rfl, hreading, rfl⟩ :=
    MemoryTree.eq_opened_of_readAll hstored hcollects.opened hcollects.read
  have hcontent : handle.content = f.data := by
    rw [Handle.content, hrecord]
    exact hholds.content
  have hoffset : handle.offset.toInt = 0 := by
    rw [hstart]
    rfl
  have hahead : handle.ahead = f.data := by
    rw [Handle.ahead, hoffset, hcontent]
    rfl
  refine ⟨handle, _, hopen, hcollects.opened, fun sizes => ?_⟩
  obtain ⟨handle', hreads, -, hmoved⟩ :=
    Handle.reads_eq_slices (h := handle) (by rwa [hcontent]) (by omega) sizes
  obtain ⟨cursor', hpositions, -, hposition⟩ :=
    MemoryCursor.reads_eq_slices (m := { file := f, path := e.path }) hreading sizes
  obtain ⟨hsame, htracks⟩ := MemoryCursor.opened_refines f e.path sizes
  rw [hpositions] at hsame htracks
  rw [hahead] at hreads hmoved
  refine ⟨handle', _, cursor', hreads, Prod.ext hsame rfl, hpositions, htracks, ?_, ?_, ?_, ?_⟩
  · rw [hmoved, hoffset, Int.zero_add]
  · rw [hposition]
    exact Nat.zero_add _
  · exact length_flatten_slices_le _ _
  · intro i n chunk hsize hchunk
    exact slice_eq_nil_iff_of_size hsize hchunk

end Discovered

/-- A file that cannot be opened, and a roundabout spelling of its path that can. -/
def roundaboutTree : MemoryTree :=
  MemoryTree.built [.file (.ofString "b/../a.yaml") { data := [0x31, 0x32, 0x33] },
    .file (.ofString "a.yaml") { data := [0x34], fault := some .opening }]

/-- The discovery of that tree. -/
def roundaboutConfig : DiscoveryConfig := { tree := some roundaboutTree.toFileTree }

/-- The roundabout spelling is collected first. Reads of two bytes, of none and of nine deliver the
three bytes of the file, and then there is nothing left. -/
theorem drive_delivers_source_roundabout : ∃ (d : LocalDrive) (handle : Handle) (file : OpenFile),
    discover aliasHost 0 roundaboutConfig = .ok d ∧
    d.openFile (.ofString "b/../a.yaml") = .ok handle ∧
    roundaboutTree.openFile (.ofString "b/../a.yaml") = .ok file ∧
    (handle.answerAll ([2, 0, 9, 1].map .read)).1 =
      [[0x31, 0x32], [], [0x33], []].map (fun chunk => .read (.ok chunk)) ∧
    (inTurn OpenFile.read file [2, 0, 9, 1]).1 = [[0x31, 0x32], [], [0x33], []].map .ok := by
  obtain ⟨d, hd⟩ : ∃ d, discover aliasHost 0 roundaboutConfig = .ok d := ⟨_, rfl⟩
  have hat : (roundaboutConfig.scope aliasHost.cwd).CollectsAt roundaboutTree.toFileTree
      (.ofString "/w/a.yaml") { path := .ofString "b/../a.yaml" } :=
    ⟨⟨_, _, rfl, rfl, nofun, ⟨.yaml, rfl⟩, rfl, rfl⟩, rfl⟩
  obtain ⟨front, hfront⟩ : ∃ front : List WalkEntry, front = [{ path := .ofString "a.yaml" },
      { path := .ofString "b", isDirectory := true },
      { path := .ofString "b/..", isDirectory := true }] := ⟨_, rfl⟩
  have hwalk : roundaboutTree.walk = front ++ [{ path := .ofString "b/../a.yaml" }] := by
    rw [hfront]
    rfl
  have hfirst : ∀ g ∈ front, ¬(roundaboutConfig.scope aliasHost.cwd).CollectsAt
      roundaboutTree.toFileTree (.ofString "/w/a.yaml") g := by
    intro g hg
    simp only [hfront, List.mem_cons, List.not_mem_nil, or_false] at hg
    rintro ⟨⟨file, bytes, hcollects⟩, -⟩
    rcases hg with rfl | rfl | rfl
    · cases hcollects.opened
    · cases hcollects.isFile
    · cases hcollects.isFile
  obtain ⟨handle, file, hopen, hsource, hruns⟩ :=
    drive_delivers_source (f := { data := [0x31, 0x32, 0x33] }) rfl hd hwalk hat hfirst rfl
      (by decide)
  obtain ⟨_, _, _, hreads, hfile, -⟩ := hruns [2, 0, 9, 1]
  refine ⟨d, handle, file, hd, hopen, hsource, ?_, ?_⟩
  · rw [hreads]
    rfl
  · rw [hfile]
    rfl

end DocDrive
