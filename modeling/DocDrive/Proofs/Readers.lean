import DocDrive.Drive.Indexing
import DocDrive.Proofs.Cursor
import DocDrive.Proofs.Requests

/-!
# Readers of a drive

Many readers use a drive at once: they open handles, read and move them, ask records for documents
and indexes, or index the whole drive, and their calls arrive in any order. Yet each handle behaves
as if it were alone: what its calls get and where its cursor ends is what those calls alone yield on
the handle as it was opened.

* `Drive.answer_cases` — all that one call can do to the handles.
* `Drive.answerAll_alone` — every handle ends as its own calls leave it.
* `readers_isolated` — every handle is alone, and a handle that only reads gets the content from the
  beginning to the end.
-/

namespace DocDrive

/-! ## Calls -/

/-- What the users of a drive may ask for. -/
inductive DriveCall where
  | openFile (path : Path)
  /-- A call on a handle. Handles are numbered in the order of their opening. -/
  | handle (number : Nat) (call : HandleCall)
  /-- A request to the record at a path. -/
  | record (path : Path) (request : Request)
  | indexAll (indexer : Indexer) (config : IndexConfig)

/-- What they get. -/
inductive DriveAnswer where
  | opened (result : Except DriveError Handle)
  | handle (answer : HandleAnswer)
  | record (answer : Answer)
  | indexed (report : IndexReport)
  /-- There is no such handle, or no such record. -/
  | nothing

/-- A drive in use: the handles that are open, and what has been derived from its records. -/
structure DriveState where
  handles : List Handle := []
  caches : Caches := {}

namespace DriveState

def opening (s : DriveState) (h : Handle) : DriveState := { s with handles := s.handles ++ [h] }

def moving (s : DriveState) (i : Nat) (h : Handle) : DriveState :=
  { s with handles := s.handles.set i h }

@[simp] theorem handles_opening (s : DriveState) (h : Handle) :
    (s.opening h).handles = s.handles ++ [h] := rfl

@[simp] theorem handles_moving (s : DriveState) (i : Nat) (h : Handle) :
    (s.moving i h).handles = s.handles.set i h := rfl

end DriveState

/-- A request to a record, and the caches after it. -/
def Caches.answer (c : Caches) (r : Shared Record) (q : Request) : Answer × Caches :=
  let (a, s) := r.value.answer r.number q (c.state r.number)
  (a, c.update r.number s)

namespace Drive

/-- One call and what it leaves. -/
def answer (d : Drive) (s : DriveState) : DriveCall → DriveAnswer × DriveState
  | .openFile p =>
    match d.openFile p with
    | .ok h => (.opened (.ok h), s.opening h)
    | .error e => (.opened (.error e), s)
  | .handle i call =>
    match s.handles[i]? with
    | some h => (.handle (h.answer call).1, s.moving i (h.answer call).2)
    | none => (.nothing, s)
  | .record p q =>
    match d.lookup p with
    | some r => (.record (s.caches.answer r q).1, { s with caches := (s.caches.answer r q).2 })
    | none => (.nothing, s)
  | .indexAll indexer config =>
    (.indexed (d.indexAll indexer config s.caches).1,
      { s with caches := (d.indexAll indexer config s.caches).2 })

/-- Calls one after the other, each with what it gets. -/
def answerAll (d : Drive) :
    List DriveCall → DriveState → List (DriveCall × DriveAnswer) × DriveState
  | [], s => ([], s)
  | call :: rest, s =>
    let (a, s) := d.answer s call
    let (later, s) := d.answerAll rest s
    ((call, a) :: later, s)

end Drive

/-! ## The view of one handle -/

/-- The handle that a call has opened. -/
def opened? : DriveCall × DriveAnswer → Option Handle
  | (_, .opened (.ok h)) => some h
  | _ => none

/-- A call on handle `i` that was answered. -/
def own? (i : Nat) : DriveCall × DriveAnswer → Option (HandleCall × HandleAnswer)
  | (.handle j call, .handle a) => if j = i then some (call, a) else none
  | _ => none

/-- The handles that were opened, as they were when they were. -/
def opened (trace : List (DriveCall × DriveAnswer)) : List Handle := trace.filterMap opened?

/-- The calls on handle `i` and their answers. -/
def own (i : Nat) (trace : List (DriveCall × DriveAnswer)) : List (HandleCall × HandleAnswer) :=
  trace.filterMap (own? i)

theorem own_cons_self (i : Nat) (call : HandleCall) (a : HandleAnswer)
    (trace : List (DriveCall × DriveAnswer)) :
    own i ((.handle i call, .handle a) :: trace) = (call, a) :: own i trace :=
  List.filterMap_cons_some (if_pos rfl)

theorem own_cons_ne {i j : Nat} (h : j ≠ i) (call : HandleCall) (a : HandleAnswer)
    (trace : List (DriveCall × DriveAnswer)) :
    own i ((.handle j call, .handle a) :: trace) = own i trace :=
  List.filterMap_cons_none (if_neg h)

namespace Drive

variable {d : Drive} {s : DriveState} {call : DriveCall} {calls : List DriveCall}
  {a : DriveAnswer} {front back : List (DriveCall × DriveAnswer)} {h : Handle} {i : Nat}

/-- **All that one call can do to the handles**: open one, move one, or leave them. -/
theorem answer_cases (d : Drive) (s : DriveState) (call : DriveCall) :
    (∃ p h, call = .openFile p ∧ d.openFile p = .ok h ∧
      d.answer s call = (.opened (.ok h), s.opening h)) ∨
    (∃ j h c, call = .handle j c ∧ s.handles[j]? = some h ∧
      d.answer s call = (.handle (h.answer c).1, s.moving j (h.answer c).2)) ∨
    (opened? (call, (d.answer s call).1) = none ∧ (∀ i, own? i (call, (d.answer s call).1) = none) ∧
      (d.answer s call).2.handles = s.handles) := by
  cases call with
  | openFile p =>
    cases hopen : d.openFile p with
    | ok h => exact Or.inl ⟨p, h, rfl, hopen, by simp [answer, hopen]⟩
    | error e => exact Or.inr (Or.inr (by simp [answer, hopen, opened?, own?]))
  | handle j c =>
    cases hj : s.handles[j]? with
    | some h => exact Or.inr (Or.inl ⟨j, h, c, rfl, hj, by simp [answer, hj]⟩)
    | none => exact Or.inr (Or.inr (by simp [answer, hj, opened?, own?]))
  | record p q =>
    cases hp : d.lookup p with
    | some r => exact Or.inr (Or.inr (by simp [answer, hp, opened?, own?]))
    | none => exact Or.inr (Or.inr (by simp [answer, hp, opened?, own?]))
  | indexAll indexer config => exact Or.inr (Or.inr (by simp [answer, opened?, own?]))

theorem answerAll_cons (d : Drive) (call : DriveCall) (rest : List DriveCall) (s : DriveState) :
    d.answerAll (call :: rest) s =
      ((call, (d.answer s call).1) :: (d.answerAll rest (d.answer s call).2).1,
        (d.answerAll rest (d.answer s call).2).2) :=
  rfl

/-- **Every handle ends as its own calls leave it**, whether it was open already or is opened on the
way. -/
theorem answerAll_alone (hi : (s.handles ++ opened (d.answerAll calls s).1)[i]? = some h) :
    ∃ after, (d.answerAll calls s).2.handles[i]? = some after ∧
      h.answerAll ((own i (d.answerAll calls s).1).map Prod.fst) =
        ((own i (d.answerAll calls s).1).map Prod.snd, after) := by
  induction calls generalizing s h with
  | nil => exact ⟨h, by simpa [answerAll, opened] using hi, rfl⟩
  | cons call rest ih =>
    rw [answerAll_cons] at hi ⊢
    rcases answer_cases d s call with
      ⟨p, fresh, rfl, -, heq⟩ | ⟨j, g, c, rfl, hj, heq⟩ | ⟨hopened, hown, hhandles⟩
    · rw [heq] at hi ⊢
      -- The handle that is opened joins those that are open.
      refine ih ?_
      simpa [opened, opened?] using hi
    · rw [heq] at hi ⊢
      have hlen : j < s.handles.length := (List.getElem?_eq_some_iff.1 hj).1
      by_cases hij : j = i
      · subst hij
        have hg : g = h := by simpa [List.getElem?_append_left hlen, hj] using hi
        subst hg
        have hmoved : ((s.moving j (g.answer c).2).handles ++ opened (d.answerAll rest
            (s.moving j (g.answer c).2)).1)[j]? = some (g.answer c).2 := by
          simp [List.getElem?_append_left, hlen]
        obtain ⟨after, hafter, hrun⟩ := ih hmoved
        refine ⟨after, hafter, ?_⟩
        dsimp only
        rw [own_cons_self, List.map_cons, List.map_cons, Handle.answerAll]
        dsimp only
        rw [hrun]
      · have hsame : ((s.moving j (g.answer c).2).handles ++ opened (d.answerAll rest
            (s.moving j (g.answer c).2)).1)[i]? = some h := by
          rw [← hi, opened, opened, List.filterMap_cons]
          simp only [opened?, DriveState.handles_moving, List.getElem?_append, List.length_set,
            List.getElem?_set_ne hij]
        obtain ⟨after, hafter, hrun⟩ := ih hsame
        refine ⟨after, hafter, ?_⟩
        dsimp only
        rw [own_cons_ne hij]
        exact hrun
    · rw [opened, List.filterMap_cons_none hopened, ← hhandles] at hi
      rw [own, List.filterMap_cons_none (hown i)]
      exact ih hi

/-- A call makes as many handles more as it opens. -/
theorem length_handles_answer (d : Drive) (s : DriveState) (call : DriveCall)
    (later : List (DriveCall × DriveAnswer)) :
    (d.answer s call).2.handles.length + (opened later).length =
      s.handles.length + (opened ((call, (d.answer s call).1) :: later)).length := by
  rcases answer_cases d s call with
    ⟨p, fresh, rfl, -, heq⟩ | ⟨j, g, c, rfl, -, heq⟩ | ⟨hopened, -, hhandles⟩
  · have hone : opened ((.openFile p, .opened (.ok fresh)) :: later) = fresh :: opened later := rfl
    rw [heq, hone, DriveState.handles_opening, List.length_append, List.length_singleton,
      List.length_cons]
    omega
  · have hnone : opened ((.handle j c, .handle (g.answer c).1) :: later) = opened later := rfl
    rw [heq, hnone, DriveState.handles_moving, List.length_set]
  · have hnone : opened ((call, (d.answer s call).1) :: later) = opened later :=
      List.filterMap_cons_none hopened
    rw [hnone, hhandles]

theorem length_handles_answerAll (d : Drive) (calls : List DriveCall) (s : DriveState) :
    (d.answerAll calls s).2.handles.length =
      s.handles.length + (opened (d.answerAll calls s).1).length := by
  induction calls generalizing s with
  | nil => rfl
  | cons call rest ih => rw [answerAll_cons, ih, length_handles_answer]

/-- A call on a handle is lost only where no handle with that number has been opened. -/
theorem lost_iff {j : Nat} {c : HandleCall}
    (htrace : (d.answerAll calls s).1 = front ++ (.handle j c, a) :: back) :
    a = .nothing ↔ s.handles.length + (opened front).length ≤ j := by
  induction calls generalizing s front with
  | nil => cases (List.append_ne_nil_of_right_ne_nil front (List.cons_ne_nil _ _)) htrace.symm
  | cons call rest ih =>
    rw [answerAll_cons] at htrace
    cases front with
    | nil =>
      obtain ⟨hcall, -⟩ := List.cons.inj htrace
      obtain ⟨rfl, rfl⟩ := Prod.mk.inj hcall
      rw [answer]
      cases hj : s.handles[j]? with
      | some g =>
        have hlen := (List.getElem?_eq_some_iff.1 hj).1
        simp [opened, hlen]
      | none =>
        have hlen := List.getElem?_eq_none_iff.1 hj
        simpa [opened] using hlen
    | cons step front =>
      obtain ⟨rfl, hrest⟩ := List.cons.inj htrace
      rw [ih hrest, length_handles_answer]

/-- A handle is opened by a call that names its path. -/
theorem exists_openFile_of_mem_opened (hmem : h ∈ opened (d.answerAll calls s).1) :
    ∃ p, .openFile p ∈ calls ∧ d.openFile p = .ok h := by
  induction calls generalizing s with
  | nil => cases hmem
  | cons call rest ih =>
    rw [answerAll_cons] at hmem
    have hlater : h ∈ opened (d.answerAll rest (d.answer s call).2).1 →
        ∃ p, .openFile p ∈ call :: rest ∧ d.openFile p = .ok h := by
      intro hrest
      obtain ⟨p, hp, hopen⟩ := ih hrest
      exact ⟨p, List.mem_cons_of_mem _ hp, hopen⟩
    rcases answer_cases d s call with
      ⟨p, fresh, rfl, hopen, heq⟩ | ⟨j, g, c, rfl, -, heq⟩ | ⟨hopened, -, -⟩
    · rw [heq] at hmem hlater
      rcases List.mem_cons.1 hmem with rfl | hrest
      · exact ⟨p, List.mem_cons_self, hopen⟩
      · exact hlater hrest
    · rw [heq] at hmem hlater
      exact hlater hmem
    · rw [opened, List.filterMap_cons_none hopened] at hmem
      exact hlater hmem

end Drive

/-! ## Readers that only read -/

/-- What a handle that only reads gets: chunks that follow each other from the beginning of the
content, none of them empty before the content has ended, and all of them after. -/
structure Delivers (content : Bytes) (chunks : List Bytes) : Prop where
  isPrefix : chunks.flatten <+: content
  progress : ∀ k chunk, chunks[k]? = some chunk →
    (chunks.take k).flatten.length < content.length → chunk ≠ []
  complete : ∀ k, chunks[k]? = some [] → (chunks.take k).flatten = content
  stays : ∀ (j k : Nat) (later : Bytes), chunks[j]? = some [] → j ≤ k → chunks[k]? = some later →
    later = []

theorem delivers_slices (content : Bytes) {sizes : List Nat} (hsizes : ∀ n ∈ sizes, n ≠ 0) :
    Delivers content (slices content sizes) where
  isPrefix := by
    rw [flatten_slices]
    exact List.take_prefix _ _
  progress := by
    intro k chunk hchunk hshort hempty
    rw [(slice_eq_nil_iff hsizes hchunk).1 hempty] at hshort
    exact Nat.lt_irrefl _ hshort
  complete := fun k hchunk => (slice_eq_nil_iff hsizes hchunk).1 rfl
  stays := fun j k later hchunk hle hlater => slice_eq_nil_of_le hsizes hchunk hlater hle

/-- A handle is opened at the beginning of a record. -/
theorem Drive.exists_lookup_of_openFile {d : Drive} {p : Path} {h : Handle}
    (hopen : d.openFile p = .ok h) : ∃ r, d.lookup p = some r ∧ h = { record := r } := by
  unfold openFile at hopen
  split at hopen
  · rename_i r hr
    cases hopen
    exact ⟨r, hr, rfl⟩
  · cases hopen

/-! ## Isolation -/

/-- **Every handle is alone.** Let the users of a drive open handles, call them, request documents
and indexes and index the drive, in any order. Each handle gets what its own calls alone yield on
the handle as it was opened, at the beginning of its record, and its cursor ends where they leave it.

A handle that only reads, into buffers that are not empty, gets its content from the beginning to
the end. (A content is shorter than half of the address space, so a cursor reaches all of it.) -/
theorem readers_isolated (d : Drive) (caches : Caches) (calls : List DriveCall)
    {trace : List (DriveCall × DriveAnswer)} {s : DriveState}
    (hrun : d.answerAll calls { caches } = (trace, s)) :
    s.handles.length = (opened trace).length ∧
    (∀ front i c a back, trace = front ++ (.handle i c, a) :: back →
      (a = .nothing ↔ (opened front).length ≤ i)) ∧
    ∀ i h, (opened trace)[i]? = some h →
      (∃ p r, .openFile p ∈ calls ∧ d.lookup p = some r ∧ h = { record := r }) ∧
      (∃ after, s.handles[i]? = some after ∧
        h.answerAll ((own i trace).map Prod.fst) = ((own i trace).map Prod.snd, after)) ∧
      (∀ sizes : List Nat, (own i trace).map Prod.fst = sizes.map .read → (∀ n ∈ sizes, n ≠ 0) →
        h.content.length < 2 ^ 63 → ∃ chunks, Delivers h.content chunks ∧
          (own i trace).map Prod.snd = chunks.map fun chunk => .read (.ok chunk)) := by
  have htrace : (d.answerAll calls { caches }).1 = trace := congrArg Prod.fst hrun
  have hstate : (d.answerAll calls { caches }).2 = s := congrArg Prod.snd hrun
  refine ⟨?_, ?_, ?_⟩
  · have hlength := d.length_handles_answerAll calls { caches }
    rw [htrace, hstate] at hlength
    simpa using hlength
  · intro front i c a back hsplit
    have hlost := Drive.lost_iff (htrace.trans hsplit)
    simpa using hlost
  · intro i h hi
    have hopened : h ∈ opened (d.answerAll calls { caches }).1 := htrace ▸ List.mem_of_getElem? hi
    obtain ⟨p, hp, hopen⟩ := Drive.exists_openFile_of_mem_opened hopened
    obtain ⟨r, hr, hh⟩ := Drive.exists_lookup_of_openFile hopen
    have hfirst : (DriveState.handles { caches } ++
        opened (d.answerAll calls { caches }).1)[i]? = some h := by
      rw [htrace]
      exact hi
    obtain ⟨after, hafter, halone⟩ := Drive.answerAll_alone hfirst
    rw [htrace] at halone
    rw [hstate] at hafter
    refine ⟨⟨p, r, hp, hr, hh⟩, ⟨after, hafter, halone⟩, ?_⟩
    intro sizes hreads hsizes hfits
    have hstart : h.offset.toInt = 0 := by rw [hh]; rfl
    obtain ⟨_, hslices, -⟩ := Handle.reads_eq_slices hfits (by omega) sizes
    have hahead : h.ahead = h.content := by rw [Handle.ahead, hstart]; rfl
    rw [hreads, hslices, hahead] at halone
    exact ⟨_, delivers_slices h.content hsizes, (congrArg Prod.fst halone).symm⟩

/-- A drive with one record. -/
def sharedDrive : Drive where
  root := .ofString "/w"
  entries := [(.ofString "/w/a.yaml", ⟨0,
    { logicalName := .ofString "a.yaml"
      absolutePath := .ofString "/w/a.yaml"
      content := [0x61, 0x62, 0x63] }⟩)]
  errors := []

/-- Two handles on one record: one reads on while the other moves and the record is parsed. -/
def sharedCalls : List DriveCall :=
  [.openFile (.ofString "a.yaml"), .handle 0 (.read 2), .openFile (.ofString "/w/./a.yaml"),
    .handle 1 (.seek (.fromEnd (-1))), .record (.ofString "a.yaml") (.tree (.constant .null)),
    .handle 0 (.read 2), .handle 1 (.setOffset (-1)), .handle 1 (.read 1), .handle 0 (.read 1)]

/-- The reader gets the whole content, and the other one an error. -/
theorem readers_isolated_shared : ∃ (trace : List (DriveCall × DriveAnswer)) (s : DriveState)
    (h : Handle), sharedDrive.answerAll sharedCalls {} = (trace, s) ∧
    (opened trace)[0]? = some h ∧ h.content = [0x61, 0x62, 0x63] ∧
    (own 0 trace).map Prod.fst = [2, 2, 1].map .read ∧
    ∃ chunks, Delivers h.content chunks ∧
      (own 0 trace).map Prod.snd = chunks.map fun chunk => .read (.ok chunk) := by
  obtain ⟨⟨trace, s⟩, hrun⟩ : ∃ ended, sharedDrive.answerAll sharedCalls {} = ended := ⟨_, rfl⟩
  obtain ⟨-, -, halone⟩ := readers_isolated sharedDrive {} sharedCalls hrun
  obtain ⟨rfl, -⟩ := Prod.mk.inj hrun
  obtain ⟨-, -, hdelivers⟩ := halone 0 _ rfl
  exact ⟨_, s, _, hrun, rfl, rfl, rfl, hdelivers [2, 2, 1] rfl (by decide) (by decide)⟩

end DocDrive
