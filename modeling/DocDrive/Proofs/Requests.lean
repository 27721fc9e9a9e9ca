import DocDrive.Proofs.Memo
import DocDrive.Record

/-!
# Requests to one record

The callers of a record ask for its document, with a parser of their choice or the usual one, ask
for its index, or look at what is cached. Whatever they ask and in whatever order, each of the two
cells is filled at most once, and an index is only ever cached beside the document that it was built
from.

* `requestTree_cases`, `requestIndex_cases` — all that one request can do.
* `FileState.Sound` — the invariant that relates the two cells; `sound_answerAll` carries it over
  runs.
* `keeps_answerAll`, `shows_answerAll` — what is cached stays, and every later request shows it.
* `cachedIn_answerAll` — what was answered once is cached.
* `requests_once` — exactly one document and one index for each record.
-/

namespace DocDrive

/-! ## One request -/

variable {r : Record} {file : Nat} {s s' : FileState} {parser : Parser} {indexer : Indexer}
  {config : IndexConfig} {t : Derived Node} {x : Derived StructuralIndex}

/-- **All that a request for the document can do**: answer from the cell, publish the yield of the
parser, or count its failure. -/
theorem requestTree_cases (r : Record) (file : Nat) (parser : Parser) (s : FileState) :
    (∃ t, s.tree = .ready t ∧ r.requestTree file parser s = (.ok t, s)) ∨
    (s.tree.get? = none ∧ ∃ node, parser r.content = .ok node ∧
      r.requestTree file parser s = (.ok ⟨file, s.parses, node⟩,
        { s with tree := .ready ⟨file, s.parses, node⟩, parses := s.parses + 1 })) ∨
    (s.tree.get? = none ∧ ∃ cause, parser r.content = .error cause ∧
      r.requestTree file parser s = (.error (.parse r.absolutePath cause),
        { s with tree := .failed (s.tree.failedAttempts + 1), parses := s.parses + 1 })) := by
  cases hcell : s.tree.get? with
  | some t =>
    have htree := Cell.get?_eq_some_iff.1 hcell
    refine Or.inl ⟨t, htree, ?_⟩
    rw [Record.requestTree, htree, Cell.obtain_ready, ← htree]
  | none =>
    rw [Record.requestTree, Cell.obtain_of_get?_eq_none hcell, Record.runParser]
    cases hparser : parser r.content with
    | ok node => exact Or.inr (Or.inl ⟨rfl, node, rfl, rfl⟩)
    | error cause => exact Or.inr (Or.inr ⟨rfl, cause, rfl, rfl⟩)

/-- **All that a request for the index can do**: answer from the cell, pass on the failure of the
document, count the failure of the indexer, or publish its yield. -/
theorem requestIndex_cases (r : Record) (file : Nat) (indexer : Indexer) (config : IndexConfig)
    (s : FileState) :
    (∃ x, s.index = .ready x ∧ r.requestIndex file indexer config s = (.ok x, s)) ∨
    (s.index.get? = none ∧ ∃ e s', r.requestTree file r.parser s = (.error e, s') ∧
      r.requestIndex file indexer config s =
        (.error e, { s' with index := .failed (s.index.failedAttempts + 1) })) ∨
    (s.index.get? = none ∧ ∃ t s' cause, r.requestTree file r.parser s = (.ok t, s') ∧
      indexer t config = .error cause ∧
      r.requestIndex file indexer config s = (.error (.index r.absolutePath cause),
        { s' with index := .failed (s.index.failedAttempts + 1), indexings := s'.indexings + 1 })) ∨
    (s.index.get? = none ∧ ∃ t s' y, r.requestTree file r.parser s = (.ok t, s') ∧
      indexer t config = .ok y ∧
      r.requestIndex file indexer config s =
        (.ok ⟨file, s'.indexings, y.withOrigin r.absolutePath⟩,
          { s' with index := .ready ⟨file, s'.indexings, y.withOrigin r.absolutePath⟩,
                    indexings := s'.indexings + 1 })) := by
  cases hcell : s.index.get? with
  | some x =>
    have hindex := Cell.get?_eq_some_iff.1 hcell
    refine Or.inl ⟨x, hindex, ?_⟩
    rw [Record.requestIndex, hindex, Cell.obtain_ready, ← hindex]
  | none =>
    refine Or.inr ?_
    rw [Record.requestIndex, Cell.obtain_of_get?_eq_none hcell, Record.runIndexer]
    rcases hrequest : r.requestTree file r.parser s with ⟨e | t, s'⟩
    · exact Or.inl ⟨rfl, e, s', rfl, rfl⟩
    · refine Or.inr ?_
      dsimp only
      cases hbuild : indexer t config with
      | error cause => exact Or.inl ⟨rfl, t, s', cause, rfl, hbuild, rfl⟩
      | ok y => exact Or.inr ⟨rfl, t, s', y, rfl, hbuild, rfl⟩

/-! ## Runs of requests -/

/-- What a caller may ask of a record. -/
inductive Request where
  /-- The document, made by the parser that the record gets from its name. -/
  | usualTree
  | tree (parser : Parser)
  | index (indexer : Indexer) (config : IndexConfig)
  /-- A look at what is cached. -/
  | peekTree
  | peekIndex

/-- What a caller gets. -/
inductive Answer where
  | tree (result : Except DriveError (Derived Node))
  | index (result : Except DriveError (Derived StructuralIndex))
  | peekedTree (found : Option (Derived Node))
  | peekedIndex (found : Option (Derived StructuralIndex))

namespace Record

/-- One request and what it leaves. -/
def answer (r : Record) (file : Nat) : Request → FileState → Answer × FileState
  | .usualTree, s => ((r.requestTree file r.parser s).map .tree id)
  | .tree parser, s => ((r.requestTree file parser s).map .tree id)
  | .index indexer config, s => ((r.requestIndex file indexer config s).map .index id)
  | .peekTree, s => (.peekedTree s.tree.get?, s)
  | .peekIndex, s => (.peekedIndex s.index.get?, s)

/-- Requests one after the other. -/
def answerAll (r : Record) (file : Nat) : List Request → FileState → List Answer × FileState
  | [], s => ([], s)
  | q :: rest, s =>
    let (a, s) := r.answer file q s
    let (later, s) := r.answerAll file rest s
    (a :: later, s)

end Record

/-! ## What is cached stays -/

/-- A later state of a record: what was cached still is, and nothing has worked on it since. -/
structure FileState.Keeps (s s' : FileState) : Prop where
  tree : ∀ t, s.tree = .ready t → s'.tree = .ready t ∧ s'.parses = s.parses
  index : ∀ x, s.index = .ready x → s'.index = .ready x ∧ s'.indexings = s.indexings

theorem FileState.Keeps.refl (s : FileState) : s.Keeps s :=
  ⟨fun _ h => ⟨h, rfl⟩, fun _ h => ⟨h, rfl⟩⟩

theorem FileState.Keeps.trans {s'' : FileState} (h : s.Keeps s') (h' : s'.Keeps s'') :
    s.Keeps s'' := by
  constructor
  · intro t ht
    obtain ⟨ht', hp⟩ := h.tree t ht
    obtain ⟨ht'', hp'⟩ := h'.tree t ht'
    exact ⟨ht'', hp'.trans hp⟩
  · intro x hx
    obtain ⟨hx', hi⟩ := h.index x hx
    obtain ⟨hx'', hi'⟩ := h'.index x hx'
    exact ⟨hx'', hi'.trans hi⟩

theorem keeps_requestTree (r : Record) (file : Nat) (parser : Parser) (s : FileState) :
    s.Keeps (r.requestTree file parser s).2 := by
  rcases requestTree_cases r file parser s with
    ⟨t, _, heq⟩ | ⟨hnone, node, _, heq⟩ | ⟨hnone, cause, _, heq⟩
  · rw [heq]
    exact .refl s
  · rw [heq]
    exact ⟨fun t ht => absurd ht (Cell.ne_ready hnone t), fun x hx => ⟨hx, rfl⟩⟩
  · rw [heq]
    exact ⟨fun t ht => absurd ht (Cell.ne_ready hnone t), fun x hx => ⟨hx, rfl⟩⟩

theorem keeps_requestIndex (r : Record) (file : Nat) (indexer : Indexer) (config : IndexConfig)
    (s : FileState) : s.Keeps (r.requestIndex file indexer config s).2 := by
  have hkeeps := keeps_requestTree r file r.parser s
  rcases requestIndex_cases r file indexer config s with
    ⟨x, _, heq⟩ | ⟨hnone, e, s', hrun, heq⟩ | ⟨hnone, t, s', cause, hrun, _, heq⟩ |
      ⟨hnone, t, s', y, hrun, _, heq⟩
  · rw [heq]
    exact .refl s
  all_goals
    rw [hrun] at hkeeps
    rw [heq]
    exact ⟨hkeeps.tree, fun x hx => absurd hx (Cell.ne_ready hnone x)⟩

theorem keeps_answer (r : Record) (file : Nat) (q : Request) (s : FileState) :
    s.Keeps (r.answer file q s).2 := by
  cases q with
  | usualTree => exact keeps_requestTree r file r.parser s
  | tree parser => exact keeps_requestTree r file parser s
  | index indexer config => exact keeps_requestIndex r file indexer config s
  | peekTree => exact .refl s
  | peekIndex => exact .refl s

theorem keeps_answerAll (r : Record) (file : Nat) (requests : List Request) (s : FileState) :
    s.Keeps (r.answerAll file requests s).2 := by
  induction requests generalizing s with
  | nil => exact .refl s
  | cons q rest ih => exact (keeps_answer r file q s).trans (ih _)

/-! ## What is cached is shown -/

/-- An answer that shows what a state has cached. -/
def Answer.Shows (s : FileState) : Answer → Prop
  | tree result => ∀ t, s.tree = .ready t → result = .ok t
  | index result => ∀ x, s.index = .ready x → result = .ok x
  | peekedTree found => ∀ t, s.tree = .ready t → found = some t
  | peekedIndex found => ∀ x, s.index = .ready x → found = some x

theorem Answer.Shows.of_keeps {a : Answer} (h : a.Shows s') (hkeeps : s.Keeps s') : a.Shows s := by
  cases a with
  | tree result => exact fun t ht => h t (hkeeps.tree t ht).1
  | index result => exact fun x hx => h x (hkeeps.index x hx).1
  | peekedTree found => exact fun t ht => h t (hkeeps.tree t ht).1
  | peekedIndex found => exact fun x hx => h x (hkeeps.index x hx).1

theorem shows_requestTree (r : Record) (file : Nat) (parser : Parser) (s : FileState) :
    (Answer.tree (r.requestTree file parser s).1).Shows s := by
  intro t ht
  rcases requestTree_cases r file parser s with ⟨t', ht', heq⟩ | ⟨hnone, _⟩ | ⟨hnone, _⟩
  · obtain rfl : t' = t := Cell.ready.inj (ht'.symm.trans ht)
    rw [heq]
  · exact absurd ht (Cell.ne_ready hnone t)
  · exact absurd ht (Cell.ne_ready hnone t)

theorem shows_answer (r : Record) (file : Nat) (q : Request) (s : FileState) :
    (r.answer file q s).1.Shows s := by
  cases q with
  | usualTree => exact shows_requestTree r file r.parser s
  | tree parser => exact shows_requestTree r file parser s
  | index indexer config =>
    intro x hx
    rcases requestIndex_cases r file indexer config s with
      ⟨x', hx', heq⟩ | ⟨hnone, _⟩ | ⟨hnone, _⟩ | ⟨hnone, _⟩
    · obtain rfl : x' = x := Cell.ready.inj (hx'.symm.trans hx)
      exact congrArg Prod.fst heq
    all_goals exact absurd hx (Cell.ne_ready hnone x)
  | peekTree => exact fun t ht => Cell.get?_eq_some_iff.2 ht
  | peekIndex => exact fun x hx => Cell.get?_eq_some_iff.2 hx

/-- **Whatever is asked later shows what is cached.** -/
theorem shows_answerAll (r : Record) (file : Nat) (requests : List Request) (s : FileState) :
    ∀ a ∈ (r.answerAll file requests s).1, a.Shows s := by
  induction requests generalizing s with
  | nil => exact fun a ha => by cases ha
  | cons q rest ih =>
    refine List.forall_mem_cons.2 ⟨shows_answer r file q s, fun a ha => ?_⟩
    exact (ih _ a ha).of_keeps (keeps_answer r file q s)

/-! ## What is shown is cached -/

/-- A state that has cached what an answer shows. -/
def Answer.CachedIn (s : FileState) : Answer → Prop
  | tree result => ∀ t, result = .ok t → s.tree = .ready t
  | index result => ∀ x, result = .ok x → s.index = .ready x
  | peekedTree found => ∀ t, found = some t → s.tree = .ready t
  | peekedIndex found => ∀ x, found = some x → s.index = .ready x

theorem Answer.CachedIn.of_keeps {a : Answer} (h : a.CachedIn s) (hkeeps : s.Keeps s') :
    a.CachedIn s' := by
  cases a with
  | tree result => exact fun t ht => (hkeeps.tree t (h t ht)).1
  | index result => exact fun x hx => (hkeeps.index x (h x hx)).1
  | peekedTree found => exact fun t ht => (hkeeps.tree t (h t ht)).1
  | peekedIndex found => exact fun x hx => (hkeeps.index x (h x hx)).1

theorem ready_of_requestTree_ok (h : r.requestTree file parser s = (.ok t, s')) :
    s'.tree = .ready t := by
  rcases requestTree_cases r file parser s with
    ⟨t', ht', heq⟩ | ⟨_, node, _, heq⟩ | ⟨_, cause, _, heq⟩
  · cases heq.symm.trans h
    exact ht'
  · cases heq.symm.trans h
    rfl
  · cases heq.symm.trans h

theorem cachedIn_answer (r : Record) (file : Nat) (q : Request) (s : FileState) :
    (r.answer file q s).1.CachedIn (r.answer file q s).2 := by
  cases q with
  | usualTree => exact fun t ht => ready_of_requestTree_ok (Prod.ext ht rfl)
  | tree parser => exact fun t ht => ready_of_requestTree_ok (Prod.ext ht rfl)
  | index indexer config =>
    intro x hx
    change (r.requestIndex file indexer config s).1 = _ at hx
    change (r.requestIndex file indexer config s).2.index = _
    rcases requestIndex_cases r file indexer config s with
      ⟨x', hx', heq⟩ | ⟨_, e, s', _, heq⟩ | ⟨_, t, s', cause, _, _, heq⟩ | ⟨_, t, s', y, _, _, heq⟩
    · rw [heq] at hx ⊢
      obtain rfl := Except.ok.inj hx
      exact hx'
    · rw [heq] at hx
      cases hx
    · rw [heq] at hx
      cases hx
    · rw [heq] at hx ⊢
      rw [← Except.ok.inj hx]
  | peekTree => exact fun t ht => Cell.get?_eq_some_iff.1 ht
  | peekIndex => exact fun x hx => Cell.get?_eq_some_iff.1 hx

/-- **Whatever was answered is cached for good.** -/
theorem cachedIn_answerAll (r : Record) (file : Nat) (requests : List Request) (s : FileState) :
    ∀ a ∈ (r.answerAll file requests s).1, a.CachedIn (r.answerAll file requests s).2 := by
  induction requests generalizing s with
  | nil => exact fun a ha => by cases ha
  | cons q rest ih =>
    refine List.forall_mem_cons.2 ⟨?_, fun a ha => ih _ a ha⟩
    exact (cachedIn_answer r file q s).of_keeps (keeps_answerAll r file rest _)

/-! ## Indexes and errors -/

theorem ready_of_requestIndex_ok {x : Derived StructuralIndex}
    (h : (r.requestIndex file indexer config s).1 = .ok x) :
    (r.requestIndex file indexer config s).2.index = .ready x :=
  cachedIn_answer r file (.index indexer config) s x h

theorem requestIndex_of_ready {x : Derived StructuralIndex} (h : s.index = .ready x) :
    r.requestIndex file indexer config s = (.ok x, s) := by
  rcases requestIndex_cases r file indexer config s with
    ⟨x', hx', heq⟩ | ⟨hnone, _⟩ | ⟨hnone, _⟩ | ⟨hnone, _⟩
  · obtain rfl : x' = x := Cell.ready.inj (hx'.symm.trans h)
    exact heq
  all_goals exact absurd h (Cell.ne_ready hnone x)

/-- A request that fails names the path of the record, and leaves no index. -/
theorem requestIndex_error {e : DriveError}
    (h : (r.requestIndex file indexer config s).1 = .error e) :
    (∃ cause, e = .parse r.absolutePath cause ∨ e = .index r.absolutePath cause) ∧
      (r.requestIndex file indexer config s).2.index.get? = none := by
  rcases requestIndex_cases r file indexer config s with
    ⟨x, _, heq⟩ | ⟨_, e', s', hrun, heq⟩ | ⟨_, t, s', cause, _, _, heq⟩ | ⟨_, t, s', y, _, _, heq⟩
  · rw [heq] at h
    cases h
  · rw [heq] at h ⊢
    obtain rfl : e' = e := Except.error.inj h
    refine ⟨?_, rfl⟩
    rcases requestTree_cases r file r.parser s with
      ⟨t, _, htree⟩ | ⟨_, node, _, htree⟩ | ⟨_, cause, _, htree⟩
    · cases htree.symm.trans hrun
    · cases htree.symm.trans hrun
    · cases htree.symm.trans hrun
      exact ⟨cause, Or.inl rfl⟩
  · rw [heq] at h ⊢
    obtain rfl := Except.error.inj h
    exact ⟨⟨cause, Or.inr rfl⟩, rfl⟩
  · rw [heq] at h
    cases h

/-! ## The two cells together -/

/-- What holds of a record whose callers have asked no more than the given requests. A cached
document was made by one of their parsers or the usual one; as long as there is none, every run of a
parser has failed. A cached index was built by one of their indexers from the very document that is
cached, and belongs to the path of the record. -/
structure FileState.Sound (r : Record) (asked : List Request) (s : FileState) : Prop where
  parsed : ∀ t, s.tree = .ready t → r.parser r.content = .ok t.value ∨
    ∃ parser, Request.tree parser ∈ asked ∧ parser r.content = .ok t.value
  unparsed : s.tree.get? = none → s.parses = s.tree.failedAttempts
  built : ∀ x, s.index = .ready x → ∃ t indexer config y, s.tree = .ready t ∧
    Request.index indexer config ∈ asked ∧ indexer t config = .ok y ∧
      x.value = y.withOrigin r.absolutePath

variable {asked : List Request}

theorem FileState.Sound.fresh (r : Record) (asked : List Request) : FileState.Sound r asked {} where
  parsed _ h := by cases h
  unparsed _ := rfl
  built _ h := by cases h

theorem sound_requestTree (h : s.Sound r asked)
    (hparser : parser = r.parser ∨ Request.tree parser ∈ asked) :
    (r.requestTree file parser s).2.Sound r asked := by
  rcases requestTree_cases r file parser s with
    ⟨t, _, heq⟩ | ⟨hnone, node, hrun, heq⟩ | ⟨hnone, cause, _, heq⟩
  · rw [heq]
    exact h
  · rw [heq]
    refine ⟨fun t ht => ?_, nofun, fun x hx => ?_⟩
    · obtain rfl := Cell.ready.inj ht
      rcases hparser with rfl | hparser
      · exact Or.inl hrun
      · exact Or.inr ⟨parser, hparser, hrun⟩
    · -- An index needs a document, and there was none.
      obtain ⟨t, _, _, _, ht, _⟩ := h.built x hx
      exact absurd ht (Cell.ne_ready hnone t)
  · rw [heq]
    refine ⟨nofun, fun _ => ?_, fun x hx => ?_⟩
    · exact congrArg (· + 1) (h.unparsed hnone)
    · obtain ⟨t, _, _, _, ht, _⟩ := h.built x hx
      exact absurd ht (Cell.ne_ready hnone t)

theorem sound_requestIndex (h : s.Sound r asked) (hindex : Request.index indexer config ∈ asked) :
    (r.requestIndex file indexer config s).2.Sound r asked := by
  have htree : (r.requestTree file r.parser s).2.Sound r asked := sound_requestTree h (Or.inl rfl)
  rcases requestIndex_cases r file indexer config s with
    ⟨x, _, heq⟩ | ⟨_, e, s', hrun, heq⟩ | ⟨_, t, s', cause, hrun, _, heq⟩ |
      ⟨_, t, s', y, hrun, hbuild, heq⟩
  · rw [heq]
    exact h
  · rw [hrun] at htree
    rw [heq]
    exact ⟨htree.parsed, htree.unparsed, nofun⟩
  · rw [hrun] at htree
    rw [heq]
    exact ⟨htree.parsed, htree.unparsed, nofun⟩
  · rw [hrun] at htree
    rw [heq]
    refine ⟨htree.parsed, htree.unparsed, fun x hx => ?_⟩
    obtain rfl := Cell.ready.inj hx
    have hready := ready_of_requestTree_ok hrun
    exact ⟨t, indexer, config, y, hready, hindex, hbuild, rfl⟩

theorem sound_answer {q : Request} (h : s.Sound r asked) (hq : q ∈ asked) :
    (r.answer file q s).2.Sound r asked := by
  cases q with
  | usualTree => exact sound_requestTree h (Or.inl rfl)
  | tree parser => exact sound_requestTree h (Or.inr hq)
  | index indexer config => exact sound_requestIndex h hq
  | peekTree => exact h
  | peekIndex => exact h

/-- **The invariant of the two cells** holds after every run of requests. -/
theorem sound_answerAll {requests : List Request} (file : Nat) (h : s.Sound r asked)
    (hasked : ∀ q ∈ requests, q ∈ asked) :
    (r.answerAll file requests s).2.Sound r asked := by
  induction requests generalizing s with
  | nil => exact h
  | cons q rest ih =>
    obtain ⟨hq, hrest⟩ := List.forall_mem_cons.1 hasked
    exact ih (sound_answer h hq) hrest

/-! ## What an index request comes to -/

/-- The document that a request for the index works on, or what the usual parser refuses it for. -/
def Record.document (r : Record) (file : Nat) (s : FileState) : Except Cause (Derived Node) :=
  match s.tree.get? with
  | some t => .ok t
  | none => (r.parser r.content).map fun node => ⟨file, s.parses, node⟩

variable {cause : Cause}

theorem requestTree_of_document_error (h : r.document file s = .error cause) :
    r.requestTree file r.parser s = (.error (.parse r.absolutePath cause),
      { s with tree := .failed (s.tree.failedAttempts + 1), parses := s.parses + 1 }) := by
  rcases requestTree_cases r file r.parser s with
    ⟨t, ht, _⟩ | ⟨hnone, node, hrun, _⟩ | ⟨hnone, cause', hrun, heq⟩
  · rw [Record.document, Cell.get?_eq_some_iff.2 ht] at h
    cases h
  · rw [Record.document, hnone, hrun] at h
    cases h
  · rw [Record.document, hnone, hrun] at h
    cases h
    exact heq

theorem requestTree_of_document_ok (h : r.document file s = .ok t) :
    ∃ parses, r.requestTree file r.parser s = (.ok t, { s with tree := .ready t, parses }) := by
  rcases requestTree_cases r file r.parser s with
    ⟨t', ht, heq⟩ | ⟨hnone, node, hrun, heq⟩ | ⟨hnone, cause, hrun, _⟩
  · rw [Record.document, Cell.get?_eq_some_iff.2 ht] at h
    cases h
    exact ⟨s.parses, by rw [heq, ← ht]⟩
  · rw [Record.document, hnone, hrun] at h
    cases h
    exact ⟨_, heq⟩
  · rw [Record.document, hnone, hrun] at h
    cases h

variable (hnone : s.index.get? = none)

include hnone

/-- A document that cannot be parsed is told as such, and counts as a failure of both cells. -/
theorem requestIndex_of_document_error (h : r.document file s = .error cause) :
    r.requestIndex file indexer config s = (.error (.parse r.absolutePath cause),
      { s with tree := .failed (s.tree.failedAttempts + 1)
               index := .failed (s.index.failedAttempts + 1)
               parses := s.parses + 1 }) := by
  rw [Record.requestIndex, Cell.obtain_of_get?_eq_none hnone, Record.runIndexer,
    requestTree_of_document_error h]

/-- An indexer that fails leaves the document cached, and counts as a failure of the index. -/
theorem requestIndex_of_indexer_error (h : r.document file s = .ok t)
    (hbuild : indexer t config = .error cause) :
    ∃ parses, r.requestIndex file indexer config s = (.error (.index r.absolutePath cause),
      { s with tree := .ready t, index := .failed (s.index.failedAttempts + 1), parses,
               indexings := s.indexings + 1 }) := by
  obtain ⟨parses, heq⟩ := requestTree_of_document_ok h
  refine ⟨parses, ?_⟩
  rw [Record.requestIndex, Cell.obtain_of_get?_eq_none hnone, Record.runIndexer, heq]
  simp only [hbuild]

theorem requestIndex_of_indexer_ok {y : StructuralIndex} (h : r.document file s = .ok t)
    (hbuild : indexer t config = .ok y) :
    ∃ parses, r.requestIndex file indexer config s =
      (.ok ⟨file, s.indexings, y.withOrigin r.absolutePath⟩,
        { tree := .ready t, index := .ready ⟨file, s.indexings, y.withOrigin r.absolutePath⟩,
          parses, indexings := s.indexings + 1 }) := by
  obtain ⟨parses, heq⟩ := requestTree_of_document_ok h
  refine ⟨parses, ?_⟩
  rw [Record.requestIndex, Cell.obtain_of_get?_eq_none hnone, Record.runIndexer, heq]
  simp only [hbuild]

omit hnone

/-! ## Exactly once -/

/-- **One document and one index for each record.** Let callers ask a fresh record anything in any
order, and then anything more.

Once a document was made, every later request shows that very document, and no parser works again;
until then every run of a parser has failed. Once an index was built, every later request shows that
very index, and neither parsers nor indexers work again. A cached index stands beside the document
that it was built from, by one of the indexers that were passed, and its origin is the path of the
record. A request for an index that is not cached fails as a parse and for both cells, or fails as
an indexing and for the index alone, or ends with both cells ready. -/
theorem requests_once (r : Record) (file : Nat) (earlier later : List Request)
    {first last : List Answer} {s s' : FileState}
    (hearlier : r.answerAll file earlier {} = (first, s))
    (hlater : r.answerAll file later s = (last, s')) :
    (∀ t, s.tree = .ready t ∨ .tree (.ok t) ∈ first ∨ .peekedTree (some t) ∈ first →
      (∀ result, .tree result ∈ last → result = .ok t) ∧
      (∀ found, .peekedTree found ∈ last → found = some t) ∧
      s'.tree = .ready t ∧ s'.parses = s.parses) ∧
    (s.tree.get? = none → s.parses = s.tree.failedAttempts) ∧
    (∀ x, s.index = .ready x ∨ .index (.ok x) ∈ first ∨ .peekedIndex (some x) ∈ first →
      (∀ result, .index result ∈ last → result = .ok x) ∧
      (∀ found, .peekedIndex found ∈ last → found = some x) ∧
      s'.index = .ready x ∧ s'.parses = s.parses ∧ s'.indexings = s.indexings) ∧
    (∀ x, s.index = .ready x → ∃ t indexer config y, s.tree = .ready t ∧
      .index indexer config ∈ earlier ∧ indexer t config = .ok y ∧
      x.value = y.withOrigin r.absolutePath ∧ x.value.origin = some r.absolutePath) ∧
    (∀ indexer config result s'', s.index.get? = none →
      r.requestIndex file indexer config s = (result, s'') →
      (∀ cause, r.document file s = .error cause →
        result = .error (.parse r.absolutePath cause) ∧
        s''.tree.failedAttempts = s.tree.failedAttempts + 1 ∧
        s''.index.failedAttempts = s.index.failedAttempts + 1 ∧ s''.indexings = s.indexings) ∧
      (∀ t cause, r.document file s = .ok t → indexer t config = .error cause →
        result = .error (.index r.absolutePath cause) ∧
        s''.index.failedAttempts = s.index.failedAttempts + 1 ∧
        s''.tree = .ready t ∧ s''.tree.failedAttempts = 0) ∧
      (∀ t y, r.document file s = .ok t → indexer t config = .ok y → ∃ x,
        result = .ok x ∧ x.value = y.withOrigin r.absolutePath ∧ s''.tree = .ready t ∧
        s''.index = .ready x ∧ s''.index.failedAttempts = 0 ∧ s''.tree.failedAttempts = 0)) := by
  have hsound : s.Sound r earlier := by
    have h := sound_answerAll file (FileState.Sound.fresh r earlier) fun q hq => hq
    rwa [hearlier] at h
  have hcached := cachedIn_answerAll r file earlier {}
  have hshows := shows_answerAll r file later s
  have hkeeps := keeps_answerAll r file later s
  rw [hearlier] at hcached
  rw [hlater] at hshows hkeeps
  refine ⟨fun t ht => ?_, hsound.unparsed, fun x hx => ?_, fun x hx => ?_,
    fun indexer config result s'' hnone hrun =>
      ⟨fun cause hdoc => ?_, fun t cause hdoc hbuild => ?_, fun t y hdoc hbuild => ?_⟩⟩
  · have htree : s.tree = .ready t := by
      rcases ht with ht | ht | ht
      · exact ht
      · exact hcached _ ht t rfl
      · exact hcached _ ht t rfl
    obtain ⟨htree', hparses⟩ := hkeeps.tree t htree
    exact ⟨fun result ha => hshows _ ha t htree, fun found ha => hshows _ ha t htree, htree',
      hparses⟩
  · have hindex : s.index = .ready x := by
      rcases hx with hx | hx | hx
      · exact hx
      · exact hcached _ hx x rfl
      · exact hcached _ hx x rfl
    obtain ⟨hindex', hindexings⟩ := hkeeps.index x hindex
    -- The document beside the index keeps the parsers away.
    obtain ⟨t, _, _, _, htree, _⟩ := hsound.built x hindex
    exact ⟨fun result ha => hshows _ ha x hindex, fun found ha => hshows _ ha x hindex, hindex',
      (hkeeps.tree t htree).2, hindexings⟩
  · obtain ⟨t, indexer, config, y, htree, hasked, hbuild, hvalue⟩ := hsound.built x hx
    refine ⟨t, indexer, config, y, htree, hasked, hbuild, hvalue, ?_⟩
    rw [hvalue]
    rfl
  · rw [requestIndex_of_document_error hnone hdoc] at hrun
    cases hrun
    exact ⟨rfl, rfl, rfl, rfl⟩
  · obtain ⟨parses, heq⟩ := requestIndex_of_indexer_error hnone hdoc hbuild
    rw [heq] at hrun
    cases hrun
    exact ⟨rfl, rfl, rfl, rfl⟩
  · obtain ⟨parses, heq⟩ := requestIndex_of_indexer_ok hnone hdoc hbuild
    rw [heq] at hrun
    cases hrun
    exact ⟨_, rfl, rfl, rfl, rfl, rfl, rfl⟩

/-- A failed parse, a parse, a failed index, an index, and then another parser and another indexer,
which get what is cached. -/
theorem requests_once_retried : ∃ (r : Record) (first last : List Answer) (s s' : FileState)
    (t : Derived Node) (x : Derived StructuralIndex),
    r.answerAll 0 [.tree (.failing "no"), .tree (.constant .null), .index (.failing "no") {},
      .index Indexer.references {}] {} = (first, s) ∧
    r.answerAll 0 [.tree (.constant (.bool true)), .index (.failing "again") {}] s = (last, s') ∧
    s.tree = .ready t ∧ s.index = .ready x ∧ s'.tree = .ready t ∧ s'.index = .ready x ∧
    x.value.origin = some (.ofString "/a.yaml") ∧ s'.parses = 2 ∧ s'.indexings = 2 := by
  obtain ⟨⟨first, s⟩, hearlier⟩ : ∃ ended,
      (Record.mk (.ofString "a.yaml") (.ofString "/a.yaml") [] .clock 0 []).answerAll 0
        [.tree (.failing "no"), .tree (.constant .null), .index (.failing "no") {},
          .index Indexer.references {}] {} = ended := ⟨_, rfl⟩
  obtain ⟨⟨last, s'⟩, hlater⟩ : ∃ ended,
      (Record.mk (.ofString "a.yaml") (.ofString "/a.yaml") [] .clock 0 []).answerAll 0
        [.tree (.constant (.bool true)), .index (.failing "again") {}] s = ended := ⟨_, rfl⟩
  obtain ⟨htree, -, hindex, hbuilt, -⟩ := requests_once _ 0 _ _ hearlier hlater
  obtain ⟨-, rfl⟩ := Prod.mk.inj hearlier
  obtain ⟨-, -, htree', -⟩ := htree _ (Or.inl rfl)
  obtain ⟨-, -, hindex', hparses, hindexings⟩ := hindex _ (Or.inl rfl)
  obtain ⟨t, -, -, -, ht, -, -, -, horigin⟩ := hbuilt _ rfl
  exact ⟨_, first, last, _, s', _, _, hearlier, hlater, rfl, rfl, htree', hindex', horigin, hparses,
    hindexings⟩

end DocDrive
