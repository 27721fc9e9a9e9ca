import DocDrive.Memo

/-!
# One value for the life of a cell

Callers ask a cell for its value, each with a builder of their own that may yield a value, fail or
break off, or look at it. The runs of builders are watched (`Cell.watched`): each is noted with the
number of its call, and what it yields is an object with that number. The cell is then a function of
the runs alone (`Cell.slot`), and a run takes place only as long as none has yielded a value.

* `Cell.request_slot` — all that a request can do.
* `Watch.answer_sound`, `Watch.answerAll_sound` — the cell is what the runs make of it, and at most
  one of them yields a value.
* `Watch.answerAll_of_ready` — a cell that is ready is ready for good.
* `cell_publishes_once` — one object, whoever asks and in whatever order.
-/

namespace DocDrive

/-! ## Outcomes -/

namespace Outcome

variable {ε α β : Type}

def ofExcept : Except ε α → Outcome ε α
  | .ok a => done a
  | .error e => failed e

def map (f : α → β) : Outcome ε α → Outcome ε β
  | done a => done (f a)
  | failed e => failed e
  | panicked => panicked

def isDone : Outcome ε α → Bool
  | done _ => true
  | _ => false

def isFailed : Outcome ε α → Bool
  | failed _ => true
  | _ => false

end Outcome

namespace Cell

variable {σ ε α : Type} {c : Cell α} {a : α}

theorem get?_eq_some_iff : c.get? = some a ↔ c = .ready a := by
  cases c <;> simp [get?]

theorem ne_ready (h : c.get? = none) (a : α) : c ≠ .ready a := by
  rintro rfl
  cases h

theorem obtain_ready (build : σ → Except ε α × σ) (s : σ) :
    (ready a).obtain build s = (.ok a, .ready a, s) := rfl

/-- A cell that holds nothing runs the builder once. -/
theorem obtain_of_get?_eq_none (h : c.get? = none) (build : σ → Except ε α × σ) (s : σ) :
    c.obtain build s = match build s with
      | (.ok a, s) => (.ok a, .ready a, s)
      | (.error e, s) => (.error e, .failed (c.failedAttempts + 1), s) := by
  cases c with
  | ready a => cases h
  | empty => rfl
  | failed n => rfl

/-- The cell after a run of a builder in it. -/
def after (c : Cell α) : Outcome ε α → Cell α
  | .done a => ready a
  | .failed _ => failed (c.failedAttempts + 1)
  | .panicked => c

theorem request_ready (build : σ → Outcome ε α × σ) (s : σ) :
    (ready a).request build s = (.done a, .ready a, s) := rfl

/-- A cell that holds nothing runs the builder once, and tells what it came to. -/
theorem request_of_get?_eq_none (h : c.get? = none) (build : σ → Outcome ε α × σ) (s : σ) :
    c.request build s = ((build s).1, c.after (build s).1, (build s).2) := by
  obtain ⟨o, s', hbuild⟩ : ∃ o s', build s = (o, s') := ⟨_, _, rfl⟩
  rw [request, hbuild]
  · cases o <;> rfl
  · exact ne_ready h

/-- Builders that never break off are run alike by the two kinds of request. -/
theorem request_ofExcept (c : Cell α) (build : σ → Except ε α × σ) (s : σ) :
    c.request (fun s => (.ofExcept (build s).1, (build s).2)) s =
      (.ofExcept (c.obtain build s).1, (c.obtain build s).2) := by
  cases hcell : c.get? with
  | some a =>
    obtain rfl := get?_eq_some_iff.1 hcell
    rfl
  | none =>
    rw [request_of_get?_eq_none hcell, obtain_of_get?_eq_none hcell]
    rcases build s with ⟨e | a, s'⟩ <;> rfl

/-! ## Several callers -/

theorem requestAll_cons (c : Cell α) (build : σ → Outcome ε α × σ)
    (builds : List (σ → Outcome ε α × σ)) (s : σ) :
    c.requestAll (build :: builds) s =
      ((c.request build s).1 :: ((c.request build s).2.1.requestAll builds (c.request build s).2.2).1,
        ((c.request build s).2.1.requestAll builds (c.request build s).2.2).2) := rfl

theorem requestAll_ready (builds : List (σ → Outcome ε α × σ)) (s : σ) :
    (ready a).requestAll builds s = (builds.map fun _ => .done a, ready a, s) := by
  induction builds with
  | nil => rfl
  | cons build builds ih => rw [requestAll_cons, request_ready, ih, List.map_cons]

/-- **Whoever gets a value gets the one that the cell holds in the end.** -/
theorem ready_of_mem_requestAll {builds : List (σ → Outcome ε α × σ)} {s : σ}
    (h : .done a ∈ (c.requestAll builds s).1) : (c.requestAll builds s).2.1 = ready a := by
  induction builds generalizing c s with
  | nil => cases h
  | cons build builds ih =>
    rw [requestAll_cons] at h ⊢
    rcases List.mem_cons.1 h with hhere | hlater
    · have hready : (c.request build s).2.1 = ready a := by
        cases hcell : c.get? with
        | some b =>
          obtain rfl := get?_eq_some_iff.1 hcell
          rw [request_ready] at hhere ⊢
          rw [Outcome.done.inj hhere]
        | none =>
          rw [request_of_get?_eq_none hcell] at hhere ⊢
          dsimp only at hhere ⊢
          rw [← hhere, after]
      rw [hready, requestAll_ready]
    · exact ih hlater

end Cell

/-! ## Runs under watch -/

/-- The runs of builders so far, each with the number of the call that it was made for. -/
abbrev Runs (ε α : Type) := List (Nat × Outcome ε α)

namespace Runs

variable {ε α : Type} {runs : Runs ε α} {number : Nat} {a : α} {x : Shared α}

/-- The object that the first run with a value has made. -/
def published? : Runs ε α → Option (Shared α)
  | [] => none
  | (number, .done a) :: _ => some ⟨number, a⟩
  | _ :: rest => published? rest

/-- How many runs have failed. -/
def failures (runs : Runs ε α) : Nat := runs.countP fun run => run.2.isFailed

/-- How many runs have yielded a value. -/
def successes (runs : Runs ε α) : Nat := runs.countP fun run => run.2.isDone

theorem published?_append (h : published? runs = none) (number : Nat) (o : Outcome ε α) :
    published? (runs ++ [(number, o)]) = published? [(number, o)] := by
  induction runs with
  | nil => rfl
  | cons run rest ih =>
    obtain ⟨m, b | e | _⟩ := run
    · cases h
    · exact ih h
    · exact ih h

theorem published?_eq_none_iff : published? runs = none ↔ successes runs = 0 := by
  induction runs with
  | nil => exact ⟨fun _ => rfl, fun _ => rfl⟩
  | cons run rest ih =>
    obtain ⟨m, b | e | _⟩ := run
    · simp [published?, successes, Outcome.isDone]
    · simpa [published?, successes, Outcome.isDone] using ih
    · simpa [published?, successes, Outcome.isDone] using ih

theorem isSome_published?_iff :
    (published? runs).isSome = true ↔ ∃ number a, (number, .done a) ∈ runs := by
  induction runs with
  | nil => simp [published?]
  | cons run rest ih =>
    obtain ⟨m, b | e | _⟩ := run
    · exact ⟨fun _ => ⟨m, b, List.mem_cons_self⟩, fun _ => rfl⟩
    · simp [published?, ih]
    · simp [published?, ih]

/-- What is published was made by the run with its number. -/
theorem mem_of_published? (h : published? runs = some x) : (x.number, .done x.value) ∈ runs := by
  induction runs with
  | nil => cases h
  | cons run rest ih =>
    obtain ⟨m, b | e | _⟩ := run
    · cases h
      exact List.mem_cons_self
    · exact List.mem_cons_of_mem _ (ih h)
    · exact List.mem_cons_of_mem _ (ih h)

/-- What runs make of a cell. -/
def slot (runs : Runs ε α) : Cell (Shared α) :=
  match runs.published? with
  | some x => .ready x
  | none => if runs.failures = 0 then .empty else .failed runs.failures

theorem slot_of_published? (h : published? runs = some x) : slot runs = .ready x := by
  rw [slot, h]

@[simp] theorem get?_slot (runs : Runs ε α) : (slot runs).get? = runs.published? := by
  unfold slot
  split
  · rename_i x h
    rw [h]
    rfl
  · rename_i h
    rw [h]
    split <;> rfl

theorem failedAttempts_slot (runs : Runs ε α) :
    (slot runs).failedAttempts = if (slot runs).isReady then 0 else runs.failures := by
  rw [Cell.isReady, get?_slot]
  unfold slot
  split
  · rename_i x h
    rw [h]
    rfl
  · rename_i h
    rw [h]
    split
    · rename_i hzero
      exact hzero.symm
    · rfl

/-- **One more run makes of the cell what a run makes of it.** -/
theorem slot_append (h : published? runs = none) (number : Nat) (o : Outcome ε α) :
    slot (runs ++ [(number, o)]) = (slot runs).after (o.map (Shared.mk number)) := by
  have hfailures : (slot runs).failedAttempts = runs.failures := by
    rw [failedAttempts_slot, Cell.isReady, get?_slot, h]
    rfl
  have happend := published?_append h number o
  cases o with
  | done a => exact slot_of_published? happend
  | failed e =>
    have hcount : failures (runs ++ [(number, (.failed e : Outcome ε α))]) = runs.failures + 1 := by
      simp [failures, Outcome.isFailed]
    rw [slot, happend, hcount, Outcome.map, Cell.after, hfailures]
    rfl
  | panicked =>
    have hcount : failures (runs ++ [(number, (.panicked : Outcome ε α))]) = runs.failures := by
      simp [failures, Outcome.isFailed]
    rw [slot, happend, hcount, Outcome.map, Cell.after, slot, h]
    rfl

end Runs

/-- A builder under watch: its run is noted, and what it yields is an object with the number of the
call. -/
def watched {σ ε α : Type} (number : Nat) (build : σ → Outcome ε α × σ) (s : σ × Runs ε α) :
    Outcome ε (Shared α) × (σ × Runs ε α) :=
  ((build s.1).1.map (Shared.mk number), ((build s.1).2, s.2 ++ [(number, (build s.1).1)]))

/-- What a caller may ask of a cell. -/
inductive CellCall (σ ε α : Type) where
  /-- The value, made by a builder if there is none. -/
  | request (build : σ → Outcome ε α × σ)
  | get
  | isReady
  | failedAttempts

/-- What a caller gets. -/
inductive CellAnswer (ε α : Type) where
  | request (outcome : Outcome ε (Shared α))
  | get (found : Option (Shared α))
  | isReady (ready : Bool)
  | failedAttempts (count : Nat)

namespace CellAnswer

variable {ε α : Type}

/-- The object that an answer hands out. -/
def object? : CellAnswer ε α → Option (Shared α)
  | request (.done x) => some x
  | get found => found
  | _ => none

/-- An answer that shows the object of a cell that is ready. -/
def Shows (x : Shared α) : CellAnswer ε α → Prop
  | request o => o = .done x
  | get found => found = some x
  | isReady ready => ready = true
  | failedAttempts count => count = 0

end CellAnswer

/-- A cell in use: what builders act on, and which of them ran. -/
structure Watch (σ ε α : Type) where
  cell : Cell (Shared α) := .empty
  state : σ
  runs : Runs ε α := []

namespace Watch

variable {σ ε α : Type} {w w' : Watch σ ε α} {number : Nat} {calls : List (CellCall σ ε α)}
  {call : CellCall σ ε α} {x : Shared α}

/-- One call and what it leaves. -/
def answer (w : Watch σ ε α) (number : Nat) : CellCall σ ε α → CellAnswer ε α × Watch σ ε α
  | .request build =>
    let (o, cell, s) := w.cell.request (watched number build) (w.state, w.runs)
    (.request o, ⟨cell, s.1, s.2⟩)
  | .get => (.get w.cell.get?, w)
  | .isReady => (.isReady w.cell.isReady, w)
  | .failedAttempts => (.failedAttempts w.cell.failedAttempts, w)

/-- Calls one after the other, numbered on. -/
def answerAll (w : Watch σ ε α) (number : Nat) :
    List (CellCall σ ε α) → List (CellAnswer ε α) × Watch σ ε α
  | [] => ([], w)
  | call :: rest =>
    let (a, w) := w.answer number call
    let (later, w) := w.answerAll (number + 1) rest
    (a :: later, w)

/-! ### One call -/

/-- A request to a cell that is ready runs nothing. -/
theorem answer_request_of_ready (h : w.cell = .ready x) (build : σ → Outcome ε α × σ) :
    w.answer number (.request build) = (.request (.done x), w) := by
  rw [answer, h, Cell.request_ready, ← h]

/-- A request to any other cell runs the builder once, and tells what it came to. -/
theorem answer_request_of_get?_eq_none (h : w.cell.get? = none) (build : σ → Outcome ε α × σ) :
    w.answer number (.request build) =
      (.request ((build w.state).1.map (Shared.mk number)),
        { cell := w.cell.after ((build w.state).1.map (Shared.mk number))
          state := (build w.state).2
          runs := w.runs ++ [(number, (build w.state).1)] }) := by
  rw [answer, Cell.request_of_get?_eq_none h]
  rfl

/-! ### The cell and the runs -/

/-- The cell is what the runs have made of it, at most one run has yielded a value, and the runs were
made for calls of their own. -/
structure Sound (w : Watch σ ε α) (number : Nat) : Prop where
  cell : w.cell = w.runs.slot
  once : w.runs.successes ≤ 1
  distinct : (w.runs.map Prod.fst).Pairwise (· < ·)
  earlier : ∀ run ∈ w.runs, run.1 < number

theorem Sound.fresh (s : σ) : ({ state := s } : Watch σ ε α).Sound number where
  cell := rfl
  once := Nat.zero_le 1
  distinct := .nil
  earlier := by simp

/-- **One call keeps the cell and the runs together.** -/
theorem answer_sound (h : w.Sound number) (call : CellCall σ ε α) :
    (w.answer number call).2.Sound (number + 1) := by
  have hstays : w.Sound (number + 1) :=
    ⟨h.cell, h.once, h.distinct, fun run hrun => Nat.lt_succ_of_lt (h.earlier run hrun)⟩
  cases call with
  | get => exact hstays
  | isReady => exact hstays
  | failedAttempts => exact hstays
  | request build =>
    cases hcell : w.cell.get? with
    | some x =>
      rw [answer_request_of_ready (Cell.get?_eq_some_iff.1 hcell)]
      exact hstays
    | none =>
      have hpublished : w.runs.published? = none := by
        rw [← Runs.get?_slot, ← h.cell, hcell]
      have hnone : w.runs.successes = 0 := Runs.published?_eq_none_iff.1 hpublished
      rw [answer_request_of_get?_eq_none hcell]
      refine ⟨?_, ?_, ?_, ?_⟩
      · dsimp only
        rw [Runs.slot_append hpublished, ← h.cell]
      · have hone : Runs.successes [(number, (build w.state).1)] ≤ 1 := List.countP_le_length
        show Runs.successes (w.runs ++ [(number, (build w.state).1)]) ≤ 1
        rw [Runs.successes, List.countP_append]
        rw [Runs.successes] at hnone hone
        omega
      · dsimp only
        rw [List.map_append, List.pairwise_append]
        refine ⟨h.distinct, List.pairwise_singleton _ _, fun m hm n hn => ?_⟩
        obtain ⟨run, hrun, rfl⟩ := List.mem_map.1 hm
        rw [List.map_singleton, List.mem_singleton] at hn
        rw [hn]
        exact h.earlier run hrun
      · intro run hrun
        rcases List.mem_append.1 hrun with hrun | hrun
        · exact hstays.earlier run hrun
        · rw [List.mem_singleton.1 hrun]
          exact Nat.lt_succ_self number

/-- **All calls keep the cell and the runs together.** -/
theorem answerAll_sound (h : w.Sound number) (calls : List (CellCall σ ε α)) :
    (w.answerAll number calls).2.Sound (number + calls.length) := by
  induction calls generalizing w number with
  | nil => exact h
  | cons call rest ih =>
    have hrest := ih (answer_sound h call)
    rw [List.length_cons, Nat.add_comm rest.length, ← Nat.add_assoc]
    exact hrest

/-! ### Ready for good -/

theorem answer_of_ready (h : w.cell = .ready x) (number : Nat) (call : CellCall σ ε α) :
    (w.answer number call).1.Shows x ∧ (w.answer number call).2 = w := by
  cases call with
  | request build =>
    rw [answer_request_of_ready h]
    exact ⟨rfl, rfl⟩
  | get => exact ⟨Cell.get?_eq_some_iff.2 h, rfl⟩
  | isReady =>
    refine ⟨?_, rfl⟩
    show w.cell.isReady = true
    rw [h]
    rfl
  | failedAttempts =>
    refine ⟨?_, rfl⟩
    show w.cell.failedAttempts = 0
    rw [h]
    rfl

/-- **A cell that is ready is ready for good**: no builder runs, and every answer shows the object. -/
theorem answerAll_of_ready (h : w.cell = .ready x) (number : Nat) (calls : List (CellCall σ ε α)) :
    (∀ a ∈ (w.answerAll number calls).1, a.Shows x) ∧ (w.answerAll number calls).2 = w := by
  induction calls generalizing number with
  | nil => exact ⟨fun a ha => absurd ha List.not_mem_nil, rfl⟩
  | cons call rest ih =>
    obtain ⟨hshows, hstays⟩ := answer_of_ready h number call
    rw [answerAll]
    dsimp only
    rw [hstays]
    obtain ⟨hlater, hend⟩ := ih (number + 1)
    exact ⟨List.forall_mem_cons.2 ⟨hshows, hlater⟩, hend⟩

/-- What one call hands out is in the cell after it. -/
theorem ready_of_object? (h : (w.answer number call).1.object? = some x) :
    (w.answer number call).2.cell = .ready x := by
  cases call with
  | get => exact Cell.get?_eq_some_iff.1 h
  | isReady => cases h
  | failedAttempts => cases h
  | request build =>
    cases hcell : w.cell.get? with
    | some y =>
      have hready := Cell.get?_eq_some_iff.1 hcell
      rw [answer_request_of_ready hready] at h ⊢
      cases h
      exact hready
    | none =>
      rw [answer_request_of_get?_eq_none hcell] at h ⊢
      dsimp only at h ⊢
      cases ho : (build w.state).1 with
      | done a =>
        rw [ho] at h
        cases h
        rfl
      | failed e =>
        rw [ho] at h
        cases h
      | panicked =>
        rw [ho] at h
        cases h

/-- **Whatever was handed out is in the cell for good.** -/
theorem ready_of_mem_answerAll {a : CellAnswer ε α} (ha : a ∈ (w.answerAll number calls).1)
    (hx : a.object? = some x) : (w.answerAll number calls).2.cell = .ready x := by
  induction calls generalizing w number with
  | nil => cases ha
  | cons call rest ih =>
    rw [answerAll] at ha ⊢
    rcases List.mem_cons.1 ha with rfl | hlater
    · have hready := ready_of_object? hx
      dsimp only
      rw [(answerAll_of_ready hready _ rest).2]
      exact hready
    · exact ih hlater

end Watch

/-! ## One object -/

/-- **A cell publishes one object for life.** Let callers ask a fresh cell in any order, with any
builders, and then anything more.

At most one run of a builder yields a value, and the cell is ready exactly if one has; until then its
failures are the runs that failed, and none once it is ready. A request runs its builder exactly if
no run has yielded a value: it then tells what the run came to, which is published if it is a value,
counted if it is an error, and leaves the cell as it was if the builder broke off. What was handed
out is the object of the one run, and from then on no builder runs and every answer shows it.

So whatever callers ask a cell together and in whatever order it lets them in, those that get a value
get the same; and the requests of builders that never break off are such requests. -/
theorem cell_publishes_once {σ ε α : Type} (s : σ) (earlier later : List (CellCall σ ε α))
    {first last : List (CellAnswer ε α)} {w w' : Watch σ ε α}
    (hearlier : ({ state := s } : Watch σ ε α).answerAll 0 earlier = (first, w))
    (hlater : w.answerAll earlier.length later = (last, w')) :
    (w.runs.successes ≤ 1 ∧ (w.runs.map Prod.fst).Pairwise (· < ·) ∧
      (w.cell.isReady = true ↔ ∃ number a, (number, .done a) ∈ w.runs) ∧
      w.cell.failedAttempts = if w.cell.isReady then 0 else w.runs.failures) ∧
    (∀ build, (¬∃ number a, (number, .done a) ∈ w.runs) →
      w.answer earlier.length (.request build) =
        (.request ((build w.state).1.map (Shared.mk earlier.length)),
          { cell := w.cell.after ((build w.state).1.map (Shared.mk earlier.length))
            state := (build w.state).2
            runs := w.runs ++ [(earlier.length, (build w.state).1)] })) ∧
    (∀ x, w.cell = .ready x ∨ (∃ a ∈ first, a.object? = some x) →
      w.cell = .ready x ∧ (x.number, .done x.value) ∈ w.runs ∧
      (∀ build, w.answer earlier.length (.request build) = (.request (.done x), w)) ∧
      (∀ a ∈ last, a.Shows x) ∧ w' = w) ∧
    (∀ (c : Cell α) (builds : List (σ → Outcome ε α × σ)) (s : σ) (a b : α),
      .done a ∈ (c.requestAll builds s).1 → .done b ∈ (c.requestAll builds s).1 → a = b) ∧
    (∀ (c : Cell α) (build : σ → Except ε α × σ) (s : σ),
      c.request (fun s => (.ofExcept (build s).1, (build s).2)) s =
        (.ofExcept (c.obtain build s).1, (c.obtain build s).2)) := by
  have hsound : w.Sound earlier.length := by
    have hfresh : ({ state := s } : Watch σ ε α).Sound 0 := .fresh s
    have h := Watch.answerAll_sound hfresh earlier
    rwa [hearlier, Nat.zero_add] at h
  have hget : w.cell.get? = w.runs.published? := by rw [hsound.cell, Runs.get?_slot]
  have hready : w.cell.isReady = true ↔ ∃ number a, (number, .done a) ∈ w.runs := by
    rw [Cell.isReady, hget, Runs.isSome_published?_iff]
  refine ⟨⟨hsound.once, hsound.distinct, hready, ?_⟩, fun build hnone => ?_, fun x hx => ?_,
    fun c builds s a b ha hb => ?_, fun c build s => c.request_ofExcept build s⟩
  · have hfailures := Runs.failedAttempts_slot w.runs
    rwa [← hsound.cell] at hfailures
  · have hcell : w.cell.get? = none := by
      rw [← hready, Cell.isReady] at hnone
      simpa using hnone
    exact Watch.answer_request_of_get?_eq_none hcell build
  · have hcell : w.cell = .ready x := by
      rcases hx with hx | ⟨a, ha, hx⟩
      · exact hx
      · have hmem : a ∈ (({ state := s } : Watch σ ε α).answerAll 0 earlier).1 := by rwa [hearlier]
        have h := Watch.ready_of_mem_answerAll hmem hx
        rwa [hearlier] at h
    obtain ⟨hshows, hend⟩ := Watch.answerAll_of_ready hcell earlier.length later
    rw [hlater] at hshows hend
    refine ⟨hcell, Runs.mem_of_published? ?_, fun build => ?_, hshows, hend⟩
    · rw [← hget, hcell]
      rfl
    · exact Watch.answer_request_of_ready hcell build
  · exact Cell.ready.inj ((Cell.ready_of_mem_requestAll ha).symm.trans
      (Cell.ready_of_mem_requestAll hb))

/-- A builder that counts its runs, and comes to what it is told. -/
def counting (o : Outcome String Nat) (runs : Nat) : Outcome String Nat × Nat := (o, runs + 1)

/-- A failure, a break, a failure, a value, and then another builder, which does not run. -/
theorem cell_publishes_once_retried : ∃ (first last : List (CellAnswer String Nat))
    (w w' : Watch Nat String Nat),
    ({ state := 0 } : Watch Nat String Nat).answerAll 0 [.request (counting (.failed "no")),
      .request (counting .panicked), .request (counting (.failed "again")), .failedAttempts,
      .request (counting (.done 7))] = (first, w) ∧
    w.answerAll 5 [.request (counting (.done 8)), .get] = (last, w') ∧
    w.cell = .ready ⟨4, 7⟩ ∧ w.state = 4 ∧ w.runs.successes ≤ 1 ∧ w' = w ∧
    ∀ a ∈ last, a.Shows ⟨4, 7⟩ := by
  obtain ⟨⟨first, w⟩, hearlier⟩ : ∃ ended, ({ state := 0 } : Watch Nat String Nat).answerAll 0
      [.request (counting (.failed "no")), .request (counting .panicked),
        .request (counting (.failed "again")), .failedAttempts,
        .request (counting (.done 7))] = ended := ⟨_, rfl⟩
  obtain ⟨⟨last, w'⟩, hlater⟩ : ∃ ended,
      w.answerAll 5 [.request (counting (.done 8)), .get] = ended := ⟨_, rfl⟩
  obtain ⟨⟨honce, -⟩, -, hpublished, -⟩ := cell_publishes_once 0 _ _ hearlier hlater
  obtain ⟨-, rfl⟩ := Prod.mk.inj hearlier
  obtain ⟨hcell, -, -, hshows, hend⟩ := hpublished ⟨4, 7⟩ (Or.inl rfl)
  exact ⟨first, last, _, w', hearlier, hlater, hcell, rfl, honce, hend, hshows⟩

end DocDrive
