/-!
# Set-once cells

A cell holds at most one value for its whole life. `Cell.request` answers from the cell when it is
ready and otherwise runs the builder once: a value is published for good, a failure is only counted,
and a builder that breaks off leaves the cell as it was.

A builder acts on a state of its own, so that what a run does (and whether it ran) can be seen.

Two holders of equal values may or may not hold the same one. What can be held by several holders
therefore carries where it came from: a `Shared` value the number it was given, a `Derived` value
the file and the run that made it.

* `Cell` is `MemoCell`: `Cell.request` is `MemoCell.get_or_try_init`, `Cell.get?` is `MemoCell.get`.
-/

namespace DocDrive

/-- How one request for a value ends. -/
inductive Outcome (ε α : Type) where
  | done (value : α)
  | failed (error : ε)
  | panicked
  deriving DecidableEq, Repr

inductive Cell (α : Type) where
  | empty
  /-- No value yet, after so many failed builds. Fewer than `2 ^ 32` of them are assumed: the count
  of a running program is a word of 32 bits, and the number here has no bound. -/
  | failed (attempts : Nat)
  | ready (value : α)
  deriving DecidableEq, Repr

namespace Cell

variable {σ ε α : Type}

/-- The cached value, without building. -/
def get? : Cell α → Option α
  | ready a => some a
  | _ => none

def isReady (c : Cell α) : Bool := c.get?.isSome

/-- Failed builds since the cell was made; none once it is ready. -/
def failedAttempts : Cell α → Nat
  | failed n => n
  | _ => 0

/-- The cached value, or one run of the builder. -/
def request (c : Cell α) (build : σ → Outcome ε α × σ) (s : σ) : Outcome ε α × Cell α × σ :=
  match c with
  | ready a => (.done a, c, s)
  | _ =>
    match build s with
    | (.done a, s) => (.done a, ready a, s)
    | (.failed e, s) => (.failed e, failed (c.failedAttempts + 1), s)
    | (.panicked, s) => (.panicked, c, s)

/-- The cached value, or one run of a builder that always answers. -/
def obtain (c : Cell α) (build : σ → Except ε α × σ) (s : σ) : Except ε α × Cell α × σ :=
  match c with
  | ready a => (.ok a, c, s)
  | _ =>
    match build s with
    | (.ok a, s) => (.ok a, ready a, s)
    | (.error e, s) => (.error e, failed (c.failedAttempts + 1), s)

/-- Requests by several callers, in the order in which the cell lets them in. -/
def requestAll (c : Cell α) (builds : List (σ → Outcome ε α × σ)) (s : σ) :
    List (Outcome ε α) × Cell α × σ :=
  match builds with
  | [] => ([], c, s)
  | b :: bs =>
    let (o, c, s) := c.request b s
    let (os, c, s) := c.requestAll bs s
    (o :: os, c, s)

end Cell

/-! ## Identity -/

/-- A value with a number of its own. -/
structure Shared (α : Type) where
  number : Nat
  value : α
  deriving DecidableEq, Repr

/-- A value made from the content of a file, by the so-manieth run that worked on it. -/
structure Derived (α : Type) where
  file : Nat
  run : Nat
  value : α
  deriving DecidableEq, Repr

/-- Where a derived value came from. -/
def Derived.source {α : Type} (d : Derived α) : Nat × Nat := (d.file, d.run)

end DocDrive
