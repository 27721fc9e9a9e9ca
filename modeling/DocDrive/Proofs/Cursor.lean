import DocDrive.Handle
import Mathlib

/-!
# Cursors

A cursor is a word, but as long as a content fits the word a cursor reads like a number: what a read
yields starts at the cursor, and moves it by what was yielded without ever leaving the word. So the
chunks of a handle that only reads are the successive slices of its content (`slices`).

* `flatten_slices`, `slice_eq_nil_iff` — slices are laid end to end, and empty only at the end.
* `inTurn_simulates` — two readers that agree in one call, and stay in step, agree in all calls.
* `inTurn_eq_slices` — reads that move past what they yield, yield slices.
* `Handle.read_of_neg`, `Handle.read_of_nonneg` — the two cases of a read.
* `Handle.reads_eq_slices` — what a run of reads yields.
-/

namespace DocDrive

/-! ## Slices -/

/-- Bytes cut into slices of at most the given sizes, in order. -/
def slices (data : Bytes) : List Nat → List Bytes
  | [] => []
  | n :: sizes => data.take n :: slices (data.drop n) sizes

section Slices

variable {data chunk : Bytes} {sizes : List Nat} {k : Nat}

/-- **Slices are laid end to end.** -/
theorem flatten_slices (data : Bytes) (sizes : List Nat) :
    (slices data sizes).flatten = data.take sizes.sum := by
  induction sizes generalizing data with
  | nil => rfl
  | cons n sizes ih => rw [slices, List.flatten_cons, ih, List.sum_cons, List.take_add]

/-- A slice starts where those before it end. -/
theorem getElem?_slices (data : Bytes) (sizes : List Nat) (k : Nat) :
    (slices data sizes)[k]? = sizes[k]?.map fun n => (data.drop (sizes.take k).sum).take n := by
  induction sizes generalizing data k with
  | nil => rfl
  | cons n sizes ih =>
    cases k with
    | zero => rfl
    | succ k => simp [slices, ih, List.drop_drop]

/-- The slices before one end at the sum of their sizes, or at the end of the data. -/
theorem flatten_take_slices (data : Bytes) (sizes : List Nat) (k : Nat) :
    ((slices data sizes).take k).flatten = data.take (sizes.take k).sum := by
  rw [← flatten_slices]
  congr 1
  induction sizes generalizing data k with
  | nil => rw [List.take_nil, slices, List.take_nil]
  | cons n sizes ih =>
    cases k with
    | zero => rfl
    | succ k => rw [slices, List.take_succ_cons, ih, List.take_succ_cons, slices]

/-- **When a slice is empty**: if none is asked for, or if those before it hold everything. -/
theorem slice_eq_nil_iff_of_size {n : Nat} (hsize : sizes[k]? = some n)
    (hchunk : (slices data sizes)[k]? = some chunk) :
    chunk = [] ↔ n = 0 ∨ ((slices data sizes).take k).flatten = data := by
  rw [getElem?_slices, hsize, Option.map_some, Option.some.injEq] at hchunk
  rw [← hchunk, flatten_take_slices, List.take_eq_nil_iff, List.drop_eq_nil_iff,
    List.take_eq_self_iff]

/-- What is cut into slices is not longer than the data. -/
theorem length_flatten_slices_le (data : Bytes) (sizes : List Nat) :
    (slices data sizes).flatten.length ≤ data.length := by
  rw [flatten_slices]
  exact List.length_take_le' _ _

variable (hsizes : ∀ n ∈ sizes, n ≠ 0)
include hsizes

/-- **A slice is empty exactly if those before it hold everything.** -/
theorem slice_eq_nil_iff (hchunk : (slices data sizes)[k]? = some chunk) :
    chunk = [] ↔ ((slices data sizes).take k).flatten = data := by
  obtain ⟨n, hn, -⟩ := Option.map_eq_some_iff.1 ((getElem?_slices data sizes k).symm.trans hchunk)
  have hpos := hsizes n (List.mem_of_getElem? hn)
  rw [slice_eq_nil_iff_of_size hn hchunk]
  exact ⟨fun h => h.resolve_left hpos, Or.inr⟩

/-- Once a slice is empty, all later ones are. -/
theorem slice_eq_nil_of_le {j : Nat} {later : Bytes} (hchunk : (slices data sizes)[k]? = some [])
    (hlater : (slices data sizes)[j]? = some later) (hle : k ≤ j) : later = [] := by
  have hall := (slice_eq_nil_iff hsizes hchunk).1 rfl
  rw [flatten_take_slices, List.take_eq_self_iff] at hall
  rw [slice_eq_nil_iff hsizes hlater, flatten_take_slices, List.take_eq_self_iff]
  exact hall.trans ((List.take_sublist_take_left hle).sum_le_sum fun _ _ => Nat.zero_le _)

end Slices

/-! ## Calls in turn -/

section InTurn

variable {σ τ ι α : Type}

/-- Calls one after the other, each on what the one before has left. -/
def inTurn (call : σ → ι → α × σ) (s : σ) : List ι → List α × σ
  | [] => ([], s)
  | i :: rest =>
    let (a, s) := call s i
    let (later, s) := inTurn call s rest
    (a :: later, s)

/-- **Readers that stay in step agree in all calls**, if they agree in each call. -/
theorem inTurn_simulates {call : σ → ι → α × σ} {call' : τ → ι → α × τ} {R : σ → τ → Prop}
    {s : σ} {t : τ}
    (hstep : ∀ s t i, R s t → (call s i).1 = (call' t i).1 ∧ R (call s i).2 (call' t i).2)
    (h : R s t) (inputs : List ι) :
    (inTurn call s inputs).1 = (inTurn call' t inputs).1 ∧
      R (inTurn call s inputs).2 (inTurn call' t inputs).2 := by
  induction inputs generalizing s t with
  | nil => exact ⟨rfl, h⟩
  | cons i rest ih =>
    obtain ⟨hanswer, hnext⟩ := hstep s t i h
    obtain ⟨hlater, hlast⟩ := ih hnext
    simp only [inTurn]
    exact ⟨by rw [hanswer, hlater], hlast⟩

variable {read : σ → Nat → Except IoError Bytes × σ} {ahead : σ → Bytes} {position : σ → Int}
  {Ready : σ → Prop} {s : σ}

/-- **Reads yield slices**, and move the position past them, if each read yields what is ahead and
moves past it. -/
theorem inTurn_eq_slices
    (hstep : ∀ s n, Ready s → ∃ after, read s n = (.ok ((ahead s).take n), after) ∧ Ready after ∧
      position after = position s + ((ahead s).take n).length ∧ ahead after = (ahead s).drop n)
    (hready : Ready s) (sizes : List Nat) :
    ∃ after, inTurn read s sizes = ((slices (ahead s) sizes).map .ok, after) ∧ Ready after ∧
      position after = position s + (slices (ahead s) sizes).flatten.length := by
  induction sizes generalizing s with
  | nil => exact ⟨s, rfl, hready, (Int.add_zero _).symm⟩
  | cons n sizes ih =>
    obtain ⟨next, hread, hnext, hmoved, hahead⟩ := hstep s n hready
    obtain ⟨after, hreads, hafter, hposition⟩ := ih hnext
    refine ⟨after, ?_, hafter, ?_⟩
    · rw [inTurn, hread]
      simp only
      rw [hreads, hahead, slices, List.map_cons]
    · rw [hposition, hmoved, hahead, slices, List.flatten_cons, List.length_append]
      omega

end InTurn

/-! ## Calls on a handle -/

/-- What a reader may ask of its handle. -/
inductive HandleCall where
  /-- A read into a buffer of `n` bytes. -/
  | read (n : Nat)
  | seek (goal : SeekTarget)
  | setOffset (offset : Int64)
  deriving DecidableEq, Repr

/-- What a reader gets. -/
inductive HandleAnswer where
  | read (result : Except IoError Bytes)
  | seek (result : Except IoError Int64)
  | moved

namespace Handle

variable {h after : Handle}

/-- One call and the handle after it. -/
def answer (h : Handle) : HandleCall → HandleAnswer × Handle
  | .read n => (h.read n).map .read id
  | .seek goal => (h.seek goal).map .seek id
  | .setOffset offset => (.moved, h.setOffset offset)

/-- Calls one after the other. -/
def answerAll (h : Handle) : List HandleCall → List HandleAnswer × Handle
  | [] => ([], h)
  | call :: rest =>
    let (a, h) := h.answer call
    let (later, h) := h.answerAll rest
    (a :: later, h)

/-! ## Reading -/

theorem content_eq_of_record (hrecord : after.record = h.record) : after.content = h.content := by
  rw [content, content, hrecord]

/-- A read before the start fails, and leaves the cursor where it is. -/
theorem read_of_neg (hneg : h.offset.toInt < 0) (n : Nat) :
    h.read n = (.error (DriveError.invalidCursor h.record.value.absolutePath h.offset).toIo, h) :=
  if_pos (Int64.lt_iff_toInt_lt.2 hneg)

/-- What stands ahead of the cursor. -/
def ahead (h : Handle) : Bytes := h.content.drop h.offset.toInt.toNat

/-- **A read yields what stands at the cursor**, and moves the cursor past it. -/
theorem read_of_nonneg (hfits : h.content.length < 2 ^ 63) (hstart : 0 ≤ h.offset.toInt) (n : Nat) :
    ∃ after, h.read n = (.ok (h.ahead.take n), after) ∧ after.record = h.record ∧
      after.offset.toInt = h.offset.toInt + (h.ahead.take n).length := by
  have hvalid : ¬h.offset < 0 := by
    rw [Int64.lt_iff_toInt_lt, Int64.toInt_zero]
    exact Int.not_lt.2 hstart
  have hread : h.read n = (.ok (h.ahead.take n),
      { h with offset := h.offset + Int64.ofNat (h.ahead.take n).length }) := if_neg hvalid
  refine ⟨_, hread, rfl, ?_⟩
  have hword := h.offset.toInt_lt
  -- What is yielded ends in the content, or it is empty.
  have hend : h.offset.toInt + (h.ahead.take n).length < 2 ^ 63 := by
    rw [ahead, List.length_take, List.length_drop]
    omega
  dsimp only
  rw [Int64.toInt_add, Int64.toInt_ofNat_of_lt (by omega)]
  exact Int.bmod_eq_of_le (by omega) (by omega)

/-- What a read yields is no longer ahead. -/
theorem ahead_read {n : Nat} (hrecord : after.record = h.record)
    (hstart : 0 ≤ h.offset.toInt)
    (hoffset : after.offset.toInt = h.offset.toInt + (h.ahead.take n).length) :
    after.ahead = h.ahead.drop n := by
  have hcontent := content_eq_of_record hrecord
  have hcursor : after.offset.toInt.toNat = h.offset.toInt.toNat + (h.ahead.take n).length := by
    omega
  rw [ahead, hcontent, hcursor, ← List.drop_drop]
  change h.ahead.drop _ = _
  rcases Nat.le_total n h.ahead.length with hle | hle
  · rw [List.length_take_of_le hle]
  · rw [List.take_of_length_le hle, List.drop_length, List.drop_of_length_le hle]

/-- Calls that only read are reads in turn. -/
theorem answerAll_map_read (h : Handle) (sizes : List Nat) : h.answerAll (sizes.map .read) =
    ((inTurn read h sizes).1.map .read, (inTurn read h sizes).2) := by
  induction sizes generalizing h with
  | nil => rfl
  | cons n sizes ih =>
    rw [List.map_cons, answerAll, answer]
    dsimp only
    rw [ih]
    rfl

/-- **Reads yield the slices of what is ahead**, and leave the cursor behind them. -/
theorem reads_eq_slices (hfits : h.content.length < 2 ^ 63) (hstart : 0 ≤ h.offset.toInt)
    (sizes : List Nat) :
    ∃ after, h.answerAll (sizes.map .read) =
        ((slices h.ahead sizes).map fun chunk => .read (.ok chunk), after) ∧
      after.record = h.record ∧
      after.offset.toInt = h.offset.toInt + (slices h.ahead sizes).flatten.length := by
  have hstep : ∀ (g : Handle) (n : Nat), (g.record = h.record ∧ 0 ≤ g.offset.toInt) →
      ∃ next, g.read n = (.ok (g.ahead.take n), next) ∧
        (next.record = h.record ∧ 0 ≤ next.offset.toInt) ∧
        next.offset.toInt = g.offset.toInt + (g.ahead.take n).length ∧
        next.ahead = g.ahead.drop n := by
    rintro g n ⟨hrecord, hstart⟩
    have hcontent := content_eq_of_record hrecord
    obtain ⟨next, hread, hsame, hoffset⟩ := read_of_nonneg (hcontent ▸ hfits) hstart n
    have hahead := ahead_read hsame hstart hoffset
    exact ⟨next, hread, ⟨hsame.trans hrecord, by omega⟩, hoffset, hahead⟩
  obtain ⟨after, hreads, ⟨hrecord, -⟩, hoffset⟩ := inTurn_eq_slices hstep ⟨rfl, hstart⟩ sizes
  refine ⟨after, ?_, hrecord, hoffset⟩
  rw [answerAll_map_read, hreads, List.map_map]
  rfl

end Handle

end DocDrive
