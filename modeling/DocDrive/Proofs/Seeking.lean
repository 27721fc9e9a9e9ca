import DocDrive.Proofs.Cursor

/-!
# Handles as mathematical cursors

The cursor of a handle is a word, and is moved by words. Beside it stands a cursor that is a whole
number and is moved by exact sums (`cursorAnswer`): as long as a content fits the word, no call can
tell the two apart.

* `Handle.checkedAdd_eq_some_iff`, `Handle.target?_eq_some_iff` — a sum is kept exactly if it is a
  word, and so is what a seek asks for.
* `Handle.answer_refines`, `Handle.answerAll_refines` — one call, and all calls.
* `Handle.readChecked?_eq` — no read leaves the words or the content.
* `handle_refines_cursor` — a handle is a mathematical cursor.
-/

namespace DocDrive

/-! ## The mathematical cursor -/

/-- The position that a seek asks for, where the content has `length` bytes. -/
def SeekTarget.position (length : Nat) (cursor : Int) : SeekTarget → Int
  | .start position => position.toNat
  | .fromEnd delta => length + delta.toInt
  | .current delta => cursor + delta.toInt

/-- What a call on a mathematical cursor gets: a read that fails tells where the cursor stands, and
a seek that is refused tells nothing. -/
inductive CursorAnswer where
  | read (result : Except Int Bytes)
  | seek (result : Option Int)
  | moved
  deriving DecidableEq

/-- One call on a mathematical cursor and the cursor after it. -/
def cursorAnswer (content : Bytes) (cursor : Int) : HandleCall → CursorAnswer × Int
  | .read n =>
    if cursor < 0 then (.read (.error cursor), cursor)
    else
      let data := (content.drop cursor.toNat).take n
      (.read (.ok data), cursor + data.length)
  | .seek goal =>
    let target := goal.position content.length cursor
    if 0 ≤ target ∧ target ≤ 2 ^ 63 - 1 then (.seek (some target), target) else (.seek none, cursor)
  | .setOffset offset => (.moved, offset.toInt)

/-- Calls one after the other. -/
def cursorAnswerAll (content : Bytes) (cursor : Int) : List HandleCall → List CursorAnswer × Int
  | [] => ([], cursor)
  | call :: rest =>
    let (a, cursor) := cursorAnswer content cursor call
    let (later, cursor) := cursorAnswerAll content cursor rest
    (a :: later, cursor)

/-- A handle on the file at `path` answers what the mathematical cursor does. -/
def HandleAnswer.Tells (path : Path) : HandleAnswer → CursorAnswer → Prop
  | .read (.ok data), .read (.ok data') => data = data'
  | .read (.error e), .read (.error cursor) =>
    ∃ offset : Int64, offset.toInt = cursor ∧ e = (DriveError.invalidCursor path offset).toIo
  | .seek (.ok position), .seek (some target) => position.toInt = target
  | .seek (.error e), .seek none => e = Handle.invalidSeek ∧ e.kind = .invalidInput
  | .moved, .moved => True
  | _, _ => False

namespace Handle

variable {h after : Handle} {a b c t : Int64} {n : Nat} {goal : SeekTarget} {call : HandleCall}
  {calls : List HandleCall}

/-! ## Words -/

/-- **A checked sum is the exact sum**, and there is none where that is no word. -/
theorem checkedAdd_eq_some_iff : checkedAdd a b = some c ↔ c.toInt = a.toInt + b.toInt := by
  unfold checkedAdd
  rw [Int64.toInt_minValue, Int64.toInt_maxValue]
  dsimp only
  have hmin := c.le_toInt
  have hmax := c.toInt_lt
  split
  · rename_i hword
    have hexact : (Int64.ofInt (a.toInt + b.toInt)).toInt = a.toInt + b.toInt :=
      Int64.toInt_ofInt_of_le hword.1 (by omega)
    rw [Option.some.injEq, ← Int64.toInt_inj, hexact]
    exact eq_comm
  · rename_i hword
    constructor
    · intro hsome
      cases hsome
    · intro hsum
      exact absurd (by omega) hword

/-- The position of a seek is known as a word exactly if it is one. -/
theorem target?_eq_some_iff (hfits : h.content.length < 2 ^ 63) :
    h.target? goal = some t ↔ t.toInt = goal.position h.content.length h.offset.toInt := by
  cases goal with
  | start position =>
    unfold target? SeekTarget.position
    have hmax := t.toInt_lt
    have hlast : Int64.maxValue.toInt.toNat = 2 ^ 63 - 1 := by
      rw [Int64.toInt_maxValue]
      rfl
    rw [hlast]
    dsimp only
    split
    · have hexact : (Int64.ofNat position.toNat).toInt = position.toNat :=
        Int64.toInt_ofNat_of_lt (by omega)
      rw [Option.some.injEq, ← Int64.toInt_inj, hexact]
      exact eq_comm
    · constructor
      · intro hsome
        cases hsome
      · intro hposition
        omega
  | fromEnd delta =>
    unfold target? SeekTarget.position
    rw [checkedAdd_eq_some_iff, Int64.toInt_ofNat_of_lt hfits]
  | current delta => exact checkedAdd_eq_some_iff

/-! ## Seeking -/

/-- A seek to a position that a cursor may have goes there. -/
theorem seek_of_position (hfits : h.content.length < 2 ^ 63)
    (hgoal : t.toInt = goal.position h.content.length h.offset.toInt) (hpos : 0 ≤ t.toInt) :
    h.seek goal = (.ok t, h.setOffset t) := by
  have htarget := (target?_eq_some_iff hfits).2 hgoal
  have hnonneg : 0 ≤ t := by
    rw [Int64.le_iff_toInt_le, Int64.toInt_zero]
    exact hpos
  rw [seek, htarget]
  exact if_pos hnonneg

/-- Any other seek is refused, and leaves the cursor where it is. -/
theorem seek_of_not_position (hfits : h.content.length < 2 ^ 63)
    (hgoal : ¬(0 ≤ goal.position h.content.length h.offset.toInt ∧
      goal.position h.content.length h.offset.toInt ≤ 2 ^ 63 - 1)) :
    h.seek goal = (.error invalidSeek, h) := by
  rw [seek]
  cases htarget : h.target? goal with
  | none => rfl
  | some t =>
    have hposition := (target?_eq_some_iff hfits).1 htarget
    have hmax := t.toInt_lt
    have hneg : ¬0 ≤ t := by
      rw [Int64.le_iff_toInt_le, Int64.toInt_zero]
      omega
    exact if_neg hneg

/-! ## Refinement -/

/-- **One call** on a handle is the call on the mathematical cursor. -/
theorem answer_refines (hfits : h.content.length < 2 ^ 63) (call : HandleCall) :
    (h.answer call).1.Tells h.record.value.absolutePath
        (cursorAnswer h.content h.offset.toInt call).1 ∧
      (h.answer call).2.offset.toInt = (cursorAnswer h.content h.offset.toInt call).2 ∧
      (h.answer call).2.record = h.record := by
  cases call with
  | read n =>
    rw [answer, cursorAnswer]
    by_cases hneg : h.offset.toInt < 0
    · rw [read_of_neg hneg, if_pos hneg]
      exact ⟨⟨h.offset, rfl, rfl⟩, rfl, rfl⟩
    · obtain ⟨after, hread, hrecord, hoffset⟩ := read_of_nonneg hfits (Int.not_lt.1 hneg) n
      rw [hread, if_neg hneg]
      exact ⟨rfl, hoffset, hrecord⟩
  | seek goal =>
    rw [answer, cursorAnswer]
    by_cases hgoal : 0 ≤ goal.position h.content.length h.offset.toInt ∧
        goal.position h.content.length h.offset.toInt ≤ 2 ^ 63 - 1
    · obtain ⟨hpos, hmax⟩ := hgoal
      have hexact : (Int64.ofInt (goal.position h.content.length h.offset.toInt)).toInt =
          goal.position h.content.length h.offset.toInt :=
        Int64.toInt_ofInt_of_le (by omega) (by omega)
      rw [seek_of_position hfits hexact (by omega), if_pos ⟨hpos, hmax⟩]
      exact ⟨hexact, hexact, rfl⟩
    · rw [seek_of_not_position hfits hgoal, if_neg hgoal]
      exact ⟨⟨rfl, rfl⟩, rfl, rfl⟩
  | setOffset offset => exact ⟨trivial, rfl, rfl⟩

/-- **All calls** on a handle are the calls on the mathematical cursor. -/
theorem answerAll_refines (hfits : h.content.length < 2 ^ 63) (calls : List HandleCall) :
    List.Forall₂ (HandleAnswer.Tells h.record.value.absolutePath) (h.answerAll calls).1
        (cursorAnswerAll h.content h.offset.toInt calls).1 ∧
      (h.answerAll calls).2.offset.toInt =
        (cursorAnswerAll h.content h.offset.toInt calls).2 ∧
      (h.answerAll calls).2.record = h.record := by
  induction calls generalizing h with
  | nil => exact ⟨.nil, rfl, rfl⟩
  | cons call rest ih =>
    obtain ⟨htells, hoffset, hrecord⟩ := answer_refines hfits call
    have hcontent := content_eq_of_record hrecord
    obtain ⟨hlater, hend, hrecord'⟩ := ih (hcontent ▸ hfits)
    rw [hoffset, hcontent, hrecord] at hlater
    rw [hoffset, hcontent] at hend
    exact ⟨.cons htells hlater, hend, hrecord'.trans hrecord⟩

/-! ## Nothing overflows -/

/-- The part of a content between two positions, if it has them. -/
def slice? (data : Bytes) (start stop : Nat) : Option Bytes :=
  if start ≤ stop ∧ stop ≤ data.length then some ((data.drop start).take (stop - start)) else none

/-- A read that yields nothing at all where a sum would leave its word or a slice the content: the
position is an unsigned word, the cursor a signed one. -/
def readChecked? (h : Handle) (n : Nat) : Option (Except IoError Bytes × Handle) :=
  if h.offset < 0 then
    some (.error (DriveError.invalidCursor h.record.value.absolutePath h.offset).toIo, h)
  else
    let start := h.offset.toUInt64.toNat
    if h.content.length ≤ start then some (.ok [], h)
    else
      let count := min n (h.content.length - start)
      if start + count < 2 ^ 64 then
        (slice? h.content start (start + count)).bind fun data =>
          (checkedAdd h.offset (Int64.ofNat count)).map fun offset => (.ok data, h.setOffset offset)
      else none

/-- A handle that differs in its cursor alone. -/
theorem setOffset_offset (hrecord : after.record = h.record) : h.setOffset after.offset = after := by
  obtain ⟨record, offset⟩ := after
  obtain rfl : record = h.record := hrecord
  rfl

theorem slice?_of_le {data : Bytes} {start count : Nat} (hend : start + count ≤ data.length) :
    slice? data start (start + count) = some ((data.drop start).take count) := by
  rw [slice?, if_pos ⟨Nat.le_add_right _ _, hend⟩, Nat.add_sub_cancel_left]

/-- **No read leaves the words or the content.** -/
theorem readChecked?_eq (hfits : h.content.length < 2 ^ 63) (n : Nat) :
    h.readChecked? n = some (h.read n) := by
  unfold readChecked?
  split
  · rename_i hneg
    rw [read, if_pos hneg]
  rename_i hvalid
  have hstart : 0 ≤ h.offset.toInt := by
    rw [Int64.lt_iff_toInt_lt, Int64.toInt_zero] at hvalid
    exact Int.not_lt.1 hvalid
  have hcursor : h.offset.toUInt64.toNat = h.offset.toInt.toNat := by
    rw [Int64.toNat_toInt, Int64.toNat_toUInt64_of_le]
    rwa [Int64.le_iff_toInt_le, Int64.toInt_zero]
  obtain ⟨after, hread, hrecord, hoffset⟩ := read_of_nonneg hfits hstart n
  rw [hread, hcursor, ahead]
  rw [ahead, List.length_take, List.length_drop] at hoffset
  dsimp only
  split
  · -- Nothing is ahead, so that the cursor stays.
    rename_i hend
    have hstays : after.offset = h.offset := by
      rw [← Int64.toInt_inj, hoffset]
      omega
    rw [List.drop_of_length_le hend, List.take_nil, ← setOffset_offset hrecord, hstays]
    rfl
  · rename_i hend
    have hcount : (Int64.ofNat (min n (h.content.length - h.offset.toInt.toNat))).toInt =
        (min n (h.content.length - h.offset.toInt.toNat) : Nat) :=
      Int64.toInt_ofNat_of_lt (by omega)
    have hmoved : checkedAdd h.offset
        (Int64.ofNat (min n (h.content.length - h.offset.toInt.toNat))) = some after.offset := by
      rw [checkedAdd_eq_some_iff, hcount, hoffset]
    have hdata : (h.content.drop h.offset.toInt.toNat).take
        (min n (h.content.length - h.offset.toInt.toNat)) =
        (h.content.drop h.offset.toInt.toNat).take n := by
      rw [← List.length_drop, ← List.take_eq_take_min]
    rw [if_pos (by omega), slice?_of_le (by omega), Option.bind_some, hmoved, Option.map_some,
      setOffset_offset hrecord, hdata]

end Handle

/-- **A handle is a mathematical cursor.** On a content that fits the word, whatever is asked of a
handle and in whatever order, each call gets what it gets of a cursor that is a whole number and is
moved by exact sums, and the handle ends where that cursor does. There no read adds up to more than
a word or cuts beyond the content. -/
theorem handle_refines_cursor (h : Handle) (calls : List HandleCall)
    (hfits : h.content.length < 2 ^ 63) :
    List.Forall₂ (HandleAnswer.Tells h.record.value.absolutePath) (h.answerAll calls).1
        (cursorAnswerAll h.content h.offset.toInt calls).1 ∧
      (h.answerAll calls).2.offset.toInt = (cursorAnswerAll h.content h.offset.toInt calls).2 ∧
      (h.answerAll calls).2.record = h.record ∧
      ∀ n, (h.answerAll calls).2.readChecked? n = some ((h.answerAll calls).2.read n) := by
  obtain ⟨htells, hoffset, hrecord⟩ := Handle.answerAll_refines hfits calls
  have hcontent := Handle.content_eq_of_record hrecord
  exact ⟨htells, hoffset, hrecord, fun n => Handle.readChecked?_eq (hcontent ▸ hfits) n⟩

/-- A handle on three bytes. -/
def wanderingHandle : Handle where
  record := ⟨0,
    { logicalName := .ofString "a.yaml"
      absolutePath := .ofString "/a.yaml"
      content := [0x61, 0x62, 0x63] }⟩

/-- Before the start and back, beyond what a word holds, and to its end. -/
def wanderingCalls : List HandleCall :=
  [.setOffset (-4), .read 2, .seek (.current 3), .seek (.current 5), .read 9,
    .seek (.start (2 ^ 63)), .seek (.fromEnd Int64.maxValue), .seek (.start (2 ^ 63 - 1)), .read 1]

/-- The failures leave the cursor where it is, and it reads on from there. -/
theorem handle_refines_cursor_wandering :
    List.Forall₂ (HandleAnswer.Tells (.ofString "/a.yaml"))
        (wanderingHandle.answerAll wanderingCalls).1
        [.moved, .read (.error (-4)), .seek none, .seek (some 1), .read (.ok [0x62, 0x63]),
          .seek none, .seek none, .seek (some (2 ^ 63 - 1)), .read (.ok [])] ∧
      (wanderingHandle.answerAll wanderingCalls).2.offset.toInt = 2 ^ 63 - 1 := by
  have hcursor : cursorAnswerAll [0x61, 0x62, 0x63] 0 wanderingCalls =
      ([.moved, .read (.error (-4)), .seek none, .seek (some 1), .read (.ok [0x62, 0x63]),
        .seek none, .seek none, .seek (some (2 ^ 63 - 1)), .read (.ok [])], 2 ^ 63 - 1) := by
    decide +kernel
  obtain ⟨htells, hoffset, -⟩ :=
    handle_refines_cursor wanderingHandle wanderingCalls (by decide)
  have hstart : cursorAnswerAll wanderingHandle.content wanderingHandle.offset.toInt
      wanderingCalls = cursorAnswerAll [0x61, 0x62, 0x63] 0 wanderingCalls := rfl
  rw [hstart, hcursor] at htells hoffset
  exact ⟨htells, hoffset⟩

end DocDrive
