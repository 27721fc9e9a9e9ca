import DocDrive.Record

/-!
# Read handles

A handle (`FileHandle`) reads the bytes of a record from a cursor of its own. The cursor is a signed
word: it may be set anywhere (`FileHandle.set_offset`), but a read before the start of the file
fails, and a seek never leaves the cursor before the start.

* `Handle.read` and `Handle.seek` are `FileHandle.read` and `FileHandle.seek`.
-/

namespace DocDrive

structure Handle where
  record : Shared Record
  offset : Int64 := 0
  deriving Repr

inductive SeekTarget where
  | start (position : UInt64)
  | fromEnd (delta : Int64)
  | current (delta : Int64)
  deriving DecidableEq, Repr

namespace Handle

def content (h : Handle) : Bytes := h.record.value.content

def stat (h : Handle) : FileInfo := h.record.value.info

/-- The handle with its cursor somewhere else, in the file or not. -/
def setOffset (h : Handle) (offset : Int64) : Handle := { h with offset }

/-! ## Reading -/

/-- A read of at most `n` bytes, and the handle after it. -/
def read (h : Handle) (n : Nat) : Except IoError Bytes × Handle :=
  if h.offset < 0 then
    (.error (DriveError.invalidCursor h.record.value.absolutePath h.offset).toIo, h)
  else
    let data := (h.content.drop h.offset.toNatClampNeg).take n
    (.ok data, { h with offset := h.offset + Int64.ofNat data.length })

/-- A read of everything up to the end. -/
def readAll (h : Handle) : Except IoError Bytes × Handle := h.read h.content.length

/-! ## Seeking -/

/-- The sum of two words, if it is a word. -/
def checkedAdd (a b : Int64) : Option Int64 :=
  let sum := a.toInt + b.toInt
  if Int64.minValue.toInt ≤ sum ∧ sum ≤ Int64.maxValue.toInt then some (Int64.ofInt sum) else none

/-- The position that a seek asks for, if it is a word. -/
def target? (h : Handle) : SeekTarget → Option Int64
  | .start position =>
    if position.toNat ≤ Int64.maxValue.toInt.toNat then some (Int64.ofNat position.toNat) else none
  | .fromEnd delta => checkedAdd (Int64.ofNat h.content.length) delta
  | .current delta => checkedAdd h.offset delta

def invalidSeek : IoError :=
  .worded .invalidInput "invalid seek to a negative or overflowing position"

/-- A seek: the new position and the handle there, or a refusal and the handle as it was. -/
def seek (h : Handle) (goal : SeekTarget) : Except IoError Int64 × Handle :=
  match h.target? goal with
  | some t => if 0 ≤ t then (.ok t, h.setOffset t) else (.error invalidSeek, h)
  | none => (.error invalidSeek, h)

def debugText (h : Handle) (s : FileState) : String :=
  Quoted.fields "FileHandle" [
    ("record", h.record.value.debugText s),
    ("offset", toString h.offset.toInt)]

end Handle

end DocDrive
