import DocDrive.Proofs.Cursor

/-!
# Errors on their way through conversions

A drive error is handed on as an input/output error where a caller expects one, and taken up again
as a drive error further on. What it is as an input/output error never changes on the way
(`toIo_iterate_handedOn`), and that alone decides its kind, which in turn decides whether something
was not there. So the three questions that callers ask have the same answers wherever they ask.

* `kind_toIo`, `isNotFound_iff` — the kind is that of the input/output error, and tells what is not
  there.
* `toIo_iterate_handedOn`, `kind_iterate_handedOn` — any number of conversions.
* `toIo_of_ne_io` — the error that is wrapped stays whole.
* `conversions_keep_kind` — kinds and payloads survive.
-/

namespace DocDrive

namespace DriveError

variable {e e' : DriveError}

/-! ## One conversion -/

/-- The error handed on as an input/output error and taken up again. -/
def handedOn (e : DriveError) : DriveError := .io e.toIo

/-- An input/output error made from a drive error is of the same kind. -/
theorem kind_toIo (e : DriveError) : e.toIo.kind = e.kind := by
  cases e <;> rfl

theorem kind_eq_of_toIo (h : e.toIo = e'.toIo) : e.kind = e'.kind := by
  rw [← kind_toIo, h, kind_toIo]

/-- **Something is not there** exactly if the kind says so. -/
theorem isNotFound_iff : e.isNotFound = true ↔ e.kind = .notFound := by
  cases e <;> simp [isNotFound, kind]

theorem isNotFound_eq_of_kind (h : e.kind = e'.kind) : e.isNotFound = e'.isNotFound := by
  rw [Bool.eq_iff_iff, isNotFound_iff, isNotFound_iff, h]

/-- **What is wrapped stays whole**: an error that is no input/output error itself is the payload of
the one that is made from it. -/
theorem toIo_of_ne_io (h : ∀ source, e ≠ .io source) : e.toIo = .wrapped e.kind e := by
  cases e with
  | io source => exact absurd rfl (h source)
  | _ => rfl

/-- Taken up again, an error is handed on as what it was taken up from. -/
theorem toIo_handedOn (e : DriveError) : e.handedOn.toIo = e.toIo := rfl

/-! ## Any number of conversions -/

/-- **No conversion changes what is handed on.** -/
theorem toIo_iterate_handedOn (e : DriveError) (n : Nat) : (handedOn^[n] e).toIo = e.toIo := by
  induction n with
  | zero => rfl
  | succ n ih => rw [Function.iterate_succ_apply', toIo_handedOn, ih]

theorem kind_iterate_handedOn (e : DriveError) (n : Nat) : (handedOn^[n] e).kind = e.kind :=
  kind_eq_of_toIo (toIo_iterate_handedOn e n)

end DriveError

open DriveError in
/-- **Kinds and payloads survive every conversion.** However often an error is handed on and taken
up again, its kind stays, as a drive error and as an input/output error, and so does the answer to
whether something was not there, which is yes exactly for the kind that says so. Nothing is lost: an
input/output error comes back as it was, and any other error is the payload of the one it becomes.
So a read before the start of a file still tells where the cursor stood. -/
theorem conversions_keep_kind :
    (∀ (e : DriveError) (n : Nat), (handedOn^[n] e).kind = e.kind ∧
      (handedOn^[n] e).toIo.kind = e.kind ∧
      (handedOn^[n] e).isNotFound = e.isNotFound ∧
      (e.isNotFound = true ↔ e.kind = .notFound)) ∧
    (∀ (source : IoError) (n : Nat), (handedOn^[n] (.io source)).toIo = source) ∧
    (∀ (e : DriveError) (n : Nat), (∀ source, e ≠ .io source) →
      (handedOn^[n] e).toIo = .wrapped e.kind e) ∧
    ∀ (h : Handle) (size : Nat), h.offset < 0 → ∃ err, h.read size = (.error err, h) ∧
      ∀ n, (handedOn^[n] (.io err)).toIo =
        .wrapped .invalidInput (.invalidCursor h.record.value.absolutePath h.offset) := by
  refine ⟨fun e n => ?_, fun source n => ?_, fun e n hother => ?_, fun h size hneg => ?_⟩
  · have hkind := kind_iterate_handedOn e n
    exact ⟨hkind, (kind_toIo _).trans hkind, isNotFound_eq_of_kind hkind, isNotFound_iff⟩
  · exact toIo_iterate_handedOn (.io source) n
  · rw [toIo_iterate_handedOn, toIo_of_ne_io hother]
  · rw [Int64.lt_iff_toInt_lt, Int64.toInt_zero] at hneg
    exact ⟨_, Handle.read_of_neg hneg size, fun n => toIo_iterate_handedOn (.io _) n⟩

/-- A walk that found nothing, told by an error that says something else of itself. -/
def misfiled : DriveError :=
  .discovery (.ofString "/w") (.wrapped .notFound (.parse (.ofString "/w/a.yaml") ⟨"no data", []⟩))

/-- A handle on an empty file, before its start. -/
def strayHandle : Handle where
  record := ⟨0, { logicalName := .ofString "a", absolutePath := .ofString "/a", content := [] }⟩
  offset := -3

/-- The kind that was given counts, not that of the error inside; a stray cursor is still told after
two conversions. -/
theorem conversions_keep_kind_misfiled :
    ((DriveError.handedOn^[3] misfiled).kind = .notFound ∧
      (DriveError.handedOn^[3] misfiled).isNotFound = true ∧
      (DriveError.handedOn^[3] misfiled).toIo = .wrapped .notFound misfiled) ∧
    strayHandle.offset < 0 ∧ ∃ err, strayHandle.read 2 = (.error err, strayHandle) ∧
      (DriveError.handedOn^[2] (.io err)).toIo =
        .wrapped .invalidInput (.invalidCursor (.ofString "/a") (-3)) := by
  obtain ⟨hkinds, -, hwhole, hreads⟩ := conversions_keep_kind
  obtain ⟨hkind, -, hnotFound, -⟩ := hkinds misfiled 3
  have hother : ∀ source, misfiled ≠ .io source := nofun
  have hneg : strayHandle.offset < 0 := by decide
  obtain ⟨err, hread, hpayload⟩ := hreads strayHandle 2 hneg
  exact ⟨⟨hkind, hnotFound, hwhole misfiled 3 hother⟩, hneg, err, hread, hpayload 2⟩

end DocDrive
