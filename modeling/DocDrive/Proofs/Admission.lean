import DocDrive.Admission

/-!
# What admission looks at

A class is judged by the name of the file alone, and only a path with a file name has one that can
be read. A path is admitted when none of the three reasons stands against it.
-/

namespace DocDrive

variable {p q : Path} {filters : Option (List String)} {c : FileClass}

namespace FileClass

/-- Paths with one file name have one class. -/
theorem classify_congr (h : p.fileName = q.fileName) : classify p = classify q := by
  unfold classify Path.extension
  rw [h]

theorem fileName_of_classify_ne (h : classify p ≠ unsupported) :
    ∃ name, p.fileName = some name := by
  cases hname : p.fileName with
  | none => exact absurd (by simp [classify, Path.extension, hname]) h
  | some name => exact ⟨name, rfl⟩

end FileClass

/-- **An admitted path** is not hidden, stands on the list and is of a known class. -/
theorem admission_eq_ok_iff : admission filters p = .ok c ↔
    p.isHidden = false ∧ allowed filters p = true ∧ FileClass.classify p = c ∧
      c ≠ .unsupported := by
  unfold admission
  cases hhidden : p.isHidden with
  | true => simp
  | false =>
    cases hallowed : allowed filters p with
    | false => simp
    | true =>
      cases hclass : FileClass.classify p with
      | unsupported => simp [eq_comm]
      | yaml => cases c <;> simp
      | json => cases c <;> simp

/-- Being hidden is the first reason, so it is given for every hidden path and for no other. -/
theorem admission_eq_hidden_iff : admission filters p = .error .hidden ↔ p.isHidden = true := by
  unfold admission
  cases hhidden : p.isHidden with
  | true => simp
  | false =>
    cases hallowed : allowed filters p with
    | false => simp
    | true => cases hclass : FileClass.classify p <;> simp

/-- Without a list, only a hidden path of a known class is turned away. -/
theorem hidden_of_admission_eq_error {reason : Rejection}
    (hunfiltered : filters = none ∨ filters = some [])
    (hclass : FileClass.classify p ≠ .unsupported) (h : admission filters p = .error reason) :
    p.isHidden = true ∧ reason = .hidden := by
  have hallowed : allowed filters p = true := by
    rcases hunfiltered with rfl | rfl
    · rfl
    · rfl
  unfold admission at h
  cases hhidden : p.isHidden with
  | true =>
    rw [hhidden, if_pos rfl] at h
    exact ⟨rfl, (Except.error.inj h).symm⟩
  | false =>
    rw [hhidden, hallowed, if_neg Bool.false_ne_true, if_neg (by decide)] at h
    cases hc : FileClass.classify p with
    | unsupported => exact absurd hc hclass
    | yaml => rw [hc] at h; cases h
    | json => rw [hc] at h; cases h

end DocDrive
