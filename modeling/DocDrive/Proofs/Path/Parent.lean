import DocDrive.Proofs.Path.Names

/-!
# A path from its parent and its name

The last step of a path can be taken off and put back. A normal path is therefore the address of its
file name below its parent, in every spelling of that name.

* `components_parent` — the components of a path are those of its parent and its name.
* `components_join_name` — joining a name appends it, also to the empty path.
* `Normal.resolveAgainst_parent` — a normal path is its name seen from its parent.
-/

namespace DocDrive.Path

variable {p q e : Path} {name : Bytes}

/-! ## Taking the last step off -/

/-- A path that ends with a name has a parent. -/
theorem exists_parent (hname : p.fileName = some name) : ∃ q, p.parent = some q := by
  rw [fileName_eq_some] at hname
  unfold parent
  rw [hname]
  exact ⟨_, rfl⟩

/-- **The components of a path are those of its parent and its name.** -/
theorem components_parent (hname : p.fileName = some name) (hq : p.parent = some q) :
    p.components = q.components ++ [.normal name] := by
  rw [fileName_eq_some] at hname
  obtain ⟨front, hfront⟩ := List.getLast?_eq_some_iff.1 hname
  have hq' : q = ofComponents front := by
    unfold parent at hq
    rw [hfront] at hq
    simpa using hq.symm
  have htake : front = p.components.take front.length := by
    rw [hfront, List.take_left]
  have hspelled : Spelled front := by
    rw [htake]
    exact p.components_spelled.take _
  rw [hfront, hq', components_ofComponents hspelled]

theorem isName_of_fileName (hname : p.fileName = some name) : IsName name := by
  rw [fileName_eq_some] at hname
  have hmem : Component.normal name ∈ p.components := List.mem_of_getLast? hname
  rcases p.components_spelled.mem _ hmem with h | h | h
  · cases h
  · cases h
  · exact h

/-! ## Putting a name back -/

/-- A name is a path of one component. -/
theorem components_mk (hname : IsName name) : (Path.mk name).components = [.normal name] := by
  have hnames : ∀ n ∈ [name], IsName n := List.forall_mem_singleton.2 hname
  have hone := components_ofNames hnames
  rwa [ofNames_eq] at hone

theorem same_mk_iff (hname : IsName name) :
    e.same ⟨name⟩ = true ↔ e.components = [.normal name] := by
  rw [same_iff, components_mk hname]

theorem steps_of_components_eq (he : e.components = [.normal name]) : e.steps = [.normal name] := by
  rw [components_eq] at he
  have hstart := e.isStart_start
  cases hs : e.start with
  | nil => simpa [hs] using he
  | cons c cs =>
    rw [hs] at hstart he
    cases hstart with
    | root => simp at he
    | current => simp at he

theorem isAbsolute_of_components_eq (he : e.components = [.normal name]) :
    e.isAbsolute = false := by
  rw [Bool.eq_false_iff, Ne, isAbsolute_iff, he]
  simp

/-- **Joining a name appends it**, also to the empty path. -/
theorem components_join_name (q : Path) (he : e.components = [.normal name]) :
    (q.join e).components = q.components ++ [.normal name] := by
  have habs := isAbsolute_of_components_eq he
  by_cases hq : q.bytes = []
  · have hjoin : q.join e = e := by simp [join, habs, hq]
    obtain ⟨bytes⟩ := q
    obtain rfl : bytes = [] := hq
    rw [hjoin, he]
    rfl
  · rw [components_join hq habs, steps_of_components_eq he]

/-- **A normal path is its name seen from its parent**, however the name is spelled. -/
theorem Normal.resolveAgainst_parent (h : p.Normal) (hname : p.fileName = some name)
    (hq : p.parent = some q) (he : e.components = [.normal name]) : q.resolveAgainst e = p := by
  have habs := isAbsolute_of_components_eq he
  have hjoin : (q.join e).components = p.components := by
    rw [components_join_name q he, components_parent hname hq]
  unfold resolveAgainst
  rw [habs, if_neg Bool.false_ne_true]
  calc (q.join e).normalize
      = ofComponents (normalComponents p.components) := by rw [normalize, hjoin]
    _ = p.normalize := rfl
    _ = p := normalize_of_normal h

end DocDrive.Path
