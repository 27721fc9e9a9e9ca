import DocDrive.Proofs.Path.Components

/-!
# The normal form of paths

`Path.normalize` runs a stack of components over a path. Every stack it can reach is `Settled`:
names above a root, or names above leading `..` steps. What is settled is not changed by another
run, and so the result is a normal path (`Path.Normal`).

* `Settled.exists_names` — what a settled stack spells.
* `normal_normalize`, `normalize_of_normal` — normal paths are what `normalize` yields and keeps.
* `isAbsolute_normalize` — a path stays absolute or relative.
* `normal_resolveAgainst`, `resolveAgainst_of_normal` — addresses are normal and stand for
  themselves.
* `fileName_resolveAgainst` — an address keeps the name of the file.
-/

namespace DocDrive.Path

variable {p base : Path} {name : Bytes} {stack cs : List Component}

/-! ## Settled stacks -/

/-- A stack of components, the last at the head, that `.` and `..` cannot shorten: names above a
root, or above leading `..` steps. -/
inductive Settled : List Component → Prop
  | root : Settled [.root]
  | parents (n : Nat) : Settled (List.replicate n .parent)
  | name {name : Bytes} {below : List Component} :
      IsName name → Settled below → Settled (.normal name :: below)

theorem Settled.empty : Settled [] := Settled.parents 0

@[simp] theorem pushStep_normal (stack : List Component) (name : Bytes) :
    pushStep stack (.normal name) = .normal name :: stack := by
  cases stack with
  | nil => rfl
  | cons c below => cases c <;> rfl

theorem pushStep_replicate_parent (n : Nat) :
    pushStep (List.replicate n .parent) .parent = List.replicate (n + 1) .parent := by
  cases n <;> rfl

/-- What a component of a path does to a settled stack. -/
theorem Settled.pushStep (h : Settled stack) {c : Component}
    (hc : c = .root ∨ c = .current ∨ c.IsStep) : Settled (pushStep stack c) := by
  cases c with
  | root => cases h <;> exact .root
  | current =>
    cases h with
    | root => exact .root
    | parents n => cases n <;> exact .parents _
    | name hn hb => exact .name hn hb
  | parent =>
    cases h with
    | root => exact .root
    | parents n => rw [pushStep_replicate_parent]; exact .parents (n + 1)
    | name hn hb => exact hb
  | normal name =>
    have hname : IsName name := by simpa [Component.IsStep] using hc
    rw [pushStep_normal]
    exact .name hname h

theorem Settled.foldl_pushStep (h : Settled stack)
    (hcs : ∀ c ∈ cs, c = .root ∨ c = .current ∨ c.IsStep) :
    Settled (cs.foldl Path.pushStep stack) := by
  induction cs generalizing stack with
  | nil => exact h
  | cons c cs ih =>
    obtain ⟨hc, hcs⟩ := List.forall_mem_cons.1 hcs
    exact ih (h.pushStep hc) hcs

theorem Spelled.mem (h : Spelled cs) : ∀ c ∈ cs, c = .root ∨ c = .current ∨ c.IsStep := by
  obtain ⟨start, steps, rfl, hstart, hsteps⟩ := h
  intro c hc
  rcases List.mem_append.1 hc with hc | hc
  · cases hstart with
    | none => cases hc
    | root => exact Or.inl (List.mem_singleton.1 hc)
    | current => exact Or.inr (Or.inl (List.mem_singleton.1 hc))
  · exact Or.inr (Or.inr (hsteps c hc))

/-- The steps of a path leave a settled stack. -/
theorem Spelled.settled (h : Spelled cs) : Settled (cs.foldl Path.pushStep []) :=
  Settled.empty.foldl_pushStep h.mem

/-- A settled stack is built again by its own steps. -/
theorem Settled.foldl_reverse (h : Settled stack) :
    stack.reverse.foldl Path.pushStep [] = stack := by
  induction h with
  | root => rfl
  | parents n =>
    induction n with
    | zero => rfl
    | succ n ih =>
      rw [List.reverse_replicate] at ih ⊢
      rw [List.replicate_succ', List.foldl_append, ih, ← List.replicate_succ']
      exact pushStep_replicate_parent n
  | name hn hb ih => simp [ih]

/-- **What a settled stack spells**: names, after a root or after some `..`. -/
theorem Settled.exists_names (h : Settled stack) :
    ∃ (start : List Component) (names : List Bytes),
      stack.reverse = start ++ names.map .normal ∧
      (start = [.root] ∨ ∃ n, start = List.replicate n .parent) ∧ ∀ name ∈ names, IsName name := by
  induction h with
  | root => exact ⟨[.root], [], rfl, Or.inl rfl, by simp⟩
  | parents n => exact ⟨List.replicate n .parent, [], by simp, Or.inr ⟨n, rfl⟩, by simp⟩
  | @name name below hn hb ih =>
    obtain ⟨start, names, hsplit, hstart, hnames⟩ := ih
    refine ⟨start, names ++ [name], by simp [hsplit], hstart, fun m hm => ?_⟩
    rcases List.mem_append.1 hm with hm | hm
    · exact hnames m hm
    · exact List.mem_singleton.1 hm ▸ hn

/-- Steps at a root, or steps alone. -/
theorem Settled.exists_steps (h : Settled stack) :
    ∃ start steps, stack.reverse = start ++ steps ∧ (start = [] ∨ start = [.root]) ∧
      ∀ c ∈ steps, c.IsStep := by
  obtain ⟨start, names, hsplit, hstart, hnames⟩ := h.exists_names
  have hsteps := Component.isStep_of_mem_names hnames
  rcases hstart with rfl | ⟨n, rfl⟩
  · exact ⟨[.root], _, hsplit, Or.inr rfl, hsteps⟩
  · exact ⟨[], _, hsplit, Or.inl rfl,
      List.forall_mem_append.2 ⟨Component.isStep_of_mem_parents, hsteps⟩⟩

/-- What stands in a settled stack is what a path can have. -/
theorem Settled.spelled (h : Settled stack) : Spelled stack.reverse := by
  obtain ⟨start, steps, hsplit, hstart, hsteps⟩ := h.exists_steps
  refine ⟨start, steps, hsplit, ?_, hsteps⟩
  rcases hstart with rfl | rfl
  · exact .none
  · exact .root

/-! ## Normal paths -/

/-- A settled stack spells a normal path. -/
theorem Settled.normal (h : Settled stack) : (ofComponents stack.reverse).Normal where
  plain := by rw [components_ofComponents h.spelled]
  settled := by
    rw [components_ofComponents h.spelled, normalComponents, h.foldl_reverse]

/-- **What `normalize` yields is normal.** -/
theorem normal_normalize (p : Path) : p.normalize.Normal :=
  p.components_spelled.settled.normal

@[simp] theorem components_normalize (p : Path) :
    p.normalize.components = normalComponents p.components :=
  components_ofComponents p.components_spelled.settled.spelled

/-- Normal paths are kept byte for byte. -/
theorem normalize_of_normal (h : p.Normal) : p.normalize = p := by
  rw [normalize, h.settled, h.plain]

theorem Normal.settled_reverse (h : p.Normal) : Settled p.components.reverse := by
  rw [← h.settled, normalComponents, List.reverse_reverse]
  exact p.components_spelled.settled

/-! ## Absolute paths -/

theorem getLast?_pushStep_root (h : stack.getLast? = some .root) (c : Component) :
    (pushStep stack c).getLast? = some .root := by
  cases c with
  | root => cases stack <;> rfl
  | current => cases stack <;> exact h
  | normal name => simp [List.getLast?_cons, h]
  | parent =>
    cases stack with
    | nil => cases h
    | cons d below =>
      cases d with
      | root => exact h
      | current => simp [pushStep, List.getLast?_cons, h]
      | parent => simp [pushStep, List.getLast?_cons, h]
      | normal name =>
        cases below with
        | nil => cases h
        | cons e below => exact h

theorem getLast?_foldl_root (h : stack.getLast? = some .root) (cs : List Component) :
    (cs.foldl pushStep stack).getLast? = some .root := by
  induction cs generalizing stack with
  | nil => exact h
  | cons c cs ih => exact ih (getLast?_pushStep_root h c)

theorem root_not_mem_foldl (hs : Component.root ∉ stack) (h : Component.root ∉ cs) :
    Component.root ∉ cs.foldl pushStep stack := by
  induction cs generalizing stack with
  | nil => exact hs
  | cons c cs ih =>
    simp only [List.mem_cons, not_or] at h
    refine ih ?_ h.2
    cases c with
    | root => exact absurd rfl h.1
    | current => cases stack <;> exact hs
    | normal name => simpa using hs
    | parent =>
      cases stack with
      | nil => decide
      | cons d below =>
        cases d with
        | root => simp at hs
        | current => simpa [pushStep] using hs
        | parent => simpa [pushStep] using hs
        | normal name => simpa [pushStep] using hs

/-- A path stays absolute or relative. -/
@[simp] theorem isAbsolute_normalize (p : Path) : p.normalize.isAbsolute = p.isAbsolute := by
  rw [Bool.eq_iff_iff, isAbsolute_iff, isAbsolute_iff, components_normalize, normalComponents,
    List.head?_reverse]
  constructor
  · intro h
    have hroot : Component.root ∈ p.components := by
      refine Classical.byContradiction fun hno => ?_
      exact root_not_mem_foldl (by simp) hno (List.mem_of_getLast? h)
    rw [components_eq] at hroot ⊢
    rcases List.mem_append.1 hroot with h | h
    · cases hs : p.start with
      | nil => simp [hs] at h
      | cons c cs =>
        have := p.isStart_start
        rw [hs] at this h
        cases this with
        | root => rfl
        | current => simp at h
    · exact (isStep_of_mem_steps _ h).elim
  · intro h
    cases hc : p.components with
    | nil => simp [hc] at h
    | cons c cs =>
      obtain rfl : c = .root := by simpa [hc] using h
      exact getLast?_foldl_root rfl cs

/-- The parent of a normal absolute path is one, too. -/
theorem normal_parent {q : Path} (h : p.Normal) (ha : p.isAbsolute = true)
    (hq : p.parent = some q) : q.Normal ∧ q.isAbsolute = true := by
  rw [isAbsolute_iff] at ha ⊢
  have hset := h.settled_reverse
  obtain ⟨stack, hstack⟩ : ∃ stack, p.components = List.reverse stack :=
    ⟨_, (List.reverse_reverse _).symm⟩
  rw [hstack, List.reverse_reverse] at hset
  rw [parent, hstack] at hq
  rw [hstack] at ha
  cases hset with
  | root => cases hq
  | parents n =>
    rw [List.reverse_replicate] at ha
    exact absurd (List.mem_of_mem_head? ha) (by simp)
  | @name name below hn hb =>
    simp only [List.reverse_cons, List.getLast?_append, List.getLast?_singleton,
      Option.some_or, List.dropLast_concat, Option.some.injEq] at hq
    subst hq
    refine ⟨hb.normal, ?_⟩
    rw [components_ofComponents hb.spelled]
    cases hr : below.reverse with
    | nil => simp [hr] at ha
    | cons c cs => simpa [hr] using ha

/-! ## Addresses -/

theorem normal_resolveAgainst (base p : Path) : (base.resolveAgainst p).Normal := by
  unfold resolveAgainst
  split <;> exact normal_normalize _

theorem isAbsolute_resolveAgainst (hb : base.isAbsolute = true) (p : Path) :
    (base.resolveAgainst p).isAbsolute = true := by
  unfold resolveAgainst
  split
  · rename_i hp
    rw [isAbsolute_normalize, hp]
  · rename_i hp
    have hne := bytes_ne_nil_of_isAbsolute hb
    rw [isAbsolute_normalize, isAbsolute_join hne (by simpa using hp), hb]

/-- An address is absolute exactly if what it is seen from is, or what is seen. -/
theorem isAbsolute_resolveAgainst_iff : (base.resolveAgainst p).isAbsolute = true ↔
    base.isAbsolute = true ∨ p.isAbsolute = true := by
  cases hp : p.isAbsolute with
  | true =>
    rw [resolveAgainst, if_pos hp, isAbsolute_normalize, hp]
    exact ⟨fun _ => Or.inr rfl, fun _ => rfl⟩
  | false =>
    rw [resolveAgainst, hp, if_neg Bool.false_ne_true, isAbsolute_normalize]
    by_cases hb : base.bytes = []
    · -- Nothing is seen from an empty path but the path itself.
      have hjoin : base.join p = p := by rw [join, hp, if_neg Bool.false_ne_true, if_pos hb]
      have hrelative : base.isAbsolute = false := by rw [isAbsolute, hb]; rfl
      rw [hjoin, hp, hrelative]
      simp
    · rw [isAbsolute_join hb hp]
      simp

/-- An address stands for itself. -/
theorem resolveAgainst_of_normal (base : Path) (h : p.Normal) (ha : p.isAbsolute = true) :
    base.resolveAgainst p = p := by
  rw [resolveAgainst, if_pos ha, normalize_of_normal h]

theorem normal_absolutize (cwd p : Path) : (absolutize cwd p).Normal := normal_resolveAgainst cwd p

theorem isAbsolute_absolutize {cwd : Path} (h : p.isAbsolute = true ∨ cwd.isAbsolute = true) :
    (absolutize cwd p).isAbsolute = true := by
  rcases h with h | h
  · rw [absolutize, if_pos h, isAbsolute_normalize, h]
  · exact isAbsolute_resolveAgainst h p

/-! ## File names -/

theorem fileName_eq_some :
    p.fileName = some name ↔ p.components.getLast? = some (.normal name) := by
  unfold fileName
  split
  · rename_i n h
    simp [h]
  · rename_i h
    constructor
    · intro hn; cases hn
    · intro hn; exact absurd hn (h name)

theorem fileName_normalize (h : p.fileName = some name) : p.normalize.fileName = some name := by
  rw [fileName_eq_some] at h ⊢
  obtain ⟨front, hfront⟩ := List.getLast?_eq_some_iff.1 h
  simp [hfront, normalComponents]

theorem fileName_join (base : Path) (h : p.fileName = some name) :
    (base.join p).fileName = some name := by
  cases habs : p.isAbsolute with
  | true => rw [join_of_isAbsolute base habs, h]
  | false =>
    by_cases hb : base.bytes = []
    · rw [join, habs, if_neg (by simp), if_pos hb, h]
    · rw [fileName_eq_some, components_eq] at h
      rw [fileName_eq_some, components_join hb habs]
      cases hsteps : p.steps with
      | nil =>
        rw [hsteps, List.append_nil] at h
        have hstart := p.isStart_start
        cases hs : p.start <;> rw [hs] at hstart h <;> cases hstart <;> simp at h
      | cons c cs => simpa [hsteps, List.getLast?_append, List.getLast?_cons] using h

/-- An address keeps the name of the file. -/
theorem fileName_resolveAgainst (base : Path) (h : p.fileName = some name) :
    (base.resolveAgainst p).fileName = some name := by
  unfold resolveAgainst
  split
  · exact fileName_normalize h
  · exact fileName_normalize (fileName_join base h)

end DocDrive.Path
