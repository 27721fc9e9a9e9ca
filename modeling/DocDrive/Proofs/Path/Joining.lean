import DocDrive.Proofs.Path.Names
import Mathlib.Data.List.Induction

/-!
# Normal forms of joined paths

The stack of `Path.normalize` runs over a joined path as it runs over the one part and then over the
other. What it has left of a part does to any stack what the part itself does, so that each part may
be put into normal form first.

* `Path.normalize_eq_foldl_enter` — the normal form can be spelled in place, one component at a time.
* `Path.normalize_join_left`, `Path.normalize_join_right` — either part may be normal before.
* `Path.exists_names_normalize` — how a normal form is spelled.
* `normalization_canonical` — one spelling for each meaning, and what joining makes of it.
-/

namespace DocDrive

namespace Path

variable {a b p q : Path} {stack cs : List Component} {c : Component}

/-! ## Running over a joined path -/

@[simp] theorem pushStep_current (stack : List Component) : pushStep stack .current = stack := by
  cases stack with
  | nil => rfl
  | cons c below => cases c <;> rfl

/-- The start of a relative path does nothing to a stack. -/
theorem foldl_components (hp : p.isAbsolute = false) (stack : List Component) :
    p.components.foldl pushStep stack = p.steps.foldl pushStep stack := by
  have hstart : p.start.foldl pushStep stack = stack := by
    unfold start
    rw [hp, if_neg Bool.false_ne_true]
    split
    · exact pushStep_current stack
    · rfl
  rw [components_eq, List.foldl_append, hstart]

/-- **A joined path runs like its parts, one after the other.** -/
theorem foldl_join (a : Path) (hb : b.isAbsolute = false) :
    (a.join b).components.foldl pushStep [] =
      b.components.foldl pushStep (a.components.foldl pushStep []) := by
  by_cases ha : a.bytes = []
  · have hjoin : a.join b = b := by rw [join, hb, if_neg Bool.false_ne_true, if_pos ha]
    have hempty : a.components = [] := by
      obtain ⟨bytes⟩ := a
      obtain rfl : bytes = [] := ha
      rfl
    rw [hjoin, hempty, List.foldl_nil]
  · rw [components_join ha hb, List.foldl_append, foldl_components hb]

/-- The stack is what the normal form depends on. -/
theorem normalize_congr
    (h : p.components.foldl pushStep [] = q.components.foldl pushStep []) :
    p.normalize = q.normalize := by
  rw [normalize, normalize, normalComponents, normalComponents, h]

/-- A normal form runs into the stack that it was spelled from. -/
theorem foldl_normalize (p : Path) :
    p.normalize.components.foldl pushStep [] = p.components.foldl pushStep [] := by
  rw [components_normalize, normalComponents]
  exact p.components_spelled.settled.foldl_reverse

/-- The first part of a joined path may be normal before. -/
theorem normalize_join_left (a b : Path) : (a.normalize.join b).normalize = (a.join b).normalize := by
  cases hb : b.isAbsolute with
  | true => rw [join_of_isAbsolute _ hb, join_of_isAbsolute _ hb]
  | false =>
    apply normalize_congr
    rw [foldl_join _ hb, foldl_join _ hb, foldl_normalize]

/-- **What is left of some steps does to any stack what the steps do**: names that are taken back
leave nothing, and the `..` that remain take from the stack below. -/
theorem foldl_reverse_foldl (hcs : ∀ c ∈ cs, c.IsStep) (stack : List Component) :
    (cs.foldl pushStep []).reverse.foldl pushStep stack = cs.foldl pushStep stack := by
  induction cs using List.reverseRecOn with
  | nil => rfl
  | append_singleton cs c ih =>
    have hfront : ∀ d ∈ cs, d.IsStep := fun d hd => hcs d (List.mem_append_left _ hd)
    have hc : c.IsStep := hcs c (List.mem_append_right _ List.mem_cons_self)
    have hroot : Component.root ∉ cs.foldl pushStep [] := by
      refine root_not_mem_foldl List.not_mem_nil fun hmem => ?_
      exact hfront _ hmem
    have ih := ih hfront
    rw [List.foldl_append, List.foldl_append, ← ih, List.foldl_cons, List.foldl_nil, List.foldl_cons,
      List.foldl_nil]
    cases c with
    | root => cases hc
    | current => cases hc
    | normal name => simp
    | parent =>
      generalize cs.foldl pushStep [] = left at hroot
      cases left with
      | nil => rfl
      | cons d below =>
        cases d with
        | root => exact absurd List.mem_cons_self hroot
        | current => simp [pushStep]
        | parent => simp [pushStep]
        | normal name => simp [pushStep]

/-- **The second part of a joined path may be normal before**, even where it leads out of itself. -/
theorem normalize_join_right (a b : Path) :
    (a.join b.normalize).normalize = (a.join b).normalize := by
  cases hb : b.isAbsolute with
  | true =>
    rw [join_of_isAbsolute _ hb, join_of_isAbsolute _ ((isAbsolute_normalize b).trans hb),
      normalize_of_normal (normal_normalize b)]
  | false =>
    have hsteps : b.normalize.components = (b.steps.foldl pushStep []).reverse := by
      rw [components_normalize, normalComponents, foldl_components hb]
    apply normalize_congr
    rw [foldl_join _ hb, foldl_join _ ((isAbsolute_normalize b).trans hb), hsteps,
      foldl_reverse_foldl isStep_of_mem_steps, foldl_components hb]

/-! ## Spelling in place -/

/-- The path after one more component, spelled in place: a root starts again, a name is joined, and
`..` takes a name off, stays at a root, and is joined otherwise. -/
def enter (p : Path) : Component → Path
  | .root => p.join ⟨Component.root.bytes⟩
  | .current => p
  | .parent =>
    match p.components.getLast? with
    | some (.normal _) => p.parent.getD p
    | some .root => p
    | _ => p.join ⟨Component.parent.bytes⟩
  | .normal name => p.join ⟨name⟩

/-! ### The stack in place -/

theorem Settled.join (h : Settled stack) (hc : c.IsStep) :
    (ofComponents stack.reverse).join ⟨c.bytes⟩ = ofComponents (c :: stack).reverse := by
  obtain ⟨start, steps, hsplit, hstart, hsteps⟩ := h.exists_steps
  rw [List.reverse_cons, hsplit, join_ofComponents hstart hsteps hc, List.append_assoc]

/-- **A component does to the spelling what it does to the stack.** -/
theorem Settled.enter (h : Settled stack) (hc : c = .root ∨ c = .current ∨ c.IsStep) :
    (ofComponents stack.reverse).enter c = ofComponents (Path.pushStep stack c).reverse := by
  cases c with
  | root =>
    have hroot : Path.pushStep stack .root = [.root] := by cases stack <;> rfl
    rw [Path.enter, join_of_isAbsolute _ rfl, hroot]
    rfl
  | current => rw [Path.enter, pushStep_current]
  | normal name =>
    have hname : (Component.normal name).IsStep := by simpa using hc
    rw [Path.enter, pushStep_normal]
    exact h.join hname
  | parent =>
    have hcomponents : (ofComponents stack.reverse).components = stack.reverse :=
      components_ofComponents h.spelled
    rw [Path.enter, hcomponents, List.getLast?_reverse]
    cases h with
    | root => rfl
    | parents n =>
      rw [pushStep_replicate_parent, List.replicate_succ]
      have hjoin := (Settled.parents n).join (c := .parent) trivial
      cases n with
      | zero => exact hjoin
      | succ n => exact hjoin
    | @name name below hn hb =>
      have hparent : (ofComponents (.normal name :: below).reverse).parent =
          some (ofComponents below.reverse) := by
        rw [parent, hcomponents]
        simp
      simp only [List.head?_cons]
      rw [hparent]
      rfl

theorem Settled.foldl_enter (h : Settled stack)
    (hcs : ∀ c ∈ cs, c = .root ∨ c = .current ∨ c.IsStep) :
    cs.foldl Path.enter (ofComponents stack.reverse) =
      ofComponents (cs.foldl Path.pushStep stack).reverse := by
  induction cs generalizing stack with
  | nil => rfl
  | cons c cs ih =>
    obtain ⟨hc, hcs⟩ := List.forall_mem_cons.1 hcs
    rw [List.foldl_cons, List.foldl_cons, h.enter hc]
    exact ih (h.pushStep hc) hcs

/-- **The normal form can be spelled in place**, one component at a time. -/
theorem normalize_eq_foldl_enter (p : Path) : p.normalize = p.components.foldl enter .empty :=
  (Settled.empty.foldl_enter p.components_spelled.mem).symm

/-! ## How a normal form is spelled -/

/-- **A normal form is names after a slash, or names after some `..`.** -/
theorem exists_names_normalize (p : Path) :
    ∃ names, (∀ name ∈ names, IsName name) ∧
      (p.isAbsolute = true ∧ p.normalize.bytes = Component.slash :: joinBytes names ∨
        p.isAbsolute = false ∧ ∃ n, p.normalize.bytes =
          joinBytes (List.replicate n [Component.dot, Component.dot] ++ names)) := by
  have hsettled := p.components_spelled.settled
  have habsolute : p.isAbsolute = true ↔ p.normalize.components.head? = some .root := by
    rw [← isAbsolute_iff, isAbsolute_normalize]
  obtain ⟨start, names, hsplit, hstart, hnames⟩ := hsettled.exists_names
  have hbytes := Component.map_bytes_map_normal names
  rw [components_normalize, normalComponents, hsplit] at habsolute
  refine ⟨names, hnames, ?_⟩
  rw [normalize, normalComponents, hsplit]
  rcases hstart with rfl | ⟨n, rfl⟩
  · refine Or.inl ⟨habsolute.2 rfl, ?_⟩
    show Component.slash :: joinBytes ((names.map Component.normal).map Component.bytes) = _
    rw [hbytes]
  · have hroot : (List.replicate n Component.parent ++ names.map Component.normal).head? ≠
        some .root := by
      cases n with
      | zero => cases names <;> simp
      | succ n => simp [List.replicate_succ]
    refine Or.inr ⟨Bool.eq_false_iff.2 fun h => hroot (habsolute.1 h), n, ?_⟩
    have hsteps := List.forall_mem_append.2
      ⟨Component.isStep_of_mem_parents (n := n), Component.isStep_of_mem_names hnames⟩
    rw [ofComponents_of_steps hsteps, List.map_append, hbytes, List.map_replicate]
    rfl

/-- A spelling in which nothing can be left out: no part between slashes is empty, no slash ends it
unless it is all, and no part is `.`. -/
structure IsTidy (p : Path) : Prop where
  noEmpty : ¬[Component.slash, Component.slash] <:+: p.bytes
  noTrailing : p.bytes.getLast? = some Component.slash → p.bytes = [Component.slash]
  noDot : [Component.dot] ∉ segments p.bytes

/-- The parts of a normal form are those of its steps, after an empty one that stands for a root. -/
theorem segments_normalize (p : Path) :
    p.normalize.bytes = [] ∨ p.normalize.bytes = [Component.slash] ∨
      ∃ (front : List Bytes) (steps : List Component),
        segments p.normalize.bytes = front ++ steps.map Component.bytes ∧
        (front = [] ∨ front = [[]]) ∧ ∀ c ∈ steps, c.IsStep := by
  obtain ⟨start, steps, hsplit, hstart, hsteps⟩ := p.components_spelled.settled.exists_steps
  rw [normalize, normalComponents, hsplit]
  by_cases hne : steps = []
  · subst hne
    rcases hstart with rfl | rfl
    · exact Or.inl rfl
    · exact Or.inr (Or.inl rfl)
  · refine Or.inr (Or.inr ?_)
    rcases hstart with rfl | rfl
    · refine ⟨[], steps, ?_, Or.inl rfl, hsteps⟩
      rw [List.nil_append, ofComponents_of_steps hsteps]
      exact segments_joinBytes_map hne hsteps
    · refine ⟨[[]], steps, ?_, Or.inr rfl, hsteps⟩
      rw [← segments_joinBytes_map hne hsteps]
      simp [ofComponents, segments]

/-- An empty part that is not the first is the end of the root. -/
theorem bytes_normalize_of_segments {front back : List Bytes} (hne : front ≠ [])
    (h : segments p.normalize.bytes = front ++ [] :: back) :
    p.normalize.bytes = [Component.slash] := by
  rcases p.segments_normalize with hnil | hroot | ⟨start, steps, hsegments, hstart, hsteps⟩
  · rw [hnil] at h
    obtain ⟨part, rest, rfl⟩ := List.exists_cons_of_ne_nil hne
    simp [segments] at h
  · exact hroot
  · have hempty : [] ∈ steps.map Component.bytes := by
      rw [hsegments] at h
      obtain ⟨part, rest, rfl⟩ := List.exists_cons_of_ne_nil hne
      rcases hstart with rfl | rfl
      · rw [List.nil_append] at h
        exact h ▸ List.mem_append_right _ List.mem_cons_self
      · have hrest : steps.map Component.bytes = rest ++ [] :: back := (List.cons.inj h).2
        exact hrest ▸ List.mem_append_right _ List.mem_cons_self
    obtain ⟨c, hc, hbytes⟩ := List.mem_map.1 hempty
    exact absurd hbytes (hsteps c hc).bytes_ne_nil

theorem isTidy_normalize (p : Path) : p.normalize.IsTidy where
  noEmpty := by
    rintro ⟨front, back, hsplit⟩
    have hsegments : segments p.normalize.bytes = segments front ++ [] :: segments back := by
      rw [← hsplit, List.append_assoc]
      exact segments_append front (Component.slash :: back)
    have hroot := bytes_normalize_of_segments (segments_ne_nil front) hsegments
    rw [hroot] at hsplit
    have hlength := congrArg List.length hsplit
    simp at hlength
    omega
  noTrailing := by
    intro hlast
    obtain ⟨body, -, hsegments⟩ := segments_of_getLast? hlast
    exact bytes_normalize_of_segments (segments_ne_nil body) hsegments
  noDot := by
    intro hdot
    rcases p.segments_normalize with hnil | hroot | ⟨front, steps, hsegments, hfront, hsteps⟩
    · rw [hnil] at hdot
      simp [segments] at hdot
    · rw [hroot] at hdot
      simp [segments] at hdot
    · rw [hsegments] at hdot
      rcases List.mem_append.1 hdot with hdot | hdot
      · rcases hfront with rfl | rfl
        · cases hdot
        · cases List.mem_singleton.1 hdot
      · obtain ⟨c, hc, hbytes⟩ := List.mem_map.1 hdot
        exact (hsteps c hc).bytes_ne_dot hbytes

/-! ## Addresses -/

/-- An address depends on the normal form of the base alone. -/
theorem resolveAgainst_congr {base base' : Path} (h : base'.normalize = base.normalize) (p : Path) :
    base'.resolveAgainst p = base.resolveAgainst p := by
  unfold resolveAgainst
  split
  · rfl
  · rw [← normalize_join_left base', h, normalize_join_left]

/-- What is joined to an absolute base already has the same address. -/
theorem resolveAgainst_join {base : Path} (h : base.isAbsolute = true) (p : Path) :
    base.resolveAgainst (base.join p) = base.resolveAgainst p := by
  cases hp : p.isAbsolute with
  | true => rw [join_of_isAbsolute base hp]
  | false =>
    have hjoin : (base.join p).isAbsolute = true := by
      rw [isAbsolute_join (bytes_ne_nil_of_isAbsolute h) hp, h]
    rw [resolveAgainst, if_pos hjoin, resolveAgainst, hp, if_neg Bool.false_ne_true]

end Path

/-- **Normalization is canonical, and compatible with joining.** The normal form of a path can be
spelled in place, one component at a time. It is absolute exactly if the path is, its own normal
form, and spelled with nothing to leave out: names after a slash, or names after some `..`. Paths
have one normal form exactly if the same steps remain of them; so do two spellings of the same
components. A joined path may be normalized in either part before, and therefore an address seen
from an absolute base stands for itself, is that of the joined path, and depends on the normal form
of the base alone. -/
theorem normalization_canonical :
    (∀ p : Path, p.normalize = p.components.foldl Path.enter .empty ∧
      p.normalize.isAbsolute = p.isAbsolute ∧ p.normalize.normalize = p.normalize ∧
      p.normalize.IsTidy ∧
      ∃ names, (∀ name ∈ names, IsName name) ∧
        (p.isAbsolute = true ∧ p.normalize.bytes = Component.slash :: Path.joinBytes names ∨
          p.isAbsolute = false ∧ ∃ n, p.normalize.bytes =
            Path.joinBytes (List.replicate n [Component.dot, Component.dot] ++ names))) ∧
    (∀ p q : Path, (p.components = q.components → p.normalize = q.normalize) ∧
      (p.normalize = q.normalize ↔
        Path.normalComponents p.components = Path.normalComponents q.components)) ∧
    (∀ a b : Path, (a.join b).normalize = (a.normalize.join b).normalize ∧
      (a.normalize.join b).normalize = (a.join b.normalize).normalize) ∧
    (∀ base p : Path, base.isAbsolute = true →
      base.resolveAgainst (base.resolveAgainst p) = base.resolveAgainst p ∧
      base.resolveAgainst p = base.resolveAgainst (base.join p) ∧
      ∀ base' : Path, base'.normalize = base.normalize →
        base'.resolveAgainst p = base.resolveAgainst p) := by
  refine ⟨fun p => ⟨p.normalize_eq_foldl_enter, p.isAbsolute_normalize, ?_, p.isTidy_normalize,
    p.exists_names_normalize⟩, fun p q => ⟨fun h => ?_, fun h => ?_, fun h => ?_⟩,
    fun a b => ⟨?_, ?_⟩, fun base p hbase => ⟨?_, ?_, fun base' h => ?_⟩⟩
  · exact Path.normalize_of_normal p.normal_normalize
  · rw [Path.normalize, Path.normalize, h]
  · rw [← Path.components_normalize, ← Path.components_normalize, h]
  · rw [Path.normalize, Path.normalize, h]
  · rw [Path.normalize_join_left]
  · rw [Path.normalize_join_left, Path.normalize_join_right]
  · exact Path.resolveAgainst_of_normal base (Path.normal_resolveAgainst base p)
      (Path.isAbsolute_resolveAgainst hbase p)
  · rw [Path.resolveAgainst_join hbase]
  · exact Path.resolveAgainst_congr h p

/-- A name that leads out of a spelling of `/s/a`, seen from another spelling of it. -/
theorem normalization_canonical_outside :
    (Path.ofString "/s//a/.").normalize = (Path.ofString "/s/a").normalize ∧
      (Path.ofString "/s//a/.").resolveAgainst (.ofString "x/../../../../b/") = .ofString "/b" ∧
      (Path.ofString "/s/a").resolveAgainst
        ((Path.ofString "/s/a").join (.ofString "x/../../../../b/")) = .ofString "/b" := by
  obtain ⟨-, hspelling, -, haddress⟩ := normalization_canonical
  have hsame : (Path.ofString "/s//a/.").normalize = (Path.ofString "/s/a").normalize :=
    (hspelling _ _).1 (by decide)
  obtain ⟨-, hjoin, hbase⟩ :=
    haddress (.ofString "/s/a") (.ofString "x/../../../../b/") (by decide)
  have hb : (Path.ofString "/s/a").resolveAgainst (.ofString "x/../../../../b/") =
      .ofString "/b" := by decide
  exact ⟨hsame, (hbase _ hsame).trans hb, hjoin.symm.trans hb⟩

end DocDrive
