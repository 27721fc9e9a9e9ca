import DocDrive.Path

/-!
# Components and spellings

`Path.components` reads what a path means and `Path.ofComponents` spells it plainly. The two undo
each other on component lists of the shape that paths have (`Spelled`).

* `components_spelled` — every path has components of that shape.
* `components_ofComponents` — components spelled plainly are read back as they were.
* `components_join` — joining a relative path appends its steps, and the start is kept.
* `join_ofComponents` — one more step, joined to a plain spelling, is spelled plainly.
-/

namespace DocDrive

/-! ## Shapes -/

/-- A name that one step of a path can have. -/
structure IsName (name : Bytes) : Prop where
  nonempty : name ≠ []
  noSlash : Component.slash ∉ name
  notDot : name ≠ [Component.dot]
  notDots : name ≠ [Component.dot, Component.dot]

namespace Component

/-- A component that may stand anywhere in a path. -/
def IsStep : Component → Prop
  | parent => True
  | normal name => IsName name
  | _ => False

variable {c : Component}

theorem IsStep.noSlash (h : c.IsStep) : slash ∉ c.bytes := by
  cases c with
  | root => cases h
  | current => cases h
  | parent => decide
  | normal name => exact IsName.noSlash h

theorem IsStep.bytes_ne_nil (h : c.IsStep) : c.bytes ≠ [] := by
  cases c with
  | root => cases h
  | current => cases h
  | parent => decide
  | normal name => exact IsName.nonempty h

theorem IsStep.bytes_ne_dot (h : c.IsStep) : c.bytes ≠ [dot] := by
  cases c with
  | root => cases h
  | current => cases h
  | parent => decide
  | normal name => exact IsName.notDot h

@[simp] theorem map_bytes_map_normal (names : List Bytes) :
    (names.map normal).map bytes = names := by
  rw [List.map_map]
  exact List.map_id _

theorem isStep_of_mem_names {names : List Bytes} (h : ∀ name ∈ names, IsName name) :
    ∀ c ∈ names.map Component.normal, c.IsStep := by
  intro c hc
  obtain ⟨name, hname, rfl⟩ := List.mem_map.1 hc
  exact h name hname

theorem isStep_of_mem_parents {n : Nat} : ∀ c ∈ List.replicate n Component.parent, c.IsStep := by
  intro c hc
  rw [List.eq_of_mem_replicate hc]
  trivial

end Component

namespace Path

/-- What may stand before the steps of a path. -/
inductive IsStart : List Component → Prop
  | none : IsStart []
  | root : IsStart [.root]
  | current : IsStart [.current]

/-- Components as a path has them: a start, then steps. -/
def Spelled (cs : List Component) : Prop :=
  ∃ start steps, cs = start ++ steps ∧ IsStart start ∧ ∀ c ∈ steps, c.IsStep

variable {p q : Path} {cs : List Component} {c : Component}

/-! ## Segments -/

theorem segments_ne_nil (b : Bytes) : segments b ≠ [] := by
  cases b with
  | nil => simp [segments]
  | cons x rest =>
    rw [segments]
    split
    · simp
    · split <;> simp

theorem segments_noSlash (b : Bytes) : ∀ s ∈ segments b, Component.slash ∉ s := by
  induction b with
  | nil => simp [segments]
  | cons x rest ih =>
    rw [segments]
    split
    · intro s hs
      rcases List.mem_cons.1 hs with rfl | hs
      · simp
      · exact ih s hs
    · rename_i hx
      cases h : segments rest with
      | nil => exact absurd h (segments_ne_nil rest)
      | cons first others =>
        rw [h, List.forall_mem_cons] at ih
        refine List.forall_mem_cons.2 ⟨?_, ih.2⟩
        simp [Ne.symm hx, ih.1]

/-- A slash between two byte strings separates their segments. -/
theorem segments_append (a b : Bytes) :
    segments (a ++ Component.slash :: b) = segments a ++ segments b := by
  induction a with
  | nil => simp [segments]
  | cons x a ih =>
    rw [List.cons_append, segments, segments]
    split
    · rw [ih, List.cons_append]
    · rw [ih]
      cases h : segments a with
      | nil => exact absurd h (segments_ne_nil a)
      | cons first others => rfl

theorem segments_of_noSlash {s : Bytes} (h : Component.slash ∉ s) : segments s = [s] := by
  induction s with
  | nil => rfl
  | cons x s ih =>
    simp only [List.mem_cons, not_or] at h
    rw [segments, if_neg (Ne.symm h.1), ih h.2]

theorem segments_joinBytes {bs : List Bytes} (hne : bs ≠ [])
    (h : ∀ s ∈ bs, Component.slash ∉ s) : segments (joinBytes bs) = bs := by
  induction bs with
  | nil => exact absurd rfl hne
  | cons s bs ih =>
    obtain ⟨hs, hbs⟩ := List.forall_mem_cons.1 h
    cases bs with
    | nil => exact segments_of_noSlash hs
    | cons t bs =>
      rw [joinBytes, segments_append, segments_of_noSlash hs, ih (by simp) hbs]
      · rfl
      · simp

/-- A byte string that ends with a slash has an empty last segment. -/
theorem segments_of_getLast? {a : Bytes} (h : a.getLast? = some Component.slash) :
    ∃ body, a = body ++ [Component.slash] ∧ segments a = segments body ++ [[]] := by
  obtain ⟨body, rfl⟩ := List.getLast?_eq_some_iff.1 h
  exact ⟨body, rfl, segments_append body []⟩

/-! ## A start and steps -/

/-- The component that only the first segment of a path can be. -/
def start (p : Path) : List Component :=
  if p.isAbsolute then [.root]
  else if (segments p.bytes).head? = some [Component.dot] then [.current]
  else []

/-- The components that segments of a path stand for, wherever they are. -/
def steps (p : Path) : List Component := (segments p.bytes).filterMap component?

theorem isStart_start (p : Path) : IsStart p.start := by
  unfold start
  split
  · exact .root
  · split
    · exact .current
    · exact .none

theorem isStep_of_component? {s : Bytes} {c : Component} (hs : Component.slash ∉ s)
    (h : component? s = some c) : c.IsStep := by
  unfold component? at h
  split at h
  · cases h
  rename_i hne
  split at h
  · cases h
  rename_i hdot
  split at h
  · cases h; trivial
  · rename_i hdots
    cases h
    exact ⟨hne, hs, hdot, hdots⟩

theorem component?_bytes {c : Component} (h : c.IsStep) : component? c.bytes = some c := by
  cases c with
  | root => cases h
  | current => cases h
  | parent => decide
  | normal name =>
    obtain ⟨h1, _, h3, h4⟩ := h
    simp [component?, Component.bytes, h1, h3, h4]

theorem isStep_of_mem_steps : ∀ c ∈ p.steps, c.IsStep := by
  intro c hc
  obtain ⟨s, hs, hsc⟩ := List.mem_filterMap.1 hc
  exact isStep_of_component? (segments_noSlash _ s hs) hsc

theorem head?_segments_of_isAbsolute (h : p.isAbsolute = true) :
    ∃ rest, segments p.bytes = [] :: rest := by
  unfold isAbsolute at h
  cases hb : p.bytes with
  | nil => simp [hb] at h
  | cons x rest =>
    have hx : x = Component.slash := by simpa [hb] using h
    exact ⟨segments rest, by rw [segments, if_pos hx]⟩

/-- A path is its start and its steps. -/
theorem components_eq (p : Path) : p.components = p.start ++ p.steps := by
  unfold components start steps
  cases hs : segments p.bytes with
  | nil => exact absurd hs (segments_ne_nil _)
  | cons first rest =>
    simp only [List.head?_cons, Option.some.injEq]
    by_cases habs : p.isAbsolute = true
    · obtain ⟨rest', h⟩ := head?_segments_of_isAbsolute habs
      rw [hs] at h
      cases h
      simp [habs, component?]
    · by_cases hdot : first = [Component.dot]
      · subst hdot
        simp [habs, component?]
      · simp only [habs, hdot, if_false, Bool.false_eq_true, List.filterMap_cons, List.nil_append]
        cases component? first <;> rfl

/-- Every path has components of the shape that paths have. -/
theorem components_spelled (p : Path) : Spelled p.components :=
  ⟨p.start, p.steps, p.components_eq, p.isStart_start, isStep_of_mem_steps⟩

/-! ## Plain spellings -/

theorem ofComponents_of_steps (hcs : ∀ c ∈ cs, c.IsStep) :
    ofComponents cs = ⟨joinBytes (cs.map Component.bytes)⟩ := by
  cases cs with
  | nil => rfl
  | cons c rest =>
    cases c with
    | root => exact (hcs _ List.mem_cons_self).elim
    | current => rfl
    | parent => rfl
    | normal name => rfl

theorem filterMap_component?_map_bytes {cs : List Component} (h : ∀ c ∈ cs, c.IsStep) :
    (cs.map Component.bytes).filterMap component? = cs := by
  induction cs with
  | nil => rfl
  | cons c cs ih =>
    obtain ⟨hc, hcs⟩ := List.forall_mem_cons.1 h
    rw [List.map_cons, List.filterMap_cons, component?_bytes hc, ih hcs]

theorem segments_joinBytes_map {cs : List Component} (hne : cs ≠ []) (h : ∀ c ∈ cs, c.IsStep) :
    segments (joinBytes (cs.map Component.bytes)) = cs.map Component.bytes := by
  apply segments_joinBytes (by simpa using hne)
  intro s hs
  obtain ⟨c, hc, rfl⟩ := List.mem_map.1 hs
  exact (h c hc).noSlash

theorem joinBytes_ne_slash {cs : List Component} (h : ∀ c ∈ cs, c.IsStep) :
    (joinBytes (cs.map Component.bytes)).head? ≠ some Component.slash := by
  cases cs with
  | nil => simp [joinBytes]
  | cons c cs =>
    obtain ⟨hc, _⟩ := List.forall_mem_cons.1 h
    have hhead : (joinBytes ((c :: cs).map Component.bytes)).head? = c.bytes.head? := by
      cases cs with
      | nil => rfl
      | cons d cs =>
        obtain ⟨x, rest, hx⟩ := List.exists_cons_of_ne_nil hc.bytes_ne_nil
        simp [joinBytes, hx]
    rw [hhead]
    intro hslash
    exact hc.noSlash (List.mem_of_mem_head? hslash)

/-- **Components spelled plainly are read back as they were.** -/
theorem components_ofComponents {cs : List Component} (h : Spelled cs) :
    (ofComponents cs).components = cs := by
  obtain ⟨start, steps, rfl, hstart, hsteps⟩ := h
  cases hstart with
  | none =>
    cases steps with
    | nil => decide
    | cons c rest =>
      have hc := (List.forall_mem_cons.1 hsteps).1
      have hof : ofComponents ([] ++ c :: rest) =
          ⟨joinBytes ((c :: rest).map Component.bytes)⟩ := ofComponents_of_steps hsteps
      have habs : (ofComponents ([] ++ c :: rest)).isAbsolute = false := by
        rw [hof]
        simpa [isAbsolute] using joinBytes_ne_slash hsteps
      have hseg : segments (ofComponents ([] ++ c :: rest)).bytes =
          (c :: rest).map Component.bytes := by
        rw [hof]
        exact segments_joinBytes_map (by simp) hsteps
      rw [components_eq, start, Path.steps, habs, hseg, filterMap_component?_map_bytes hsteps]
      simp [hc.bytes_ne_dot]
  | root =>
    have habs : (ofComponents ([.root] ++ steps)).isAbsolute = true := by
      simp [ofComponents, isAbsolute]
    rw [components_eq, start, habs, Path.steps]
    cases steps with
    | nil => decide
    | cons c rest =>
      have hseg : segments (ofComponents ([.root] ++ c :: rest)).bytes =
          [] :: (c :: rest).map Component.bytes := by
        rw [← segments_joinBytes_map (by simp) hsteps]
        simp [ofComponents, segments]
      rw [hseg, List.filterMap_cons, filterMap_component?_map_bytes hsteps]
      simp [component?]
  | current =>
    have hseg : segments (ofComponents ([.current] ++ steps)).bytes =
        [Component.dot] :: steps.map Component.bytes := by
      apply segments_joinBytes (by simp)
      intro s hs
      rcases List.mem_cons.1 hs with rfl | hs
      · decide
      · obtain ⟨c, hc, rfl⟩ := List.mem_map.1 hs
        exact (hsteps c hc).noSlash
    have habs : (ofComponents ([.current] ++ steps)).isAbsolute = false := by
      cases steps <;> simp [ofComponents, isAbsolute, joinBytes, Component.bytes] <;> decide
    rw [components_eq, start, habs, Path.steps, hseg, List.filterMap_cons,
      filterMap_component?_map_bytes hsteps]
    simp [component?]

/-! ## Absolute paths -/

theorem isAbsolute_iff : p.isAbsolute = true ↔ p.components.head? = some .root := by
  rw [components_eq]
  constructor
  · intro h
    simp [start, h]
  · intro h
    cases habs : p.isAbsolute with
    | true => rfl
    | false =>
      exfalso
      unfold start at h
      rw [habs] at h
      split at h
      · contradiction
      split at h
      · simp at h
      · have := isStep_of_mem_steps _ (List.mem_of_mem_head? h)
        cases this

/-! ## Joining -/

theorem bytes_ne_nil_of_isAbsolute {a : Path} (h : a.isAbsolute = true) : a.bytes ≠ [] := by
  intro hnil
  rw [isAbsolute, hnil] at h
  cases h

theorem join_of_isAbsolute (a : Path) {b : Path} (h : b.isAbsolute = true) : a.join b = b := by
  simp [join, h]

/-- The segments of a relative path come after those of the path that it is seen from. -/
theorem segments_join {a b : Path} (ha : a.bytes ≠ []) (hb : b.isAbsolute = false) :
    ∃ front, front ≠ [] ∧ segments (a.join b).bytes = front ++ segments b.bytes ∧
      (segments a.bytes = front ∨ segments a.bytes = front ++ [[]]) := by
  rw [join, hb, if_neg (by simp), if_neg ha]
  split
  · rename_i hlast
    obtain ⟨body, hbody, hseg⟩ := segments_of_getLast? hlast
    refine ⟨segments body, segments_ne_nil body, ?_, Or.inr hseg⟩
    have hbytes : a.bytes ++ b.bytes = body ++ Component.slash :: b.bytes := by simp [hbody]
    rw [hbytes, segments_append]
  · exact ⟨segments a.bytes, segments_ne_nil _, segments_append _ _, Or.inl rfl⟩

theorem isAbsolute_join {a b : Path} (ha : a.bytes ≠ []) (hb : b.isAbsolute = false) :
    (a.join b).isAbsolute = a.isAbsolute := by
  obtain ⟨x, rest, hx⟩ := List.exists_cons_of_ne_nil ha
  rw [join, hb, if_neg (by simp), if_neg ha]
  split <;> simp [isAbsolute, hx]

theorem start_join {a b : Path} (ha : a.bytes ≠ []) (hb : b.isAbsolute = false) :
    (a.join b).start = a.start := by
  obtain ⟨front, hne, hjoin, hfront⟩ := segments_join ha hb
  obtain ⟨s, rest, rfl⟩ := List.exists_cons_of_ne_nil hne
  rw [start, start, isAbsolute_join ha hb, hjoin]
  rcases hfront with h | h <;> simp [h]

/-- **Joining a relative path appends its steps.** -/
theorem components_join {a b : Path} (ha : a.bytes ≠ []) (hb : b.isAbsolute = false) :
    (a.join b).components = a.components ++ b.steps := by
  rw [components_eq, components_eq, start_join ha hb, List.append_assoc]
  obtain ⟨front, _, hjoin, hfront⟩ := segments_join ha hb
  congr 1
  rw [steps, steps, steps, hjoin, List.filterMap_append]
  rcases hfront with h | h <;> simp [h, component?]

/-! ### Plain spellings grow -/

theorem isAbsolute_mk_of_isStep (hc : c.IsStep) : (Path.mk c.bytes).isAbsolute = false := by
  rw [Bool.eq_false_iff, isAbsolute]
  intro hslash
  exact hc.noSlash (List.mem_of_mem_head? (by simpa using hslash))

/-- No slash ends a path that ends with a step. -/
theorem getLast?_joinBytes_map (hne : cs ≠ []) (hcs : ∀ c ∈ cs, c.IsStep) :
    (joinBytes (cs.map Component.bytes)).getLast? ≠ some Component.slash := by
  intro hlast
  obtain ⟨body, -, hbody⟩ := segments_of_getLast? hlast
  rw [segments_joinBytes_map hne hcs] at hbody
  have hempty : [] ∈ cs.map Component.bytes := hbody ▸ List.mem_append_right _ List.mem_cons_self
  obtain ⟨c, hc, hbytes⟩ := List.mem_map.1 hempty
  exact (hcs c hc).bytes_ne_nil hbytes

theorem joinBytes_map_ne_nil (hne : cs ≠ []) (hcs : ∀ c ∈ cs, c.IsStep) :
    joinBytes (cs.map Component.bytes) ≠ [] := by
  intro hnil
  have hsegments := segments_joinBytes_map hne hcs
  rw [hnil] at hsegments
  have hempty : [] ∈ cs.map Component.bytes := hsegments ▸ List.mem_cons_self
  obtain ⟨c, hc, hbytes⟩ := List.mem_map.1 hempty
  exact (hcs c hc).bytes_ne_nil hbytes

theorem joinBytes_append_singleton {names : List Bytes} (hne : names ≠ []) (name : Bytes) :
    joinBytes (names ++ [name]) = joinBytes names ++ Component.slash :: name := by
  induction names with
  | nil => exact absurd rfl hne
  | cons n names ih =>
    cases names with
    | nil => rfl
    | cons m names =>
      have hrest := ih (List.cons_ne_nil _ _)
      change n ++ Component.slash :: joinBytes (m :: names ++ [name]) =
        n ++ Component.slash :: joinBytes (m :: names) ++ Component.slash :: name
      rw [hrest, List.append_assoc, List.cons_append]

theorem joinBytes_map_concat (hne : cs ≠ []) (c : Component) :
    joinBytes ((cs ++ [c]).map Component.bytes) =
      joinBytes (cs.map Component.bytes) ++ Component.slash :: c.bytes := by
  rw [List.map_append, List.map_singleton]
  exact joinBytes_append_singleton (by simpa using hne) c.bytes

/-- **One more step is joined** to steps that are spelled plainly, at a root or not. -/
theorem join_ofComponents {start : List Component} (hstart : start = [] ∨ start = [.root])
    (hcs : ∀ c ∈ cs, c.IsStep) (hc : c.IsStep) :
    (ofComponents (start ++ cs)).join ⟨c.bytes⟩ = ofComponents (start ++ (cs ++ [c])) := by
  have hrelative := isAbsolute_mk_of_isStep hc
  have hmore : ∀ d ∈ cs ++ [c], d.IsStep := by
    intro d hd
    rcases List.mem_append.1 hd with hd | hd
    · exact hcs d hd
    · exact List.mem_singleton.1 hd ▸ hc
  by_cases hne : cs = []
  · subst hne
    rcases hstart with rfl | rfl
    · have hempty : (ofComponents ([] ++ [])).bytes = [] := rfl
      rw [join, hrelative, if_neg Bool.false_ne_true, if_pos hempty]
      exact (ofComponents_of_steps hmore).symm
    · rw [join, hrelative, if_neg Bool.false_ne_true, if_neg (by decide), if_pos (by decide)]
      rfl
  · have hbytes := joinBytes_map_ne_nil hne hcs
    have hlast := getLast?_joinBytes_map hne hcs
    rcases hstart with rfl | rfl
    · rw [List.nil_append, List.nil_append, ofComponents_of_steps hcs, ofComponents_of_steps hmore,
        join, hrelative, if_neg Bool.false_ne_true, if_neg hbytes, if_neg hlast,
        joinBytes_map_concat hne]
    · have hspelled : ∀ ds : List Component, ofComponents ([.root] ++ ds) =
          ⟨Component.slash :: joinBytes (ds.map Component.bytes)⟩ := fun _ => rfl
      have hlast' : (Component.slash :: joinBytes (cs.map Component.bytes)).getLast? ≠
          some Component.slash := by
        rwa [List.getLast?_cons_of_ne_nil hbytes]
      rw [hspelled, hspelled, join, hrelative, if_neg Bool.false_ne_true,
        if_neg (List.cons_ne_nil _ _), if_neg hlast', joinBytes_map_concat hne]
      rfl

end Path

end DocDrive
