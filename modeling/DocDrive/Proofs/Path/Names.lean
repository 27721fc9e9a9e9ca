import DocDrive.Proofs.Path.Order

/-!
# Relative paths made of names

What lies below a directory has a path of names. Such paths are spelled plainly, grow name by name,
and are told apart and ordered by their names.

* `components_ofNames`, `segments_ofNames` — what a path of names means, and how it is spelled.
* `join_ofNames` — one more name.
* `order_eq_iff`, `order_lt_trans` — the strict order of paths.
* `mem_ancestors_iff` — what stands above a path are the beginnings of its components.
* `any_ancestors_same_iff`, `Above.order_lt` — whatever the spelling, and it comes before the path.
-/

namespace DocDrive

instance (name : Bytes) : Decidable (IsName name) :=
  decidable_of_iff (name ≠ [] ∧ Component.slash ∉ name ∧ name ≠ [Component.dot] ∧
      name ≠ [Component.dot, Component.dot])
    ⟨fun ⟨hne, hslash, hdot, hdots⟩ => ⟨hne, hslash, hdot, hdots⟩,
      fun ⟨hne, hslash, hdot, hdots⟩ => ⟨hne, hslash, hdot, hdots⟩⟩

namespace Path

variable {p q r : Path} {names more : List Bytes} {name : Bytes}

/-! ## Spelling -/

/-- The relative path of names. -/
def ofNames (names : List Bytes) : Path := ofComponents (names.map .normal)

theorem ofNames_eq (names : List Bytes) : ofNames names = ⟨joinBytes names⟩ := by
  have hbytes := Component.map_bytes_map_normal names
  cases names with
  | nil => rfl
  | cons n names => exact congrArg (fun bs => Path.mk (joinBytes bs)) hbytes

theorem spelled_normal (h : ∀ n ∈ names, IsName n) : Spelled (names.map .normal) := by
  exact ⟨[], _, rfl, .none, Component.isStep_of_mem_names h⟩

theorem components_ofNames (h : ∀ n ∈ names, IsName n) :
    (ofNames names).components = names.map .normal :=
  components_ofComponents (spelled_normal h)

theorem isAbsolute_ofNames (h : ∀ n ∈ names, IsName n) : (ofNames names).isAbsolute = false := by
  rw [Bool.eq_false_iff, Ne, isAbsolute_iff, components_ofNames h]
  cases names with
  | nil => simp
  | cons n names => simp

theorem segments_ofNames (h : ∀ n ∈ names, IsName n) (hne : names ≠ []) :
    segments (ofNames names).bytes = names := by
  rw [ofNames_eq]
  exact segments_joinBytes hne fun n hn => (h n hn).noSlash

theorem bytes_ofNames_ne_nil (h : ∀ n ∈ names, IsName n) (hne : names ≠ []) :
    (ofNames names).bytes ≠ [] := by
  have hsteps := Component.isStep_of_mem_names h
  rw [ofNames, ofComponents_of_steps hsteps]
  exact joinBytes_map_ne_nil (by simpa using hne) hsteps

/-- No slash ends a path of names. -/
theorem getLast?_bytes_ofNames (h : ∀ n ∈ names, IsName n) :
    (ofNames names).bytes.getLast? ≠ some Component.slash := by
  have hsteps := Component.isStep_of_mem_names h
  by_cases hne : names = []
  · subst hne
    exact nofun
  · rw [ofNames, ofComponents_of_steps hsteps]
    exact getLast?_joinBytes_map (by simpa using hne) hsteps

/-- **One more name.** -/
theorem join_ofNames (h : ∀ n ∈ names, IsName n) (hname : IsName name) :
    (ofNames names).join ⟨name⟩ = ofNames (names ++ [name]) := by
  have hstep : (Component.normal name).IsStep := hname
  have hjoin := join_ofComponents (Or.inl rfl) (Component.isStep_of_mem_names h) hstep
  rw [ofNames, ofNames, List.map_append, List.map_singleton]
  exact hjoin

/-- What a joined path ends with. -/
theorem exists_bytes_join (p q : Path) : ∃ front, (p.join q).bytes = front ++ q.bytes := by
  unfold join
  split
  · exact ⟨[], rfl⟩
  split
  · exact ⟨[], rfl⟩
  split
  · exact ⟨p.bytes, rfl⟩
  · exact ⟨p.bytes ++ [Component.slash], by simp⟩

theorem mem_bytes_join {b : UInt8} (h : b ∈ (p.join q).bytes) :
    b ∈ p.bytes ∨ b = Component.slash ∨ b ∈ q.bytes := by
  unfold join at h
  split at h
  · exact Or.inr (Or.inr h)
  split at h
  · exact Or.inr (Or.inr h)
  split at h
  · exact (List.mem_append.1 h).imp_right Or.inr
  · rcases List.mem_append.1 h with h | h
    · exact Or.inl h
    · exact Or.inr (List.mem_cons.1 h)

theorem mem_bytes_ofNames {b : UInt8} (h : b ∈ (ofNames names).bytes) :
    b = Component.slash ∨ ∃ n ∈ names, b ∈ n := by
  rw [ofNames_eq] at h
  induction names with
  | nil => cases h
  | cons n rest ih =>
    cases rest with
    | nil => exact Or.inr ⟨n, List.mem_cons_self, h⟩
    | cons m rest =>
      rw [joinBytes] at h
      · rcases List.mem_append.1 h with h | h
        · exact Or.inr ⟨n, List.mem_cons_self, h⟩
        · rcases List.mem_cons.1 h with h | h
          · exact Or.inl h
          · obtain hslash | ⟨k, hk, hb⟩ := ih h
            · exact Or.inl hslash
            · exact Or.inr ⟨k, List.mem_cons_of_mem _ hk, hb⟩
      · exact List.cons_ne_nil _ _

/-! ## The strict order -/

theorem order_eq_compareLex (p q : Path) :
    p.order q = List.compareLex Component.order p.components q.components :=
  orderComponents_eq_compareLex _ _

/-- Paths are level exactly if they name one address. -/
theorem order_eq_iff : p.order q = .eq ↔ p.components = q.components := by
  rw [order_eq_compareLex]
  constructor
  · exact Std.LawfulEqCmp.eq_of_compare
  · intro h
    rw [h]
    exact Std.ReflCmp.compare_self

theorem same_iff : p.same q = true ↔ p.components = q.components := beq_iff_eq

/-- Plain spellings of one address are the same. -/
theorem eq_of_same (hp : ofComponents p.components = p) (hq : ofComponents q.components = q)
    (h : p.same q = true) : p = q := by
  rw [← hp, same_iff.1 h, hq]

theorem order_lt_of_le (h : p.le q = true) (hne : p.same q = false) : p.order q = .lt := by
  unfold le at h
  cases horder : p.order q with
  | lt => rfl
  | eq =>
    rw [same_iff.2 (order_eq_iff.1 horder)] at hne
    cases hne
  | gt =>
    rw [horder] at h
    cases h

theorem order_gt_iff : p.order q = .gt ↔ q.order p = .lt := by
  rw [order_eq_compareLex, order_eq_compareLex]
  exact Std.OrientedCmp.gt_iff_lt

theorem order_lt_trans (hpq : p.order q = .lt) (hqr : q.order r = .lt) : p.order r = .lt := by
  rw [order_eq_compareLex] at *
  exact Std.TransCmp.lt_trans hpq hqr

theorem not_order_lt_self (p : Path) : p.order p ≠ .lt := by
  rw [order_eq_iff.2 rfl]
  decide

/-- **What is sorted by distinct normal paths** is in their strict order. -/
theorem pairwise_lt_mergeSort {α : Type} {l : List (Path × α)}
    (hdistinct : (l.map Prod.fst).Nodup) (hnormal : ∀ a ∈ l, a.1.Normal) :
    (l.mergeSort leFst).Pairwise fun a b => a.1.order b.1 = .lt := by
  have hperm := List.mergeSort_perm l leFst
  have hnodup := (hperm.map Prod.fst).nodup_iff.2 hdistinct
  refine ((pairwise_mergeSort_leFst l).and (List.pairwise_map.1 hnodup)).imp_of_mem ?_
  intro a b ha hb ⟨hle, hne⟩
  have hplain := (hnormal a (hperm.mem_iff.1 ha)).plain
  have hplain' := (hnormal b (hperm.mem_iff.1 hb)).plain
  apply order_lt_of_le hle
  rw [Bool.eq_false_iff]
  exact mt (eq_of_same hplain hplain') hne

/-! ## What stands above -/

theorem Spelled.take {cs : List Component} (h : Spelled cs) (n : Nat) : Spelled (cs.take n) := by
  obtain ⟨start, steps, rfl, hstart, hsteps⟩ := h
  refine ⟨start.take n, steps.take (n - start.length), List.take_append, ?_, ?_⟩
  · cases hstart with
    | none => rw [List.take_nil]; exact .none
    | root =>
      cases n with
      | zero => exact .none
      | succ n => rw [List.take_succ_cons, List.take_nil]; exact .root
    | current =>
      cases n with
      | zero => exact .none
      | succ n => rw [List.take_succ_cons, List.take_nil]; exact .current
  · exact fun c hc => hsteps c (List.mem_of_mem_take hc)

/-- **What stands above a path** is spelled plainly, and is a beginning of its components. -/
theorem mem_ancestors_iff : q ∈ p.ancestors ↔
    ofComponents q.components = q ∧ ∃ n, 0 < n ∧ n < p.components.length ∧
      q.components = p.components.take n := by
  have htake : ∀ i, i < p.components.dropLast.length →
      p.components.dropLast.take (i + 1) = p.components.take (i + 1) := by
    intro i hi
    rw [List.length_dropLast] at hi
    rw [List.dropLast_eq_take, List.take_take, Nat.min_eq_left (by omega)]
  simp only [ancestors, List.mem_map, List.mem_range]
  constructor
  · rintro ⟨i, hi, rfl⟩
    rw [htake i hi, components_ofComponents (p.components_spelled.take _)]
    rw [List.length_dropLast] at hi
    exact ⟨rfl, i + 1, Nat.succ_pos i, by omega, rfl⟩
  · rintro ⟨hplain, n, hpos, hn, hq⟩
    have hlength : n - 1 < p.components.dropLast.length := by
      rw [List.length_dropLast]
      omega
    refine ⟨n - 1, hlength, ?_⟩
    rw [htake _ hlength, Nat.sub_add_cancel hpos, ← hq, hplain]

/-- `q` stands above `p`: it is a beginning of it, and neither empty nor all of it. -/
def Above (q p : Path) : Prop :=
  q.components ≠ [] ∧ q.components <+: p.components ∧ q.components ≠ p.components

instance (q p : Path) : Decidable (q.Above p) :=
  inferInstanceAs (Decidable (q.components ≠ [] ∧ q.components <+: p.components ∧
    q.components ≠ p.components))

theorem startsWith_iff : p.startsWith q = true ↔ q.components <+: p.components :=
  List.isPrefixOf_iff_prefix

/-- **The paths above a path**, in any spelling. -/
theorem any_ancestors_same_iff : (p.ancestors.any fun a => a.same q) = true ↔ q.Above p := by
  simp only [List.any_eq_true, mem_ancestors_iff, same_iff]
  constructor
  · rintro ⟨a, ⟨-, n, hpos, hn, ha⟩, hsame⟩
    rw [hsame] at ha
    refine ⟨?_, ?_, ?_⟩
    · intro hnil
      have hlength := congrArg List.length (ha.symm.trans hnil)
      rw [List.length_take, List.length_nil] at hlength
      omega
    · rw [ha]
      exact List.take_prefix n _
    · intro hall
      have hlength := congrArg List.length (ha.symm.trans hall)
      rw [List.length_take] at hlength
      omega
  · rintro ⟨hne, hfront, hall⟩
    have hspelled := components_ofComponents q.components_spelled
    refine ⟨ofComponents q.components, ⟨by rw [hspelled], q.components.length, ?_, ?_, ?_⟩,
      hspelled⟩
    · exact List.length_pos_iff.2 hne
    · exact Nat.lt_of_le_of_ne hfront.length_le fun hlength => hall (hfront.eq_of_length hlength)
    · rw [hspelled]
      exact List.prefix_iff_eq_take.1 hfront

theorem orderComponents_append (as : List Component) (b : Component) (bs : List Component) :
    orderComponents as (as ++ b :: bs) = .lt := by
  induction as with
  | nil => rfl
  | cons a as ih =>
    have hself : a.order a = .eq := Std.ReflCmp.compare_self
    simp only [List.cons_append, orderComponents, hself]
    exact ih

/-- A proper beginning of a path comes before it. -/
theorem order_lt_of_prefix (hfront : q.components <+: p.components)
    (hne : q.components ≠ p.components) : q.order p = .lt := by
  obtain ⟨more, hmore⟩ := hfront
  cases more with
  | nil => exact absurd (by rwa [List.append_nil] at hmore) hne
  | cons b bs =>
    unfold order
    rw [← hmore]
    exact orderComponents_append _ b bs

theorem Above.trans (hqp : q.Above p) (hpr : p.Above r) : q.Above r := by
  obtain ⟨hne, hfront, hall⟩ := hqp
  refine ⟨hne, hfront.trans hpr.2.1, fun hsame => ?_⟩
  have hlength := hpr.2.1.length_le
  rw [← hsame] at hlength
  exact hall (hfront.eq_of_length_le hlength)

theorem Above.of_same (h : q.Above p) (hsame : p.components = r.components) : q.Above r := by
  unfold Above at h ⊢
  rwa [← hsame]

theorem Above.same_eq_false (h : q.Above p) : q.same p = false := by
  rw [Bool.eq_false_iff, Ne, same_iff]
  exact h.2.2

/-- **What stands above a path comes before it.** -/
theorem Above.order_lt (h : q.Above p) : q.order p = .lt := order_lt_of_prefix h.2.1 h.2.2

end Path

end DocDrive
