import DocDrive.Drive.Mount
import Mathlib.Data.List.Nodup

/-!
# Entries as a map

Entries are a list of records by their paths. As long as no path stands in it twice (`Distinct`) the
list is a map: a look-up finds an entry wherever it stands.

* `Distinct.lookup_eq_some_iff` — looking up a path finds the entry at that path.
* `Distinct.joinAll`, `mem_joinAll` — a mount files no path twice and makes up no entry.
* `lookup_joinAll`, `mem_keys_joinAll` — a mount shows the first source that has a path, and loses
  no path.
* `perm_keys_joinAll`, `dropped_joinAll` — every claim is kept or dropped, and dropped where an
  earlier source has the path.
-/

namespace DocDrive.Entries

open scoped List

variable {entries taken source : Entries} {p q : Path} {r : Shared Record}

/-- No path stands twice among the entries. -/
def Distinct (entries : Entries) : Prop := (entries.map Prod.fst).Nodup

theorem Distinct.nodup (h : entries.Distinct) : entries.Nodup := List.Nodup.of_map _ h

theorem Distinct.nil : Distinct [] := List.nodup_nil

/-! ## Looking up -/

theorem has_iff : entries.has p = true ↔ p ∈ entries.map Prod.fst := by
  simp only [has, List.lookup_isSome_iff, List.mem_map, beq_iff_eq]
  exact exists_congr fun e => and_congr_right fun _ => eq_comm

theorem mem_of_lookup (h : entries.lookup p = some r) : (p, r) ∈ entries := by
  obtain ⟨front, back, rfl, _⟩ := List.lookup_eq_some_iff.1 h
  simp

/-- **Looking up a path finds the entry at that path.** -/
theorem Distinct.lookup_eq_some_iff (h : entries.Distinct) :
    entries.lookup p = some r ↔ (p, r) ∈ entries := by
  refine ⟨mem_of_lookup, fun hm => ?_⟩
  obtain ⟨front, back, rfl⟩ := List.append_of_mem hm
  refine List.lookup_eq_some_iff.2 ⟨front, back, rfl, fun e he => ?_⟩
  rw [Distinct, List.map_append, List.nodup_append] at h
  have hne := h.2.2 e.1 (List.mem_map_of_mem he) p (by simp)
  simpa using Ne.symm hne

theorem Distinct.append_singleton (h : entries.Distinct) (hp : ¬entries.has p = true)
    (r : Shared Record) : Distinct (entries ++ [(p, r)]) := by
  rw [has_iff] at hp
  rw [Distinct, List.map_append, List.map_singleton, List.nodup_append]
  refine ⟨h, by simp, fun a ha b hb hab => ?_⟩
  obtain rfl := List.mem_singleton.1 hb
  exact hp (hab ▸ ha)

/-! ## Joining -/

theorem join_cons_of_has (h : taken.has p = true) (r : Shared Record) (rest : Entries) :
    taken.join ((p, r) :: rest) = ((taken.join rest).1, p :: (taken.join rest).2) :=
  if_pos h

theorem join_cons_of_not_has (h : ¬taken.has p = true) (r : Shared Record) (rest : Entries) :
    taken.join ((p, r) :: rest) = Entries.join (taken ++ [(p, r)]) rest :=
  if_neg h

theorem joinAll_cons (taken source : Entries) (rest : List Entries) :
    Entries.joinAll taken (source :: rest) =
      ((Entries.joinAll (taken.join source).1 rest).1,
        (taken.join source).2 ++ (Entries.joinAll (taken.join source).1 rest).2) :=
  rfl

theorem Distinct.join (h : taken.Distinct) (source : Entries) : (taken.join source).1.Distinct := by
  induction source generalizing taken with
  | nil => exact h
  | cons e rest ih =>
    obtain ⟨p, r⟩ := e
    rw [Entries.join]
    split
    · exact ih h
    · rename_i hp
      exact ih (h.append_singleton hp r)

theorem mem_join {e : Path × Shared Record} (h : e ∈ (taken.join source).1) :
    e ∈ taken ∨ e ∈ source := by
  induction source generalizing taken with
  | nil => exact Or.inl h
  | cons f rest ih =>
    obtain ⟨p, r⟩ := f
    rw [Entries.join] at h
    split at h
    · exact (ih h).imp_right (List.mem_cons_of_mem _)
    · rcases ih h with h | h
      · rcases List.mem_append.1 h with h | h
        · exact Or.inl h
        · exact Or.inr (List.mem_singleton.1 h ▸ List.mem_cons_self)
      · exact Or.inr (List.mem_cons_of_mem _ h)

theorem Distinct.joinAll (h : taken.Distinct) (sources : List Entries) :
    (Entries.joinAll taken sources).1.Distinct := by
  induction sources generalizing taken with
  | nil => exact h
  | cons source rest ih => exact ih (h.join source)

theorem mem_joinAll {sources : List Entries} {e : Path × Shared Record}
    (h : e ∈ (Entries.joinAll taken sources).1) : e ∈ taken ∨ ∃ source ∈ sources, e ∈ source := by
  induction sources generalizing taken with
  | nil => exact Or.inl h
  | cons source rest ih =>
    rcases ih h with h | ⟨other, ho, h⟩
    · rcases mem_join h with h | h
      · exact Or.inl h
      · exact Or.inr ⟨source, List.mem_cons_self, h⟩
    · exact Or.inr ⟨other, List.mem_cons_of_mem _ ho, h⟩

/-- **The first entry with a path stays**: those taken before, then those of the source. -/
theorem lookup_join (taken source : Entries) (p : Path) :
    (taken.join source).1.lookup p = (taken.lookup p).or (source.lookup p) := by
  induction source generalizing taken with
  | nil => exact Option.or_none.symm
  | cons e rest ih =>
    obtain ⟨q, r⟩ := e
    rw [List.lookup_cons]
    by_cases hq : taken.has q = true
    · rw [join_cons_of_has hq, ih]
      by_cases hp : p = q
      · -- The path that is dropped is taken.
        subst hp
        obtain ⟨x, hx⟩ := Option.isSome_iff_exists.1 hq
        rw [hx, Option.some_or, Option.some_or]
      · rw [beq_eq_false_iff_ne.2 hp]
    · rw [join_cons_of_not_has hq, ih, List.lookup_append, List.lookup_cons, Option.or_assoc]
      cases p == q <;> rfl

theorem mem_keys_join : p ∈ (taken.join source).1.map Prod.fst ↔
    p ∈ taken.map Prod.fst ∨ p ∈ source.map Prod.fst := by
  rw [← has_iff, ← has_iff, ← has_iff, has, lookup_join, Option.isSome_or, Bool.or_eq_true]
  rfl

/-- **A mount loses no path.** -/
theorem mem_keys_joinAll {sources : List Entries} :
    p ∈ (Entries.joinAll taken sources).1.map Prod.fst ↔
      p ∈ taken.map Prod.fst ∨ ∃ source ∈ sources, p ∈ source.map Prod.fst := by
  induction sources generalizing taken with
  | nil => simp [Entries.joinAll]
  | cons source rest ih =>
    rw [Entries.joinAll, ih, mem_keys_join, or_assoc]
    simp

/-- **A mount shows the first source that has a path.** -/
theorem lookup_joinAll (taken : Entries) (sources : List Entries) (p : Path) :
    (Entries.joinAll taken sources).1.lookup p =
      (taken.lookup p).or (sources.findSome? fun source => source.lookup p) := by
  induction sources generalizing taken with
  | nil => exact Option.or_none.symm
  | cons source rest ih =>
    rw [joinAll_cons, ih, lookup_join, Option.or_assoc, List.findSome?_cons]
    cases source.lookup p <;> rfl

/-! ## Dropped claims -/

/-- Every claim is kept or dropped. -/
theorem perm_keys_join (taken source : Entries) :
    (taken.join source).1.map Prod.fst ++ (taken.join source).2 ~
      taken.map Prod.fst ++ source.map Prod.fst := by
  induction source generalizing taken with
  | nil => exact List.Perm.refl _
  | cons e rest ih =>
    obtain ⟨p, r⟩ := e
    rw [List.map_cons]
    by_cases hp : taken.has p = true
    · rw [join_cons_of_has hp]
      exact List.perm_middle.trans (((ih taken).cons p).trans List.perm_middle.symm)
    · rw [join_cons_of_not_has hp]
      have hkept := ih (taken ++ [(p, r)])
      rwa [List.map_append, List.append_assoc] at hkept

theorem perm_keys_joinAll (taken : Entries) (sources : List Entries) :
    (Entries.joinAll taken sources).1.map Prod.fst ++ (Entries.joinAll taken sources).2 ~
      taken.map Prod.fst ++ sources.flatMap (List.map Prod.fst) := by
  induction sources generalizing taken with
  | nil => exact List.Perm.refl _
  | cons source rest ih =>
    rw [joinAll_cons, List.flatMap_cons]
    rcases hnow : taken.join source with ⟨now, dropped⟩
    have hsource := perm_keys_join taken source
    rw [hnow] at hsource
    calc (Entries.joinAll now rest).1.map Prod.fst ++ (dropped ++ (Entries.joinAll now rest).2)
      _ ~ dropped ++ ((Entries.joinAll now rest).1.map Prod.fst ++ (Entries.joinAll now rest).2) :=
          List.perm_append_comm_assoc _ _ _
      _ ~ dropped ++ (now.map Prod.fst ++ rest.flatMap (List.map Prod.fst)) :=
          (ih now).append_left _
      _ ~ (now.map Prod.fst ++ dropped) ++ rest.flatMap (List.map Prod.fst) := by
          rw [← List.append_assoc]
          exact List.perm_append_comm.append_right _
      _ ~ taken.map Prod.fst ++ (source.map Prod.fst ++ rest.flatMap (List.map Prod.fst)) := by
          rw [← List.append_assoc]
          exact hsource.append_right _

theorem has_join (taken source : Entries) (p : Path) :
    (taken.join source).1.has p = (taken.has p || source.has p) := by
  rw [has, lookup_join, Option.isSome_or]
  rfl

/-- A source with distinct paths loses those that are taken. -/
theorem Distinct.dropped_join (h : source.Distinct) (taken : Entries) :
    (taken.join source).2 = (source.map Prod.fst).filter taken.has := by
  induction source generalizing taken with
  | nil => rfl
  | cons e rest ih =>
    obtain ⟨p, r⟩ := e
    obtain ⟨hfresh, hrest⟩ := List.nodup_cons.1 h
    rw [List.map_cons, List.filter_cons]
    by_cases hp : taken.has p = true
    · rw [join_cons_of_has hp, if_pos hp, ih hrest]
    · rw [join_cons_of_not_has hp, if_neg hp, ih hrest]
      -- The entry that is taken over now has a path that does not come again.
      refine List.filter_congr fun q hq => ?_
      have hne : (q == p) = false := beq_eq_false_iff_ne.2 fun hqp => hfresh (hqp ▸ hq)
      rw [has, has, List.lookup_append, List.lookup_cons, hne, List.lookup_nil, Option.or_none]

/-- The paths of a source that one of those before it has. -/
def claimed (before : List Entries) (source : Entries) : List Path :=
  (source.map Prod.fst).filter fun p => before.any fun other => other.has p

/-- **The dropped claims**, source by source: the paths that an earlier source has. -/
theorem dropped_joinAll {before sources : List Entries} (h : ∀ source ∈ sources, source.Distinct)
    (htaken : ∀ p, taken.has p = before.any fun other => other.has p) :
    (Entries.joinAll taken sources).2 =
      (sources.mapIdx fun i source => source.claimed (before ++ sources.take i)).flatten := by
  induction sources generalizing taken before with
  | nil => rfl
  | cons source rest ih =>
    obtain ⟨hsource, hrest⟩ := List.forall_mem_cons.1 h
    have hnow : ∀ p, (taken.join source).1.has p =
        (before ++ [source]).any fun other => other.has p := by
      intro p
      rw [has_join, htaken, List.any_append, List.any_cons, List.any_nil, Bool.or_false]
    have htake : ∀ i, before ++ (source :: rest).take (i + 1) = before ++ [source] ++ rest.take i := by
      intro i
      rw [List.take_succ_cons, List.append_assoc, List.singleton_append]
    rw [joinAll_cons, List.mapIdx_cons, List.flatten_cons, ih hrest hnow,
      hsource.dropped_join]
    simp only [htake, List.take_zero, List.append_nil]
    congr 1
    exact List.filter_congr fun p _ => htaken p

/-! ## Maps with the same entries -/

theorem Distinct.lookup_congr (h : entries.Distinct) (hperm : entries ~ taken) (p : Path) :
    entries.lookup p = taken.lookup p := by
  have h' : taken.Distinct := (hperm.map Prod.fst).nodup_iff.1 h
  refine Option.ext fun r => ?_
  rw [h.lookup_eq_some_iff, h'.lookup_eq_some_iff, hperm.mem_iff]

/-- Look-ups tell all that there is to know of entries with distinct paths. -/
theorem Distinct.perm_of_lookup (h : entries.Distinct) (h' : taken.Distinct)
    (hlookup : ∀ p, entries.lookup p = taken.lookup p) : entries ~ taken := by
  refine (List.perm_ext_iff_of_nodup h.nodup h'.nodup).2 fun e => ?_
  rw [← h.lookup_eq_some_iff, ← h'.lookup_eq_some_iff, hlookup]

end DocDrive.Entries
