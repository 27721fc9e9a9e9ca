import DocDrive.FileTree.Memory
import DocDrive.Proofs.Path.Names

/-!
# Trees in memory as maps

A tree in memory maps addresses to entries, and keeps them in the strict order of their paths
(`MemoryTree.Sorted`). So a look-up tells what a walk will list, and building is described by
look-ups: an insertion changes one address, and parents are added only where nothing is.

* `find?_insert`, `find?_ensure`, `find?_add` — what each step of building changes.
* `Sorted.insert`, `Sorted.add` — the order is kept.
* `Sorted.find?_eq_some_iff` — what is found is what is stored.
* `walk_of_readable` — without unreadable directories the walk lists everything.
* `holds_filled`, `Holds.files_perm` — a tree that was filled with files has these files, in the
  order of their paths.
-/

namespace DocDrive

def MemoryEntry.isDirectory : MemoryEntry → Bool
  | directory _ => true
  | file _ => false

namespace MemoryTree

variable {t : MemoryTree} {p q : Path} {entry e : MemoryEntry} {l : List (Path × MemoryEntry)}

/-! ## Looking up -/

/-- What a list of entries has at an address. -/
theorem find?_put (p : Path) (entry : MemoryEntry) (l : List (Path × MemoryEntry)) (q : Path) :
    ((put p entry l).find? fun e => e.1.same q).map Prod.snd =
      if p.same q then some entry else (l.find? fun e => e.1.same q).map Prod.snd := by
  induction l with
  | nil => cases hq : p.same q <;> simp [put, hq]
  | cons first rest ih =>
    obtain ⟨k, old⟩ := first
    rw [put]
    cases horder : p.order k with
    | lt => cases hq : p.same q <;> simp [hq]
    | eq =>
      have hsame : p.same q = k.same q := by
        rw [Path.same, Path.same, Path.order_eq_iff.1 horder]
      cases hq : k.same q <;> simp [hq, hsame]
    | gt =>
      cases hk : k.same q with
      | false => simp [hk, ih]
      | true =>
        have hne : p.same q = false := by
          rw [Bool.eq_false_iff, Ne, Path.same_iff]
          intro hpq
          rw [Path.order_eq_iff.2 (hpq.trans (Path.same_iff.1 hk).symm)] at horder
          cases horder
        simp [hk, hne]

/-- **An insertion changes one address.** -/
theorem find?_insert (t : MemoryTree) (p : Path) (entry : MemoryEntry) (q : Path) :
    (t.insert p entry).find? q = if p.same q then some entry else t.find? q :=
  find?_put p entry t.entries q

theorem find?_congr (t : MemoryTree) (h : p.same q = true) : t.find? p = t.find? q := by
  rw [find?, find?]
  simp only [Path.same, Path.same_iff.1 h]

/-- A directory is added only where nothing is. -/
theorem find?_ensure (t : MemoryTree) (p q : Path) :
    (t.ensure p).find? q = (t.find? q).or (if p.same q then some (.directory false) else none) := by
  rw [ensure]
  cases hp : t.find? p with
  | some old =>
    cases hq : p.same q with
    | false => simp
    | true =>
      rw [find?_congr t hq] at hp
      simp [hp]
  | none =>
    rw [find?_insert]
    cases hq : p.same q with
    | false => simp
    | true =>
      rw [find?_congr t hq] at hp
      simp [hp]

theorem find?_foldl_ensure (t : MemoryTree) (paths : List Path) (q : Path) :
    (paths.foldl ensure t).find? q =
      (t.find? q).or (if paths.any (·.same q) then some (.directory false) else none) := by
  induction paths generalizing t with
  | nil => simp
  | cons p paths ih =>
    rw [List.foldl_cons, ih, find?_ensure, Option.or_assoc, List.any_cons]
    cases p.same q <;> simp

/-- **An addition sets one address**, and adds directories above it where nothing is. -/
theorem find?_add (t : MemoryTree) (p : Path) (entry : MemoryEntry) (q : Path) :
    (t.add p entry).find? q =
      if p.same q then some entry
      else (t.find? q).or (if q.Above p then some (.directory false) else none) := by
  rw [add, find?_insert, withParents, find?_foldl_ensure]
  simp only [Path.any_ancestors_same_iff]

theorem find?_add_self (t : MemoryTree) (p : Path) (entry : MemoryEntry) :
    (t.add p entry).find? p = some entry := by
  rw [find?_add, if_pos (Path.same_iff.2 rfl)]

/-- Above an addition, what is stored stays, and else there is a readable directory. -/
theorem find?_add_of_above (hq : q.Above p) (entry : MemoryEntry) :
    (t.add p entry).find? q = (t.find? q).or (some (.directory false)) := by
  have hne : ¬p.same q = true := by
    rw [Path.same_iff]
    exact fun hsame => hq.2.2 hsame.symm
  rw [find?_add, if_neg hne, if_pos hq]

/-- An addition leaves what is stored at other addresses. -/
theorem find?_add_of_stored (hne : p.same q = false) (hold : t.find? q = some e)
    (entry : MemoryEntry) : (t.add p entry).find? q = some e := by
  rw [find?_add, if_neg (by rw [hne]; exact Bool.false_ne_true), hold, Option.some_or]

/-- What is stored after an addition is stored there, above it, or was stored before. -/
theorem exists_find?_add (h : (t.add p entry).find? q = some e) :
    p.same q = true ∨ q.Above p ∨ t.find? q = some e := by
  by_cases hsame : p.same q = true
  · exact Or.inl hsame
  · rw [find?_add, if_neg hsame] at h
    rcases Option.or_eq_some_iff.1 h with hold | ⟨-, hnew⟩
    · exact Or.inr (Or.inr hold)
    · by_cases habove : q.Above p
      · exact Or.inr (Or.inl habove)
      · rw [if_neg habove] at hnew
        cases hnew

/-! ## Order -/

/-- The entries stand in the strict order of their paths. -/
def Sorted (t : MemoryTree) : Prop := t.entries.Pairwise fun a b => a.1.order b.1 = .lt

theorem Sorted.empty : Sorted {} := List.Pairwise.nil

/-- Where an entry comes from: it was put in, perhaps in the place of another, or it stays. -/
theorem mem_put {a : Path × MemoryEntry} (h : a ∈ put p entry l) :
    (a.2 = entry ∧ p.components = a.1.components ∧ (a.1 = p ∨ ∃ old, (a.1, old) ∈ l)) ∨ a ∈ l := by
  induction l with
  | nil =>
    obtain rfl := List.mem_singleton.1 h
    exact Or.inl ⟨rfl, rfl, Or.inl rfl⟩
  | cons first rest ih =>
    obtain ⟨k, old⟩ := first
    rw [put] at h
    cases horder : p.order k with
    | lt =>
      rw [horder] at h
      rcases List.mem_cons.1 h with rfl | h
      · exact Or.inl ⟨rfl, rfl, Or.inl rfl⟩
      · exact Or.inr h
    | eq =>
      rw [horder] at h
      rcases List.mem_cons.1 h with rfl | h
      · exact Or.inl ⟨rfl, Path.order_eq_iff.1 horder, Or.inr ⟨old, List.mem_cons_self⟩⟩
      · exact Or.inr (List.mem_cons_of_mem _ h)
    | gt =>
      rw [horder] at h
      rcases List.mem_cons.1 h with rfl | h
      · exact Or.inr List.mem_cons_self
      · rcases ih h with ⟨he, hp, hk⟩ | h
        · refine Or.inl ⟨he, hp, hk.imp_right fun ⟨old, hold⟩ => ?_⟩
          exact ⟨old, List.mem_cons_of_mem _ hold⟩
        · exact Or.inr (List.mem_cons_of_mem _ h)

theorem pairwise_put (h : l.Pairwise fun a b => a.1.order b.1 = .lt) (p : Path)
    (entry : MemoryEntry) : (put p entry l).Pairwise fun a b => a.1.order b.1 = .lt := by
  induction l with
  | nil => exact List.pairwise_singleton _ _
  | cons first rest ih =>
    obtain ⟨k, old⟩ := first
    obtain ⟨hfirst, hrest⟩ := List.pairwise_cons.1 h
    rw [put]
    cases horder : p.order k with
    | lt =>
      refine List.pairwise_cons.2 ⟨fun a ha => ?_, h⟩
      rcases List.mem_cons.1 ha with rfl | ha
      · exact horder
      · exact Path.order_lt_trans horder (hfirst a ha)
    | eq => exact List.pairwise_cons.2 ⟨hfirst, hrest⟩
    | gt =>
      refine List.pairwise_cons.2 ⟨fun a ha => ?_, ih hrest⟩
      rcases mem_put ha with ⟨-, hp, -⟩ | ha
      · rw [Path.order_gt_iff] at horder
        rw [Path.order, ← hp]
        exact horder
      · exact hfirst a ha

theorem Sorted.insert (h : t.Sorted) (p : Path) (entry : MemoryEntry) : (t.insert p entry).Sorted :=
  pairwise_put h p entry

theorem Sorted.ensure (h : t.Sorted) (p : Path) : (t.ensure p).Sorted := by
  rw [MemoryTree.ensure]
  split
  · exact h
  · exact h.insert p _

theorem Sorted.foldl_ensure (h : t.Sorted) (paths : List Path) :
    (paths.foldl MemoryTree.ensure t).Sorted := by
  induction paths generalizing t with
  | nil => exact h
  | cons p paths ih => exact ih (h.ensure p)

/-- **Building keeps the order.** -/
theorem Sorted.add (h : t.Sorted) (p : Path) (entry : MemoryEntry) : (t.add p entry).Sorted :=
  (h.foldl_ensure p.ancestors).insert p entry

/-- **What is found is what is stored** under a spelling of the path. -/
theorem Sorted.find?_eq_some_iff (h : t.Sorted) :
    t.find? q = some e ↔ ∃ p, (p, e) ∈ t.entries ∧ p.same q = true := by
  rw [find?, Option.map_eq_some_iff]
  constructor
  · rintro ⟨⟨p, e⟩, hfind, rfl⟩
    exact ⟨p, List.mem_of_find?_eq_some hfind, by simpa using List.find?_some hfind⟩
  · rintro ⟨p, hmem, hsame⟩
    refine ⟨(p, e), ?_, rfl⟩
    obtain ⟨front, back, hentries⟩ := List.append_of_mem hmem
    rw [Sorted, hentries, List.pairwise_append] at h
    rw [hentries]
    refine List.find?_eq_some_iff_append.2 ⟨hsame, front, back, rfl, fun a ha => ?_⟩
    -- Whatever stands before comes strictly before, so it is not at the same address.
    have hlt := h.2.2 a ha (p, e) List.mem_cons_self
    rw [Bool.not_eq_true', Bool.eq_false_iff, Ne, Path.same_iff]
    intro ha
    rw [Path.order_eq_iff.2 (ha.trans (Path.same_iff.1 hsame).symm)] at hlt
    cases hlt

/-! ## Spelling -/

/-- The paths of the entries are spelled plainly. -/
def Plain (t : MemoryTree) : Prop := ∀ e ∈ t.entries, Path.ofComponents e.1.components = e.1

theorem Plain.empty : Plain {} := fun e he => by cases he

theorem Plain.insert (h : t.Plain) (hp : Path.ofComponents p.components = p)
    (entry : MemoryEntry) : (t.insert p entry).Plain := by
  intro e he
  rcases mem_put he with ⟨-, -, hpath | ⟨old, hold⟩⟩ | he
  · rw [hpath, hp]
  · exact h (e.1, old) hold
  · exact h e he

theorem Plain.foldl_ensure (h : t.Plain) {paths : List Path}
    (hpaths : ∀ p ∈ paths, Path.ofComponents p.components = p) :
    (paths.foldl ensure t).Plain := by
  induction paths generalizing t with
  | nil => exact h
  | cons p paths ih =>
    obtain ⟨hp, hpaths⟩ := List.forall_mem_cons.1 hpaths
    refine ih ?_ hpaths
    rw [ensure]
    split
    · exact h
    · exact h.insert hp _

theorem Plain.add (h : t.Plain) (hp : Path.ofComponents p.components = p) (entry : MemoryEntry) :
    (t.add p entry).Plain :=
  (h.foldl_ensure fun _ ha => (Path.mem_ancestors_iff.1 ha).1).insert hp entry

/-! ## Walking -/

/-- **Without unreadable directories the walk lists everything.** -/
theorem walk_of_readable (h : ∀ e ∈ t.entries, e.2 ≠ .directory true) :
    t.walk = t.entries.map fun e => { path := e.1, isDirectory := e.2.isDirectory } := by
  obtain ⟨entries⟩ := t
  change walkFrom [] entries = _
  induction entries with
  | nil => rfl
  | cons first rest ih =>
    obtain ⟨hfirst, hrest⟩ := List.forall_mem_cons.1 h
    obtain ⟨p, entry⟩ := first
    have hwalk := ih hrest
    cases entry with
    | file f => simpa [walkFrom, MemoryEntry.isDirectory] using hwalk
    | directory unreadable =>
      cases unreadable with
      | false => simpa [walkFrom, MemoryEntry.isDirectory] using hwalk
      | true => exact absurd rfl hfirst

/-! ## Files -/

/-- The files of a tree, in the order of their paths. -/
def files (t : MemoryTree) : List (Path × MemoryFile) :=
  t.entries.filterMap fun e => match e.2 with
    | .file f => some (e.1, f)
    | .directory _ => none

theorem mem_files_iff {a : Path × MemoryFile} : a ∈ t.files ↔ (a.1, .file a.2) ∈ t.entries := by
  rw [files, List.mem_filterMap]
  constructor
  · rintro ⟨⟨p, entry⟩, hmem, hentry⟩
    cases entry with
    | file f => cases hentry; exact hmem
    | directory unreadable => cases hentry
  · exact fun hmem => ⟨_, hmem, rfl⟩

theorem Sorted.pairwise_files (h : t.Sorted) :
    t.files.Pairwise fun a b => a.1.order b.1 = .lt := by
  refine h.filterMap _ fun e e' hlt a ha b hb => ?_
  obtain ⟨p, entry⟩ := e
  obtain ⟨p', entry'⟩ := e'
  cases entry with
  | directory unreadable => cases ha
  | file f =>
    cases entry' with
    | directory unreadable => cases hb
    | file f' =>
      cases ha
      cases hb
      exact hlt

/-- The files that a walk of everything lists. -/
theorem walk_files_of_readable (h : ∀ e ∈ t.entries, e.2 ≠ .directory true) :
    (t.walk.filter fun e => !e.isDirectory) = t.files.map fun f => { path := f.1 } := by
  rw [walk_of_readable h, files, List.filter_map, List.map_filterMap]
  induction t.entries with
  | nil => rfl
  | cons first rest ih =>
    obtain ⟨p, entry⟩ := first
    cases entry with
    | file f => simpa [MemoryEntry.isDirectory] using ih
    | directory unreadable => simpa [MemoryEntry.isDirectory] using ih

/-! ## Filling -/

/-- A tree with files, added one after the other. -/
def filled (t : MemoryTree) (fill : List (Path × MemoryFile)) : MemoryTree :=
  fill.foldl (fun t f => t.withFile f.1 f.2) t

/-- A tree that was built from files alone. -/
structure Holds (t : MemoryTree) (fill : List (Path × MemoryFile)) : Prop where
  sorted : t.Sorted
  plain : t.Plain
  readable : ∀ q, t.find? q ≠ some (.directory true)
  found : ∀ q f, t.find? q = some (.file f) ↔ ∃ p, (p, f) ∈ fill ∧ p.same q = true

theorem Holds.empty : Holds {} [] :=
  ⟨.empty, .empty, fun q => nofun, fun q f => by simp [find?]⟩

/-- **One more file** at an address where none is. -/
theorem Holds.withFile {fill : List (Path × MemoryFile)} {f : MemoryFile} (h : t.Holds fill)
    (hp : Path.ofComponents p.components = p) (hnew : ∀ a ∈ fill, a.1.same p = false) :
    (t.withFile p f).Holds (fill ++ [(p, f)]) where
  sorted := h.sorted.add p _
  plain := h.plain.add hp _
  readable := by
    intro q
    rw [MemoryTree.withFile, find?_add]
    split
    · nofun
    · intro hq
      rcases Option.or_eq_some_iff.1 hq with hq | ⟨-, hq⟩
      · exact h.readable q hq
      · split at hq <;> cases hq
  found := by
    intro q g
    have hone : (∃ k, (k, g) ∈ fill ++ [(p, f)] ∧ k.same q = true) ↔
        (∃ k, (k, g) ∈ fill ∧ k.same q = true) ∨ g = f ∧ p.same q = true := by
      simp only [List.mem_append, List.mem_singleton, Prod.mk.injEq]
      constructor
      · rintro ⟨k, hmem | ⟨rfl, rfl⟩, hq⟩
        · exact Or.inl ⟨k, hmem, hq⟩
        · exact Or.inr ⟨rfl, hq⟩
      · rintro (⟨k, hmem, hq⟩ | ⟨rfl, hq⟩)
        · exact ⟨k, Or.inl hmem, hq⟩
        · exact ⟨p, Or.inr ⟨rfl, rfl⟩, hq⟩
    rw [MemoryTree.withFile, find?_add, hone, ← h.found]
    cases hq : p.same q with
    | true =>
      -- Nothing was at this address.
      have hnone : t.find? q ≠ some (.file g) := by
        rw [Ne, h.found]
        rintro ⟨k, hmem, hk⟩
        have hkp : k.same p = true := by
          rw [Path.same_iff, Path.same_iff.1 hk, Path.same_iff.1 hq]
        rw [hnew _ hmem] at hkp
        cases hkp
      simp [hnone, eq_comm]
    | false =>
      cases hold : t.find? q with
      | some old => simp
      | none => simp

/-- **A tree that is filled with files has these files.** -/
theorem holds_filled {fill done : List (Path × MemoryFile)} (h : t.Holds done)
    (hplain : ∀ a ∈ fill, Path.ofComponents a.1.components = a.1)
    (hnew : (done ++ fill).Pairwise fun a b => a.1.same b.1 = false) :
    (t.filled fill).Holds (done ++ fill) := by
  induction fill generalizing t done with
  | nil => rwa [List.append_nil]
  | cons first fill ih =>
    obtain ⟨hfirst, hplain⟩ := List.forall_mem_cons.1 hplain
    rw [List.append_cons] at hnew ⊢
    refine ih (h.withFile hfirst ?_) hplain hnew
    rw [List.pairwise_append, List.pairwise_append] at hnew
    exact fun a ha => hnew.1.2.2 a ha first (List.mem_singleton_self _)

theorem Holds.readable_entries {fill : List (Path × MemoryFile)} (h : t.Holds fill) :
    ∀ a ∈ t.entries, a.2 ≠ .directory true := by
  intro a ha hunreadable
  refine h.readable a.1 (h.sorted.find?_eq_some_iff.2 ⟨a.1, ?_, Path.same_iff.2 rfl⟩)
  rw [← hunreadable]
  exact ha

/-- **The files are in the order of their paths**, whatever the order in which they came. -/
theorem Holds.files_perm {fill : List (Path × MemoryFile)} (h : t.Holds fill)
    (hplain : ∀ a ∈ fill, Path.ofComponents a.1.components = a.1) (hnodup : fill.Nodup) :
    t.files.Perm fill := by
  have hsorted := h.sorted.pairwise_files
  have hfiles : t.files.Nodup := hsorted.imp fun hlt heq => by
    rw [heq] at hlt
    exact Path.not_order_lt_self _ hlt
  refine (List.perm_ext_iff_of_nodup hfiles hnodup).2 fun a => ?_
  obtain ⟨p, f⟩ := a
  rw [mem_files_iff]
  constructor
  · intro hmem
    obtain ⟨k, hk, hsame⟩ :=
      (h.found p f).1 (h.sorted.find?_eq_some_iff.2 ⟨p, hmem, Path.same_iff.2 rfl⟩)
    have hkp : k = p := Path.eq_of_same (hplain _ hk) (h.plain _ hmem) hsame
    rwa [← hkp]
  · intro hmem
    obtain ⟨k, hk, hsame⟩ :=
      h.sorted.find?_eq_some_iff.1 ((h.found p f).2 ⟨p, hmem, Path.same_iff.2 rfl⟩)
    have hkp : k = p := Path.eq_of_same (h.plain _ hk) (hplain _ hmem) hsame
    rwa [← hkp]

end MemoryTree

end DocDrive
