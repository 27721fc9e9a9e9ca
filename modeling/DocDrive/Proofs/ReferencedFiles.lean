import DocDrive.Proofs.Path.Names
import DocDrive.Proofs.Targets

/-!
# The files of an index as a sorted set

An index lists the files that its references name in the strict order of paths, and each address
once. So the list is settled by the addresses that are named: how often they are named, in which
order and with which spellings makes no difference.

* `Reference.localFile?_eq_some_iff` — which part of a target names a file.
* `StructuralIndex.pairwise_dropRepeats` — a sorted list without repeats is strictly sorted.
* `StructuralIndex.externalFiles_eq_iff` — two indexes list the same files if they name the same.
* `external_files_canonical` — the list is the sorted set of the files that are named.
-/

namespace DocDrive

/-! ## Names in targets -/

namespace Reference

/-- A file that a target names: its part before the first `#`, or all of it if it has none. The part
is not empty, and no address beyond the file system. -/
structure Names (r : Reference) (f : String) : Prop where
  nonempty : f.toList ≠ []
  noHash : '#' ∉ f.toList
  noScheme : ¬"://".toList <:+: f.toList
  begins : ∃ rest, r.target.toList = f.toList ++ rest ∧ (rest = [] ∨ rest.head? = some '#')

variable {r : Reference} {f : String} {l cs : List Char}

theorem takeWhile_ne_hash_iff : l.takeWhile (· != '#') = cs ↔
    '#' ∉ cs ∧ ∃ rest, l = cs ++ rest ∧ (rest = [] ∨ rest.head? = some '#') := by
  constructor
  · rintro rfl
    refine ⟨fun hmem => ?_, l.dropWhile (· != '#'), List.takeWhile_append_dropWhile.symm, ?_⟩
    · simpa using List.mem_takeWhile_imp hmem
    · cases hrest : l.dropWhile (· != '#') with
      | nil => exact Or.inl rfl
      | cons c rest =>
        have hhead := List.head?_dropWhile_not (· != '#') l
        rw [hrest] at hhead
        simpa using hhead
  · rintro ⟨hcs, rest, rfl, hrest⟩
    have hall : ∀ c ∈ cs, (c != '#') = true := by
      intro c hc
      rw [bne_iff_ne]
      rintro rfl
      exact hcs hc
    rw [List.takeWhile_append_of_pos hall]
    cases rest with
    | nil => simp
    | cons c rest =>
      obtain rfl : c = '#' := by simpa using hrest
      simp

theorem holdsScheme_iff : holdsScheme l = true ↔ "://".toList <:+: l := by
  induction l with
  | nil => simp [holdsScheme]
  | cons c l ih =>
    rw [holdsScheme, Bool.or_eq_true, ih, List.infix_cons_iff, List.isPrefixOf_iff_prefix]

theorem file?_eq_some_iff : r.file? = some f ↔ f.toList ≠ [] ∧ '#' ∉ f.toList ∧
    ∃ rest, r.target.toList = f.toList ++ rest ∧ (rest = [] ∨ rest.head? = some '#') := by
  rw [← takeWhile_ne_hash_iff]
  unfold file?
  cases r.target.toList.takeWhile (· != '#') with
  | nil => exact ⟨nofun, fun ⟨hne, hnil⟩ => absurd hnil.symm hne⟩
  | cons c cs =>
    rw [Option.some.injEq]
    constructor
    · rintro rfl
      simp
    · rintro ⟨-, hcs⟩
      rw [hcs, String.ofList_toList]

/-- **Which part of a target names a file.** -/
theorem localFile?_eq_some_iff : r.localFile? = some f ↔ r.Names f := by
  unfold localFile?
  rw [Option.bind_eq_some_iff]
  constructor
  · rintro ⟨g, hfile, hscheme⟩
    split at hscheme
    · cases hscheme
    · rename_i hnone
      obtain rfl : g = f := Option.some.inj hscheme
      obtain ⟨hne, hhash, hbegins⟩ := file?_eq_some_iff.1 hfile
      exact ⟨hne, hhash, mt holdsScheme_iff.2 hnone, hbegins⟩
  · rintro ⟨hne, hhash, hscheme, hbegins⟩
    exact ⟨f, file?_eq_some_iff.2 ⟨hne, hhash, hbegins⟩, if_neg (mt holdsScheme_iff.1 hscheme)⟩

end Reference

/-! ## Strict order -/

namespace Path

variable {p q r : Path}

theorem order_lt_of_lt_of_le (hpq : p.order q = .lt) (hqr : q.le r = true) : p.order r = .lt := by
  by_cases hsame : q.same r = true
  · unfold order at hpq ⊢
    rwa [← same_iff.1 hsame]
  · exact order_lt_trans hpq (order_lt_of_le hqr (by simpa using hsame))

/-- Normal paths in strict order are settled by which they are. -/
theorem eq_of_pairwise_of_mem_iff {l l' : List Path} (h : l.Pairwise fun p q => p.order q = .lt)
    (h' : l'.Pairwise fun p q => p.order q = .lt) (hmem : ∀ p, p ∈ l ↔ p ∈ l') : l = l' := by
  have hnodup : ∀ m : List Path, (m.Pairwise fun p q => p.order q = .lt) → m.Nodup := by
    intro m hm
    refine hm.imp fun hlt heq => ?_
    rw [heq] at hlt
    exact not_order_lt_self _ hlt
  refine List.Perm.eq_of_pairwise (fun p q _ _ hpq hqp => ?_) h h'
    ((List.perm_ext_iff_of_nodup (hnodup l h) (hnodup l' h')).2 hmem)
  exact absurd (order_lt_trans hpq hqp) (not_order_lt_self p)

end Path

namespace StructuralIndex

variable {x y : StructuralIndex} {q : Path} {l : List Path}

theorem dropRepeats_sublist (l : List Path) : (dropRepeats l).Sublist l := by
  induction l using dropRepeats.induct with
  | case1 =>
    rw [dropRepeats]
  | case2 p =>
    rw [dropRepeats]
  | case3 p p' rest hsame ih =>
    rw [dropRepeats, if_pos hsame]
    apply ih.trans
    exact (List.sublist_cons_self p' rest).cons_cons p
  | case4 p p' rest hdistinct ih =>
    rw [dropRepeats, if_neg hdistinct]
    exact ih.cons_cons p

/-- **A sorted list without repeats is strictly sorted.** -/
theorem pairwise_dropRepeats (h : l.Pairwise fun p q => p.le q = true) :
    (dropRepeats l).Pairwise fun p q => p.order q = .lt := by
  induction l using dropRepeats.induct with
  | case1 =>
    rw [dropRepeats]
    exact List.Pairwise.nil
  | case2 p =>
    rw [dropRepeats]
    exact List.pairwise_singleton _ _
  | case3 p p' rest hsame ih =>
    rw [dropRepeats, if_pos hsame]
    apply ih
    exact h.sublist ((List.sublist_cons_self p' rest).cons_cons p)
  | case4 p p' rest hdistinct ih =>
    obtain ⟨hfirst, htail⟩ := List.pairwise_cons.1 h
    rw [dropRepeats, if_neg hdistinct]
    refine List.pairwise_cons.2 ⟨fun r hr => ?_, ih htail⟩
    -- The next path comes strictly after the first, and the others no earlier than it.
    have hlt : p.order p' = .lt :=
      Path.order_lt_of_le (hfirst p' List.mem_cons_self) (by simpa using hdistinct)
    rcases List.mem_cons.1 ((dropRepeats_sublist _).subset hr) with rfl | hr
    · exact hlt
    · exact Path.order_lt_of_lt_of_le hlt ((List.pairwise_cons.1 htail).1 r hr)

theorem pairwise_externalFiles (x : StructuralIndex) :
    x.externalFiles.Pairwise fun p q => p.order q = .lt := by
  have htrans : ∀ p q r : Path, p.le q = true → q.le r = true → p.le r = true :=
    fun _ _ _ => Path.le_trans
  unfold externalFiles
  apply pairwise_dropRepeats
  exact List.pairwise_mergeSort htrans Path.le_total _

/-! ## What is named -/

/-- A reference of an index names a file at an address. -/
def Refers (x : StructuralIndex) (q : Path) : Prop :=
  ∃ ref ∈ x.references, ref.isLocal = false ∧
    ∃ f, ref.Names f ∧ x.start.resolveAgainst (.ofString f) = q

theorem mem_externalFiles_iff_refers : q ∈ x.externalFiles ↔ x.Refers q := by
  rw [mem_externalFiles_iff]
  unfold Refers externalReferences
  simp only [List.mem_filter, Bool.not_eq_true', and_assoc, Reference.localFile?_eq_some_iff]

/-- **Two indexes list the same files** exactly if they name the same addresses. -/
theorem externalFiles_eq_iff :
    x.externalFiles = y.externalFiles ↔ ∀ q, x.Refers q ↔ y.Refers q := by
  constructor
  · intro h q
    rw [← mem_externalFiles_iff_refers, h, mem_externalFiles_iff_refers]
  · intro h
    refine Path.eq_of_pairwise_of_mem_iff x.pairwise_externalFiles y.pairwise_externalFiles ?_
    intro q
    rw [mem_externalFiles_iff_refers, h, mem_externalFiles_iff_refers]

theorem start_eq (x : StructuralIndex) :
    x.start = (x.base.or (x.origin.bind Path.parent)).getD .empty := by
  unfold start
  cases x.base <;> rfl

/-- An index with other references. -/
def withReferences (x : StructuralIndex) (references : List Reference) : StructuralIndex :=
  { x with references }

theorem refers_withReferences {references : List Reference} :
    (x.withReferences references).Refers q ↔ ∃ ref ∈ references, ref.isLocal = false ∧
      ∃ f, ref.Names f ∧ x.start.resolveAgainst (.ofString f) = q :=
  Iff.rfl

end StructuralIndex

/-- **The files of an index are a sorted set.** They stand in the strict order of paths, and each is
its own normal form. An address is among them exactly if a reference to another file names it: its
target has a part before the first `#` that is neither empty nor a location beyond the file system,
seen from the base of the index, or else from the directory of its origin. Which references name the
addresses, in which order and how often makes no difference; a second name of one address adds
nothing. -/
theorem external_files_canonical (x : StructuralIndex) :
    (x.externalFiles.Pairwise fun p q => p.order q = .lt) ∧
    (∀ q ∈ x.externalFiles, q.normalize = q) ∧
    (∀ q, q ∈ x.externalFiles ↔ ∃ ref ∈ x.references, ref.isLocal = false ∧ ∃ f, ref.Names f ∧
      ((x.base.or (x.origin.bind Path.parent)).getD .empty).resolveAgainst (.ofString f) = q) ∧
    (∀ y : StructuralIndex, x.externalFiles = y.externalFiles ↔ ∀ q, x.Refers q ↔ y.Refers q) ∧
    (∀ refs refs', (∀ ref, ref ∈ refs ↔ ref ∈ refs') →
      (x.withReferences refs).externalFiles = (x.withReferences refs').externalFiles) ∧
    (∀ refs, ∀ ref ∈ refs, ∀ ref' f f', ref.isLocal = false → ref.Names f → ref'.Names f' →
      x.start.resolveAgainst (.ofString f) = x.start.resolveAgainst (.ofString f') →
      (x.withReferences (ref' :: refs)).externalFiles =
        (x.withReferences refs).externalFiles) := by
  refine ⟨x.pairwise_externalFiles, fun q hq => ?_, fun q => ?_,
    fun y => StructuralIndex.externalFiles_eq_iff, fun refs refs' hsame => ?_,
    fun refs ref href ref' f f' hexternal hnames hnames' heq => ?_⟩
  · exact Path.normalize_of_normal (StructuralIndex.normal_of_mem_externalFiles hq)
  · rw [StructuralIndex.mem_externalFiles_iff_refers, ← x.start_eq]
    rfl
  · rw [StructuralIndex.externalFiles_eq_iff]
    intro q
    simp only [StructuralIndex.refers_withReferences, hsame]
  · rw [StructuralIndex.externalFiles_eq_iff]
    intro q
    rw [StructuralIndex.refers_withReferences, StructuralIndex.refers_withReferences,
      List.exists_mem_cons_iff]
    refine or_iff_right_of_imp ?_
    rintro ⟨-, g, hg, hq⟩
    -- A target names one file only.
    have hsame := Reference.localFile?_eq_some_iff.2 hg
    rw [Reference.localFile?_eq_some_iff.2 hnames'] at hsame
    obtain rfl := Option.some.inj hsame
    exact ⟨ref, href, hexternal, f, hnames, heq.trans hq⟩

/-- A document that names one file twice, itself, and a location beyond the file system. -/
def spelledIndex : StructuralIndex where
  root := ⟨0, 0, .null⟩
  origin := some (.ofString "/s/a.json")
  references := [⟨"/p", "./n/../m.yaml"⟩, ⟨"/q", "m.yaml#/A"⟩, ⟨"/r", "#/p"⟩,
    ⟨"/s", "http://h/x.json"⟩]

/-- The file is listed, and its first name could be left out. The location is not listed. -/
theorem external_files_canonical_spelled :
    Path.ofString "/s/m.yaml" ∈ spelledIndex.externalFiles ∧
    Path.ofString "/s/http:/h/x.json" ∉ spelledIndex.externalFiles ∧
    spelledIndex.externalFiles =
      (spelledIndex.withReferences spelledIndex.references.tail).externalFiles := by
  obtain ⟨-, -, hmem, -, -, hagain⟩ := external_files_canonical spelledIndex
  have hfirst : Reference.Names ⟨"/p", "./n/../m.yaml"⟩ "./n/../m.yaml" :=
    Reference.localFile?_eq_some_iff.1 (by decide)
  have hsecond : Reference.Names ⟨"/q", "m.yaml#/A"⟩ "m.yaml" :=
    Reference.localFile?_eq_some_iff.1 (by decide)
  refine ⟨?_, ?_, ?_⟩
  · rw [hmem]
    exact ⟨⟨"/q", "m.yaml#/A"⟩, by decide, by decide, "m.yaml", hsecond, by decide⟩
  · rw [hmem]
    rintro ⟨ref, href, -, f, hnames, heq⟩
    have hfile := Reference.localFile?_eq_some_iff.2 hnames
    fin_cases href
    · obtain rfl := Option.some.inj (hfile.symm.trans (Reference.localFile?_eq_some_iff.2 hfirst))
      exact absurd heq (by decide)
    · obtain rfl := Option.some.inj (hfile.symm.trans (Reference.localFile?_eq_some_iff.2 hsecond))
      exact absurd heq (by decide)
    · have hlocal : Reference.localFile? ⟨"/r", "#/p"⟩ = none := by decide
      cases hlocal.symm.trans hfile
    · have hbeyond : Reference.localFile? ⟨"/s", "http://h/x.json"⟩ = none := by decide
      cases hbeyond.symm.trans hfile
  · exact hagain _ ⟨"/q", "m.yaml#/A"⟩ (by decide) _ _ _ (by decide) hsecond hfirst (by decide)

end DocDrive
