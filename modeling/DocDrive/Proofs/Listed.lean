import DocDrive.Proofs.Encoding
import DocDrive.Proofs.Filtering
import DocDrive.Proofs.Identity
import Mathlib.Data.List.Dedup

/-!
# Names on the allow-list

The allow-list is a list of texts, and a walked path is any byte string: what is compared with the
list is the path as it is shown. Text is shown as it is, so a path that is text is collected only
under its own name. Every ill-formed piece is shown as U+FFFD, so paths that are no texts may be
shown alike, and a single text on the list lets in all of them.

* `display_mem_of_mem_entries` — what is collected is shown as a text on the list.
* `Path.exists_mem_eq_ofString_iff` — such a path is on the list, byte for byte, exactly if it is
  text.
* `eq_of_logicalName_eq`, `eq_of_display_eq` — a drive holds one record under one logical name, and
  shows no two text names alike.
* `listed_names` — all of this for whole discoveries, and how many records a list lets in.
* `lookalike_names_collected` — one text on the list, and two records whose names are not on it.
-/

namespace DocDrive

variable {p q : Path} {filters : List String} {host : Host} {first : Nat} {c : DiscoveryConfig}
  {d : LocalDrive} {e e' : Path × Shared Record}

/-! ## Paths that are text -/

/-- A path is text exactly if it is some text, written out. -/
theorem Path.toString?_eq_some_iff {text : String} :
    p.toString? = some text ↔ Path.ofString text = p := by
  rw [toString?, Utf8.toString?_eq_some_iff, ofString]
  constructor
  · intro h
    rw [h]
  · rintro rfl
    rfl

/-- Text is shown as it is. -/
theorem Path.display_of_toString? {text : String} (h : p.toString? = some text) :
    p.display = text := by
  obtain ⟨chars, hchars, rfl⟩ := Option.map_eq_some_iff.1 h
  rw [display, Utf8.toStringLossy, Utf8.lossy_of_decode? hchars]

/-- **A path that is shown as a text on the list** is on the list, byte for byte, exactly if it is
text. -/
theorem Path.exists_mem_eq_ofString_iff (h : p.display ∈ filters) :
    (∃ f ∈ filters, p = .ofString f) ↔ p.toString?.isSome = true := by
  rw [Option.isSome_iff_exists]
  constructor
  · rintro ⟨f, -, rfl⟩
    exact ⟨f, toString?_eq_some_iff.2 rfl⟩
  · rintro ⟨text, htext⟩
    rw [display_of_toString? htext] at h
    exact ⟨text, h, (toString?_eq_some_iff.1 htext).symm⟩

/-- Paths that are text are told apart by how they are shown. -/
theorem Path.eq_of_display_eq (hp : p.toString?.isSome = true) (hq : q.toString?.isSome = true)
    (h : p.display = q.display) : p = q := by
  obtain ⟨text, htext⟩ := Option.isSome_iff_exists.1 hp
  obtain ⟨text', htext'⟩ := Option.isSome_iff_exists.1 hq
  rw [display_of_toString? htext, display_of_toString? htext'] at h
  rw [← toString?_eq_some_iff.1 htext, ← toString?_eq_some_iff.1 htext', h]

/-! ## Records under a list -/

theorem LocalDrive.distinct_entries (hd : discover host first c = .ok d) : d.entries.Distinct := by
  obtain ⟨walk, -, -, -, hentries, -⟩ := discover_eq_ok hd
  rw [hentries]
  exact Scope.distinct_entries _ _ _ _

/-- **A drive holds one record under one logical name.** -/
theorem eq_of_logicalName_eq (hd : discover host first c = .ok d) (he : e ∈ d.entries)
    (he' : e' ∈ d.entries) (h : e.2.value.logicalName = e'.2.value.logicalName) : e = e' := by
  obtain ⟨w, _, _, -, hholds, hk⟩ := LocalDrive.mem_entries hd he
  obtain ⟨w', _, _, -, hholds', hk'⟩ := LocalDrive.mem_entries hd he'
  have hkey : e.1 = e'.1 := by
    rw [← hk, ← hk', ← hholds.logicalName, ← hholds'.logicalName, h]
  have hdistinct := LocalDrive.distinct_entries hd
  have hlookup := hdistinct.lookup_eq_some_iff.2 he
  rw [hkey, hdistinct.lookup_eq_some_iff.2 he'] at hlookup
  exact Prod.ext hkey (Option.some.inj hlookup).symm

/-- What is collected under a list is shown as a text on it. -/
theorem display_mem_of_mem_entries (hfilters : c.filters = some filters) (hne : filters ≠ [])
    (hd : discover host first c = .ok d) (he : e ∈ d.entries) :
    e.2.value.logicalName.display ∈ filters := by
  obtain ⟨w, _, _, hcollects, hholds, -⟩ := LocalDrive.mem_entries hd he
  obtain ⟨k, hadmitted⟩ := hcollects.admitted
  obtain ⟨-, hallowed, -⟩ := admission_eq_ok_iff.1 hadmitted
  rw [DiscoveryConfig.filters_scope, hfilters, allowed_some_iff hne] at hallowed
  rwa [hholds.logicalName]

/-- The entries whose logical names are text. -/
def textEntries (entries : Entries) : Entries :=
  entries.filter fun e => e.2.value.logicalName.toString?.isSome

/-- Among the records with text names, none is shown like another. -/
theorem eq_of_display_eq (hd : discover host first c = .ok d) (he : e ∈ textEntries d.entries)
    (he' : e' ∈ textEntries d.entries)
    (h : e.2.value.logicalName.display = e'.2.value.logicalName.display) : e = e' := by
  obtain ⟨he, htext⟩ := List.mem_filter.1 he
  obtain ⟨he', htext'⟩ := List.mem_filter.1 he'
  exact eq_of_logicalName_eq hd he he' (Path.eq_of_display_eq htext htext' h)

/-- **There are at most as many records with text names as different texts on the list.** -/
theorem length_textEntries_le (hfilters : c.filters = some filters) (hne : filters ≠ [])
    (hd : discover host first c = .ok d) :
    (textEntries d.entries).length ≤ filters.dedup.length := by
  have hnodup :
      ((textEntries d.entries).map fun e => e.2.value.logicalName.display).Nodup := by
    apply List.Nodup.map_on
    · intro e he e' he' h
      exact eq_of_display_eq hd he he' h
    · exact (LocalDrive.distinct_entries hd).nodup.filter _
  rw [← List.length_map fun e : Path × Shared Record => e.2.value.logicalName.display]
  apply hnodup.length_le_of_subset
  intro text htext
  obtain ⟨e, he, rfl⟩ := List.mem_map.1 htext
  obtain ⟨he, -⟩ := List.mem_filter.1 he
  exact List.mem_dedup.2 (display_mem_of_mem_entries hfilters hne hd he)

/-- **What a list lets in.** Every record of a discovery with a list is shown as a text on it. The
logical name of a record is on the list, byte for byte, exactly if it is text: two records with such
names are never shown alike, and there are no more of them than different texts on the list. So a
drive all of whose names are text holds at most one record for each text on the list. -/
theorem listed_names (host : Host) (first : Nat) (c : DiscoveryConfig) (filters : List String)
    (d : LocalDrive) (hfilters : c.filters = some filters) (hne : filters ≠ [])
    (hd : discover host first c = .ok d) :
    (∀ e ∈ d.entries, e.2.value.logicalName.display ∈ filters) ∧
    (∀ e ∈ d.entries, (∃ f ∈ filters, e.2.value.logicalName = .ofString f) ↔
      e.2.value.logicalName.toString?.isSome = true) ∧
    (∀ e ∈ textEntries d.entries, ∀ e' ∈ textEntries d.entries,
      e.2.value.logicalName.display = e'.2.value.logicalName.display → e = e') ∧
    (textEntries d.entries).length ≤ filters.dedup.length ∧
    ((∀ e ∈ d.entries, e.2.value.logicalName.toString?.isSome = true) →
      d.entries.length ≤ filters.dedup.length) := by
  have hlength := length_textEntries_le hfilters hne hd
  refine ⟨fun e he => display_mem_of_mem_entries hfilters hne hd he, fun e he => ?_,
    fun e he e' he' => eq_of_display_eq hd he he', hlength, fun htext => ?_⟩
  · exact Path.exists_mem_eq_ofString_iff (display_mem_of_mem_entries hfilters hne hd he)
  · rwa [textEntries, List.filter_eq_self.2 htext] at hlength

/-! ## Names that are shown alike -/

/-- A text and two names that are none. All three are shown alike. -/
def lookalikes : List Path :=
  [.ofString "a\uFFFD.yaml", ⟨[0x61, 0xFF, 0x2E, 0x79, 0x61, 0x6D, 0x6C]⟩,
    ⟨[0x61, 0xFE, 0x2E, 0x79, 0x61, 0x6D, 0x6C]⟩]

/-- A tree of files with these names, which all hold an empty mapping. -/
def lookalikeTree : FileTree where
  walk := .ok (lookalikes.map fun p => { path := p })
  openFile _ := .ok { stat := .ok ⟨2, none⟩, ahead := [.bytes [0x7B, 0x7D]] }

/-- The discovery of that tree, with the text on the list. -/
def lookalikeConfig : DiscoveryConfig :=
  { filters := some ["a\uFFFD.yaml"], tree := some lookalikeTree }

theorem discover_lookalikes : ∃ d, discover aliasHost 0 lookalikeConfig = .ok d ∧
    d.entries.map (fun e => e.2.value.logicalName) = lookalikes :=
  ⟨_, rfl, rfl⟩

/-- All three names are let in, and only one of them is counted by the list. -/
theorem listed_names_lookalike : ∃ d, discover aliasHost 0 lookalikeConfig = .ok d ∧
    d.entries.map (fun e => e.2.value.logicalName) = lookalikes ∧
    (∀ e ∈ d.entries, e.2.value.logicalName.display ∈ ["a\uFFFD.yaml"]) ∧
    (textEntries d.entries).length ≤ 1 := by
  obtain ⟨d, hd, hnames⟩ := discover_lookalikes
  obtain ⟨hshown, -, -, hlength, -⟩ := listed_names aliasHost 0 lookalikeConfig ["a\uFFFD.yaml"] d
    rfl (List.cons_ne_nil _ _) hd
  exact ⟨d, hd, hnames, hshown, hlength⟩

/-- **One text on the list, and three records**, two of which have names that are not on it. -/
theorem lookalike_names_collected : ∃ d, discover aliasHost 0 lookalikeConfig = .ok d ∧
    lookalikeConfig.filters = some ["a\uFFFD.yaml"] ∧ d.entries.length = 3 ∧
    ∃ e ∈ d.entries, ∃ e' ∈ d.entries, e ≠ e' ∧
      (∀ f ∈ ["a\uFFFD.yaml"], e.2.value.logicalName ≠ .ofString f) ∧
      ∀ f ∈ ["a\uFFFD.yaml"], e'.2.value.logicalName ≠ .ofString f := by
  obtain ⟨d, hd, hnames⟩ := discover_lookalikes
  obtain ⟨e₀, rest, hentries, -, hrest⟩ := List.map_eq_cons_iff.1 hnames
  obtain ⟨e, rest', rfl, he, hrest'⟩ := List.map_eq_cons_iff.1 hrest
  obtain ⟨e', rest'', rfl, he', hrest''⟩ := List.map_eq_cons_iff.1 hrest'
  refine ⟨d, hd, rfl, ?_, e, by simp [hentries], e', by simp [hentries], ?_, ?_, ?_⟩
  · have hlength := congrArg List.length hnames
    rwa [List.length_map] at hlength
  · rintro rfl
    rw [he] at he'
    exact absurd he' (by decide)
  · rw [he]
    decide
  · rw [he']
    decide

end DocDrive
