import DocDrive.Proofs.FileTree.Memory
import Mathlib.Data.List.Induction

/-!
# What a walk of a tree in memory reaches

A tree in memory is built by additions, in any order and with any spellings. At an address it has
what the last addition there put in, or else a readable directory above some addition.

The walk goes once over the entries and keeps a list of the unreadable directories that it has met.
A directory comes before everything below it, and so the list tells exactly what is hidden.

* `find?_built` — what additions leave at an address.
* `walkFrom_eq_filter` — the walk leaves out what lies below an unreadable directory.
* `Sorted.reaches_iff` — the addresses that the walk yields.
* `walk_lists_reachable` — the walk of any tree that additions build.
-/

namespace DocDrive

/-- A directory that the walk cannot look into. -/
def MemoryEntry.isUnreadable : MemoryEntry → Bool
  | directory unreadable => unreadable
  | file _ => false

theorem MemoryEntry.isUnreadable_iff {e : MemoryEntry} :
    e.isUnreadable = true ↔ e = .directory true := by
  cases e with
  | file f => simp [isUnreadable]
  | directory unreadable => simp [isUnreadable]

namespace MemoryTree

/-! ## Building -/

/-- What is added to a tree in one step. -/
inductive Addition where
  | file (p : Path) (f : MemoryFile)
  | unreadable (p : Path)
  deriving DecidableEq, Repr

namespace Addition

def path : Addition → Path
  | file p _ => p
  | unreadable p => p

def entry : Addition → MemoryEntry
  | file _ f => .file f
  | unreadable _ => .directory true

end Addition

/-- A tree after one more addition. -/
def including (t : MemoryTree) : Addition → MemoryTree
  | .file p f => t.withFile p f
  | .unreadable p => t.withUnreadable p

/-- The tree that additions build, one after the other. -/
def built (additions : List Addition) : MemoryTree := additions.foldl including {}

/-- What additions leave at an address: what the last of them there put in, or else a readable
directory above one of them. -/
def stored? (additions : List Addition) (q : Path) : Option MemoryEntry :=
  ((additions.reverse.find? fun a => a.path.same q).map Addition.entry).or
    (if additions.any fun a => q.Above a.path then some (.directory false) else none)

variable {t : MemoryTree} {p q : Path} {entry : MemoryEntry} {l : List (Path × MemoryEntry)}
  {additions : List Addition}

theorem including_eq (t : MemoryTree) (a : Addition) :
    t.including a = t.add a.path a.entry := by
  cases a <;> rfl

theorem built_concat (additions : List Addition) (a : Addition) :
    built (additions ++ [a]) = (built additions).add a.path a.entry := by
  unfold built
  rw [List.foldl_append, List.foldl_cons, List.foldl_nil, including_eq]

theorem sorted_built (additions : List Addition) : (built additions).Sorted := by
  induction additions using List.reverseRecOn with
  | nil => exact .empty
  | append_singleton additions a ih =>
    rw [built_concat]
    exact ih.add a.path a.entry

/-- **What additions leave at an address.** -/
theorem find?_built (additions : List Addition) (q : Path) :
    (built additions).find? q = stored? additions q := by
  induction additions using List.reverseRecOn with
  | nil => rfl
  | append_singleton additions a ih =>
    rw [built_concat, find?_add, ih]
    unfold stored?
    rw [List.reverse_append, List.any_append, List.reverse_singleton, List.singleton_append,
      List.find?_cons, List.any_cons, List.any_nil, Bool.or_false]
    cases a.path.same q with
    | true => rfl
    | false =>
      -- A directory above the new path is there already, or is added now.
      generalize (additions.reverse.find? fun a => a.path.same q).map Addition.entry = last
      cases last with
      | some entry => rfl
      | none =>
        cases additions.any fun a => decide (q.Above a.path) with
        | true => rfl
        | false => by_cases habove : q.Above a.path <;> simp [habove]

/-- **Something is stored** at the address of every addition and above it, and nowhere else. -/
theorem exists_stored_iff : (∃ entry, stored? additions q = some entry) ↔
    ∃ a ∈ additions, a.path.same q = true ∨ q.Above a.path := by
  rw [← Option.isSome_iff_exists, stored?, Option.isSome_or, Option.isSome_map, Bool.or_eq_true,
    List.find?_isSome]
  simp only [List.mem_reverse, and_or_left, exists_or]
  refine or_congr Iff.rfl ?_
  by_cases habove : (additions.any fun a => q.Above a.path) = true
  · rw [if_pos habove]
    simpa using habove
  · rw [if_neg habove]
    simpa using habove

/-- What stands above something stored is stored. -/
theorem exists_stored_of_above (h : stored? additions p = some entry) (hq : q.Above p) :
    ∃ entry', stored? additions q = some entry' := by
  obtain ⟨a, ha, hsame | habove⟩ := exists_stored_iff.1 ⟨entry, h⟩
  · have hsame := (Path.same_iff.1 hsame).symm
    exact exists_stored_iff.2 ⟨a, ha, Or.inr (hq.of_same hsame)⟩
  · exact exists_stored_iff.2 ⟨a, ha, Or.inr (hq.trans habove)⟩

/-! ## The walk -/

/-- An entry as the walk lists it. -/
def listed (e : Path × MemoryEntry) : WalkEntry where
  path := e.1
  isDirectory := e.2.isDirectory
  error := if e.2.isUnreadable then some (injected .permissionDenied "readdir" e.1) else none

/-- A path lies below an unreadable directory. -/
def hides (d : Path × MemoryEntry) (p : Path) : Bool :=
  d.2.isUnreadable && p.startsWith d.1 && !d.1.same p

theorem walkFrom_cons (blocked : List Path) (e : Path × MemoryEntry)
    (rest : List (Path × MemoryEntry)) : walkFrom blocked (e :: rest) =
      if blocked.any e.1.startsWith then walkFrom blocked rest
      else listed e :: walkFrom (if e.2.isUnreadable then e.1 :: blocked else blocked) rest := by
  obtain ⟨p, entry⟩ := e
  cases entry with
  | file f => rfl
  | directory unreadable => cases unreadable <;> rfl

/-- What hides a path comes before it. -/
theorem order_lt_of_hides {d : Path × MemoryEntry} (h : hides d p = true) :
    d.1.order p = .lt := by
  simp only [hides, Bool.and_eq_true, Bool.not_eq_true'] at h
  obtain ⟨⟨-, hstarts⟩, hdistinct⟩ := h
  refine Path.order_lt_of_prefix (Path.startsWith_iff.1 hstarts) fun hsame => ?_
  rw [Path.same_iff.2 hsame] at hdistinct
  cases hdistinct

theorem not_same_of_order_lt (h : p.order q = .lt) : p.same q = false := by
  rw [Bool.eq_false_iff, Ne, Path.same_iff, ← Path.order_eq_iff, h]
  decide

/-- **The walk leaves out what lies below an unreadable directory**, one met before or one among the
entries that it goes over. -/
theorem walkFrom_eq_filter (h : l.Pairwise fun a b => a.1.order b.1 = .lt) (blocked : List Path) :
    walkFrom blocked l = (l.filter fun e =>
      !(blocked.any e.1.startsWith || l.any fun d => hides d e.1)).map listed := by
  induction l generalizing blocked with
  | nil => rfl
  | cons e rest ih =>
    obtain ⟨hfirst, hrest⟩ := List.pairwise_cons.1 h
    -- Nothing hides the first entry: the others come after it.
    have hself : ((e :: rest).any fun d => hides d e.1) = false := by
      rw [Bool.eq_false_iff, Ne, List.any_eq_true]
      rintro ⟨d, hd, hhides⟩
      have hbefore := order_lt_of_hides hhides
      rcases List.mem_cons.1 hd with rfl | hd
      · exact Path.not_order_lt_self _ hbefore
      · exact Path.not_order_lt_self _ (Path.order_lt_trans (hfirst d hd) hbefore)
    have hothers : ∀ f ∈ rest, hides e f.1 = (e.2.isUnreadable && f.1.startsWith e.1) := by
      intro f hf
      simp [hides, not_same_of_order_lt (hfirst f hf)]
    rw [walkFrom_cons]
    by_cases hblocked : blocked.any e.1.startsWith = true
    · rw [if_pos hblocked, ih hrest, List.filter_cons_of_neg (by simp [hblocked])]
      congr 1
      refine List.filter_congr fun f hf => ?_
      -- What lies below the first entry lies below what blocks it.
      have hbelow : f.1.startsWith e.1 = true → blocked.any f.1.startsWith = true := by
        intro hstarts
        obtain ⟨b, hb, he⟩ := List.any_eq_true.1 hblocked
        refine List.any_eq_true.2 ⟨b, hb, Path.startsWith_iff.2 ?_⟩
        exact (Path.startsWith_iff.1 he).trans (Path.startsWith_iff.1 hstarts)
      rw [List.any_cons, hothers f hf]
      cases hstarts : f.1.startsWith e.1 with
      | false => simp
      | true => simp [hbelow hstarts]
    · rw [Bool.not_eq_true] at hblocked
      rw [hblocked, if_neg Bool.false_ne_true, ih hrest,
        List.filter_cons_of_pos (by rw [hblocked, hself]; rfl), List.map_cons]
      congr 2
      refine List.filter_congr fun f hf => ?_
      rw [List.any_cons, hothers f hf]
      cases e.2.isUnreadable with
      | false => simp
      | true => simp [Bool.and_left_comm, Bool.and_assoc]

theorem Sorted.walk_eq_filter (h : t.Sorted) :
    t.walk = (t.entries.filter fun e => !t.entries.any fun d => hides d e.1).map listed := by
  have hwalk := walkFrom_eq_filter h []
  simp only [List.any_nil, Bool.false_or] at hwalk
  exact hwalk

/-! ## What is reached -/

/-- No unreadable directory stands above an address. -/
def Reachable (t : MemoryTree) (q : Path) : Prop :=
  ∀ d, t.find? d = some (.directory true) → q.startsWith d = true → d.same q = true

theorem Sorted.not_hidden_iff (h : t.Sorted) :
    (t.entries.any fun d => hides d q) = false ↔ t.Reachable q := by
  rw [Bool.eq_false_iff, Ne, List.any_eq_true]
  constructor
  · intro hnone d hd hstarts
    obtain ⟨k, hk, hsame⟩ := h.find?_eq_some_iff.1 hd
    rw [Path.same_iff] at hsame ⊢
    by_contra hdistinct
    refine hnone ⟨(k, .directory true), hk, ?_⟩
    rw [Path.startsWith_iff] at hstarts
    simp only [hides, MemoryEntry.isUnreadable, Bool.true_and, Bool.and_eq_true, Bool.not_eq_true']
    refine ⟨Path.startsWith_iff.2 (by rwa [hsame]), ?_⟩
    rwa [Bool.eq_false_iff, Ne, Path.same_iff, hsame]
  · rintro hreach ⟨⟨k, entry⟩, hk, hhides⟩
    simp only [hides, Bool.and_eq_true, Bool.not_eq_true'] at hhides
    obtain ⟨⟨hunreadable, hstarts⟩, hdistinct⟩ := hhides
    obtain rfl := MemoryEntry.isUnreadable_iff.1 hunreadable
    have hfound := h.find?_eq_some_iff.2 ⟨k, hk, Path.same_iff.2 rfl⟩
    rw [hreach k hfound hstarts] at hdistinct
    cases hdistinct

theorem Sorted.mem_walk_iff (h : t.Sorted) {e : WalkEntry} :
    e ∈ t.walk ↔ ∃ k entry, (k, entry) ∈ t.entries ∧ t.Reachable k ∧ listed (k, entry) = e := by
  simp only [h.walk_eq_filter, List.mem_map, List.mem_filter, Bool.not_eq_true', h.not_hidden_iff,
    Prod.exists, and_assoc]

/-- **The addresses that the walk yields** have an entry, and no unreadable directory above them. -/
theorem Sorted.reaches_iff (h : t.Sorted) :
    (∃ e ∈ t.walk, e.path.same q = true) ↔ (∃ entry, t.find? q = some entry) ∧ t.Reachable q := by
  have hcongr : ∀ k : Path, k.same q = true → (t.Reachable k ↔ t.Reachable q) := by
    intro k hsame
    rw [Path.same_iff] at hsame
    simp only [Reachable, Path.startsWith_iff, Path.same_iff, hsame]
  constructor
  · rintro ⟨e, he, hsame⟩
    obtain ⟨k, entry, hk, hreach, rfl⟩ := h.mem_walk_iff.1 he
    exact ⟨⟨entry, h.find?_eq_some_iff.2 ⟨k, hk, hsame⟩⟩, (hcongr k hsame).1 hreach⟩
  · rintro ⟨⟨entry, hentry⟩, hreach⟩
    obtain ⟨k, hk, hsame⟩ := h.find?_eq_some_iff.1 hentry
    have hlisted := h.mem_walk_iff.2 ⟨k, entry, hk, (hcongr k hsame).2 hreach, rfl⟩
    exact ⟨listed (k, entry), hlisted, hsame⟩

/-- The walk is in the strict order of paths. -/
theorem Sorted.pairwise_walk (h : t.Sorted) :
    t.walk.Pairwise fun a b => a.path.order b.path = .lt := by
  rw [h.walk_eq_filter, List.pairwise_map]
  exact List.Pairwise.filter _ h

theorem find?_of_mem_walk (h : t.Sorted) {e : WalkEntry} (he : e ∈ t.walk) :
    ∃ entry, t.find? e.path = some entry ∧ listed (e.path, entry) = e ∧ t.Reachable e.path := by
  obtain ⟨k, entry, hk, hreach, rfl⟩ := h.mem_walk_iff.1 he
  exact ⟨entry, h.find?_eq_some_iff.2 ⟨k, hk, Path.same_iff.2 rfl⟩, rfl, hreach⟩

/-- What stands above a reachable address is reachable. -/
theorem Reachable.of_above (h : t.Reachable p) (hq : q.Above p) : t.Reachable q := by
  intro d hd hstarts
  obtain ⟨-, hfront, hne⟩ := hq
  have hd' := (Path.startsWith_iff.1 hstarts).trans hfront
  have hsame := Path.same_iff.1 (h d hd (Path.startsWith_iff.2 hd'))
  -- The directory would be the whole path, and no longer than what stands above it.
  have hlength := (Path.startsWith_iff.1 hstarts).length_le
  rw [hsame] at hlength
  exact absurd (hfront.eq_of_length_le hlength) hne

/-- What comes before an entry of the walk stands in front of it. -/
theorem mem_front_of_order_lt (h : t.Sorted) {front back : List WalkEntry} {e a : WalkEntry}
    (hwalk : t.walk = front ++ e :: back) (ha : a ∈ t.walk) (hlt : a.path.order e.path = .lt) :
    a ∈ front := by
  have hsorted := h.pairwise_walk
  rw [hwalk, List.pairwise_append] at hsorted
  obtain ⟨-, hback, -⟩ := hsorted
  rw [hwalk] at ha
  rcases List.mem_append.1 ha with hfront | hrest
  · exact hfront
  · exfalso
    rcases List.mem_cons.1 hrest with rfl | hrest
    · exact Path.not_order_lt_self _ hlt
    · have hgt := (List.pairwise_cons.1 hback).1 a hrest
      exact Path.not_order_lt_self _ (Path.order_lt_trans hlt hgt)

/-! ## Opening -/

/-- **A file is opened and read by its fault**: it opens unless it fails at that, and then it
delivers its data unless it fails at reading. -/
theorem openFile_of_file {f : MemoryFile} (h : t.find? q = some (.file f)) :
    ((∃ file, t.openFile q = .ok file) ↔ f.fault ≠ some .opening) ∧
      ∀ file, t.openFile q = .ok file → (file.readAll = .ok f.data ↔ f.fault ≠ some .reading) := by
  unfold openFile
  rw [h]
  by_cases hopening : f.fault = some .opening
  · simp [hopening]
  · simp only [hopening, if_false]
    refine ⟨by simp [hopening], ?_⟩
    rintro file ⟨rfl⟩
    by_cases hreading : f.fault = some .reading
    · simp [opened, hreading, OpenFile.readAll, OpenFile.readAllAhead, OpenFile.atEnd]
    · simp [opened, hreading, OpenFile.readAll, OpenFile.readAllAhead, OpenFile.atEnd]

/-- **The walk lists what is reachable, parents first.** Let additions build a tree, in any order
and with any spellings. At each address the tree has what they leave there. The walk is in the
strict order of paths. It yields an address exactly if something is stored there and no unreadable
directory stands above it; an entry that it yields is a directory if a directory is stored, and it
has an error exactly if that directory is unreadable. What stands above a yielded path is yielded
before it. A yielded file opens unless it fails at that, and then it is read as it was last stored
unless it fails at reading. -/
theorem walk_lists_reachable (additions : List Addition) :
    (∀ q, (built additions).find? q = stored? additions q) ∧
    ((built additions).walk.Pairwise fun a b => a.path.order b.path = .lt) ∧
    (∀ q, (∃ e ∈ (built additions).walk, e.path.same q = true) ↔
      (∃ entry, stored? additions q = some entry) ∧
        ∀ d, stored? additions d = some (.directory true) → q.startsWith d = true →
          d.same q = true) ∧
    (∀ e ∈ (built additions).walk, ∃ entry, stored? additions e.path = some entry ∧
      e.isDirectory = entry.isDirectory ∧
      e.error = if entry = .directory true then some (injected .permissionDenied "readdir" e.path)
        else none) ∧
    (∀ front e back, (built additions).walk = front ++ e :: back → ∀ q, q.Above e.path →
      ∃ a ∈ front, a.path.same q = true) ∧
    (∀ e ∈ (built additions).walk, e.isDirectory = false → ∃ f,
      stored? additions e.path = some (.file f) ∧
      ((∃ file, (built additions).openFile e.path = .ok file) ↔ f.fault ≠ some .opening) ∧
      ∀ file, (built additions).openFile e.path = .ok file →
        (file.readAll = .ok f.data ↔ f.fault ≠ some .reading)) := by
  have hsorted := sorted_built additions
  have hfind := find?_built additions
  refine ⟨hfind, hsorted.pairwise_walk, fun q => ?_, fun e he => ?_,
    fun front e back hwalk q hq => ?_, fun e he hfile => ?_⟩
  · rw [hsorted.reaches_iff]
    unfold Reachable
    simp only [hfind]
  · obtain ⟨entry, hentry, hlisted, -⟩ := find?_of_mem_walk hsorted he
    refine ⟨entry, (hfind _).symm.trans hentry, ?_, ?_⟩
    · rw [← hlisted]
      rfl
    · rw [← hlisted]
      simp only [listed, MemoryEntry.isUnreadable_iff]
  · have he : e ∈ (built additions).walk := by
      rw [hwalk]
      exact List.mem_append_right _ List.mem_cons_self
    obtain ⟨entry, hentry, -, hreach⟩ := find?_of_mem_walk hsorted he
    rw [hfind] at hentry
    obtain ⟨entry', hentry'⟩ := exists_stored_of_above hentry hq
    have hstored : ∃ entry, (built additions).find? q = some entry :=
      ⟨entry', (hfind q).trans hentry'⟩
    obtain ⟨a, ha, hsame⟩ := hsorted.reaches_iff.2 ⟨hstored, hreach.of_above hq⟩
    refine ⟨a, mem_front_of_order_lt hsorted hwalk ha ?_, hsame⟩
    have hlt := hq.order_lt
    unfold Path.order at hlt ⊢
    rwa [Path.same_iff.1 hsame]
  · obtain ⟨entry, hentry, hlisted, -⟩ := find?_of_mem_walk hsorted he
    cases entry with
    | directory unreadable =>
      rw [← hlisted] at hfile
      cases hfile
    | file f => exact ⟨f, (hfind _).symm.trans hentry, openFile_of_file hentry⟩

/-- A file below a directory that turns unreadable, and a file that is stored twice. -/
def shadedAdditions : List Addition :=
  [.file (.ofString "a/b/x.json") { data := [0x31] }, .unreadable (.ofString "a//b"),
    .file (.ofString "a/c.json") { data := [0x32] },
    .file (.ofString "a/./c.json/") { data := [0x33] }]

/-- The unreadable directory hides the file in it, and the other file has the data of its last
spelling. -/
theorem walk_lists_reachable_shaded :
    (built shadedAdditions).walk.map WalkEntry.path =
      [.ofString "a", .ofString "a/b", .ofString "a/c.json"] ∧
    (¬∃ e ∈ (built shadedAdditions).walk, e.path.same (.ofString "a/b/x.json") = true) ∧
    ∃ file, (built shadedAdditions).openFile (.ofString "a/c.json") = .ok file ∧
      file.readAll = .ok [0x33] := by
  obtain ⟨-, -, hreach, -, -, hfiles⟩ := walk_lists_reachable shadedAdditions
  refine ⟨rfl, ?_, ?_⟩
  · rw [hreach]
    rintro ⟨-, hclear⟩
    exact absurd (hclear (.ofString "a/b") (by decide) (by decide)) (by decide)
  · have hmem : { path := .ofString "a/c.json" } ∈ (built shadedAdditions).walk := by
      change _ ∈ [_, _, _]
      exact List.mem_cons_of_mem _ (List.mem_cons_of_mem _ List.mem_cons_self)
    obtain ⟨f, hstored, hopens, hreads⟩ := hfiles _ hmem rfl
    obtain rfl : { data := [0x33] } = f := by
      have hlast : stored? shadedAdditions (.ofString "a/c.json") =
          some (.file { data := [0x33] }) := by decide
      injection (hlast.symm.trans hstored) with hfile
      injection hfile
    obtain ⟨file, hopen⟩ := hopens.2 nofun
    exact ⟨file, hopen, (hreads file hopen).2 nofun⟩

end MemoryTree

end DocDrive
