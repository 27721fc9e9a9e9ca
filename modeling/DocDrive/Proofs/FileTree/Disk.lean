import DocDrive.FileTree.Disk
import DocDrive.Proofs.Path.Names

/-!
# Directory trees on a disk

A directory tree without links (`DiskEntry.Regular`) has files at paths of names
(`DiskEntry.files`). The walk lists them in the strict order of their paths, without those below a
directory whose name starts with a dot, and every one of them can be opened.

* `Regular.descend?_of_mem_files`, `Regular.pairwise_files` — where the files are, and their order.
* `Regular.walkListsFiles` — the files that a walk lists.
* `Disk.mem_walkEntries_iff` — what one directory adds to a walk.
* `Disk.follow_append` — following a path goes on from where its beginning leads to.
* `Disk.openFile_of_descend?` — a file is found by the path of the names that lead to it, so every
  file of such a tree is (`Disk.openFile_of_mem_files`).
-/

namespace DocDrive

open Component (compareBytes)

/-! ## Regular trees -/

/-- A name that a disk can have. -/
structure IsDiskName (name : Bytes) : Prop extends IsName name where
  noNul : 0 ∉ name
  short : name.length ≤ Disk.maxName

instance (name : Bytes) : Decidable (IsDiskName name) :=
  decidable_of_iff (IsName name ∧ 0 ∉ name ∧ name.length ≤ Disk.maxName)
    ⟨fun ⟨h, hnul, hshort⟩ => ⟨h, hnul, hshort⟩, fun ⟨h, hnul, hshort⟩ => ⟨h, hnul, hshort⟩⟩

/-- A name that a disk can have and that is text. -/
structure IsFileName (name : Bytes) : Prop extends IsName name where
  noNul : 0 ∉ name
  short : name.length ≤ Disk.maxName
  isText : (Utf8.decode? name).isSome = true

instance (name : Bytes) : Decidable (IsFileName name) :=
  decidable_of_iff
    (IsName name ∧ 0 ∉ name ∧ name.length ≤ Disk.maxName ∧ (Utf8.decode? name).isSome = true)
    ⟨fun ⟨h, hnul, hshort, htext⟩ => ⟨h, hnul, hshort, htext⟩,
      fun ⟨h, hnul, hshort, htext⟩ => ⟨h, hnul, hshort, htext⟩⟩

theorem IsFileName.isDiskName {name : Bytes} (h : IsFileName name) : IsDiskName name :=
  ⟨h.toIsName, h.noNul, h.short⟩

theorem components_ofNames_of_isFileName {names : List Bytes} (h : ∀ n ∈ names, IsFileName n) :
    (Path.ofNames names).components = names.map .normal :=
  Path.components_ofNames fun n hn => (h n hn).toIsName

namespace DiskEntry

/-- A tree of directories and files, without links. -/
inductive Regular : DiskEntry → Prop
  | file (data : Bytes) : Regular (.file data)
  | directory {entries : List (Bytes × DiskEntry)} : (∀ e ∈ entries, IsFileName e.1) →
      (entries.Pairwise fun a b => compareBytes a.1 b.1 = .lt) → (∀ e ∈ entries, Regular e.2) →
      Regular (.directory entries)

mutual

/-- The files of a tree, by the names that lead to them. -/
def files : DiskEntry → List (List Bytes × Bytes)
  | .file data => [([], data)]
  | .directory entries => filesOf entries
  | .link _ => []

/-- The files of the entries of a directory. -/
def filesOf : List (Bytes × DiskEntry) → List (List Bytes × Bytes)
  | [] => []
  | (name, entry) :: rest => (files entry).map (fun f => (name :: f.1, f.2)) ++ filesOf rest

end

theorem filesOf_eq_flatMap (entries : List (Bytes × DiskEntry)) :
    filesOf entries = entries.flatMap fun e => (files e.2).map fun f => (e.1 :: f.1, f.2) := by
  induction entries with
  | nil => rfl
  | cons first rest ih => rw [filesOf, ih, List.flatMap_cons]

variable {d entry : DiskEntry} {entries : List (Bytes × DiskEntry)} {names : List Bytes}
  {name data : Bytes} {f : List Bytes × Bytes}

theorem mem_files_directory : f ∈ files (.directory entries) ↔
    ∃ e ∈ entries, ∃ g ∈ files e.2, f = (e.1 :: g.1, g.2) := by
  rw [files, filesOf_eq_flatMap]
  simp only [List.mem_flatMap, List.mem_map, eq_comm]

/-- Only a file is reached by no name. -/
theorem isDirectory_of_mem_files (h : f ∈ files d) (hne : f.1 ≠ []) : d.isDirectory = true := by
  cases d with
  | file data =>
    rw [List.mem_singleton.1 h] at hne
    exact absurd rfl hne
  | directory entries => rfl
  | link target => cases h

theorem ne_nil_of_mem_files (h : f ∈ files d) (hd : d.isDirectory = true) : f.1 ≠ [] := by
  cases d with
  | file data => cases hd
  | directory entries =>
    obtain ⟨e, -, g, -, rfl⟩ := mem_files_directory.1 h
    exact List.cons_ne_nil _ _
  | link target => cases hd

theorem compareBytes_self (name : Bytes) : compareBytes name name = .eq :=
  (Std.ReflCmp.compare_self : (Component.normal name).order (.normal name) = .eq)

theorem child?_eq_of_mem (hsorted : entries.Pairwise fun a b => compareBytes a.1 b.1 = .lt)
    (h : (name, entry) ∈ entries) : (directory entries).child? name = some entry := by
  obtain ⟨front, back, rfl⟩ := List.append_of_mem h
  have hfront := (List.pairwise_append.1 hsorted).2.2
  have hfind : (front ++ (name, entry) :: back).find? (·.1 == name) = some (name, entry) := by
    refine List.find?_eq_some_iff_append.2 ⟨beq_self_eq_true _, front, back, rfl, fun a ha => ?_⟩
    have hlt := hfront a ha (name, entry) List.mem_cons_self
    rw [Bool.not_eq_true', beq_eq_false_iff_ne]
    intro heq
    rw [heq, compareBytes_self] at hlt
    cases hlt
  rw [child?, hfind]
  rfl

theorem isDirectory_of_child? (h : d.child? name = some entry) : d.isDirectory = true := by
  cases d with
  | directory entries => rfl
  | file data => cases h
  | link target => cases h

theorem descend?_cons (name : Bytes) (names : List Bytes) (d : DiskEntry) :
    d.descend? (name :: names) = (d.child? name).bind fun e => e.descend? names := rfl

/-- From a link, names lead to nothing but the link. -/
theorem descend?_link_ne {target : Path} (hentry : ∀ target, entry ≠ .link target) :
    (link target).descend? names ≠ some entry := by
  intro h
  cases names with
  | nil => exact hentry target (Option.some.inj h).symm
  | cons name names => cases h

/-- **The names of a file lead to it.** -/
theorem Regular.descend?_of_mem_files (hd : d.Regular) (h : f ∈ files d) :
    (∀ n ∈ f.1, IsFileName n) ∧ d.descend? f.1 = some (.file f.2) := by
  induction hd generalizing f with
  | file data =>
    rw [List.mem_singleton.1 h]
    exact ⟨nofun, rfl⟩
  | directory hnames hsorted _ ih =>
    obtain ⟨e, he, g, hg, rfl⟩ := mem_files_directory.1 h
    obtain ⟨hlegal, hdescend⟩ := ih e he hg
    refine ⟨List.forall_mem_cons.2 ⟨hnames e he, hlegal⟩, ?_⟩
    rw [descend?_cons, child?_eq_of_mem hsorted he]
    exact hdescend

/-- Lists of names in the order of the paths that they make. -/
def namesBefore (a b : List Bytes) : Prop :=
  Path.orderComponents (a.map .normal) (b.map .normal) = .lt

theorem namesBefore_cons_self (name : Bytes) {a b : List Bytes} (h : namesBefore a b) :
    namesBefore (name :: a) (name :: b) := by
  have hname : (Component.normal name).order (.normal name) = .eq := compareBytes_self name
  rw [namesBefore, List.map_cons, List.map_cons, Path.orderComponents, hname]
  exact h

theorem namesBefore_cons_of_lt {m n : Bytes} (h : compareBytes m n = .lt) (a b : List Bytes) :
    namesBefore (m :: a) (n :: b) := by
  have hnames : (Component.normal m).order (.normal n) = .lt := h
  rw [namesBefore, List.map_cons, List.map_cons, Path.orderComponents, hnames]

/-- **Files in the order of the tree are in the order of their paths.** -/
theorem Regular.pairwise_files (hd : d.Regular) :
    (files d).Pairwise fun f g => namesBefore f.1 g.1 := by
  induction hd with
  | file data => exact List.pairwise_singleton _ _
  | directory _ hsorted _ ih =>
    rw [files, filesOf_eq_flatMap, List.pairwise_flatMap]
    constructor
    · intro e he
      rw [List.pairwise_map]
      exact (ih e he).imp fun h => namesBefore_cons_self e.1 h
    · refine hsorted.imp fun {a b} hlt f hf g hg => ?_
      obtain ⟨f', -, rfl⟩ := List.mem_map.1 hf
      obtain ⟨g', -, rfl⟩ := List.mem_map.1 hg
      exact namesBefore_cons_of_lt hlt f'.1 g'.1

/-! ## Walking -/

/-- A name that is shown with a dot at its beginning. -/
def isDotted (name : Bytes) : Bool := (Utf8.lossy name).head? == some '.'

/-- Names that no dotted directory stands above. -/
def isShown (names : List Bytes) : Bool := names.dropLast.all fun name => !isDotted name

/-- A name with more names after it is that of a directory. -/
theorem isShown_cons_eq {more : List Bytes} (hne : more ≠ []) :
    isShown (name :: more) = (!isDotted name && isShown more) := by
  obtain ⟨n, rest, rfl⟩ := List.exists_cons_of_ne_nil hne
  rfl

theorem isShown_cons (h : f ∈ files entry) (hpruned : Disk.isPruned name entry = false) :
    isShown (name :: f.1) = isShown f.1 := by
  cases hnames : f.1 with
  | nil => rfl
  | cons n names =>
    have hdirectory : entry.isDirectory = true :=
      isDirectory_of_mem_files h (by rw [hnames]; exact List.cons_ne_nil _ _)
    have hdotted : isDotted name = false := by
      rw [Disk.isPruned, hdirectory, Bool.true_and] at hpruned
      exact hpruned
    rw [isShown_cons_eq (List.cons_ne_nil _ _), hdotted]
    rfl

theorem isShown_cons_of_isPruned (h : f ∈ files entry) (hpruned : Disk.isPruned name entry = true) :
    isShown (name :: f.1) = false := by
  obtain ⟨hdirectory, hdotted⟩ := Bool.and_eq_true_iff.1 hpruned
  rw [isShown_cons_eq (ne_nil_of_mem_files h hdirectory), isDotted, hdotted]
  rfl

theorem height_le_heights {e : Bytes × DiskEntry} (he : e ∈ entries) :
    Disk.height e.2 ≤ Disk.heights entries := by
  induction entries with
  | nil => cases he
  | cons first rest ih =>
    obtain ⟨n, first⟩ := first
    rw [Disk.heights]
    rcases List.mem_cons.1 he with rfl | he
    · exact Nat.le_max_left _ _
    · exact Nat.le_trans (ih he) (Nat.le_max_right _ _)

/-- The files that a walk lists at an entry and below it. -/
def WalkListsFiles (d : DiskEntry) (depth : Nat) : Prop :=
  ∀ names, (∀ n ∈ names, IsName n) →
    (({ path := .ofNames names, isDirectory := d.isDirectory } ::
        Disk.walkEntry (.ofNames names) depth d).filter fun e => !e.isDirectory) =
      ((files d).filter fun f => isShown f.1).map fun f => { path := .ofNames (names ++ f.1) }

/-- What one name of a directory adds to a walk. -/
theorem WalkListsFiles.named {depth : Nat} (h : entry.WalkListsFiles depth)
    (hnames : ∀ n ∈ names, IsName n) (hname : IsName name) :
    ((if Disk.isPruned name entry then []
      else { path := Disk.below (.ofNames names) name, isDirectory := entry.isDirectory } ::
        Disk.walkEntry (Disk.below (.ofNames names) name) depth entry).filter
          fun e : WalkEntry => !e.isDirectory) =
      (((files entry).map fun f => (name :: f.1, f.2)).filter fun f => isShown f.1).map
        fun f => { path := .ofNames (names ++ f.1) } := by
  rw [List.filter_map, List.map_map]
  cases hpruned : Disk.isPruned name entry with
  | true =>
    have hnone : (files entry).filter ((fun f => isShown f.1) ∘ fun f => (name :: f.1, f.2)) = [] :=
      List.filter_eq_nil_iff.2 fun f hf => by simp [isShown_cons_of_isPruned hf hpruned]
    rw [hnone]
    rfl
  | false =>
    have hshown : (files entry).filter ((fun f => isShown f.1) ∘ fun f => (name :: f.1, f.2)) =
        (files entry).filter fun f => isShown f.1 :=
      List.filter_congr fun f hf => isShown_cons hf hpruned
    have hlonger : ∀ n ∈ names ++ [name], IsName n := by
      simpa [or_imp, forall_and] using ⟨hnames, hname⟩
    rw [hshown, Disk.below, Path.join_ofNames hnames hname, if_neg Bool.false_ne_true,
      h _ hlonger]
    refine List.map_congr_left fun f _ => ?_
    rw [List.append_assoc]
    rfl

/-- **The files that a walk lists** are those that no dotted directory stands above, in the order of
the tree. -/
theorem Regular.walkListsFiles (hd : d.Regular) {depth : Nat} (hdepth : Disk.height d ≤ depth) :
    d.WalkListsFiles depth := by
  induction hd generalizing depth with
  | file data =>
    intro names _
    have hwalk : Disk.walkEntry (.ofNames names) depth (.file data) = [] := by
      cases depth <;> rfl
    rw [hwalk]
    simp [files, isShown, isDirectory]
  | @directory entries hlegal hsorted hregular ih =>
    intro names hnames
    rw [Disk.height] at hdepth
    obtain ⟨levels, rfl⟩ : ∃ levels, depth = levels + 1 := ⟨depth - 1, by omega⟩
    have hlists : ∀ e ∈ entries, e.2.WalkListsFiles levels := by
      intro e he
      have hheight := height_le_heights he
      exact ih e he (by omega)
    rw [Disk.walkEntry, files]
    change (Disk.walkEntries (.ofNames names) levels entries).filter _ = _
    clear ih hdepth hsorted hregular
    induction entries with
    | nil => rfl
    | cons first rest ihrest =>
      obtain ⟨hname, hrest⟩ := List.forall_mem_cons.1 hlegal
      obtain ⟨hfirst, hlists⟩ := List.forall_mem_cons.1 hlists
      rw [Disk.walkEntries, filesOf, List.filter_append, List.filter_append, List.map_append]
      exact congrArg₂ _ (hfirst.named hnames hname.toIsName) (ihrest hrest hlists)

end DiskEntry

namespace Disk

/-- **What a walk lists of the entries of a directory**: each that is not left out, and what lies
below it. -/
theorem mem_walkEntries_iff {dir : Path} {depth : Nat} {entries : List (Bytes × DiskEntry)}
    {w : WalkEntry} : w ∈ walkEntries dir depth entries ↔
      ∃ e ∈ entries, isPruned e.1 e.2 = false ∧
        (w = { path := below dir e.1, isDirectory := e.2.isDirectory } ∨
          w ∈ walkEntry (below dir e.1) depth e.2) := by
  induction entries with
  | nil => simp [walkEntries]
  | cons first rest ih =>
    obtain ⟨name, entry⟩ := first
    rw [walkEntries, List.mem_append, ih, List.exists_mem_cons_iff]
    apply or_congr_left
    cases isPruned name entry with
    | true => simp
    | false => simp

mutual

/-- A walk of a disk meets no problem. -/
theorem error_of_mem_walkEntry (dir : Path) (depth : Nat) (d : DiskEntry) {w : WalkEntry}
    (h : w ∈ walkEntry dir depth d) : w.error = none := by
  cases d with
  | file data => cases depth <;> cases h
  | link target => cases depth <;> cases h
  | directory entries =>
    cases depth with
    | zero => cases h
    | succ depth => exact error_of_mem_walkEntries dir depth entries h

/-- Nor does a walk of the entries of a directory. -/
theorem error_of_mem_walkEntries (dir : Path) (depth : Nat) (entries : List (Bytes × DiskEntry))
    {w : WalkEntry} (h : w ∈ walkEntries dir depth entries) : w.error = none := by
  match entries with
  | [] => cases h
  | (name, entry) :: rest =>
    rw [walkEntries] at h
    rcases List.mem_append.1 h with h | h
    · split at h
      · cases h
      · rcases List.mem_cons.1 h with rfl | h
        · rfl
        · exact error_of_mem_walkEntry _ depth entry h
    · exact error_of_mem_walkEntries dir depth rest h

end

/-! ## Following paths -/

open DiskEntry

variable {root here entry : DiskEntry} {above : List DiskEntry} {links : Nat}
  {names front : List Bytes} {name : Bytes}

/-- A step to a name looks it up. -/
theorem follow_cons (hdir : ¬(!(above.head?.getD root).isDirectory) = true)
    (hshort : ¬name.length > maxName) (hdot : ¬name = [Component.dot])
    (hdots : ¬name = [Component.dot, Component.dot]) (rest : List Bytes) :
    follow root links above (name :: rest) =
      match (above.head?.getD root).child? name with
      | none => .error .noEntry
      | some (.link target) =>
        match links with
        | 0 => .error .linkLoop
        | links + 1 =>
          follow root links (if target.isAbsolute then [] else above) (steps target ++ rest)
      | some entry => follow root links (entry :: above) rest := by
  rw [follow]
  refine (if_neg hdir).trans ((if_neg hshort).trans ((if_neg hdot).trans ((if_neg hdots).trans ?_)))
  rfl

/-- Where the beginning of a path leads to: following the path goes on from there, or it has failed
already. -/
def LeadsOn (root : DiskEntry) (links : Nat) (above : List DiskEntry) (front : List Bytes) : Prop :=
  (∃ links' above', ∀ rest,
    follow root links above (front ++ rest) = follow root links' above' rest) ∨
  ∃ fault, ∀ rest, follow root links above (front ++ rest) = .error fault

/-- A first step that is the same whatever comes after it. -/
theorem LeadsOn.of_step {links' : Nat} {above' : List DiskEntry} {front' : List Bytes}
    (h : LeadsOn root links' above' front')
    (hstep : ∀ rest, follow root links above (front ++ rest) =
      follow root links' above' (front' ++ rest)) : LeadsOn root links above front := by
  rcases h with ⟨links'', above'', h⟩ | ⟨fault, h⟩
  · exact Or.inl ⟨links'', above'', fun rest => (hstep rest).trans (h rest)⟩
  · exact Or.inr ⟨fault, fun rest => (hstep rest).trans (h rest)⟩

/-- **Following a path goes on from where its beginning leads to**, or fails with it. -/
theorem follow_append (root : DiskEntry) (links : Nat) (above : List DiskEntry)
    (front : List Bytes) : LeadsOn root links above front := by
  induction links, above, front using follow.induct root with
  | case1 links above => exact Or.inl ⟨links, above, fun rest => rfl⟩
  | case2 links above name rest here hfile =>
    refine Or.inr ⟨.notDirectory, fun more => ?_⟩
    rw [List.cons_append, follow]
    exact if_pos hfile
  | case3 links above name rest here hdir hlong =>
    refine Or.inr ⟨.nameTooLong, fun more => ?_⟩
    rw [List.cons_append, follow]
    exact (if_neg hdir).trans (if_pos hlong)
  | case4 links above rest here hdir hshort ih =>
    refine ih.of_step fun more => ?_
    rw [List.cons_append, follow]
    exact (if_neg hdir).trans ((if_neg hshort).trans (if_pos rfl))
  | case5 links above rest here hdir hshort hdot ih =>
    refine ih.of_step fun more => ?_
    rw [List.cons_append, follow]
    exact (if_neg hdir).trans ((if_neg hshort).trans ((if_neg hdot).trans (if_pos rfl)))
  | case6 links above name rest here hdir hshort hdot hdots hnone =>
    refine Or.inr ⟨.noEntry, fun more => ?_⟩
    rw [List.cons_append, follow_cons hdir hshort hdot hdots, hnone]
  | case7 above name rest here hdir hshort hdot hdots target hlink =>
    refine Or.inr ⟨.linkLoop, fun more => ?_⟩
    rw [List.cons_append, follow_cons hdir hshort hdot hdots, hlink]
  | case8 above name rest here hdir hshort hdot hdots target hlink links start ih =>
    refine ih.of_step fun more => ?_
    rw [List.cons_append, follow_cons hdir hshort hdot hdots, hlink, List.append_assoc]
    rfl
  | case9 links above name rest here hdir hshort hdot hdots entry hplain hentry ih =>
    refine ih.of_step fun more => ?_
    rw [List.cons_append, follow_cons hdir hshort hdot hdots, hentry]
    cases entry with
    | file data => rfl
    | directory entries => rfl
    | link target => exact absurd rfl (hplain target)

/-- **Names lead down a directory tree**, to anything but a link. -/
theorem follow_names (hnames : ∀ n ∈ names, IsDiskName n) (hentry : ∀ target, entry ≠ .link target)
    (hdescend : (above.head?.getD root).descend? names = some entry) :
    follow root links above names = .ok entry := by
  induction names generalizing above with
  | nil =>
    rw [follow]
    exact congrArg Except.ok (Option.some.inj hdescend)
  | cons name rest ih =>
    obtain ⟨hname, hrest⟩ := List.forall_mem_cons.1 hnames
    rw [descend?_cons] at hdescend
    obtain ⟨child, hchild, hdescend⟩ := Option.bind_eq_some_iff.1 hdescend
    have hdir := isDirectory_of_child? hchild
    have hnext : follow root links (child :: above) rest = .ok entry := ih hrest hdescend
    rw [follow_cons (by simp [hdir]) (Nat.not_lt.2 hname.short) hname.notDot hname.notDots, hchild]
    cases child with
    | file data => exact hnext
    | directory entries => exact hnext
    | link target => exact absurd hdescend (descend?_link_ne hentry)

/-! ## Opening -/

variable {disk : Disk} {cwd dir p : Path} {top : DiskEntry} {f : List Bytes × Bytes} {data : Bytes}

/-- The names among the segments of a path. -/
def pathNames (p : Path) : List Bytes := (Path.segments p.bytes).filter (· != [])

theorem steps_eq (p : Path) :
    steps p = pathNames p ∨ steps p = pathNames p ++ [[Component.dot]] := by
  unfold steps pathNames
  dsimp only
  split
  · exact Or.inr rfl
  · exact Or.inl rfl

/-- The steps of a path below a directory come after those of the directory. -/
theorem steps_join (hdir : dir.bytes ≠ []) (hnames : ∀ n ∈ names, IsName n) (hne : names ≠ []) :
    steps (dir.join (.ofNames names)) = pathNames dir ++ names := by
  have hrelative := Path.isAbsolute_ofNames hnames
  obtain ⟨front, -, hsegments, hfront⟩ := Path.segments_join hdir hrelative
  have hplain : names.filter (· != []) = names :=
    List.filter_eq_self.2 fun n hn => bne_iff_ne.2 (hnames n hn).nonempty
  have hpath : pathNames (dir.join (.ofNames names)) = pathNames dir ++ names := by
    rw [pathNames, hsegments, Path.segments_ofNames hnames hne, List.filter_append, hplain,
      pathNames]
    rcases hfront with hfront | hfront
    · rw [hfront]
    · rw [hfront, List.filter_append]
      simp
  have hlast : (dir.join (.ofNames names)).bytes.getLast? ≠ some Component.slash := by
    obtain ⟨start, hbytes⟩ := Path.exists_bytes_join dir (.ofNames names)
    rw [hbytes, List.getLast?_append_of_ne_nil _ (Path.bytes_ofNames_ne_nil hnames hne)]
    exact Path.getLast?_bytes_ofNames hnames
  unfold steps
  dsimp only
  rw [if_neg hlast]
  exact hpath

/-- What names below a directory lead to. -/
theorem follow_below (htop : follow root links [] (steps dir) = .ok top)
    (hnames : ∀ n ∈ names, IsDiskName n) (hentry : ∀ target, entry ≠ .link target)
    (hdescend : top.descend? names = some entry) :
    follow root links [] (pathNames dir ++ names) = .ok entry := by
  rcases follow_append root links [] (pathNames dir) with ⟨links', above, hon⟩ | ⟨fault, hfault⟩
  · have hhere : above.head?.getD root = top := by
      rcases steps_eq dir with hsteps | hsteps
      · rw [hsteps, ← List.append_nil (pathNames dir), hon, follow] at htop
        exact Except.ok.inj htop
      · -- A slash at the end of the directory is one more step, to where the walk stands.
        rw [hsteps, hon, follow] at htop
        split at htop
        · cases htop
        · rw [if_neg (by decide), if_pos rfl, follow] at htop
          exact Except.ok.inj htop
    rw [hon]
    exact follow_names hnames hentry (hhere ▸ hdescend)
  · exfalso
    rcases steps_eq dir with hsteps | hsteps
    · rw [hsteps, ← List.append_nil (pathNames dir), hfault] at htop
      cases htop
    · rw [hsteps, hfault] at htop
      cases htop

/-- Looking up an absolute path is following its steps, unless the path cannot be spelled. -/
theorem find_eq_ok_iff (hp : p.isAbsolute = true) : disk.find cwd p = .ok entry ↔
    0 ∉ p.bytes ∧ p.bytes.length < pathBound ∧
      follow disk.root maxLinks [] (steps p) = .ok entry := by
  have hne := Path.bytes_ne_nil_of_isAbsolute hp
  unfold find
  by_cases hnul : p.bytes.contains 0 = true
  · have hmem : 0 ∈ p.bytes := List.contains_iff_mem.1 hnul
    rw [if_pos hnul]
    constructor
    · intro h
      cases h
    · intro h
      exact absurd hmem h.1
  rw [if_neg hnul, if_neg hne, if_pos hp]
  have hmem : 0 ∉ p.bytes := fun h => hnul (List.contains_iff_mem.2 h)
  by_cases hlong : p.bytes.length ≥ pathBound
  · rw [if_pos hlong]
    constructor
    · intro h
      cases h
    · intro h
      exact absurd h.2.1 (Nat.not_lt.2 hlong)
  · rw [if_neg hlong]
    exact ⟨fun h => ⟨hmem, Nat.lt_of_not_le hlong, h⟩, fun h => h.2.2⟩

/-- The path `/` leads to the root. -/
theorem find_slash (disk : Disk) (cwd : Path) (hroot : disk.root.isDirectory = true) :
    disk.find cwd (.ofString "/") = .ok disk.root := by
  refine (find_eq_ok_iff rfl).2 ⟨by decide, by decide, ?_⟩
  have hsteps : steps (.ofString "/") = [[Component.dot]] := by decide
  have hdir : ¬(!(([] : List DiskEntry).head?.getD disk.root).isDirectory) = true := by simp [hroot]
  rw [hsteps, follow, if_neg hdir, if_neg (by decide), if_pos rfl, follow]
  rfl

/-- **A file that names lead to is found by their path**, if the path is short enough. -/
theorem openFile_of_descend? (hdir : dir.isAbsolute = true) (hfind : disk.find cwd dir = .ok top)
    (hlegal : ∀ n ∈ names, IsDiskName n) (hne : names ≠ [])
    (hdescend : top.descend? names = some (.file data))
    (hbound : (dir.join (.ofNames names)).bytes.length < pathBound) :
    disk.openFile cwd dir (.ofNames names) = .ok (opened (.file data)) := by
  obtain ⟨hnul, -, hfollow⟩ := (find_eq_ok_iff hdir).1 hfind
  have hnames : ∀ n ∈ names, IsName n := fun n hn => (hlegal n hn).toIsName
  have hdirBytes := Path.bytes_ne_nil_of_isAbsolute hdir
  have habsolute : (dir.join (.ofNames names)).isAbsolute = true := by
    rw [Path.isAbsolute_join hdirBytes (Path.isAbsolute_ofNames hnames), hdir]
  have hjoinNul : 0 ∉ (dir.join (.ofNames names)).bytes := by
    intro hmem
    rcases Path.mem_bytes_join hmem with h | h | h
    · exact hnul h
    · cases h
    · rcases Path.mem_bytes_ofNames h with h | ⟨n, hn, h⟩
      · cases h
      · exact (hlegal n hn).noNul h
  have hfound : disk.find cwd (dir.join (.ofNames names)) = .ok (.file data) := by
    refine (find_eq_ok_iff habsolute).2 ⟨hjoinNul, hbound, ?_⟩
    rw [steps_join hdirBytes hnames hne]
    exact follow_below hfollow hlegal nofun hdescend
  rw [openFile, hfound]

/-- **Every file of a regular tree is found by its path**, if the path is short enough. -/
theorem openFile_of_mem_files (hdir : dir.isAbsolute = true) (hfind : disk.find cwd dir = .ok top)
    (htop : top.isDirectory = true) (hregular : top.Regular) (hf : f ∈ files top)
    (hbound : (dir.join (.ofNames f.1)).bytes.length < pathBound) :
    disk.openFile cwd dir (.ofNames f.1) = .ok (opened (.file f.2)) := by
  obtain ⟨hlegal, hdescend⟩ := hregular.descend?_of_mem_files hf
  exact openFile_of_descend? hdir hfind (fun n hn => (hlegal n hn).isDiskName)
    (ne_nil_of_mem_files hf htop) hdescend hbound

end Disk

end DocDrive
