import DocDrive.Proofs.Encoding
import DocDrive.Proofs.FileTree.Depth
import DocDrive.Proofs.Hidden

/-!
# Dotted names that are no text

Two places ask whether a name begins with a dot. The walk of a disk looks at the name as it is
shown, so it leaves out every directory whose name begins with that byte. Admission looks at names
that are text only. A dotted name that is no text therefore hides nothing from admission, while the
walk of a disk still leaves out what lies below it.

* `Utf8.head?_lossy_eq_dot_iff` — a name is shown with a dot in front exactly if that byte is there.
* `Path.isHidden_iff` — a path is turned away for a dotted name that is text.
* `Disk.exists_mem_walkEntry_iff` — the files that a walk lists, whatever their names are.
* `dotted_names_hidden` — the extent to which what a walk leaves out would have been turned away.
* `veiled_file_admitted` — a file that the walk leaves out, and that would have been admitted.
-/

namespace DocDrive

/-! ## Names with a dot in front -/

namespace Utf8

variable {bytes : Bytes}

/-- **A byte string is shown with a dot in front** exactly if that byte is there. -/
theorem head?_lossy_eq_dot_iff :
    (lossy bytes).head? = some '.' ↔ bytes.head? = some Component.dot := by
  have hdot : String.utf8EncodeChar '.' = [Component.dot] := rfl
  constructor
  · intro h
    rw [lossy, List.head?_map, Option.map_eq_some_iff] at h
    obtain ⟨piece, hpiece, hshown⟩ := h
    obtain ⟨tail, htail⟩ := List.head?_eq_some_iff.1 hpiece
    -- An ill-formed piece is shown as another character.
    cases piece with
    | none => cases hshown
    | some c =>
      obtain rfl : c = '.' := hshown
      obtain ⟨rest, rfl, -⟩ := pieces_eq_cons_iff.1 htail
      rw [hdot]
      rfl
  · intro h
    obtain ⟨rest, rfl⟩ := List.head?_eq_some_iff.1 h
    have hpieces : pieces (Component.dot :: rest) = some '.' :: pieces rest :=
      pieces_append_ascii (by decide) [] rest
    rw [lossy, hpieces]
    rfl

end Utf8

theorem DiskEntry.isDotted_iff {name : Bytes} :
    isDotted name = true ↔ name.head? = some Component.dot := by
  rw [isDotted, beq_iff_eq, Utf8.head?_lossy_eq_dot_iff]

theorem Component.isDotted_iff {c : Component} :
    c.isDotted = true ↔ ∃ name, c = .normal name ∧ name.head? = some dot := by
  cases c <;> simp [isDotted]

/-- A name is turned away for its dot only if it is text. -/
theorem Component.isHidden_iff {c : Component} : c.isHidden = true ↔
    ∃ name, c = .normal name ∧ name.head? = some dot ∧ (Utf8.decode? name).isSome = true := by
  cases c with
  | normal name =>
    constructor
    · intro h
      rw [isHidden] at h
      split at h
      · rename_i rest hdecode
        have hshown : (Utf8.lossy name).head? = some '.' := by
          rw [Utf8.lossy_of_decode? hdecode]
          rfl
        exact ⟨name, rfl, Utf8.head?_lossy_eq_dot_iff.1 hshown, by rw [hdecode]; rfl⟩
      · cases h
    · rintro ⟨other, hsame, hdot, htext⟩
      obtain rfl := Component.normal.inj hsame
      obtain ⟨rest, rfl⟩ := List.head?_eq_some_iff.1 hdot
      obtain ⟨text, hdecode⟩ := Utf8.decode?_cons_ascii (by decide) htext
      rw [isHidden, hdecode]
      rfl
  | _ => simp [isHidden]

namespace Path

variable {p : Path} {names : List Bytes}

/-- **A path is turned away for a dotted name that is text.** -/
theorem isHidden_iff : p.isHidden = true ↔ ∃ name, .normal name ∈ p.components ∧
    name.head? = some Component.dot ∧ (Utf8.decode? name).isSome = true := by
  rw [isHidden, List.any_eq_true]
  constructor
  · rintro ⟨c, hc, h⟩
    obtain ⟨name, rfl, hname⟩ := Component.isHidden_iff.1 h
    exact ⟨name, hc, hname⟩
  · rintro ⟨name, hc, hname⟩
    exact ⟨_, hc, Component.isHidden_iff.2 ⟨name, rfl, hname⟩⟩

theorem hasDottedName_of_isHidden (h : p.isHidden = true) : p.hasDottedName = true := by
  obtain ⟨name, hc, hdot, -⟩ := isHidden_iff.1 h
  exact List.any_eq_true.2 ⟨_, hc, Component.isDotted_iff.2 ⟨name, rfl, hdot⟩⟩

theorem isHidden_ofNames_iff (h : ∀ n ∈ names, IsName n) : (ofNames names).isHidden = true ↔
    ∃ name ∈ names, name.head? = some Component.dot ∧ (Utf8.decode? name).isSome = true := by
  rw [isHidden_iff, components_ofNames h]
  simp

theorem ofNames_injective {more : List Bytes} (h : ∀ n ∈ names, IsName n)
    (hmore : ∀ n ∈ more, IsName n) (heq : ofNames names = ofNames more) : names = more := by
  have hcomponents := congrArg components heq
  rw [components_ofNames h, components_ofNames hmore] at hcomponents
  exact List.map_injective_iff.2 (fun _ _ => Component.normal.inj) hcomponents

end Path

/-! ## What a walk leaves out -/

section Walks

open DiskEntry

variable {d : DiskEntry} {f : List Bytes × Bytes} {names : List Bytes} {depth : Nat}

theorem DiskEntry.Named.isName_of_mem_files (hd : d.Named) (hf : f ∈ d.files) :
    ∀ n ∈ f.1, IsName n := by
  induction hd generalizing f with
  | file data =>
    rw [List.mem_singleton.1 hf]
    exact nofun
  | link target => cases hf
  | directory hlegal _ ih =>
    obtain ⟨e, he, g, hg, rfl⟩ := mem_files_directory.1 hf
    exact List.forall_mem_cons.2 ⟨hlegal e he, ih e he hg⟩

theorem DiskEntry.isShown_iff :
    isShown names = true ↔ ∀ name ∈ names.dropLast, name.head? ≠ some Component.dot := by
  rw [isShown, List.all_eq_true]
  apply forall₂_congr
  intro name _
  rw [Bool.not_eq_true', Bool.eq_false_iff, Ne, isDotted_iff]

/-- A walk that goes deep enough lists every file that no dotted directory stands above. -/
theorem Disk.mem_walkEntry_of_isShown (hd : d.Named) (hnames : ∀ n ∈ names, IsName n)
    (hdepth : height d ≤ depth) (hf : f ∈ d.files) (hne : f.1 ≠ []) (hshown : isShown f.1 = true) :
    { path := .ofNames (names ++ f.1) } ∈ walkEntry (.ofNames names) depth d := by
  induction hd generalizing names depth f with
  | file data =>
    rw [List.mem_singleton.1 hf] at hne
    exact absurd rfl hne
  | link target => cases hf
  | directory hlegal _ ih =>
    obtain ⟨e, he, g, hg, rfl⟩ := mem_files_directory.1 hf
    rw [height] at hdepth
    obtain ⟨levels, rfl⟩ : ∃ levels, depth = levels + 1 := ⟨depth - 1, by omega⟩
    have hlevels : height e.2 ≤ levels := by
      have hheight := height_le_heights he
      omega
    have hname : IsName e.1 := hlegal e he
    rw [walkEntry, mem_walkEntries_iff]
    refine ⟨e, he, ?_⟩
    rw [below, Path.join_ofNames hnames hname]
    by_cases hfile : g.1 = []
    · -- What is reached by no more names is a file, and only directories are left out.
      have hnotDirectory : e.2.isDirectory = false :=
        Bool.eq_false_iff.2 fun hdir => ne_nil_of_mem_files hg hdir hfile
      rw [isPruned, hnotDirectory, hfile]
      exact ⟨rfl, Or.inl rfl⟩
    · rw [isShown_cons_eq hfile, Bool.and_eq_true, Bool.not_eq_true'] at hshown
      have hplain : (Utf8.lossy e.1).head? ≠ some '.' := by
        simpa [isDotted] using hshown.1
      have hlonger : ∀ n ∈ names ++ [e.1], IsName n :=
        List.forall_mem_append.2 ⟨hnames, List.forall_mem_singleton.2 hname⟩
      have hlisted := ih e he hlonger hlevels hg hfile hshown.2
      rw [List.append_assoc] at hlisted
      exact ⟨by simp [isPruned, hplain], Or.inr hlisted⟩

/-- **The files that a walk lists** are those that no dotted directory stands above. -/
theorem Disk.exists_mem_walkEntry_iff (hd : d.Named) (hdir : d.isDirectory = true)
    (hdepth : height d ≤ depth) (hf : f ∈ d.files) :
    (∃ e ∈ walkEntry .empty depth d, e.path = .ofNames f.1 ∧ e.isDirectory = false) ↔
      isShown f.1 = true := by
  constructor
  · rintro ⟨e, he, hpath, -⟩
    obtain ⟨more, -, hmore, hpath', hshown⟩ := @exists_names_of_mem_walkEntry [] _ _ _ nofun hd he
    obtain rfl := Path.ofNames_injective hmore (hd.isName_of_mem_files hf) (hpath'.symm.trans hpath)
    exact hshown
  · intro hshown
    have hne : f.1 ≠ [] := ne_nil_of_mem_files hf hdir
    exact ⟨_, @mem_walkEntry_of_isShown _ _ [] _ hd nofun hdepth hf hne hshown, rfl, rfl⟩

/-- **Which dotted names hide.** A path is turned away as hidden exactly if one of its names begins
with a dot and is text; so a path that is text is turned away for any dotted name. The walk of a
disk lists exactly the files that no directory with a dotted name stands above, be the name text or
not. What it leaves out would have been turned away as hidden exactly if one of the dotted names on
the way is text. -/
theorem dotted_names_hidden {disk : Disk} {cwd dir : Path} {top : DiskEntry}
    (hfind : disk.find cwd dir = .ok top) (htop : top.isDirectory = true) (hnamed : top.Named) :
    (∀ p : Path, p.isHidden = true ↔ ∃ name, .normal name ∈ p.components ∧
      name.head? = some Component.dot ∧ (Utf8.decode? name).isSome = true) ∧
    (∀ p : Path, p.toString?.isSome = true → (p.isHidden = true ↔ p.hasDottedName = true)) ∧
    ∃ walk, disk.walk cwd dir none = .ok walk ∧ ∀ f ∈ top.files,
      ((∃ e ∈ walk, e.path = .ofNames f.1 ∧ e.isDirectory = false) ↔
        ∀ name ∈ f.1.dropLast, name.head? ≠ some Component.dot) ∧
      ∀ filters, (admission filters (.ofNames f.1) = .error .hidden ↔ ∃ name ∈ f.1,
        name.head? = some Component.dot ∧ (Utf8.decode? name).isSome = true) := by
  refine ⟨fun p => Path.isHidden_iff, fun p htext => ?_, Disk.walkEntry .empty
    ((Disk.height top).max 1) top, ?_, fun f hf => ⟨?_, fun filters => ?_⟩⟩
  · exact ⟨Path.hasDottedName_of_isHidden, Path.isHidden_of_hasDottedName htext⟩
  · rw [Disk.walk, hfind]
    exact if_pos htop
  · rw [Disk.exists_mem_walkEntry_iff hnamed htop (Nat.le_max_left _ _) hf, isShown_iff]
  · rw [admission_eq_hidden_iff, Path.isHidden_ofNames_iff (hnamed.isName_of_mem_files hf)]

end Walks

/-! ## A file below a veiled directory -/

/-- A directory with a dotted name that is no text, and a file below it. -/
def veiledTop : DiskEntry :=
  .directory [([Component.dot, 0xFF], .directory [(Utf8.ofString "a.json", .file [0x31])])]

/-- The names that lead to that file. -/
def veiledNames : List Bytes := [[Component.dot, 0xFF], Utf8.ofString "a.json"]

theorem mem_files_veiledTop : (veiledNames, [0x31]) ∈ veiledTop.files := by decide

theorem named_veiledTop : veiledTop.Named := by
  refine .directory (by decide) (List.forall_mem_singleton.2 ?_)
  exact .directory (by decide) (List.forall_mem_singleton.2 (.file _))

theorem find_veiledTop :
    Disk.find { root := veiledTop } (.ofString "/") (.ofString "/") = .ok veiledTop :=
  Disk.find_slash _ _ rfl

/-- The walk passes by that file, and no list of admitted files turns its path away as hidden. -/
theorem dotted_names_hidden_veiled : ∃ walk,
    Disk.walk { root := veiledTop } (.ofString "/") (.ofString "/") none = .ok walk ∧
      (¬∃ e ∈ walk, e.path = .ofNames veiledNames ∧ e.isDirectory = false) ∧
      ∀ filters, admission filters (.ofNames veiledNames) ≠ .error .hidden := by
  obtain ⟨-, -, walk, hwalk, hfiles⟩ := dotted_names_hidden find_veiledTop rfl named_veiledTop
  obtain ⟨hlisted, hhidden⟩ := hfiles _ mem_files_veiledTop
  refine ⟨walk, hwalk, ?_, fun filters hfilters => ?_⟩
  · rw [hlisted]
    decide
  · obtain ⟨name, hmem, hdot, htext⟩ := (hhidden filters).1 hfilters
    revert name
    decide

/-- **A file can be passed by that would be admitted**: the walk lists nothing at all, and the path
of the file, though one of its names begins with a dot, is admitted as a JSON document. -/
theorem veiled_file_admitted :
    Disk.walk { root := veiledTop } (.ofString "/") (.ofString "/") none = .ok [] ∧
      (veiledNames, [0x31]) ∈ veiledTop.files ∧
      (Path.ofNames veiledNames).hasDottedName = true ∧
      (Path.ofNames veiledNames).isHidden = false ∧
      admission none (.ofNames veiledNames) = .ok .json := by
  refine ⟨?_, mem_files_veiledTop, by decide, by decide, by decide⟩
  rw [Disk.walk, find_veiledTop]
  rfl

end DocDrive
