import DocDrive.CommandLine
import Mathlib.Data.List.Basic

/-!
# The grammar of the command line

Arguments come in groups: `--json`, a `--filter` with the argument after it, and plain arguments,
which stand for themselves. Read from the left, every list of arguments is cut into groups with at
most one plain argument among them, and into an end that decides the answer (`Decides`): nothing
more, a help flag, one more plain argument, or a `--filter` with nothing after it.

* `readMore_group`, `readMore_written` — what one group adds, and what all of them do.
* `exists_written_append` — every list of arguments is cut into groups and an end.
* `written_injective` — groups are read off their arguments in one way only.
* `arguments_follow_grammar` — which arguments are accepted, and what decides about the others.
-/

namespace DocDrive.CommandLine

/-! ## Groups -/

/-- An argument that asks for the usage. -/
def IsHelp (argument : String) : Prop := argument = "-h" ∨ argument = "--help"

instance (argument : String) : Decidable (IsHelp argument) :=
  inferInstanceAs (Decidable (argument = "-h" ∨ argument = "--help"))

/-- An argument that stands for itself. -/
structure IsPlain (argument : String) : Prop where
  notJson : argument ≠ "--json"
  notFilter : argument ≠ "--filter"
  notHelp : ¬IsHelp argument

/-- Arguments that are read at once. -/
inductive Group where
  | json
  /-- `--filter` and the argument after it, whatever that is. -/
  | filter (path : String)
  | plain (argument : String) (h : IsPlain argument)
  deriving DecidableEq

namespace Group

def arguments : Group → List String
  | json => ["--json"]
  | filter f => ["--filter", f]
  | plain a _ => [a]

def plain? : Group → Option String
  | plain a _ => some a
  | _ => none

def filter? : Group → Option String
  | filter f => some f
  | _ => none

end Group

/-- The arguments of several groups. -/
def written (gs : List Group) : List String := gs.flatMap Group.arguments

/-- The plain arguments among groups, in order. -/
def plains (gs : List Group) : List String := gs.filterMap Group.plain?

/-- The filters among groups, in order. -/
def filters (gs : List Group) : List String := gs.filterMap Group.filter?

/-- What has been read once a group is added. -/
def Read.adding (r : Read) : Group → Read
  | .json => { r with json := true }
  | .filter f => { r with filters := r.filters ++ [f] }
  | .plain a _ => { r with root := some a }

variable {r : Read} {g g' : Group} {gs gs' : List Group} {arguments rest : List String}
  {a : String} {o : Options} {answer : Except ArgumentError (Option Options)}

@[simp] theorem written_nil : written [] = [] := rfl

@[simp] theorem written_cons (g : Group) (gs : List Group) :
    written (g :: gs) = g.arguments ++ written gs := rfl

@[simp] theorem plains_nil : plains [] = [] := rfl

@[simp] theorem plains_cons (g : Group) (gs : List Group) :
    plains (g :: gs) = g.plain?.toList ++ plains gs := by
  cases g <;> rfl

@[simp] theorem filters_nil : filters [] = [] := rfl

@[simp] theorem filters_cons (g : Group) (gs : List Group) :
    filters (g :: gs) = g.filter?.toList ++ filters gs := by
  cases g <;> rfl

/-! ## One way to write groups -/

/-- The first group is read off the arguments. -/
theorem Group.arguments_append_inj {s t : List String} (h : g.arguments ++ s = g'.arguments ++ t) :
    g = g' ∧ s = t := by
  cases g with
  | json =>
    cases g' with
    | json => simpa [arguments] using h
    | filter f => simp [arguments] at h
    | plain a ha => exact absurd (List.cons.inj h).1.symm ha.notJson
  | filter f =>
    cases g' with
    | json => simp [arguments] at h
    | filter f' => simpa [arguments] using h
    | plain a ha => exact absurd (List.cons.inj h).1.symm ha.notFilter
  | plain a ha =>
    cases g' with
    | json => exact absurd (List.cons.inj h).1 ha.notJson
    | filter f => exact absurd (List.cons.inj h).1 ha.notFilter
    | plain b hb => simpa [arguments] using h

theorem Group.arguments_ne_nil (g : Group) : g.arguments ≠ [] := by
  cases g <;> exact List.cons_ne_nil _ _

/-- **Groups are read off their arguments in one way only.** -/
theorem written_injective : Function.Injective written := by
  intro gs gs' h
  induction gs generalizing gs' with
  | nil =>
    cases gs' with
    | nil => rfl
    | cons g' gs' => exact absurd h.symm (List.append_ne_nil_of_left_ne_nil g'.arguments_ne_nil _)
  | cons g gs ih =>
    cases gs' with
    | nil => exact absurd h (List.append_ne_nil_of_left_ne_nil g.arguments_ne_nil _)
    | cons g' gs' =>
      obtain ⟨rfl, hrest⟩ := Group.arguments_append_inj h
      rw [ih hrest]

/-! ## Reading groups -/

/-- A plain argument is the root where there is none yet, and unexpected otherwise. -/
theorem readMore_plain (h : IsPlain a) (r : Read) (rest : List String) :
    readMore r (a :: rest) = if r.root.isSome then .error (.unexpected a)
      else readMore { r with root := some a } rest := by
  obtain ⟨hjson, hfilter, hhelp⟩ := h
  unfold IsHelp at hhelp
  rw [readMore]
  · rw [if_neg hhelp]
  · exact hjson
  · exact fun h _ => hfilter h
  · exact fun _ _ h _ => hfilter h

/-- **One group** is read at once, unless it is a second plain argument. -/
theorem readMore_group (hroom : (r.root.toList ++ g.plain?.toList).length ≤ 1)
    (rest : List String) : readMore r (g.arguments ++ rest) = readMore (r.adding g) rest := by
  cases g with
  | json => rfl
  | filter f => rfl
  | plain a ha =>
    have hroot : r.root = none := by
      cases hr : r.root with
      | none => rfl
      | some b => simp [hr, Group.plain?] at hroom
    show readMore r (a :: rest) = _
    rw [readMore_plain ha, hroot]
    rfl

theorem toList_root_adding (hroom : (r.root.toList ++ g.plain?.toList).length ≤ 1) :
    (r.adding g).root.toList = r.root.toList ++ g.plain?.toList := by
  cases g with
  | json => simp [Read.adding, Group.plain?]
  | filter f => simp [Read.adding, Group.plain?]
  | plain a ha =>
    cases hr : r.root with
    | none => rfl
    | some b => simp [hr, Group.plain?] at hroom

/-- **Groups with at most one plain argument** are read one after the other. -/
theorem readMore_written (hroom : (r.root.toList ++ plains gs).length ≤ 1) (rest : List String) :
    readMore r (written gs ++ rest) = readMore (gs.foldl Read.adding r) rest := by
  induction gs generalizing r with
  | nil => rfl
  | cons g gs ih =>
    rw [plains_cons, ← List.append_assoc] at hroom
    have hfirst : (r.root.toList ++ g.plain?.toList).length ≤ 1 := by
      rw [List.length_append] at hroom
      omega
    rw [written_cons, List.append_assoc, readMore_group hfirst, List.foldl_cons]
    apply ih
    rwa [toList_root_adding hfirst]

/-- What groups leave behind: the last plain argument is the root, the filters come in order, and
`--json` is kept in mind. -/
theorem foldl_adding (gs : List Group) (r : Read) : gs.foldl Read.adding r =
    ⟨(r.root.toList ++ plains gs).getLast?, r.filters ++ filters gs,
      r.json || decide (.json ∈ gs)⟩ := by
  induction gs generalizing r with
  | nil =>
    obtain ⟨root, fs, json⟩ := r
    cases root <;> simp
  | cons g gs ih =>
    rw [List.foldl_cons, ih]
    cases g with
    | json => simp [Read.adding, Group.plain?, Group.filter?]
    | filter f => simp [Read.adding, Group.plain?, Group.filter?]
    | plain a ha => cases hr : r.root <;> simp [Read.adding, Group.plain?, Group.filter?]

/-- What has been read where groups were all there is so far. -/
def readOf (gs : List Group) : Read := ⟨(plains gs).getLast?, filters gs, decide (.json ∈ gs)⟩

/-- **What groups with at most one plain argument come to**: the rest is read after them. -/
theorem readArguments_written (hroom : (plains gs).length ≤ 1) (rest : List String) :
    readArguments (written gs ++ rest) = readMore (readOf gs) rest := by
  rw [readArguments, readMore_written (r := {}) hroom, foldl_adding]
  simp [readOf]

/-! ## Ends -/

/-- What decides the answer, after what has been read. -/
inductive Decides (r : Read) : List String → Except ArgumentError (Option Options) → Prop
  | finished : Decides r [] (.ok r.options?)
  | help {flag : String} {later : List String} : IsHelp flag → Decides r (flag :: later) (.ok none)
  | missing : Decides r ["--filter"] (.error .missingFilter)
  | unexpected {a : String} {later : List String} : IsPlain a → r.root.isSome = true →
      Decides r (a :: later) (.error (.unexpected a))

theorem readMore_of_decides (h : Decides r rest answer) : readMore r rest = answer := by
  cases h with
  | finished => rfl
  | help hflag =>
    obtain rfl | rfl := hflag
    · rfl
    · rfl
  | missing => rfl
  | unexpected ha hroot => rw [readMore_plain ha, if_pos hroot]

/-- An argument that is neither an option nor a help flag is plain. -/
theorem isPlain_of (hjson : a = "--json" → False) (hlast : a = "--filter" → rest = [] → False)
    (hfilter : ∀ f later, a = "--filter" → rest = f :: later → False) (hhelp : ¬IsHelp a) :
    IsPlain a where
  notJson := hjson
  notFilter := by
    intro ha
    cases rest with
    | nil => exact hlast ha rfl
    | cons f later => exact hfilter f later ha rfl
  notHelp := hhelp

/-- **Every list of arguments is cut into groups and an end.** -/
theorem exists_written_append (r : Read) (arguments : List String) :
    ∃ gs rest answer, arguments = written gs ++ rest ∧
      (r.root.toList ++ plains gs).length ≤ 1 ∧ Decides (gs.foldl Read.adding r) rest answer := by
  have hstart : (r.root.toList ++ plains []).length ≤ 1 := by
    cases r.root <;> simp
  induction r, arguments using readMore.induct with
  | case1 r => exact ⟨[], [], _, rfl, hstart, .finished⟩
  | case2 r rest ih =>
    obtain ⟨gs, tail, answer, rfl, hroom, hdecides⟩ := ih hstart
    exact ⟨.json :: gs, tail, answer, rfl, hroom, hdecides⟩
  | case3 r => exact ⟨[], _, _, rfl, hstart, .missing⟩
  | case4 r f rest ih =>
    obtain ⟨gs, tail, answer, rfl, hroom, hdecides⟩ := ih hstart
    exact ⟨.filter f :: gs, tail, answer, rfl, hroom, hdecides⟩
  | case5 r a rest _ _ _ hhelp => exact ⟨[], _, _, rfl, hstart, .help hhelp⟩
  | case6 r a rest hjson hlast hfilter hhelp hroot =>
    exact ⟨[], _, _, rfl, hstart, .unexpected (isPlain_of hjson hlast hfilter hhelp) hroot⟩
  | case7 r a rest hjson hlast hfilter hhelp hroot ih =>
    obtain ⟨gs, tail, answer, rfl, hroom, hdecides⟩ := ih (by simp)
    refine ⟨.plain a (isPlain_of hjson hlast hfilter hhelp) :: gs, tail, answer, rfl, ?_, hdecides⟩
    rw [Bool.not_eq_true, Option.isSome_eq_false_iff, Option.isNone_iff_eq_none] at hroot
    simpa [hroot, Group.plain?] using hroom

/-- **What arguments come to** is decided by what stands behind their groups. -/
theorem readArguments_eq_iff : readArguments arguments = answer ↔ ∃ gs rest,
    arguments = written gs ++ rest ∧ (plains gs).length ≤ 1 ∧ Decides (readOf gs) rest answer := by
  constructor
  · rintro rfl
    obtain ⟨gs, rest, answer, rfl, hroom, hdecides⟩ := exists_written_append {} arguments
    have hread : gs.foldl Read.adding {} = readOf gs := by
      simp [foldl_adding, readOf]
    rw [hread] at hdecides
    refine ⟨gs, rest, rfl, hroom, ?_⟩
    rwa [readArguments_written hroom, readMore_of_decides hdecides]
  · rintro ⟨gs, rest, rfl, hroom, hdecides⟩
    rw [readArguments_written hroom, readMore_of_decides hdecides]

/-! ## The grammar -/

theorem isSome_root_readOf_iff (hroom : (plains gs).length ≤ 1) :
    (readOf gs).root.isSome = true ↔ ∃ root, plains gs = [root] := by
  unfold readOf
  match hplains : plains gs with
  | [] => simp
  | [root] => simp
  | _ :: _ :: _ => simp [hplains] at hroom

/-- **Options are read from groups with one plain argument** and from nothing else. -/
theorem readArguments_eq_options_iff : readArguments arguments = .ok (some o) ↔ ∃ gs root,
    arguments = written gs ∧ plains gs = [root] ∧
      o = ⟨.ofString root, filters gs, decide (.json ∈ gs)⟩ := by
  rw [readArguments_eq_iff]
  constructor
  · rintro ⟨gs, rest, rfl, hroom, hdecides⟩
    generalize hanswer : Except.ok (some o) = answer at hdecides
    cases hdecides with
    | finished =>
      obtain ⟨root, hroot, rfl⟩ := Option.map_eq_some_iff.1 (Except.ok.inj hanswer).symm
      obtain ⟨only, hplains⟩ := (isSome_root_readOf_iff hroom).1 (by rw [hroot]; rfl)
      have hsame : (readOf gs).root = some only := by simp [readOf, hplains]
      obtain rfl : only = root := Option.some.inj (hsame.symm.trans hroot)
      exact ⟨gs, only, List.append_nil _, hplains, rfl⟩
    | help => cases hanswer
    | missing => cases hanswer
    | unexpected => cases hanswer
  · rintro ⟨gs, root, rfl, hplains, rfl⟩
    refine ⟨gs, [], (List.append_nil _).symm, by simp [hplains], ?_⟩
    have hoptions : (readOf gs).options? =
        some ⟨.ofString root, filters gs, decide (.json ∈ gs)⟩ := by
      simp [Read.options?, readOf, hplains]
    rw [← hoptions]
    exact .finished

/-- The usage is asked for where there is no root, or by a help flag before anything is wrong. -/
theorem readArguments_eq_none_iff : readArguments arguments = .ok none ↔
    (∃ gs, arguments = written gs ∧ plains gs = []) ∨ ∃ gs flag later,
      arguments = written gs ++ flag :: later ∧ (plains gs).length ≤ 1 ∧ IsHelp flag := by
  rw [readArguments_eq_iff]
  constructor
  · rintro ⟨gs, rest, rfl, hroom, hdecides⟩
    generalize hanswer : Except.ok none = answer at hdecides
    cases hdecides with
    | finished =>
      refine Or.inl ⟨gs, List.append_nil _, ?_⟩
      have hroot : (readOf gs).root = none := Option.map_eq_none_iff.1 (Except.ok.inj hanswer).symm
      exact List.getLast?_eq_none_iff.1 hroot
    | help hflag => exact Or.inr ⟨gs, _, _, rfl, hroom, hflag⟩
    | missing => cases hanswer
    | unexpected => cases hanswer
  · rintro (⟨gs, rfl, hplains⟩ | ⟨gs, flag, later, rfl, hroom, hflag⟩)
    · refine ⟨gs, [], (List.append_nil _).symm, by simp [hplains], ?_⟩
      have hnone : (readOf gs).options? = none := by simp [Read.options?, readOf, hplains]
      rw [← hnone]
      exact .finished
    · exact ⟨gs, _, rfl, hroom, .help hflag⟩

/-- A `--filter` at the end is an error, if nothing before it decides. -/
theorem readArguments_eq_missingFilter_iff :
    readArguments arguments = .error .missingFilter ↔
      ∃ gs, arguments = written gs ++ ["--filter"] ∧ (plains gs).length ≤ 1 := by
  rw [readArguments_eq_iff]
  constructor
  · rintro ⟨gs, rest, rfl, hroom, hdecides⟩
    cases hdecides with
    | missing => exact ⟨gs, rfl, hroom⟩
  · rintro ⟨gs, rfl, hroom⟩
    exact ⟨gs, _, rfl, hroom, .missing⟩

/-- A second plain argument is an error, if nothing before it decides. -/
theorem readArguments_eq_unexpected_iff :
    readArguments arguments = .error (.unexpected a) ↔ ∃ gs root later,
      arguments = written gs ++ a :: later ∧ plains gs = [root] ∧ IsPlain a := by
  rw [readArguments_eq_iff]
  constructor
  · rintro ⟨gs, rest, rfl, hroom, hdecides⟩
    cases hdecides with
    | unexpected ha hroot =>
      obtain ⟨root, hplains⟩ := (isSome_root_readOf_iff hroom).1 hroot
      exact ⟨gs, root, _, rfl, hplains, ha⟩
  · rintro ⟨gs, root, later, rfl, hplains, ha⟩
    have hroom : (plains gs).length ≤ 1 := by simp [hplains]
    exact ⟨gs, _, rfl, hroom, .unexpected ha ((isSome_root_readOf_iff hroom).2 ⟨root, hplains⟩)⟩

/-- **Groups may change places** as long as the filters keep their order. -/
theorem readArguments_written_of_perm (hperm : gs.Perm gs') (hfilters : filters gs = filters gs')
    (hroom : (plains gs).length ≤ 1) :
    readArguments (written gs) = readArguments (written gs') := by
  have hplains : plains gs = plains gs' := by
    have hsame : (plains gs).Perm (plains gs') := hperm.filterMap Group.plain?
    match hgs : plains gs with
    | [] =>
      rw [hgs] at hsame
      exact hsame.nil_eq
    | [root] =>
      rw [hgs] at hsame
      exact (List.perm_singleton.1 hsame.symm).symm
    | _ :: _ :: _ => simp [hgs] at hroom
  have hread : readOf gs = readOf gs' := by
    simp [readOf, hplains, hfilters, hperm.mem_iff]
  rw [← List.append_nil (written gs), ← List.append_nil (written gs'),
    readArguments_written hroom, readArguments_written (hplains ▸ hroom), hread]

/-- **The command line accepts exactly its grammar.** Groups are read off their arguments in one way
only. Options are read exactly from groups with one plain argument, the root: the filters are those
of the groups, in order, and JSON is asked for if one of the groups says so. Otherwise the first of
these decides that is met from the left: a help flag asks for the usage, and one more plain argument
or a `--filter` at the end is an error. With none of them, and no root, the usage is asked for. So
groups may change places as long as the filters keep their order. -/
theorem arguments_follow_grammar :
    Function.Injective written ∧
    (∀ arguments o, readArguments arguments = .ok (some o) ↔ ∃ gs root, arguments = written gs ∧
      plains gs = [root] ∧ o = ⟨.ofString root, filters gs, decide (.json ∈ gs)⟩) ∧
    (∀ arguments, readArguments arguments = .ok none ↔
      (∃ gs, arguments = written gs ∧ plains gs = []) ∨ ∃ gs flag later,
        arguments = written gs ++ flag :: later ∧ (plains gs).length ≤ 1 ∧ IsHelp flag) ∧
    (∀ arguments, readArguments arguments = .error .missingFilter ↔
      ∃ gs, arguments = written gs ++ ["--filter"] ∧ (plains gs).length ≤ 1) ∧
    (∀ arguments a, readArguments arguments = .error (.unexpected a) ↔ ∃ gs root later,
      arguments = written gs ++ a :: later ∧ plains gs = [root] ∧ IsPlain a) ∧
    (∀ host program arguments,
      (readArguments arguments = .ok none →
        run host program arguments = { stderr := usage program }) ∧
      ∀ e, readArguments arguments = .error e → run host program arguments =
        { status := 1, stderr := "Error: " ++ e.message ++ "\n" }) ∧
    ∀ gs gs' : List Group, gs.Perm gs' → filters gs = filters gs' → (plains gs).length ≤ 1 →
      readArguments (written gs) = readArguments (written gs') := by
  refine ⟨written_injective, fun arguments o => readArguments_eq_options_iff,
    fun arguments => readArguments_eq_none_iff,
    fun arguments => readArguments_eq_missingFilter_iff,
    fun arguments a => readArguments_eq_unexpected_iff, fun host program arguments => ⟨?_, ?_⟩,
    fun gs gs' => readArguments_written_of_perm⟩
  · intro hnone
    rw [run, hnone]
  · intro e herror
    rw [run, herror]
    simp [fatal, causes]

/-- `a.yaml` as a plain argument. -/
def yamlGroup : Group := .plain "a.yaml" ⟨by decide, by decide, by decide⟩

/-- A filter that is spelled like an option is a filter, and the root may come first. A help flag
behind a second plain argument comes too late, and `--filter` takes the last argument for itself. -/
theorem arguments_follow_grammar_swallowed :
    readArguments ["--filter", "--json", "a.yaml", "--json"] =
      .ok (some ⟨.ofString "a.yaml", ["--json"], true⟩) ∧
    readArguments ["--filter", "--json", "a.yaml", "--json"] =
      readArguments ["a.yaml", "--json", "--filter", "--json"] ∧
    readArguments ["a.yaml", "a.yaml", "--help"] = .error (.unexpected "a.yaml") ∧
    run { cwd := .ofString "/" } "docdrive" ["--filter", "a.yaml"] =
      { stderr := usage "docdrive" } := by
  obtain ⟨-, haccept, husage, -, hunexpected, hanswers, hmoves⟩ := arguments_follow_grammar
  refine ⟨?_, ?_, ?_, ?_⟩
  · exact (haccept _ _).2 ⟨[.filter "--json", yamlGroup, .json], _, rfl, rfl, rfl⟩
  · exact hmoves [.filter "--json", yamlGroup, .json] [yamlGroup, .json, .filter "--json"]
      (by decide) rfl (by decide)
  · exact (hunexpected _ _).2 ⟨[yamlGroup], _, _, rfl, rfl, by decide, by decide, by decide⟩
  · exact (hanswers _ _ _).1 ((husage _).2 (Or.inl ⟨[.filter "a.yaml"], rfl, rfl⟩))

end DocDrive.CommandLine
