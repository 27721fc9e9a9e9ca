import DocDrive.Proofs.Resolution

/-!
# Locations in JSON documents

Below the root, the recorded location of a reference is the pointer to the mapping that holds it,
and no other mapping has it. The root is recorded as `/`, which is the pointer to what stands under
its empty key.

* `IsJson.mem_references_iff` — references are recorded for the positions that hold them.
* `IsJson.resolve?_location_iff` — a location leads back exactly below the root.
* `location_eq_iff` — which positions share a location.
* `location_names_holder` — what a recorded location tells about the mapping that holds it.
* `root_location_shared` — a location that is recorded for two mappings, and for the root in vain.
-/

namespace DocDrive

/-- The location that is recorded at a position. -/
def Step.location : List Step → String
  | [] => "/"
  | steps => .ofList (Pointer.ofSteps steps)

@[simp] theorem Step.location_cons (s : Step) (steps : List Step) :
    location (s :: steps) = .ofList (Pointer.ofSteps (s :: steps)) := rfl

namespace Node

variable {n m : Node} {entries entries' : List (Node × Node)} {steps steps' : List Step}
  {target : String} {r : Reference}

/-- A mapping with a reference stands at a position. -/
def HoldsAt (n : Node) (steps : List Step) (entries : List (Node × Node)) (target : String) : Prop :=
  n.at? steps = some (mapping entries) ∧ lookup "$ref" entries = some (string target)

theorem location_reverse (steps : List Step) :
    location (steps.map Step.text).reverse = Step.location steps := by
  cases steps with
  | nil => rfl
  | cons s steps =>
    rw [location, if_neg (by simp), List.reverse_reverse]
    rfl

/-- **References are recorded for the positions that hold them.** -/
theorem IsJson.mem_references_iff (h : n.IsJson) : r ∈ n.references ↔
    ∃ steps entries, n.HoldsAt steps entries r.target ∧ r.location = Step.location steps := by
  rw [Node.mem_references_iff]
  constructor
  · rintro ⟨path, ⟨entries, hreach, href⟩, hloc⟩
    obtain ⟨steps, rfl, hm⟩ := h.reaches_iff.1 hreach
    have hlookup := (lookup_eq_some_iff (h.at? hm).distinct).2 href
    rw [tokens_map_move, location_reverse] at hloc
    exact ⟨steps, entries, ⟨hm, hlookup⟩, hloc⟩
  · rintro ⟨steps, entries, ⟨hm, hlookup⟩, hloc⟩
    have hreach := h.reaches_iff.2 ⟨steps, rfl, hm⟩
    refine ⟨_, ⟨entries, hreach, mem_of_lookup hlookup⟩, ?_⟩
    rw [tokens_map_move, location_reverse, hloc]

/-! ## Following a location -/

theorem IsJson.resolve?_ofSteps (h : n.IsJson) (hm : n.at? steps = some m) :
    n.resolve? (.ofList (Pointer.ofSteps steps)) = some m := by
  rw [Pointer.ofSteps, resolve?_write]
  exact h.descend?_of_at? hm

/-- At the root, the location is read as the empty key. -/
theorem resolve?_location_nil : (mapping entries).resolve? (Step.location []) = lookup "" entries := by
  have htokens : Pointer.tokens? "/".toList = some [[]] := by decide
  have hempty : String.ofList (Pointer.unescape []) = "" := rfl
  rw [Step.location, resolve?, htokens]
  simp [descend?, child?, hempty]

/-- No mapping is the value of one of its own entries. -/
theorem lookup_ne_self {key : String} : lookup key entries ≠ some (mapping entries) := by
  intro h
  -- A value is smaller than the mapping around it.
  have hlt := List.sizeOf_lt_of_mem (mem_of_lookup h)
  simp only [Prod.mk.sizeOf_spec, mapping.sizeOf_spec] at hlt
  omega

/-- **A location leads back exactly below the root.** -/
theorem IsJson.resolve?_location_iff (h : n.IsJson) (hm : n.at? steps = some (mapping entries)) :
    n.resolve? (Step.location steps) = some (mapping entries) ↔ steps ≠ [] := by
  cases steps with
  | nil =>
    obtain rfl : n = mapping entries := Option.some.inj hm
    rw [resolve?_location_nil]
    simp [lookup_ne_self]
  | cons s steps =>
    have hresolve := h.resolve?_ofSteps hm
    simpa using hresolve

/-! ## Sharing a location -/

theorem ofSteps_eq_iff (hm : n.at? steps = some m) {m' : Node} (hm' : n.at? steps' = some m') :
    Pointer.ofSteps steps = Pointer.ofSteps steps' ↔ steps = steps' := by
  refine ⟨fun h => ?_, fun h => congrArg _ h⟩
  have htokens := congrArg Pointer.tokens? h
  simp only [Pointer.ofSteps, Pointer.tokens?_write, Option.some.injEq] at htokens
  have htexts := congrArg (List.map Pointer.unescape) htokens
  rw [Pointer.map_unescape_map_escape, Pointer.map_unescape_map_escape] at htexts
  exact text_inj_of_at? hm hm' htexts

/-- Below the root, only the node under the empty key of the root has the pointer `/`. -/
theorem location_eq_slash_iff {s : Step} :
    Step.location (s :: steps) = Step.location [] ↔ s = .key "" ∧ steps = [] := by
  constructor
  · intro h
    have hlist : '/' :: (s.token ++ Pointer.ofSteps steps) = ['/'] := by
      have htext := congrArg String.toList h
      rw [Step.location_cons, String.toList_ofList, Pointer.ofSteps_eq_flatMap, List.flatMap_cons,
        ← Pointer.ofSteps_eq_flatMap] at htext
      exact htext
    obtain ⟨htoken, hrest⟩ := List.append_eq_nil_iff.1 (List.cons.inj hlist).2
    have hs : s = .key "" := by
      cases s with
      | key name =>
        have hname := congrArg Pointer.unescape htoken
        rw [Step.token, Pointer.unescape_escape] at hname
        rw [String.toList_eq_nil_iff.1 hname]
      | index i => exact absurd htoken Nat.toDigits_ne_nil
    cases steps with
    | nil => exact ⟨hs, rfl⟩
    | cons s steps => cases hrest
  · rintro ⟨rfl, rfl⟩
    rfl

/-- **Which positions share a location**: only the root and what stands under its empty key. -/
theorem location_eq_iff (hm : n.at? steps = some m) {m' : Node} (hm' : n.at? steps' = some m')
    (hne : steps ≠ steps') : Step.location steps = Step.location steps' ↔
      steps = [] ∧ steps' = [.key ""] ∨ steps = [.key ""] ∧ steps' = [] := by
  cases steps with
  | nil =>
    cases steps' with
    | nil => exact absurd rfl hne
    | cons s' steps' =>
      rw [eq_comm, location_eq_slash_iff]
      simp
  | cons s steps =>
    cases steps' with
    | nil =>
      rw [location_eq_slash_iff]
      simp
    | cons s' steps' =>
      have hpointer : Pointer.ofSteps (s :: steps) ≠ Pointer.ofSteps (s' :: steps') :=
        fun h => hne ((ofSteps_eq_iff hm hm').1 h)
      have hlocation : Step.location (s :: steps) ≠ Step.location (s' :: steps') :=
        fun h => hpointer (String.ofList_injective h)
      refine iff_of_false hlocation ?_
      simp

end Node

/-! ## Recorded locations -/

/-- **What a recorded location tells.** In a JSON document references are recorded for exactly the
positions that hold them. Such a location resolves to the very mapping there if that is not the
root; the location of the root resolves to what stands under its empty key. Two mappings with
references share a location only if one is the root and the other stands under its empty key. -/
theorem location_names_holder {root : Derived Node} {config : IndexConfig} {x : StructuralIndex}
    (hjson : root.value.IsJson) (hcollect : config.collect = true)
    (hbuild : Indexer.references root config = .ok x) :
    (∀ r, r ∈ x.references ↔ ∃ steps entries, root.value.HoldsAt steps entries r.target ∧
      r.location = Step.location steps) ∧
    (∀ steps entries target, root.value.HoldsAt steps entries target →
      (x.resolve? (Step.location steps) = some (.mapping entries) ↔ steps ≠ []) ∧
      (steps = [] → x.resolve? (Step.location steps) = Node.lookup "" entries)) ∧
    (∀ steps entries target steps' entries' target', root.value.HoldsAt steps entries target →
      root.value.HoldsAt steps' entries' target' → steps ≠ steps' →
      (Step.location steps = Step.location steps' ↔
        steps = [] ∧ steps' = [.key ""] ∨ steps = [.key ""] ∧ steps' = [])) := by
  cases hbuild
  refine ⟨fun r => ?_, fun steps entries target ⟨hm, _⟩ => ⟨?_, ?_⟩,
    fun _ _ _ _ _ _ ⟨hm, _⟩ ⟨hm', _⟩ hne => Node.location_eq_iff hm hm' hne⟩
  · rw [if_pos hcollect]
    exact hjson.mem_references_iff
  · rw [StructuralIndex.resolve?]
    exact hjson.resolve?_location_iff hm
  · rintro rfl
    rw [StructuralIndex.resolve?, Option.some.inj hm]
    exact Node.resolve?_location_nil

/-- A reference in an item of a sequence, under a key with a slash, is found where it was
recorded. -/
theorem location_names_holder_item : ∃ (root : Derived Node) (x : StructuralIndex),
    root.value.IsJson ∧ Indexer.references root {} = .ok x ∧
    ⟨"/a~1b/0", "x.yaml"⟩ ∈ x.references ∧
    x.resolve? "/a~1b/0" = some (.mapping [(.string "$ref", .string "x.yaml")]) := by
  let holder : List (Node × Node) := [(.string "$ref", .string "x.yaml")]
  let root : Node := .mapping [(.string "a/b", .sequence [.mapping holder])]
  have hjson : (Derived.mk 0 0 root).value.IsJson := ⟨rfl, rfl⟩
  have hbuild : Indexer.references ⟨0, 0, root⟩ {} = .ok _ := rfl
  have hholds : root.HoldsAt [.key "a/b", .index 0] holder "x.yaml" := ⟨rfl, rfl⟩
  obtain ⟨hrecorded, hresolved, -⟩ := location_names_holder hjson rfl hbuild
  have hmem := (hrecorded ⟨"/a~1b/0", "x.yaml"⟩).2 ⟨_, _, hholds, rfl⟩
  have hfound := (hresolved _ _ _ hholds).1.2 (by simp)
  exact ⟨_, _, hjson, hbuild, hmem, hfound⟩

/-- The root and the mapping under its empty key are recorded at one location, which leads to the
latter. -/
theorem root_location_shared : ∃ (root : Derived Node) (x : StructuralIndex),
    root.value = .mapping [(.string "$ref", .string "x"),
      (.string "", .mapping [(.string "$ref", .string "y")])] ∧
    root.value.IsJson ∧ Indexer.references root {} = .ok x ∧
    x.references = [⟨"/", "x"⟩, ⟨"/", "y"⟩] ∧
    x.resolve? "/" = some (.mapping [(.string "$ref", .string "y")]) ∧
    x.resolve? "/" ≠ some root.value := by
  refine ⟨⟨0, 0, _⟩, _, rfl, ⟨?_, rfl⟩, rfl, by decide, rfl, ?_⟩
  · simp [Node.isWellFormed, Node.haveDistinctKeys, Node.haveWellFormed, Node.hasKey, Node.same]
  · intro h
    have hsame : Node.mapping [(.string "$ref", .string "y")] =
        .mapping [(.string "$ref", .string "x"), (.string "", _)] := Option.some.inj h
    simp at hsame

end DocDrive
