import DocDrive.Proofs.Resolution
import Mathlib.Data.List.Induction

/-!
# A document indexed in one pass

A document can be indexed in one pass that carries everything along (`Pass`): one buffer for the
pointer, which grows by a token on the way down and is cut back on the way up, the references met so
far, and a count. The cut goes by bytes, and there is none inside of a character.

* `truncate?_append` — a text is cut back to what it was before it grew.
* `Node.visit?_eq` — a pass gains the references and the nodes below a node, and the buffer is as it
  was; it never cuts inside of a character.
-/

namespace DocDrive

/-! ## The buffer -/

/-- How many bytes a text takes. -/
def byteLength : List Char → Nat
  | [] => 0
  | c :: rest => c.utf8Size + byteLength rest

/-- A text cut after `n` bytes, unless that is inside of a character. -/
def truncate? (n : Nat) : List Char → Option (List Char)
  | [] => some []
  | c :: rest =>
    if n = 0 then some []
    else if c.utf8Size ≤ n then (truncate? (n - c.utf8Size) rest).map (c :: ·)
    else none

/-- **A text that has grown is cut back to what it was.** -/
theorem truncate?_append (front back : List Char) :
    truncate? (byteLength front) (front ++ back) = some front := by
  induction front with
  | nil => cases back <;> rfl
  | cons c front ih =>
    have hlength : byteLength (c :: front) = c.utf8Size + byteLength front := rfl
    have hpos := c.utf8Size_pos
    rw [List.cons_append, truncate?, hlength, if_neg (by omega), if_pos (by omega),
      Nat.add_sub_cancel_left, ih, Option.map_some]

/-! ## The pass -/

/-- What a pass over a document carries along. -/
structure Pass where
  pointer : List Char := []
  references : List Reference := []
  nodes : Nat := 0

namespace Pass

/-- One more node. -/
def counting (p : Pass) : Pass := { p with nodes := p.nodes + 1 }

/-- One more reference, held where the pass is. -/
def recording (p : Pass) (target : String) : Pass :=
  { p with references := p.references ++
      [⟨if p.pointer.isEmpty then "/" else .ofList p.pointer, target⟩] }

/-- The reference that an entry is, if it is one and references are collected. -/
def entering (p : Pass) (collect : Bool) (key : List Char) (value : Node) : Pass :=
  if collect && key == Node.refKey then
    match value with
    | .string target => p.recording target
    | _ => p
  else p

/-- A visit below a token, which is cut off again afterwards. -/
def below? (p : Pass) (token : List Char) (visit : Pass → Option Pass) : Option Pass :=
  (visit { p with pointer := p.pointer ++ '/' :: token }).bind fun q =>
    (truncate? (byteLength p.pointer) q.pointer).map fun pointer => { q with pointer }

end Pass

namespace Node

mutual

/-- The pass after a node and what is below it. -/
def visit? (collect : Bool) : Node → Pass → Option Pass
  | mapping entries, p => visitEntries? collect entries p.counting
  | sequence items, p => visitItems? collect 0 items p.counting
  | tagged _ content, p => visit? collect content p.counting
  | _, p => some p.counting

/-- The pass after the items of a sequence, from an index on. -/
def visitItems? (collect : Bool) (i : Nat) : List Node → Pass → Option Pass
  | [], p => some p
  | n :: rest, p =>
    (p.below? (Nat.toDigits 10 i) (visit? collect n)).bind (visitItems? collect (i + 1) rest)

/-- The pass after the entries of a mapping. -/
def visitEntries? (collect : Bool) : List (Node × Node) → Pass → Option Pass
  | [], p => some p
  | (k, v) :: rest, p =>
    ((p.entering collect k.keyText v).below? (Pointer.escape k.keyText) (visit? collect v)).bind
      (visitEntries? collect rest)

end

end Node

/-! ## What a pass gains -/

namespace Pass

variable {p : Pass} {above : List (List Char)} {key token : List Char} {v : Node}
  {visit : Pass → Option Pass} {found later : List Reference} {k l : Nat} {collect : Bool}

/-- The pass with more references, if they are collected, and more nodes. -/
def gaining (p : Pass) (collect : Bool) (found : List Reference) (k : Nat) : Pass :=
  { p with
    references := p.references ++ if collect then found else []
    nodes := p.nodes + k }

@[simp] theorem pointer_gaining : (p.gaining collect found k).pointer = p.pointer := rfl

theorem gaining_nil : p.gaining collect [] 0 = p := by
  simp [gaining]

theorem counting_eq (p : Pass) (collect : Bool) : p.counting = p.gaining collect [] 1 := by
  simp [counting, gaining]

theorem gaining_gaining : (p.gaining collect found k).gaining collect later l =
    p.gaining collect (found ++ later) (k + l) := by
  cases collect <;> simp [gaining, Nat.add_assoc]

/-- An entry adds the reference that it holds itself. -/
theorem entering_eq (hp : p.pointer = Pointer.write above.reverse) :
    p.entering collect key v = p.gaining collect (Node.ownReference above key v) 0 := by
  have hlocation : (if p.pointer.isEmpty then "/" else .ofList p.pointer) = Node.location above := by
    rw [hp, Node.location]
    cases above using List.reverseRecOn with
    | nil => rfl
    | append_singleton front last => simp [Pointer.write]
  unfold entering recording
  rw [hlocation]
  cases collect with
  | false => simp [gaining]
  | true =>
    by_cases hkey : key = Node.refKey
    · subst hkey
      cases v with
      | string target => simp [gaining, Node.ownReference]
      | _ => simp [gaining, Node.ownReference]
    · cases v with
      | string target => simp [gaining, Node.ownReference, hkey]
      | _ => simp [gaining, Node.ownReference]

/-- **A visit below a token leaves the buffer as it was.** -/
theorem below?_eq
    (h : visit { p with pointer := p.pointer ++ '/' :: token } =
      some ((Pass.mk (p.pointer ++ '/' :: token) p.references p.nodes).gaining collect found k)) :
    p.below? token visit = some (p.gaining collect found k) := by
  rw [below?, h, Option.bind_some, pointer_gaining, truncate?_append, Option.map_some]
  rfl

end Pass

namespace Node

open Pass

variable {collect : Bool} {n : Node} {items : List Node} {entries : List (Node × Node)} {p : Pass}
  {above : List (List Char)}

/-- What a pass gains at and below a node. -/
def Visited (collect : Bool) (n : Node) : Prop :=
  ∀ (above : List (List Char)) (p : Pass), p.pointer = Pointer.write above.reverse →
    visit? collect n p = some (p.gaining collect (referencesBelow above n) n.count)

/-- The pointer to what stands one token further down. -/
theorem pointer_below (key : List Char) (hp : p.pointer = Pointer.write above.reverse) :
    p.pointer ++ '/' :: Pointer.escape key = Pointer.write (key :: above).reverse := by
  rw [hp, List.reverse_cons]
  simp [Pointer.write]

theorem visitItems?_eq (h : ∀ n ∈ items, Visited collect n) (i : Nat)
    (hp : p.pointer = Pointer.write above.reverse) :
    visitItems? collect i items p =
      some (p.gaining collect (referencesOfItems above i items) (countItems items)) := by
  induction items generalizing i p with
  | nil =>
    rw [visitItems?, referencesOfItems, countItems, gaining_nil]
  | cons n rest ih =>
    obtain ⟨hn, hrest⟩ := List.forall_mem_cons.1 h
    have hdigits : Pointer.escape (Nat.toDigits 10 i) = Nat.toDigits 10 i :=
      Pointer.escape_text (.index i)
    have hpointer := pointer_below (Nat.toDigits 10 i) hp
    rw [hdigits] at hpointer
    have hlater := ih hrest (i + 1)
      (p := p.gaining collect (referencesBelow (Nat.toDigits 10 i :: above) n) n.count) hp
    rw [visitItems?, below?_eq (hn _ _ hpointer), Option.bind_some, hlater, gaining_gaining,
      referencesOfItems, countItems]

theorem visitEntries?_eq (h : ∀ e ∈ entries, Visited collect e.2)
    (hp : p.pointer = Pointer.write above.reverse) :
    visitEntries? collect entries p =
      some (p.gaining collect (referencesOfEntries above entries) (countEntries entries)) := by
  induction entries generalizing p with
  | nil => rw [visitEntries?, referencesOfEntries, countEntries, gaining_nil]
  | cons e rest ih =>
    obtain ⟨k, v⟩ := e
    obtain ⟨hhere, hrest⟩ := List.forall_mem_cons.1 h
    have hv : Visited collect v := hhere
    let q := p.gaining collect (ownReference above k.keyText v) 0
    have hpointer : q.pointer ++ '/' :: Pointer.escape k.keyText =
        Pointer.write (k.keyText :: above).reverse := pointer_below k.keyText hp
    have hlater := ih hrest
      (p := q.gaining collect (referencesBelow (k.keyText :: above) v) v.count) hp
    rw [visitEntries?, entering_eq hp, below?_eq (hv _ _ hpointer), Option.bind_some, hlater,
      gaining_gaining, gaining_gaining, referencesOfEntries, countEntries, Nat.zero_add,
      List.append_assoc]

/-- **A pass gains the references and the nodes at and below a node**, and leaves the buffer as it
was. -/
theorem visit?_eq (collect : Bool) (n : Node) : Visited collect n := by
  induction n using Node.induct with
  | mapping entries ih =>
    intro above p hp
    have hentries := visitEntries?_eq ih (p := p.gaining collect [] 1) hp
    rw [visit?, counting_eq p collect, hentries, gaining_gaining, referencesBelow, count,
      List.nil_append]
  | sequence items ih =>
    intro above p hp
    have hitems := visitItems?_eq ih 0 (p := p.gaining collect [] 1) hp
    rw [visit?, counting_eq p collect, hitems, gaining_gaining, referencesBelow, count,
      List.nil_append]
  | tagged tag content ih =>
    intro above p hp
    have hcontent := ih above (p.gaining collect [] 1) hp
    rw [visit?, counting_eq p collect, hcontent, gaining_gaining, referencesBelow, count,
      List.nil_append]
  | _ =>
    intro above p hp
    exact congrArg some (counting_eq p collect)

end Node

end DocDrive
