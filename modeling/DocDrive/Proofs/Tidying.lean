import DocDrive.Proofs.Resolution
import DocDrive.Proofs.Token

/-!
# Pointers beside the grammar

A text that resolves to a node need not be a JSON pointer: a `~` may stand alone in a key, and an
index may have a plus sign and leading zeros. Nothing else is let through. Such a text is *tidied*
token by token, for the nodes that its tokens pass, and what it becomes is a JSON pointer to the
same node.

* `Node.isPointed` — tokens that are in the grammar for the nodes they pass.
* `Node.tidied` — tokens as the grammar has them; `isPointed_iff` tells which tokens that changes.
* `exists_sign_zeros` — a token that leads into a sequence.
* `lenient_resolution` — what a text that resolves to a node is, and that a position in a JSON
  document has one JSON pointer.
* `sloppy_pointers_resolve` — texts that are no JSON pointers and still resolve.
-/

namespace DocDrive

namespace Node

open Pointer

variable {n m v : Node} {items : List Node} {token : List Char} {tokens : List (List Char)}
  {steps : List Step}

/-! ## One token -/

def isSequence : Node → Bool
  | sequence _ => true
  | _ => false

/-- A token as the grammar has it for a node that it is looked up in: escaped, and an index if the
node is a sequence. -/
def isToken (n : Node) (token : List Char) : Bool :=
  isWellEscaped token && (!n.isSequence || isIndex token)

/-- A token written anew: the number that it is read as, or the key escaped. -/
def tidyToken (n : Node) (token : List Char) : List Char :=
  match n with
  | sequence _ => ((index? (unescape token)).map (Nat.toDigits 10)).getD token
  | _ => escape (unescape token)

theorem tidyToken_of_not_isSequence (h : n.isSequence = false) :
    n.tidyToken token = escape (unescape token) := by
  cases n with
  | sequence items => cases h
  | _ => rfl

/-- **A token that leads into a sequence**: perhaps a plus sign, then zeros, then the number. -/
theorem exists_sign_zeros (h : (sequence items).child? (unescape token) = some v) :
    ∃ (sign zeros : List Char) (i : Nat), (sign = [] ∨ sign = ['+']) ∧ (∀ c ∈ zeros, c = '0') ∧
      token = sign ++ (zeros ++ Nat.toDigits 10 i) ∧ i < indexBound ∧ items[i]? = some v := by
  obtain ⟨i, hi, hitem⟩ := Option.bind_eq_some_iff.1 h
  obtain ⟨sign, zeros, hsign, hzeros, htoken, hbound⟩ := index?_eq_some_iff.1 hi
  refine ⟨sign, zeros, i, hsign, hzeros, ?_, hbound, hitem⟩
  -- Nothing in a number stands for an escaped character.
  rw [← htoken]
  refine (unescape_eq_self fun c hc => ?_).symm
  rw [htoken, List.mem_append, List.mem_append] at hc
  have hdigits : ∀ d : Char, d = '+' ∨ d.isDigit = true → d ≠ '~' ∧ d ≠ '/' := by
    rintro d (rfl | hd)
    · decide
    · constructor <;> rintro rfl <;> cases hd
  refine hdigits c ?_
  rcases hc with hc | hc | hc
  · rcases hsign with rfl | rfl
    · cases hc
    · exact Or.inl (List.mem_singleton.1 hc)
  · rw [hzeros c hc]
    exact Or.inr rfl
  · exact Or.inr (isDigit_of_mem_toDigits hc)

theorem escape_toDigits (i : Nat) : escape (Nat.toDigits 10 i) = Nat.toDigits 10 i :=
  escape_text (.index i)

/-- A written number stands for itself. -/
theorem unescape_toDigits (i : Nat) : unescape (Nat.toDigits 10 i) = Nat.toDigits 10 i := by
  conv_lhs => rw [← escape_toDigits, unescape_escape]

/-- A tidied token leads where the token does. -/
theorem child?_tidyToken (n : Node) (token : List Char) :
    n.child? (unescape (n.tidyToken token)) = n.child? (unescape token) := by
  cases n with
  | sequence items =>
    rw [tidyToken]
    cases hi : index? (unescape token) with
    | none => rfl
    | some i =>
      obtain ⟨-, -, -, -, -, hbound⟩ := index?_eq_some_iff.1 hi
      rw [Option.map_some, Option.getD_some, unescape_toDigits, child?, child?, hi,
        index?_toDigits hbound]
  | _ => rw [tidyToken_of_not_isSequence rfl, unescape_escape]

/-- A tidied token that leads somewhere is in the grammar. -/
theorem isToken_tidyToken (h : n.child? (unescape token) = some v) :
    n.isToken (n.tidyToken token) = true := by
  cases hn : n.isSequence with
  | false =>
    rw [isToken, hn, tidyToken_of_not_isSequence hn, isWellEscaped_escape]
    rfl
  | true =>
    cases n with
    | sequence items =>
      obtain ⟨i, hi, -⟩ := Option.bind_eq_some_iff.1 h
      have hescaped : isWellEscaped (Nat.toDigits 10 i) = true := by
        rw [← escape_toDigits]
        exact isWellEscaped_escape _
      rw [tidyToken, hi, isToken, Option.map_some, Option.getD_some, hescaped,
        isIndex_iff.2 ⟨i, rfl⟩, Bool.or_true]
      rfl
    | _ => cases hn

/-- **A token that leads somewhere is in the grammar** exactly if tidying leaves it as it is. -/
theorem isToken_iff (hslash : '/' ∉ token) (h : n.child? (unescape token) = some v) :
    n.isToken token = true ↔ n.tidyToken token = token := by
  refine ⟨fun htoken => ?_, fun htidy => htidy ▸ isToken_tidyToken h⟩
  rw [isToken, Bool.and_eq_true] at htoken
  cases n with
  | sequence items =>
    obtain ⟨i, rfl⟩ := isIndex_iff.1 htoken.2
    obtain ⟨j, hj, -⟩ := Option.bind_eq_some_iff.1 h
    rw [tidyToken, hj, Option.map_some, Option.getD_some]
    rw [unescape_toDigits] at hj
    rw [eq_of_index?_toDigits hj]
  | _ => exact (isWellEscaped_iff hslash).1 htoken.1

theorem slash_not_mem_tidyToken (h : n.child? (unescape token) = some v) :
    '/' ∉ n.tidyToken token := by
  cases n with
  | sequence items =>
    obtain ⟨i, hi, -⟩ := Option.bind_eq_some_iff.1 h
    rw [tidyToken, hi, Option.map_some, Option.getD_some, ← escape_toDigits]
    exact slash_not_mem_escape _
  | _ => exact slash_not_mem_escape _

/-! ## All tokens -/

/-- Tokens that are in the grammar for the nodes that they are looked up in. -/
def isPointed (n : Node) : List (List Char) → Bool
  | [] => true
  | token :: rest =>
    n.isToken token && (n.child? (unescape token)).all fun v => v.isPointed rest

/-- Tokens tidied for the nodes that they are looked up in. -/
def tidied (n : Node) : List (List Char) → List (List Char)
  | [] => []
  | token :: rest =>
    n.tidyToken token :: ((n.child? (unescape token)).map fun v => v.tidied rest).getD rest

theorem isPointed_cons (h : n.child? (unescape token) = some v) :
    n.isPointed (token :: tokens) = (n.isToken token && v.isPointed tokens) := by
  rw [isPointed, h]
  rfl

theorem tidied_cons (h : n.child? (unescape token) = some v) :
    n.tidied (token :: tokens) = n.tidyToken token :: v.tidied tokens := by
  rw [tidied, h]
  rfl

theorem descend?_append (n : Node) (front back : List (List Char)) :
    n.descend? (front ++ back) = (n.descend? front).bind fun v => v.descend? back := by
  induction front generalizing n with
  | nil => rfl
  | cons key front ih =>
    rw [List.cons_append, descend?, descend?, Option.bind_assoc]
    exact congrArg _ (funext ih)

/-- What tidying does to tokens that lead to a node: they lead to the same node, hold no slash, and
are in the grammar. -/
theorem tidied_spec (h : n.descend? (tokens.map unescape) = some m) :
    n.descend? ((n.tidied tokens).map unescape) = some m ∧ (∀ t ∈ n.tidied tokens, '/' ∉ t) ∧
      n.isPointed (n.tidied tokens) = true := by
  induction tokens generalizing n with
  | nil => exact ⟨h, nofun, rfl⟩
  | cons token tokens ih =>
    obtain ⟨v, hv, hm⟩ := Option.bind_eq_some_iff.1 h
    obtain ⟨hleads, hslash, hpointed⟩ := ih hm
    have htidy : n.child? (unescape (n.tidyToken token)) = some v := by rw [child?_tidyToken, hv]
    rw [tidied_cons hv, isPointed_cons htidy, isToken_tidyToken hv, hpointed]
    refine ⟨?_, List.forall_mem_cons.2 ⟨slash_not_mem_tidyToken hv, hslash⟩, rfl⟩
    rw [List.map_cons, descend?, htidy]
    exact hleads

/-- **Tokens that lead to a node are in the grammar** exactly if tidying leaves them as they are. -/
theorem isPointed_iff (hslash : ∀ t ∈ tokens, '/' ∉ t)
    (h : n.descend? (tokens.map unescape) = some m) :
    n.isPointed tokens = true ↔ n.tidied tokens = tokens := by
  induction tokens generalizing n with
  | nil => exact ⟨fun _ => rfl, fun _ => rfl⟩
  | cons token tokens ih =>
    obtain ⟨v, hv, hm⟩ := Option.bind_eq_some_iff.1 h
    obtain ⟨htoken, hrest⟩ := List.forall_mem_cons.1 hslash
    rw [isPointed_cons hv, tidied_cons hv, Bool.and_eq_true, isToken_iff htoken hv, ih hrest hm,
      List.cons.injEq]

/-- In a JSON document, tokens are tidied into the pointer to their position. -/
theorem IsJson.tidied_eq (h : n.IsJson)
    (hreads : List.Forall₂ (fun t s => Step.Reads (unescape t) s) tokens steps)
    (hm : n.at? steps = some m) : n.tidied tokens = steps.map Step.token := by
  induction hreads generalizing n with
  | nil => rfl
  | @cons token s tokens steps hs _ ih =>
    obtain ⟨v, hv, hm⟩ := at?_cons_eq_some_iff.1 hm
    rw [tidied_cons (h.child?_eq_some_iff.2 ⟨s, hs, hv⟩), ih (h.under? hv) hm, List.map_cons]
    congr 1
    cases s with
    | key name =>
      obtain ⟨entries, rfl, -⟩ := under?_key_eq_some_iff.1 hv
      exact congrArg escape (Eq.symm hs)
    | index i =>
      obtain ⟨items, rfl, -⟩ := under?_index_eq_some_iff.1 hv
      have hi : index? (unescape token) = some i := hs
      rw [tidyToken, hi]
      rfl

/-- **A position in a JSON document has one JSON pointer.** -/
theorem IsJson.isPointed_iff_eq (h : n.IsJson) (hm : n.at? steps = some m)
    (hslash : ∀ t ∈ tokens, '/' ∉ t) :
    (n.isPointed tokens = true ∧
      List.Forall₂ (fun t s => Step.Reads (unescape t) s) tokens steps) ↔
    tokens = steps.map Step.token := by
  constructor
  · rintro ⟨hpointed, hreads⟩
    have hleads : n.descend? (tokens.map unescape) = some m :=
      h.descend?_eq_some_iff.2 ⟨steps, List.forall₂_map_left_iff.2 hreads, hm⟩
    rw [← (Node.isPointed_iff hslash hleads).1 hpointed]
    exact h.tidied_eq hreads hm
  · rintro rfl
    have hread : (steps.map Step.token).map unescape = steps.map Step.text := by
      simp [← escape_text, Function.comp_def]
    have hreads : List.Forall₂ (fun t s => Step.Reads (unescape t) s)
        (steps.map Step.token) steps := by
      rw [← List.forall₂_map_left_iff (f := unescape), hread]
      exact h.forall₂_reads_text hm
    have hleads : n.descend? ((steps.map Step.token).map unescape) = some m := by
      rw [hread]
      exact h.descend?_of_at? hm
    exact ⟨(Node.isPointed_iff hslash hleads).2 (h.tidied_eq hreads hm), hreads⟩

end Node

/-! ## Texts that resolve -/

open Pointer in
/-- **What a text that resolves to a node is.** A leading `#` aside, it consists of tokens after
slashes, and each token that is looked up in a sequence is a plus sign or none, then zeros, then a
number below the length. Tidied, the tokens make up a JSON pointer that resolves to the same node;
so the text is one itself exactly if tidying leaves its tokens as they are. In a JSON document each
position has exactly one JSON pointer. -/
theorem lenient_resolution (x : StructuralIndex) :
    (∀ pointer m, x.resolve? pointer = some m → ∃ tokens,
      dropHash pointer.toList = tokens.flatMap ('/' :: ·) ∧ (∀ t ∈ tokens, '/' ∉ t) ∧
      (∀ front token back items, tokens = front ++ token :: back →
        x.root.value.descend? (front.map unescape) = some (.sequence items) →
        ∃ (sign zeros : List Char) (i : Nat), (sign = [] ∨ sign = ['+']) ∧
          (∀ c ∈ zeros, c = '0') ∧ token = sign ++ (zeros ++ Nat.toDigits 10 i) ∧
          i < items.length) ∧
      (x.root.value.isPointed tokens = true ↔ x.root.value.tidied tokens = tokens) ∧
      x.root.value.isPointed (x.root.value.tidied tokens) = true ∧
      x.resolve? (.ofList ((x.root.value.tidied tokens).flatMap ('/' :: ·))) = some m) ∧
    (x.root.value.IsJson → ∀ steps m, x.root.value.at? steps = some m →
      ∀ tokens : List (List Char), (∀ t ∈ tokens, '/' ∉ t) →
        ((x.root.value.isPointed tokens = true ∧
          List.Forall₂ (fun t s => Step.Reads (unescape t) s) tokens steps) ↔
            tokens = steps.map Step.token)) := by
  constructor
  · intro pointer m h
    obtain ⟨tokens, htokens, hm⟩ := Option.bind_eq_some_iff.1 h
    obtain ⟨htext, hslash⟩ := tokens?_eq_some_iff.1 htokens
    obtain ⟨hleads, hnoSlash, hpointed⟩ := Node.tidied_spec hm
    refine ⟨tokens, htext, hslash, ?_, Node.isPointed_iff hslash hm, hpointed, ?_⟩
    · rintro front token back items rfl hfront
      rw [List.map_append, Node.descend?_append, hfront, Option.bind_some, List.map_cons] at hm
      obtain ⟨v, hv, -⟩ := Option.bind_eq_some_iff.1 hm
      obtain ⟨sign, zeros, i, hsign, hzeros, htoken, -, hitem⟩ := Node.exists_sign_zeros hv
      exact ⟨sign, zeros, i, hsign, hzeros, htoken, (List.getElem?_eq_some_iff.1 hitem).1⟩
    · refine Option.bind_eq_some_iff.2 ⟨_, tokens?_eq_some_iff.2 ⟨?_, hnoSlash⟩, hleads⟩
      rw [String.toList_ofList]
      cases x.root.value.tidied tokens <;> rfl
  · intro hjson steps m hm tokens hslash
    exact hjson.isPointed_iff_eq hm hslash

/-- A document with a key that holds a tilde, above a sequence. -/
def tildeRoot : Node := .mapping [(.string "a~b", .sequence [.null, .bool true])]

/-- An index of a document without references. -/
def plainIndex (root : Node) : StructuralIndex := ⟨⟨0, 0, root⟩, none, none, [], 0⟩

/-- A tilde that stands alone and an index with a sign and a zero are tidied. -/
theorem lenient_resolution_tilde :
    (plainIndex tildeRoot).resolve? "#/a~b/+01" = some (.bool true) ∧
    (plainIndex tildeRoot).resolve? "/a~0b/1" = some (.bool true) ∧ tildeRoot.IsJson ∧
    ∀ tokens : List (List Char), (∀ t ∈ tokens, '/' ∉ t) → tildeRoot.isPointed tokens = true →
      List.Forall₂ (fun t s => Step.Reads (Pointer.unescape t) s) tokens [.key "a~b", .index 1] →
      tokens = ["a~0b".toList, ['1']] := by
  have hresolved : (plainIndex tildeRoot).resolve? "#/a~b/+01" = some (.bool true) := rfl
  have hjson : tildeRoot.IsJson := ⟨rfl, rfl⟩
  obtain ⟨htexts, hpositions⟩ := lenient_resolution (plainIndex tildeRoot)
  obtain ⟨tokens, htext, hslash, -, -, -, htidied⟩ := htexts _ _ hresolved
  have hread := Pointer.tokens?_eq_some_iff.2 ⟨htext, hslash⟩
  obtain rfl : tokens = ["a~b".toList, "+01".toList] := Option.some.inj (hread.symm.trans rfl)
  refine ⟨hresolved, htidied, hjson, fun tokens hslash hpointed hreads => ?_⟩
  exact (hpositions hjson [.key "a~b", .index 1] (.bool true) rfl tokens hslash).1
    ⟨hpointed, hreads⟩

/-- **Texts that are no JSON pointers can resolve**: an index with a sign or with a zero in front, a
tilde that stands alone. So a node of a JSON document has more than one text. -/
theorem sloppy_pointers_resolve :
    ((plainIndex (.sequence [.null])).resolve? "/+0" = some .null ∧
      (plainIndex (.sequence [.null])).resolve? "/00" = some .null ∧
      (plainIndex (.sequence [.null])).resolve? "/0" = some .null) ∧
    ((Node.sequence [.null]).IsJson ∧ (Node.sequence [.null]).isPointed ["+0".toList] = false ∧
      (Node.sequence [.null]).isPointed ["00".toList] = false) ∧
    (plainIndex (.mapping [(.string "~", .int 1)])).resolve? "/~" = some (.int 1) ∧
    (Node.mapping [(.string "~", .int 1)]).isPointed [['~']] = false :=
  ⟨⟨rfl, rfl, rfl⟩, ⟨⟨rfl, rfl⟩, rfl, rfl⟩, rfl, rfl⟩

end DocDrive
