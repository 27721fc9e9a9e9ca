import DocDrive.Pointer
import DocDrive.Yaml.Written.Layout

/-!
# References

A reference is a `$ref` entry of a mapping whose value is a text. `Node.references` lists those of a
document in its order, each with the pointer to its mapping.

* A reference is *local* when its target starts with `#`; otherwise `Reference.file?`, which is
  `Reference.file_part`, is the part of the target that names a file.
* `Node.referencesBelow` is the recursion of `ReferenceIndexer.visit`, with the keys above a node in
  place of the pointer to it.
* `Node.keyText` is what stands in a pointer for a key of any kind.
-/

namespace DocDrive

structure Reference where
  /-- The pointer to the mapping that holds the reference. -/
  location : String
  target : String
  deriving DecidableEq, Repr

namespace Reference

/-- Whether the target lies in the same document. -/
def isLocal (r : Reference) : Bool := r.target.toList.head? == some '#'

/-- The file that a target names: what stands before its first `#`, if anything does. A local
reference names none. -/
def file? (r : Reference) : Option String :=
  match r.target.toList.takeWhile (· != '#') with
  | [] => none
  | cs => some (.ofList cs)

/-- A text holds `://` somewhere. -/
def holdsScheme : List Char → Bool
  | [] => false
  | c :: rest => "://".toList.isPrefixOf (c :: rest) || holdsScheme rest

/-- The file that the target names, unless it names something beyond the file system. -/
def localFile? (r : Reference) : Option String :=
  r.file?.bind fun f => if holdsScheme f.toList then none else some f

end Reference

/-! ## Keys as texts -/

/-- A character with the property White_Space. -/
def isWhiteSpace (c : Char) : Bool :=
  let n := c.toNat
  (0x09 ≤ n && n ≤ 0x0D) || n == 0x20 || n == 0x85 || n == 0xA0 || n == 0x1680 ||
    (0x2000 ≤ n && n ≤ 0x200A) || n == 0x2028 || n == 0x2029 || n == 0x202F || n == 0x205F ||
    n == 0x3000

/-- A text without white space at its end. -/
def trimEnd (cs : List Char) : List Char := (cs.reverse.dropWhile isWhiteSpace).reverse

namespace Node

/-- A key as a text: a text itself, any other key as it is written in YAML. A key that cannot be
written leaves nothing. -/
def keyText : Node → List Char
  | string s => s.toList
  | n => trimEnd ((Yaml.write? n).getD [])

/-- The key under which a reference stands. -/
def refKey : List Char := "$ref".toList

/-- The pointer to a mapping that lies below the given keys, the nearest first. -/
def location (above : List (List Char)) : String :=
  if above.isEmpty then "/" else .ofList (Pointer.write above.reverse)

/-- The reference that an entry of a mapping holds itself. -/
def ownReference (above : List (List Char)) (key : List Char) (value : Node) : List Reference :=
  match value with
  | string target => if key = refKey then [⟨location above, target⟩] else []
  | _ => []

mutual

/-- References at and below a node, in the order of the document. -/
def referencesBelow (above : List (List Char)) : Node → List Reference
  | mapping entries => referencesOfEntries above entries
  | sequence items => referencesOfItems above 0 items
  | tagged _ content => referencesBelow above content
  | _ => []

/-- References in the items of a sequence, from an index on. -/
def referencesOfItems (above : List (List Char)) (i : Nat) : List Node → List Reference
  | [] => []
  | n :: rest =>
    referencesBelow (Nat.toDigits 10 i :: above) n ++ referencesOfItems above (i + 1) rest

/-- References in the entries of a mapping: its own before those below each value. -/
def referencesOfEntries (above : List (List Char)) : List (Node × Node) → List Reference
  | [] => []
  | (k, v) :: rest =>
    let key := keyText k
    ownReference above key v ++ referencesBelow (key :: above) v ++ referencesOfEntries above rest

end

def references (root : Node) : List Reference := referencesBelow [] root

end Node

end DocDrive
