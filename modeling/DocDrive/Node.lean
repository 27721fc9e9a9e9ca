import DocDrive.Number.Binary64

/-!
# Document nodes

What a YAML or JSON document holds (`DocumentNode`). Mappings keep the order of the document, and
their keys are nodes of any kind. `Node.same` is the equality by which keys of one mapping must
differ: the order of entries does not matter to it, and an integer is never a float.
-/

namespace DocDrive

inductive Node where
  | null
  | bool (value : Bool)
  | int (value : Int)
  | float (value : Binary64)
  | string (text : String)
  | sequence (items : List Node)
  | mapping (entries : List (Node × Node))
  /-- A node under a local tag. -/
  | tagged (tag : String) (content : Node)
  deriving Inhabited, Repr

namespace Node

/-! ## Equality of keys -/

mutual

/-- Two nodes that may not both be keys of one mapping. -/
def same : Node → Node → Bool
  | null, null => true
  | bool a, bool b => a == b
  | int a, int b => a == b
  | float a, float b => a.same b
  | string a, string b => a == b
  | sequence as, sequence bs => sameItems as bs
  | mapping as, mapping bs => as.length == bs.length && sameEntries as bs
  | tagged s a, tagged t b => s == t && same a b
  | _, _ => false

def sameItems : List Node → List Node → Bool
  | [], [] => true
  | a :: as, b :: bs => same a b && sameItems as bs
  | _, _ => false

/-- Every entry of the first list has an equal one in the second. -/
def sameEntries : List (Node × Node) → List (Node × Node) → Bool
  | [], _ => true
  | (k, v) :: rest, bs => hasEntry k v bs && sameEntries rest bs

/-- An entry equal to the given one. -/
def hasEntry (k v : Node) : List (Node × Node) → Bool
  | [] => false
  | (l, w) :: rest => (same k l && same v w) || hasEntry k v rest

end

/-- A mapping has the key already. -/
def hasKey (key : Node) (entries : List (Node × Node)) : Bool :=
  entries.any fun e => e.1.same key

/-! ## Access -/

def lookup (key : String) : List (Node × Node) → Option Node
  | [] => none
  | (.string k, v) :: rest => if k = key then some v else lookup key rest
  | _ :: rest => lookup key rest

/-- A node without the tags on it. -/
def untagged : Node → Node
  | tagged _ content => content.untagged
  | n => n

mutual

/-- Nodes in the tree: values, items, the root, and a tag besides its content; keys do not count. -/
def count : Node → Nat
  | sequence items => 1 + countItems items
  | mapping entries => 1 + countEntries entries
  | tagged _ content => 1 + content.count
  | _ => 1

def countItems : List Node → Nat
  | [] => 0
  | n :: rest => n.count + countItems rest

/-- Nodes in the values of entries. -/
def countEntries : List (Node × Node) → Nat
  | [] => 0
  | (_, v) :: rest => v.count + countEntries rest

end

end Node

end DocDrive
