import PracticeShell.Text.Blank

/-!
# Nodes and their permissions

`Permissions` are nine bits: reading, writing and entering for the owner, the group and others.
They are written `rwxr-xr-x` and read from that form, from three or four octal digits, or from a
number.

A node is a file with its contents or a directory with named entries, which keep the order in which
they were made. `Node.find?` goes down along a list of names, `Node.modify` changes the node found
there and leaves all others as they are, and `Node.walk` lists a node and everything below it, each
directory before its entries.
-/

namespace PracticeShell

/-- The nine permission bits of a node. -/
abbrev Permissions := Fin 512

namespace Permissions

/-- The permissions with these bits; all other bits are dropped. -/
def ofNat (bits : Nat) : Permissions := Fin.ofNat 512 bits

/-- The permission bits of a mode word; all other bits are dropped. -/
def ofInt (mode : Int) : Permissions := ofNat (mode % 512).toNat

/-- No permissions at all. -/
def withheld : Permissions := ofNat 0

/-- The permissions of new directories, `rwxr-xr-x`. -/
def newDirectory : Permissions := 0o755

/-- The permissions of new files, `rw-r--r--`. -/
def newFile : Permissions := 0o644

/-- The three characters of one group of bits. -/
def renderGroup (bits : Nat) : List Char :=
  [if bits / 4 % 2 = 1 then 'r' else '-',
    if bits / 2 % 2 = 1 then 'w' else '-',
    if bits % 2 = 1 then 'x' else '-']

/-- The nine characters that show permissions. -/
def render (p : Permissions) : List Char :=
  renderGroup (p.val / 64) ++ renderGroup (p.val / 8 % 8) ++ renderGroup (p.val % 8)

/-- The value of an octal digit. -/
def octal? (c : Char) : Option Nat :=
  if '0' ≤ c ∧ c ≤ '7' then some (c.toNat - 48) else none

/-- The number written by octal digits. -/
def ofOctal? (cs : List Char) : Option Nat :=
  (cs.mapM octal?).map fun ds => ds.foldl (fun n d => 8 * n + d) 0

/-- Reads characters against the letters that may stand at their places; a dash leaves the bit
out. -/
def readLetters? (bits : Nat) : List Char → List Char → Option Nat
  | [], _ => some bits
  | c :: cs, letter :: letters =>
    if c = letter then readLetters? (2 * bits + 1) cs letters
    else if c = '-' then readLetters? (2 * bits) cs letters
    else none
  | _ :: _, [] => none

/-- Reads permissions written with letters or octal digits, with blanks around them. A letter for
the kind of node may stand before nine letters. -/
def read? (text : String) : Option Permissions :=
  let cs := (Text.Blank.trim text).toList
  let cs := match cs with
    | c :: rest => if cs.length = 10 ∧ (c = 'd' ∨ c = '-') then rest else cs
    | [] => cs
  let asOctal := if cs.length = 3 ∨ cs.length = 4 then ofOctal? cs else none
  match asOctal with
  | some n => some (ofNat n)
  | none =>
    if cs.length = 9 then
      (readLetters? 0 cs ['r', 'w', 'x', 'r', 'w', 'x', 'r', 'w', 'x']).map ofNat
    else none

end Permissions

end PracticeShell

namespace PracticeShell.FileTree

/-- What a node has besides its contents: an owner, permissions and the time of its last change, in
seconds. -/
structure Attributes where
  owner : String
  permissions : Permissions
  modified : Int
deriving DecidableEq, Repr

/-- A file or a directory. -/
inductive Node
  | file (attributes : Attributes) (contents : ByteArray)
  | directory (attributes : Attributes) (entries : List (String × Node))

/-- The entries of a directory, oldest first. -/
abbrev Entries := List (String × Node)

namespace Entries

/-- The entry with a name. -/
def get? (entries : Entries) (name : String) : Option Node := entries.lookup name

/-- Sets an entry: a name that is there keeps its place, a new one comes last. -/
def put (name : String) (node : Node) : Entries → Entries
  | [] => [(name, node)]
  | (n, old) :: rest => if n = name then (name, node) :: rest else (n, old) :: put name node rest

/-- Changes the entry with a name, if there is one. -/
def modify (name : String) (f : Node → Node) : Entries → Entries
  | [] => []
  | (n, node) :: rest =>
    if n = name then (n, f node) :: rest else (n, node) :: modify name f rest

/-- The entries other than the one with a name. -/
def erase (entries : Entries) (name : String) : Entries := entries.filter (·.1 ≠ name)

/-- The names of the entries. -/
def names (entries : Entries) : List String := entries.map (·.1)

end Entries

namespace Node

/-- Whether a node is a directory. -/
def isDirectory : Node → Bool
  | file .. => false
  | directory .. => true

/-- The attributes of a node. -/
def attributes : Node → Attributes
  | file a _ => a
  | directory a _ => a

/-- The entries of a directory; a file has none. -/
def entries : Node → Entries
  | file .. => []
  | directory _ es => es

/-- Changes the attributes of a node. -/
def mapAttributes (f : Attributes → Attributes) : Node → Node
  | file a contents => file (f a) contents
  | directory a es => directory (f a) es

/-- The size of a directory, whatever it holds. -/
def directorySize : Nat := 4096

/-- The size of a node in bytes. -/
def size : Node → Nat
  | file _ contents => contents.size
  | directory .. => directorySize

/-- The node that is reached along names. -/
def find? : List String → Node → Option Node
  | [], node => some node
  | _ :: _, file .. => none
  | name :: rest, directory _ es => (es.lookup name).bind (find? rest)

/-- Changes the node that is reached along names, if there is one. -/
def modify (f : Node → Node) : List String → Node → Node
  | [], node => f node
  | _ :: _, file a contents => file a contents
  | name :: rest, directory a es => directory a (Entries.modify name (modify f rest) es)

mutual

/-- A node and everything below it, with the names that lead there from `place`. -/
def walk (place : List String) : Node → List (List String × Node)
  | file a contents => [(place, file a contents)]
  | directory a es => (place, directory a es) :: walkEntries place es

/-- The entries of the directory at `place` and everything below them. -/
def walkEntries (place : List String) : List (String × Node) → List (List String × Node)
  | [] => []
  | (name, node) :: rest => walk (place ++ [name]) node ++ walkEntries place rest

end

mutual

/-- The number of levels of a node: a file and an empty directory have one. -/
def height : Node → Nat
  | file .. => 1
  | directory _ es => heightEntries es + 1

/-- The greatest number of levels among entries. -/
def heightEntries : List (String × Node) → Nat
  | [] => 0
  | (_, node) :: rest => max (height node) (heightEntries rest)

end

end Node

end PracticeShell.FileTree
