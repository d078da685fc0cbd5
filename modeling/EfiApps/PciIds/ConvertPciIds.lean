import EfiApps.PciIds.ReadPciIds
import Mathlib.Data.List.Sort

/-!
# `convertpciids.pl`

The script reads a text in the format of `pci.ids` line by line and prints C source
with one array for each list of children.  What it has read is kept in six hashes,
one for each kind of line; a hash is printed and cleared when a line comes that can
not belong to the same list.

The generated source is a list of declarations here: of an initializer the value, the
text between the quotes and the argument of `Child` are kept.  `Objects` is what a
compiler makes of it.
-/

namespace EfiApps
namespace PciIds

/-! ## Regular expressions -/

/-- `\w`. -/
def isWord (u : UInt16) : Bool :=
  (0x30 ≤ u && u ≤ 0x39) || (0x41 ≤ u && u ≤ 0x5a) || u == 0x5f || (0x61 ≤ u && u ≤ 0x7a)

/-- Match a text: what follows it. -/
def takeText : List UInt16 → List UInt16 → Option (List UInt16)
  | [], line => some line
  | _ :: _, [] => none
  | u :: text, u' :: line => if u = u' then takeText text line else none

/-- Match `\w{n}`: the characters and what follows them. -/
def takeWord : Nat → List UInt16 → Option (List UInt16 × List UInt16)
  | 0, line => some ([], line)
  | _ + 1, [] => none
  | n + 1, u :: line =>
      if isWord u then (takeWord n line).map fun (word, rest) => (u :: word, rest) else none

/-- `/^\t\t(\w{4}) (\w{4})  (.*)/`: `$1 . $2` and `$3`. -/
def matchSubsystem (line : List UInt16) : Option (List UInt16 × List UInt16) := do
  let line ← takeText [0x09, 0x09] line
  let (subvendor, line) ← takeWord 4 line
  let line ← takeText [0x20] line
  let (subdevice, line) ← takeWord 4 line
  let name ← takeText [0x20, 0x20] line
  some (subvendor ++ subdevice, name)

/-- The other expressions, `/^lead(\w{n})  (.*)/`: `$1` and `$2`. -/
def matchItem (lead : List UInt16) (n : Nat) (line : List UInt16) :
    Option (List UInt16 × List UInt16) := do
  let line ← takeText lead line
  let (key, line) ← takeWord n line
  let name ← takeText [0x20, 0x20] line
  some (key, name)

/-- The expressions in the order in which they are tried. -/
def matchLine (line : List UInt16) : Option (ItemKind × List UInt16 × List UInt16) :=
  (matchSubsystem line).map (.mk .subsystem) <|>
  (matchItem [0x09] 4 line).map (.mk .device) <|>
  (matchItem [] 4 line).map (.mk .vendor) <|>
  (matchItem [0x09, 0x09] 2 line).map (.mk .progif) <|>
  (matchItem [0x09] 2 line).map (.mk .subclass) <|>
  (matchItem [0x43, 0x20] 2 line).map (.mk .baseClass)

/-! ## Hashes -/

/-- The value of a key: `[0]` and `[1]` of an array. -/
structure PerlItem where
  name : List UInt16 := []
  child : Option (List UInt16) := none
  deriving DecidableEq, Repr

/-- A hash, with its keys in the order in which they were added. -/
abbrev PerlHash := List (List UInt16 × PerlItem)

/-- Change the value of a key, which is added if it is not there. -/
def PerlHash.modify (h : PerlHash) (key : List UInt16) (f : PerlItem → PerlItem) : PerlHash :=
  if h.any (fun e => e.1 = key) then
    h.map fun e => if e.1 = key then (key, f e.2) else e
  else h ++ [(key, f {})]

/-- `cmp`, for sorting: by the first unit that differs. -/
def unitsLe : List UInt16 → List UInt16 → Bool
  | [], _ => true
  | _ :: _, [] => false
  | u :: units, u' :: units' => if u = u' then unitsLe units units' else u < u'

/-- `sort keys`. -/
def PerlHash.sort (h : PerlHash) : PerlHash := h.insertionSort fun e e' => unitsLe e.1 e'.1

/-! ## The generated source -/

/-- `{value, L"name", Child(child)}`. -/
structure Initializer where
  value : List UInt16
  name : List UInt16
  child : Option (List UInt16)
  deriving DecidableEq, Repr

/-- `static PciIdItem name[] = {items};`. -/
structure ArrayDecl where
  name : List UInt16
  items : List Initializer
  deriving DecidableEq, Repr

/-- `Vendors`. -/
def vendorsName : List UInt16 := [0x56, 0x65, 0x6e, 0x64, 0x6f, 0x72, 0x73]

/-- `Classes`. -/
def classesName : List UInt16 := [0x43, 0x6c, 0x61, 0x73, 0x73, 0x65, 0x73]

/-- `PciIdsInternal`. -/
def internalName : List UInt16 :=
  [0x50, 0x63, 0x69, 0x49, 0x64, 0x73, 0x49, 0x6e, 0x74, 0x65, 0x72, 0x6e, 0x61, 0x6c]

/-- `s/([?"\\])/\\$1/gr`. -/
def escape (name : List UInt16) : List UInt16 :=
  name.flatMap fun u => if u = 0x3f ∨ u = 0x22 ∨ u = 0x5c then [0x5c, u] else [u]

/-- The initializer of a key. -/
def initializer (e : List UInt16 × PerlItem) : Initializer where
  value := [0x30, 0x78] ++ e.1
  name := escape e.2.name
  child := e.2.child

/-- The declaration of `PciIdsInternal`. -/
def internalDecl : ArrayDecl where
  name := internalName
  items := [⟨[0x30], vendorsName, some vendorsName⟩, ⟨[0x31], classesName, some classesName⟩]

/-! ## The script -/

/-- The variables: `%vendors` is `hash .vendor`, `$vendor` is `current .vendor`, and so
on. -/
structure Perl where
  hash : ItemKind → PerlHash := fun _ => []
  current : ItemKind → List UInt16 := fun _ => []
  out : List ArrayDecl := []

/-- The name of the array that a hash is printed as. -/
def arrayName (current : ItemKind → List UInt16) : ItemKind → List UInt16
  | .subsystem => [0x44, 0x5f] ++ current .vendor ++ [0x5f] ++ current .device
  | .device => [0x56, 0x5f] ++ current .vendor
  | .vendor => vendorsName
  | .progif => [0x53, 0x5f] ++ current .baseClass ++ [0x5f] ++ current .subclass
  | .subclass => [0x43, 0x5f] ++ current .baseClass
  | .baseClass => classesName

/-- `printitems`. -/
def Perl.printitems (st : Perl) (k : ItemKind) : Perl :=
  if (st.hash k).isEmpty then st
  else
    { st with
      hash := Function.update st.hash k []
      out := st.out ++ [⟨arrayName st.current k, (st.hash k).sort.map initializer⟩] }

/-- The hashes in the order in which `printall` prints them. -/
def printOrder : List ItemKind := [.subsystem, .device, .vendor, .progif, .subclass, .baseClass]

/-- `printall`: the first hashes. -/
def Perl.printall (st : Perl) (what : Nat) : Perl := (printOrder.take what).foldl printitems st

/-- What a line of a kind passes to `printall`. -/
def ItemKind.level : ItemKind → Nat
  | subsystem => 0
  | device => 1
  | vendor => 2
  | progif => 3
  | subclass => 4
  | baseClass => 5

/-- The kind of the line that a line belongs to. -/
def ItemKind.parent : ItemKind → Option ItemKind
  | subsystem => some device
  | device => some vendor
  | vendor => none
  | progif => some subclass
  | subclass => some baseClass
  | baseClass => none

/-- The assignments for a line: to the variable and the hash of its kind, and to the
item of the line that it belongs to. -/
def Perl.assign (st : Perl) (k : ItemKind) (key name : List UInt16) : Perl :=
  let current := Function.update st.current k key
  let hash := Function.update st.hash k ((st.hash k).modify key fun _ => { name := name })
  match k.parent with
  | none => { st with current := current, hash := hash }
  | some p =>
      { st with
        current := current
        hash := Function.update hash p ((hash p).modify (current p) fun item =>
          { item with child := some (arrayName current k) }) }

/-- The body of the main loop. -/
def Perl.readLine (st : Perl) (line : List UInt16) : Perl :=
  match matchLine line with
  | some (k, key, name) => (st.printall k.level).assign k key name
  | none => st

/-- `while (<>)`: the lines of a text. -/
def splitLines : List UInt16 → List (List UInt16)
  | [] => []
  | u :: rest =>
      if u = 0x0a then [] :: splitLines rest
      else
        match splitLines rest with
        | [] => [[u]]
        | line :: lines => (u :: line) :: lines

/-- The declarations that the script prints. -/
def convertPciIds (text : List UInt16) : List ArrayDecl :=
  (((splitLines text).foldl Perl.readLine {}).printall 6).out ++ [internalDecl]

/-! ## Compiling the source -/

/-- The value of a hexadecimal digit. -/
def hexDigitValue (u : UInt16) : Option Nat :=
  if 0x30 ≤ u ∧ u ≤ 0x39 then some (u.toNat - 0x30)
  else if 0x61 ≤ u ∧ u ≤ 0x66 then some (u.toNat - 0x57)
  else if 0x41 ≤ u ∧ u ≤ 0x46 then some (u.toNat - 0x37)
  else none

/-- The value of hexadecimal digits. -/
def hexValue (digits : List UInt16) : Option Nat :=
  digits.foldlM (fun value u => (hexDigitValue u).map (16 * value + ·)) 0

/-- The value of an integer constant: `0x` and digits, or `0` or `1`. -/
def constantValue (token : List UInt16) : Option Nat :=
  if token = [0x30] then some 0
  else if token = [0x31] then some 1
  else
    match token with
    | 0x30 :: 0x78 :: digit :: digits => hexValue (digit :: digits)
    | _ => none

/-- The characters of a string literal: the escape sequences that the script prints are
undone, a quote without a backslash would end the literal, and a carriage return would end
its line. -/
def unescape : List UInt16 → Option (List UInt16)
  | [] => some []
  | [u] => if u = 0x5c ∨ u = 0x22 ∨ u = 0x0d then none else some [u]
  | u :: u' :: literal =>
      if u = 0x5c then
        if u' = 0x3f ∨ u' = 0x22 ∨ u' = 0x5c then (unescape literal).map (u' :: ·) else none
      else if u = 0x22 ∨ u = 0x0d then none
      else (unescape (u' :: literal)).map (u :: ·)

/-- The arrays and the string literals, each of which is a block of its own. -/
structure Objects where
  arrays : List (List UInt16 × List PciIdItem) := []
  strings : List (List UInt16) := []

namespace Objects

/-- The block of the array with a name. -/
def find (o : Objects) (name : List UInt16) : Option Nat :=
  o.arrays.findIdx? fun array => array.1 = name

/-- The records of an array. -/
def records (o : Objects) (block : Nat) : List PciIdItem := (o.arrays.getD block ([], [])).2

/-- The memory of the arrays. -/
def items (o : Objects) : ItemMemory := fun block i => (o.records block).getD i {}

/-- The memory of the string literals. -/
def text (o : Objects) : TextMemory := fun block i => (o.strings.getD block []).getD i 0

/-- The record of an initializer, with its name in the given block: `Child(x)` is the
number of elements of `x` and its address. -/
def record (o : Objects) (init : Initializer) (string : Nat) : Option PciIdItem := do
  let value ← constantValue init.value
  match init.child with
  | none => some { value := .ofNat value, name := some ⟨string, 0⟩ }
  | some child =>
      let block ← o.find child
      some {
        value := .ofNat value
        name := some ⟨string, 0⟩
        numChildren := (o.records block).length
        children := some ⟨block, 0⟩ }

/-- Compile a declaration: its name must be new, and `Child` must name an array that was
declared before. -/
def define (o : Objects) (d : ArrayDecl) : Option Objects :=
  if (o.find d.name).isSome then none
  else do
    let strings ← d.items.mapM fun init => unescape init.name
    let records ← d.items.zipIdx.mapM fun (init, i) => o.record init (o.strings.length + i)
    some { arrays := o.arrays ++ [(d.name, records)], strings := o.strings ++ strings }

end Objects

/-- The table that `UseInternalPciIds` switches to. -/
structure InternalTable where
  objects : Objects
  vendors : PciIdItem
  classes : PciIdItem

/-- Compile the declarations and look up `PciIdsInternal`. -/
def compileTable (decls : List ArrayDecl) : Option InternalTable := do
  let o ← decls.foldlM Objects.define {}
  let block ← o.find internalName
  match o.records block with
  | [vendors, classes] => some ⟨o, vendors, classes⟩
  | _ => none

end PciIds
end EfiApps
