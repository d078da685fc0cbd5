import EfiApps.Lib.Linked
import EfiApps.PciIds.Item
import EfiApps.PciMisc.Device

/-!
# `ReadPciIds`

The file is read into a buffer of 16-bit units and turned into a table in two
passes.  The first pass rewrites every line in place: a type code, the length of
the line and the packed ID replace its first units.  The second pass walks these
headers and fills six arrays of records, one for each kind of line; every array
has one record more than there are lines of its kind, so that a cursor may stand
behind the last one.

Addresses in the buffer and in the array of records are offsets.
-/

namespace EfiApps
namespace PciIds

open PciMisc

/-- The kinds of lines with values. -/
inductive ItemKind
  | subsystem
  | device
  | vendor
  | progif
  | subclass
  | baseClass
  deriving DecidableEq, Repr

/-- `UINT8`, `UINT16` and `UINT32`. -/
inductive Width
  | w8
  | w16
  | w32
  deriving DecidableEq, Repr

namespace ItemKind

/-- The type code that the first pass leaves in `l[0]`. -/
def typeCode : ItemKind → UInt16
  | subsystem => 2
  | device => 3
  | vendor => 4
  | progif => 5
  | subclass => 6
  | baseClass => 7

/-- The kind with a type code. -/
def ofTypeCode (code : UInt16) : Option ItemKind :=
  if code = 7 then some baseClass
  else if code = 4 then some vendor
  else if code = 5 then some progif
  else if code = 2 then some subsystem
  else if code = 6 then some subclass
  else if code = 3 then some device
  else none

/-- The width of the ID. -/
def width : ItemKind → Width
  | baseClass | subclass | progif => .w8
  | vendor | device => .w16
  | subsystem => .w32

/-- Where the ID starts in a line. -/
def valueOffset : ItemKind → Nat
  | vendor => 0
  | device | subclass => 1
  | baseClass | progif | subsystem => 2

/-- Where the name starts in a line. -/
def nameOffset : ItemKind → Nat
  | subclass => 5
  | baseClass | vendor | progif => 6
  | device => 7
  | subsystem => 13

/-- The labels of `doincs` from the one of a kind on: there is no `break`. -/
def fallThrough : ItemKind → List ItemKind
  | baseClass => [baseClass, subclass, progif, vendor, device, subsystem]
  | subclass => [subclass, progif, vendor, device, subsystem]
  | progif => [progif, vendor, device, subsystem]
  | vendor => [vendor, device, subsystem]
  | device => [device, subsystem]
  | subsystem => [subsystem]

end ItemKind

/-! ## The first pass -/

section macros

variable (mem : Nat → UInt16) (x : Nat)

/-- `get4`: the value of a digit, in `int` arithmetic. -/
def get4 : UInt32 := (mem x).toUInt32 - if mem x < 0x61 then 0x30 else 0x61 - 10

/-- `get8`. -/
def get8 : UInt32 := (get4 mem x <<< 4) ||| get4 mem (x + 1)

/-- `get16`. -/
def get16 : UInt32 := (get8 mem x <<< 8) ||| get8 mem (x + 2)

/-- `get32`: the two halves are separated by a space. -/
def get32 : UInt32 := (get16 mem x <<< 16) ||| get16 mem (x + 5)

end macros

/-- The kind of the line at `l`, which is not a comment. -/
def lineKind (mem : Nat → UInt16) (l : Nat) : ItemKind :=
  if mem (l + 1) = 0x20 then .baseClass
  else if mem l > 0x23 then .vendor
  else if mem (l + 1) = 0x09 then
    if mem (l + 4) = 0x20 then .progif else .subsystem
  else if mem (l + 3) = 0x20 then .subclass
  else .device

/-- The stores of `initone` to `l[2]`, `l[3]` and `l[0]`. -/
def initone (mem : Nat → UInt16) (l : Nat) (k : ItemKind) : Nat → UInt16 :=
  let v := l + k.valueOffset
  let mem := match k.width with
    | .w8 =>
        Function.update mem (l + 2) ((mem (l + 2) &&& 0xff00) ||| ((get8 mem v).toUInt16 &&& 0xff))
    | .w16 => Function.update mem (l + 2) (get16 mem v).toUInt16
    | .w32 =>
        Function.update (Function.update mem (l + 2) (get32 mem v).toUInt16) (l + 3)
          (get32 mem v >>> 16).toUInt16
  Function.update mem l k.typeCode

/-- The buffer, the start of the current line and the six counters. -/
structure FirstPass where
  mem : Nat → UInt16
  l : Nat
  count : ItemKind → Nat

/-- What the first pass does with the line from `l` to the line feed at `c`. -/
def endLine (s : FirstPass) (c : Nat) : FirstPass :=
  let mem := Function.update s.mem c 0
  if mem s.l = 0 then { s with mem := mem, l := c + 1 }
  else
    let length := UInt16.ofNat (c - s.l + 1)
    if mem s.l = 0x23 then
      { s with mem := Function.update (Function.update mem s.l 1) (s.l + 1) length, l := c + 1 }
    else
      let k := lineKind mem s.l
      { mem := Function.update (initone mem s.l k) (s.l + 1) length
        l := c + 1
        count := Function.update s.count k (s.count k + 1) }

/-- One iteration of the first pass. -/
def firstPassStep (s : FirstPass) (c : Nat) : FirstPass :=
  if s.mem c = 0x0a then endLine s c else s

/-- The first pass. -/
def firstPass (mem : Nat → UInt16) (start bufferEnd : Nat) : FirstPass :=
  (List.range' start (bufferEnd - start)).foldl firstPassStep ⟨mem, start, fun _ => 0⟩

/-! ## The second pass -/

/-- The records, the two roots and the six cursors. -/
structure Table where
  items : Nat → PciIdItem
  vendors : PciIdItem
  classes : PciIdItem
  cursor : ItemKind → Nat

namespace Table

/-- `if (r->Name) r++`. -/
def advance (t : Table) (k : ItemKind) : Table :=
  if (t.items (t.cursor k)).name.isSome then
    { t with cursor := Function.update t.cursor k (t.cursor k + 1) }
  else t

/-- `doincs`. -/
def doincs (t : Table) (k : ItemKind) : Table := k.fallThrough.foldl advance t

/-- Change the record at an offset. -/
def modify (t : Table) (i : Nat) (f : PciIdItem → PciIdItem) : Table :=
  { t with items := Function.update t.items i (f (t.items i)) }

end Table

/-- `if (!(p)->Children) (p)->Children = r; (p)->NumChildren++`. -/
def adopt (r : Ptr) (p : PciIdItem) : PciIdItem :=
  { p with
    children := if p.children.isNone then some r else p.children
    numChildren := p.numChildren + 1 }

/-- The parent of a new record of the given kind adopts it. -/
def Table.adoptBy (t : Table) (k : ItemKind) (r : Ptr) : Table :=
  match k with
  | .baseClass => { t with classes := adopt r t.classes }
  | .vendor => { t with vendors := adopt r t.vendors }
  | .progif => t.modify (t.cursor .subclass) (adopt r)
  | .subsystem => t.modify (t.cursor .device) (adopt r)
  | .subclass => t.modify (t.cursor .baseClass) (adopt r)
  | .device => t.modify (t.cursor .vendor) (adopt r)

/-- `doone`, for records in the block `file` and names in the block `buffer`. -/
def doone (file buffer : Nat) (t : Table) (k : ItemKind) (value : UInt64) (name : Nat) : Table :=
  let t := t.doincs k
  let r := t.cursor k
  let t := t.modify r fun d => { d with value := value, name := some ⟨buffer, name⟩ }
  t.adoptBy k ⟨file, r⟩

/-- The value that the first pass has stored at `l[2]`. -/
def storedValue (mem : Nat → UInt16) (l : Nat) : Width → UInt64
  | .w8 => (mem (l + 2) &&& 0xff).toUInt64
  | .w16 => (mem (l + 2)).toUInt64
  | .w32 => (mem (l + 2)).toUInt64 ||| ((mem (l + 3)).toUInt64 <<< 16)

/-- The `switch` of the second pass. -/
def doLine (file buffer : Nat) (mem : Nat → UInt16) (l : Nat) (t : Table) : Table :=
  match ItemKind.ofTypeCode (mem l) with
  | some k => doone file buffer t k (storedValue mem l k.width) (l + k.nameOffset)
  | none => t

/-- The second pass. -/
def secondPass (file buffer : Nat) (mem : Nat → UInt16) (bufferEnd : Nat) :
    Nat → Nat → Table → Run Table
  | fuel, l, t =>
      if l < bufferEnd then
        match fuel with
        | 0 => .error .outOfFuel
        | fuel + 1 =>
            if mem l = 0 then secondPass file buffer mem bufferEnd fuel (l + 1) t
            else
              secondPass file buffer mem bufferEnd fuel (l + (mem (l + 1)).toNat)
                (doLine file buffer mem l t)
      else .ok t

/-- Where the arrays of the kinds start in `pciidsFile`. -/
def arrayStart (count : ItemKind → Nat) : ItemKind → Nat
  | .vendor => 0
  | .device => count .vendor + 1
  | .subsystem => count .vendor + 1 + (count .device + 1)
  | .baseClass => count .vendor + 1 + (count .device + 1) + (count .subsystem + 1)
  | .subclass =>
      count .vendor + 1 + (count .device + 1) + (count .subsystem + 1) + (count .baseClass + 1)
  | .progif =>
      count .vendor + 1 + (count .device + 1) + (count .subsystem + 1) + (count .baseClass + 1) +
        (count .subclass + 1)

/-! ## The functions -/

/-- The globals and the memory.  Blocks from `brk` on have not been handed out
yet; those before it have a size, in units or in records. -/
structure Globals where
  vendors : PciIdItem
  classes : PciIdItem
  pciidsBuffer : Option Nat
  pciidsFile : Option Nat
  text : TextMemory
  items : ItemMemory
  live : Nat → Bool
  size : Nat → Nat
  brk : Nat

/-- `L"Vendors"`, with its terminator. -/
def vendorsLiteral : List UInt16 := [0x56, 0x65, 0x6e, 0x64, 0x6f, 0x72, 0x73, 0]

/-- `L"Classes"`, with its terminator. -/
def classesLiteral : List UInt16 := [0x43, 0x6c, 0x61, 0x73, 0x73, 0x65, 0x73, 0]

/-- The globals as they are initialized; the two literals are blocks of their own. -/
def Globals.init : Globals where
  vendors := { value := 0, name := some ⟨0, 0⟩ }
  classes := { value := 1, name := some ⟨1, 0⟩ }
  pciidsBuffer := none
  pciidsFile := none
  text := fun block => if block = 0 then (vendorsLiteral.getD · 0) else (classesLiteral.getD · 0)
  items := fun _ _ => {}
  live := fun block => decide (block < 2)
  size := fun block =>
    if block = 0 then vendorsLiteral.length else if block = 1 then classesLiteral.length else 0
  brk := 2

/-- `FreePool`. -/
def Globals.free (s : Globals) (block : Nat) : Globals :=
  { s with live := Function.update s.live block false }

/-- `FreePciIds`. -/
def freePciIds (s : Globals) : Globals :=
  let s := match s.pciidsBuffer with
    | some buffer => { s.free buffer with pciidsBuffer := none }
    | none => s
  match s.pciidsFile with
  | some file => { s.free file with pciidsFile := none }
  | none => s

/-- What `ReadFile` comes to: it fails, before or after it has allocated a buffer of some
size, or reads that many units into a buffer; of one that is longer the rest does not count. -/
inductive FileOutcome
  | failed (code : Nat) (buffer : Option ((Nat → UInt16) × Nat))
  | success (contents : Nat → UInt16) (size : Nat)

/-- Allocate a block for text. -/
def Globals.allocateText (s : Globals) (contents : Nat → UInt16) (size : Nat) : Globals :=
  { s with
    text := Function.update s.text s.brk contents
    live := Function.update s.live s.brk true
    size := Function.update s.size s.brk size
    brk := s.brk + 1 }

/-- Allocate a zeroed block of records. -/
def Globals.allocateItems (s : Globals) (size : Nat) : Globals :=
  { s with
    items := Function.update s.items s.brk fun _ => {}
    live := Function.update s.live s.brk true
    size := Function.update s.size s.brk size
    brk := s.brk + 1 }

/-- The number of records in `pciidsFile`: one more than there are lines, for each of the six
kinds. -/
def recordCount (count : ItemKind → Nat) : Nat :=
  count .vendor + count .device + count .subsystem + count .baseClass + count .subclass +
    count .progif + 6

/-- The part of `ReadPciIds` after a successful `ReadFile`: `allocates` says whether
the records can be allocated. -/
def parsePciIds (fuel : Nat) (allocates : Bool) (buffer : Nat) (contents : Nat → UInt16)
    (size : Nat) (s : Globals) : Run (EfiStatus × Globals) :=
  -- A byte order mark is skipped.
  let start := if contents 0 = 0xfeff then 1 else 0
  let pass := firstPass contents start size
  let s := { s with text := Function.update s.text buffer pass.mem }
  -- The text is given back as well.
  if allocates = false then .ok (.outOfResources, freePciIds { s with pciidsFile := none })
  else do
    let file := s.brk
    let s := { s.allocateItems (recordCount pass.count) with pciidsFile := some file }
    let t ← secondPass file buffer pass.mem size fuel start
      ⟨s.items file, s.vendors, s.classes, arrayStart pass.count⟩
    .ok (.success, { s with
      items := Function.update s.items file t.items
      vendors := t.vendors
      classes := t.classes })

/-- `ReadPciIds`. -/
def readPciIds (fuel : Nat) (outcome : FileOutcome) (allocates : Bool) (s : Globals) :
    Run (EfiStatus × Globals) :=
  let s := { s with pciidsBuffer := none }
  match outcome with
  | .failed code none => .ok (.error code, s)
  | .failed code (some (contents, size)) =>
      .ok (.error code, { s.allocateText contents size with pciidsBuffer := some s.brk })
  | .success contents size =>
      parsePciIds fuel allocates s.brk contents size
        { s.allocateText contents size with pciidsBuffer := some s.brk }

end PciIds
end EfiApps
