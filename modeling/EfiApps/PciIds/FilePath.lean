import Mathlib.Algebra.GroupWithZero.Nat
import EfiApps.PciMisc.TreeIterate

/-!
# The path of the image

`GetPathParts` joins the names at the end of a device path in a buffer whose size is the
sum of the sizes of the names; the terminators make room for the backslashes between them
and for the terminator of the whole.  `ReplaceBaseName` puts another name behind the last
backslash.
-/

namespace EfiApps
namespace PciIds

open PciMisc

/-- `L'\\'`. -/
def backslash : UInt16 := 0x5c

/-- A node of a device path before its end.  The name is that of a file-path node. -/
structure PathNode where
  type : UInt8
  subType : UInt8
  pathName : List UInt16
  pathName_ne_zero : ∀ u ∈ pathName, u ≠ 0

/-- `Type == MEDIA_DEVICE_PATH && SubType == MEDIA_FILEPATH_DP`. -/
def PathNode.isFilePath (n : PathNode) : Bool := n.type == 4 && n.subType == 4

/-- `StrSize`. -/
def strSize (text : List UInt16) : Nat := 2 * (text.length + 1)

/-! ## `GetPathParts` -/

/-- The loop that finds the last run of file-path nodes, as the nodes from there on, and
the size of its names. -/
def lastRun : List PathNode → Option (List PathNode) → Nat → Option (List PathNode) × Nat
  | [], n2, pathSize => (n2, pathSize)
  | n1 :: rest, n2, pathSize =>
      if n1.isFilePath then
        lastRun rest (if n2.isNone then some (n1 :: rest) else n2) (pathSize + strSize n1.pathName)
      else lastRun rest none 0

/-- What `UnicodeSPrint` returns. -/
def unicodeSPrintLength (size : UInt64) (text : List UInt16) : Nat :=
  if size < 2 ∨ size > maxSPrintSize then 0 else (text.take (size.toNat / 2 - 1)).length

/-- The loop that appends the names; `c` is the distance from `p`, and the memory begins
at `p`. -/
def appendNames (pathSize : UInt64) : List PathNode → Nat → List UInt16 → List UInt16
  | [], _, memory => memory
  | n1 :: rest, c, memory =>
      let text := (if c = 0 then [] else [backslash]) ++ n1.pathName
      appendNames pathSize rest (c + unicodeSPrintLength pathSize text)
        (unicodeSPrint memory (.ofNat c) pathSize text)

/-- `GetPathParts`, with the memory from the buffer on that `AllocatePool` gives: the memory
afterwards, or `NULL`. -/
def getPathParts (filePath : List PathNode) (memory : List UInt16) : Option (List UInt16) :=
  let (n2, pathSize) := lastRun filePath none 0
  n2.map fun run => appendNames (.ofNat pathSize) run 0 memory

/-! ## `ReplaceBaseName` -/

/-- `CatSPrint`: the text of the string that is returned. -/
def catSPrint (string text : List UInt16) : List UInt16 := string ++ text

/-- The loop from the end of the path: `c - FilePath + 1`, where it is left. -/
def baseNameStart (filePath : List UInt16) : Nat → Nat
  | 0 => 0
  | k + 1 => if filePath[k]? = some backslash then k + 1 else baseNameStart filePath k

/-- `ReplaceBaseName`. -/
def replaceBaseName (filePath fileName : List UInt16) : List UInt16 :=
  catSPrint [] (filePath.take (baseNameStart filePath filePath.length) ++ fileName)

/-! ## The last run -/

section lastRun

variable {n2 : Option (List PathNode)} {pathSize : Nat}

/-- The size of the buffer for the names of some nodes. -/
def namesSize (nodes : List PathNode) : Nat := (nodes.map fun n => strSize n.pathName).sum

theorem lastRun_run {run : List PathNode} (h : ∀ n ∈ run, n.isFilePath = true) :
    lastRun run n2 pathSize =
      (if n2.isNone ∧ run ≠ [] then some run else n2, pathSize + namesSize run) := by
  induction run generalizing n2 pathSize with
  | nil => simp [lastRun, namesSize]
  | cons n1 rest ih =>
      rw [lastRun, if_pos (h n1 List.mem_cons_self),
        ih fun n hn => h n (List.mem_cons_of_mem _ hn)]
      have hsum : namesSize (n1 :: rest) = strSize n1.pathName + namesSize rest := rfl
      rw [hsum, ← Nat.add_assoc]
      cases n2 with
      | none => simp
      | some run => simp

/-- Nodes up to one that is no file-path node are forgotten. -/
theorem lastRun_append {before run : List PathNode} (hne : before ≠ [])
    (h : ∀ n ∈ before.getLast?, n.isFilePath = false) :
    lastRun (before ++ run) n2 pathSize = lastRun run none 0 := by
  induction before generalizing n2 pathSize with
  | nil => exact absurd rfl hne
  | cons n1 before ih =>
      cases before with
      | nil =>
          have hother : n1.isFilePath = false := h n1 rfl
          rw [List.singleton_append, lastRun, hother]
          rfl
      | cons m before =>
          rw [List.cons_append, lastRun]
          split
          · exact ih (List.cons_ne_nil _ _) (by simpa using h)
          · exact ih (List.cons_ne_nil _ _) (by simpa using h)

/-- Only the last run counts, whatever is before it. -/
theorem lastRun_eq {before run : List PathNode}
    (hbefore : ∀ n ∈ before.getLast?, n.isFilePath = false)
    (hrun : ∀ n ∈ run, n.isFilePath = true) (hne : run ≠ []) :
    lastRun (before ++ run) none 0 = (some run, namesSize run) := by
  have hlast : lastRun run none 0 = (some run, namesSize run) := by
    rw [lastRun_run hrun, if_pos ⟨rfl, hne⟩, Nat.zero_add]
  cases before with
  | nil => exact hlast
  | cons n before => rw [lastRun_append (List.cons_ne_nil _ _) hbefore, hlast]

end lastRun

/-! ## The text in the buffer -/

section text

variable {pathSize c : Nat} {text : List UInt16}

theorem toNat_pathSize (h : pathSize ≤ maxSPrintSize.toNat) :
    (UInt64.ofNat pathSize).toNat = pathSize := by
  have hmax : maxSPrintSize.toNat = 2000001 := rfl
  rw [UInt64.toNat_ofNat', Nat.mod_eq_of_lt (by omega)]

/-- `UnicodeSPrint` accepts the size. -/
theorem not_refused (hsize : pathSize ≤ maxSPrintSize.toNat) (htwo : 2 ≤ pathSize) :
    ¬ (UInt64.ofNat pathSize < 2 ∨ UInt64.ofNat pathSize > maxSPrintSize) := by
  rw [gt_iff_lt, UInt64.lt_iff_toNat_lt, UInt64.lt_iff_toNat_lt, toNat_pathSize hsize,
    show (2 : UInt64).toNat = 2 from rfl]
  omega

/-- Text for which the size leaves room is printed in full, with a terminator. -/
theorem unicodeSPrint_fits (hsize : pathSize ≤ maxSPrintSize.toNat)
    (htext : 2 * (text.length + 1) ≤ pathSize) (hc : c ≤ maxSPrintSize.toNat)
    (memory : List UInt16) :
    unicodeSPrint memory (.ofNat c) (.ofNat pathSize) text =
        memory.take c ++ (text ++ [0]) ++ memory.drop (c + (text.length + 1)) ∧
      unicodeSPrintLength (.ofNat pathSize) text = text.length := by
  have haccepted := not_refused hsize (by omega)
  have htake : text.take ((UInt64.ofNat pathSize).toNat / 2 - 1) = text := by
    rw [toNat_pathSize hsize]
    exact List.take_of_length_le (by omega)
  constructor
  · have hunits : (text ++ [0]).length = text.length + 1 := List.length_append
    rw [← hunits, unicodeSPrint, if_neg haccepted, htake, toNat_pathSize hc]
  · rw [unicodeSPrintLength, if_neg haccepted, htake]

/-- What the nodes behind the first one add. -/
def laterNames (nodes : List PathNode) : List UInt16 :=
  nodes.flatMap fun n => backslash :: n.pathName

/-- Behind a first name every name is appended with a backslash. -/
theorem appendNames_eq (hsize : pathSize ≤ maxSPrintSize.toNat) {rest : List PathNode}
    (htext : text ≠ []) (hfits : 2 * ((text ++ laterNames rest).length + 1) ≤ pathSize)
    (behind : List UInt16) :
    appendNames (.ofNat pathSize) rest text.length (text ++ 0 :: behind) =
      text ++ laterNames rest ++ 0 :: behind.drop (laterNames rest).length := by
  induction rest generalizing text behind with
  | nil => simp [appendNames, laterNames]
  | cons n1 rest ih =>
      have hlater : laterNames (n1 :: rest) = backslash :: n1.pathName ++ laterNames rest := rfl
      have hlength : text.length ≠ 0 := fun h => htext (List.eq_nil_of_length_eq_zero h)
      rw [hlater] at hfits ⊢
      simp only [List.length_append, List.length_cons] at hfits
      have hroom : 2 * ((backslash :: n1.pathName).length + 1) ≤ pathSize := by
        rw [List.length_cons]
        omega
      obtain ⟨hprint, hcount⟩ := unicodeSPrint_fits (c := text.length) hsize hroom (by omega)
        (text ++ 0 :: behind)
      -- The text that is there stays; the rest is behind the new terminator.
      have hmemory : (text ++ 0 :: behind).take text.length ++ (backslash :: n1.pathName ++ [0]) ++
          (text ++ 0 :: behind).drop (text.length + ((backslash :: n1.pathName).length + 1)) =
          text ++ backslash :: n1.pathName ++
            0 :: behind.drop (backslash :: n1.pathName).length := by
        rw [List.take_left, ← List.drop_drop, List.drop_left, List.drop_succ_cons]
        simp
      rw [appendNames, if_neg hlength, List.singleton_append, hprint, hcount, hmemory, ← List.length_append,
        ih (by simp) (by simp only [List.length_append, List.length_cons]; omega),
        List.drop_drop, ← List.length_append, List.append_assoc text]

theorem two_mul_length_laterNames (rest : List PathNode) :
    2 * (laterNames rest).length = namesSize rest := by
  induction rest with
  | nil => rfl
  | cons n1 rest ih =>
      have hlater : laterNames (n1 :: rest) = backslash :: n1.pathName ++ laterNames rest := rfl
      have hsum : namesSize (n1 :: rest) = strSize n1.pathName + namesSize rest := rfl
      rw [hlater, hsum, List.length_append, List.length_cons, strSize]
      omega

/-- The names joined by backslashes. -/
def joinedNames (nodes : List PathNode) : List UInt16 :=
  List.intercalate [backslash] (nodes.map PathNode.pathName)

theorem joinedNames_cons (n1 : PathNode) (rest : List PathNode) :
    joinedNames (n1 :: rest) = n1.pathName ++ laterNames rest := by
  induction rest generalizing n1 with
  | nil => simp [joinedNames, laterNames]
  | cons m rest ih =>
      have hlater : laterNames (m :: rest) = backslash :: m.pathName ++ laterNames rest := rfl
      rw [hlater, List.cons_append, ← ih m]
      simp [joinedNames, List.intercalate_cons_cons]

/-- The size of the names is the size of the joined names. -/
theorem strSize_joinedNames {run : List PathNode} (hne : run ≠ []) :
    strSize (joinedNames run) = namesSize run := by
  cases run with
  | nil => exact absurd rfl hne
  | cons n1 rest =>
      have hlater := two_mul_length_laterNames rest
      have hsum : namesSize (n1 :: rest) = strSize n1.pathName + namesSize rest := rfl
      rw [joinedNames_cons, hsum, strSize, strSize, List.length_append]
      omega

theorem joinedNames_ne_zero (nodes : List PathNode) : ∀ u ∈ joinedNames nodes, u ≠ 0 := by
  cases nodes with
  | nil => intro u hu; cases hu
  | cons n1 rest =>
      rw [joinedNames_cons]
      intro u hu
      rcases List.mem_append.mp hu with hu | hu
      · exact n1.pathName_ne_zero u hu
      · obtain ⟨n, -, hu⟩ := List.mem_flatMap.mp hu
        rcases List.mem_cons.mp hu with rfl | hu
        · decide
        · exact n.pathName_ne_zero u hu

end text

/-! ## The last backslash -/

/-- Behind where the loop is left there is no backslash, and right before it there is one,
if anything is. -/
theorem baseNameStart_spec (filePath : List UInt16) (k : Nat) :
    baseNameStart filePath k ≤ k ∧
      (∀ i, baseNameStart filePath k ≤ i → i < k → filePath[i]? ≠ some backslash) ∧
      (baseNameStart filePath k ≠ 0 →
        filePath[baseNameStart filePath k - 1]? = some backslash) := by
  induction k with
  | zero => exact ⟨le_rfl, fun i _ hi => absurd hi (Nat.not_lt_zero i), fun h => absurd rfl h⟩
  | succ k ih =>
      rw [baseNameStart]
      split
      · rename_i hslash
        exact ⟨le_rfl, fun i hle hi => by omega, fun _ => hslash⟩
      · rename_i hslash
        obtain ⟨hle, hnone, hbefore⟩ := ih
        refine ⟨by omega, fun i hi hlt => ?_, hbefore⟩
        rcases Nat.lt_succ_iff_lt_or_eq.mp hlt with hlt | rfl
        · exact hnone i hi hlt
        · exact hslash

/-- A path with a base name replaced is its part up to the last backslash with the other
name behind. -/
def ReplacesBaseName (filePath fileName replaced : List UInt16) : Prop :=
  ∃ directory baseName, filePath = directory ++ baseName ∧ backslash ∉ baseName ∧
    (directory ≠ [] → directory.getLast? = some backslash) ∧ replaced = directory ++ fileName

theorem replaceBaseName_spec (filePath fileName : List UInt16) :
    ReplacesBaseName filePath fileName (replaceBaseName filePath fileName) := by
  obtain ⟨hle, hnone, hbefore⟩ := baseNameStart_spec filePath filePath.length
  set k := baseNameStart filePath filePath.length with hk
  refine ⟨filePath.take k, filePath.drop k, (List.take_append_drop k filePath).symm, ?_, ?_, rfl⟩
  · intro hmem
    obtain ⟨i, hi⟩ := List.mem_iff_getElem?.mp hmem
    rw [List.getElem?_drop] at hi
    have hlt : k + i < filePath.length := (List.getElem?_eq_some_iff.mp hi).1
    exact hnone (k + i) (Nat.le_add_right k i) hlt hi
  · intro hne
    have hpos : k ≠ 0 := by
      intro hzero
      rw [hzero] at hne
      exact hne rfl
    rw [List.getLast?_eq_getElem?, List.length_take, min_eq_left hle,
      List.getElem?_take_of_lt (by omega)]
    exact hbefore hpos

/-! ## The path of a device path -/

/-- The first name is printed alone, the others behind it. -/
theorem appendNames_run {run : List PathNode} (hne : run ≠ [])
    (hnames : ∀ n ∈ run, n.pathName ≠ []) (hsize : namesSize run ≤ maxSPrintSize.toNat)
    (memory : List UInt16) :
    appendNames (.ofNat (namesSize run)) run 0 memory =
      joinedNames run ++ 0 :: memory.drop (namesSize run / 2) := by
  have hjoined := strSize_joinedNames hne
  cases run with
  | nil => exact absurd rfl hne
  | cons n1 rest =>
      rw [joinedNames_cons, strSize] at hjoined
      have hlength : (n1.pathName ++ laterNames rest).length =
          n1.pathName.length + (laterNames rest).length := List.length_append
      have hroom : 2 * (n1.pathName.length + 1) ≤ namesSize (n1 :: rest) := by omega
      obtain ⟨hprint, hcount⟩ := unicodeSPrint_fits hsize hroom (Nat.zero_le _) memory
      have hfirst : unicodeSPrint memory (.ofNat 0) (.ofNat (namesSize (n1 :: rest))) n1.pathName =
          n1.pathName ++ 0 :: memory.drop (n1.pathName.length + 1) := by
        rw [hprint]
        simp
      rw [appendNames, if_pos rfl, List.nil_append, hfirst, hcount, Nat.zero_add,
        appendNames_eq hsize (hnames n1 List.mem_cons_self) (by omega), joinedNames_cons,
        List.drop_drop]
      congr 3
      omega

/-- Without a length that `UnicodeSPrint` refuses, `GetPathParts` fills exactly the buffer it
has allocated, with the names of the last run of file-path nodes joined by backslashes and a
terminator; what is behind the buffer stays.  In this path, `ReplaceBaseName` replaces what
is behind the last backslash. -/
theorem getPathParts_eq (before run : List PathNode)
    (hbefore : ∀ n ∈ before.getLast?, n.isFilePath = false)
    (hrun : ∀ n ∈ run, n.isFilePath = true) (hne : run ≠ [])
    (hnames : ∀ n ∈ run, n.pathName ≠ []) (hsize : namesSize run ≤ maxSPrintSize.toNat) :
    (∀ memory, getPathParts (before ++ run) memory =
        some (joinedNames run ++ 0 :: memory.drop (namesSize run / 2))) ∧
      (joinedNames run).length + 1 = namesSize run / 2 ∧
      (∀ u ∈ joinedNames run, u ≠ 0) ∧
      ∀ fileName, ReplacesBaseName (joinedNames run) fileName
        (replaceBaseName (joinedNames run) fileName) := by
  have hjoined := strSize_joinedNames hne
  rw [strSize] at hjoined
  refine ⟨fun memory => ?_, by omega, joinedNames_ne_zero run,
    replaceBaseName_spec (joinedNames run)⟩
  rw [getPathParts, lastRun_eq hbefore hrun hne, ← appendNames_run hne hnames hsize]
  rfl

theorem getPathParts_eq_twoNames :
    getPathParts [⟨4, 4, [0x78], by simp⟩, ⟨1, 1, [], by simp⟩, ⟨4, 4, [0x61], by simp⟩,
        ⟨4, 4, [0x62, 0x63], by simp⟩] (List.replicate 6 7) =
      some [0x61, 0x5c, 0x62, 0x63, 0, 7] ∧
    ReplacesBaseName [0x61, 0x5c, 0x62, 0x63] [0x64]
      (replaceBaseName [0x61, 0x5c, 0x62, 0x63] [0x64]) := by
  obtain ⟨hparts, -, -, hreplace⟩ := getPathParts_eq
    [⟨4, 4, [0x78], by simp⟩, ⟨1, 1, [], by simp⟩]
    [⟨4, 4, [0x61], by simp⟩, ⟨4, 4, [0x62, 0x63], by simp⟩]
    (by decide) (by decide) (by decide) (by decide) (by decide)
  exact ⟨hparts _, hreplace _⟩

/-- A size that `UnicodeSPrint` refuses leaves the memory alone. -/
theorem appendNames_refused {pathSize : UInt64} (h : pathSize > maxSPrintSize)
    (nodes : List PathNode) (c : Nat) (memory : List UInt16) :
    appendNames pathSize nodes c memory = memory := by
  induction nodes generalizing c with
  | nil => rfl
  | cons n1 rest ih =>
      have hprint : ∀ text, unicodeSPrint memory (.ofNat c) pathSize text = memory :=
        fun _ => if_pos (.inr h)
      rw [appendNames, hprint]
      exact ih _

/-- A file-path node with a name of 32764 letters. -/
def longNode : PathNode :=
  ⟨4, 4, List.replicate 32764 0x41, fun u hu => by
    obtain ⟨-, rfl⟩ := List.mem_replicate.mp hu
    decide⟩

/-- A device path of 31 such nodes. -/
def longPath : List PathNode := List.replicate 31 longNode

theorem namesSize_longPath : namesSize longPath = 2031430 := by
  have hlength : longNode.pathName.length = 32764 := List.length_replicate
  have hmap : longPath.map (fun n => strSize n.pathName) =
      List.replicate 31 (strSize longNode.pathName) := List.map_replicate
  rw [namesSize, hmap, List.sum_replicate_nat, strSize, hlength]

theorem isFilePath_longPath : ∀ n ∈ longPath, n.isFilePath = true ∧ n.pathName ≠ [] := by
  intro n hn
  obtain rfl : n = longNode := List.eq_of_mem_replicate hn
  have hname : longNode.pathName = 0x41 :: List.replicate 32763 0x41 := List.replicate_succ
  refine ⟨rfl, ?_⟩
  rw [hname]
  exact List.cons_ne_nil _ _

/-- Whatever is in the buffer stays there. -/
theorem getPathParts_unchanged (memory : List UInt16) :
    getPathParts longPath memory = some memory := by
  have hrefused : UInt64.ofNat (namesSize longPath) > maxSPrintSize := by
    rw [namesSize_longPath]
    decide
  have hlast : lastRun ([] ++ longPath) none 0 = (some longPath, namesSize longPath) :=
    lastRun_eq (by simp) (fun n hn => (isFilePath_longPath n hn).1) (List.cons_ne_nil _ _)
  rw [List.nil_append] at hlast
  rw [getPathParts, hlast]
  exact congrArg some (appendNames_refused hrefused longPath 0 memory)

/-- The joined names begin with a letter. -/
theorem joinedNames_longPath_ne (text : List UInt16) : joinedNames longPath ++ [0] ≠ 0 :: text := by
  have hjoined : joinedNames longPath =
      longNode.pathName ++ laterNames (List.replicate 30 longNode) :=
    joinedNames_cons longNode _
  have hname : longNode.pathName = 0x41 :: List.replicate 32763 0x41 := List.replicate_succ
  rw [hjoined, hname]
  intro heq
  exact absurd (List.cons.inj heq).1 (by decide)

/-- A buffer of zeros, large enough for the names, is returned as it was allocated. -/
theorem getPathParts_longPath :
    (∀ n ∈ longPath, n.isFilePath = true ∧ n.pathName ≠ []) ∧ longPath ≠ [] ∧
      namesSize longPath = 2 * (1015714 + 1) ∧
      getPathParts longPath (List.replicate (1015714 + 1) 0) =
        some (List.replicate (1015714 + 1) 0) ∧
      getPathParts longPath (List.replicate (1015714 + 1) 0) ≠
        some (joinedNames longPath ++ [0]) := by
  have hunchanged := getPathParts_unchanged (List.replicate (1015714 + 1) 0)
  refine ⟨isFilePath_longPath, List.cons_ne_nil _ _, namesSize_longPath, hunchanged, ?_⟩
  rw [hunchanged, List.replicate_succ]
  intro heq
  exact joinedNames_longPath_ne _ (Option.some.inj heq).symm

end PciIds
end EfiApps
