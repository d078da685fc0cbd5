import EfiApps.PciIds.ConvertPciIds
import EfiApps.PciIds.Text

/-!
# Lines and keys in `convertpciids.pl`

The expressions tell the kinds of lines apart as `lineKind` does.  A key is the ID as
digits; keys of one kind have the same number of digits, so their order as text is
the order of the IDs, and a compiler reads the ID back from the digits.
-/

namespace EfiApps
namespace PciIds

/-! ## Digits -/

/-- The last digits of a number. -/
def hexDigits : Nat → Nat → List UInt16
  | 0, _ => []
  | n + 1, v => hexDigits n (v / 16) ++ [hexDigit (v % 16)]

theorem length_hexDigits (n v : Nat) : (hexDigits n v).length = n := by
  induction n generalizing v with
  | zero => rfl
  | succ n ih => rw [hexDigits, List.length_append, ih, List.length_singleton]

/-- What the digits are to the expressions and to a compiler, and how they compare. -/
theorem hexDigit_table : (∀ d < 16, isWord (hexDigit d) = true ∧
      hexDigitValue (hexDigit d) = some d) ∧
    ∀ d < 16, ∀ d' < 16, d < d' → hexDigit d ≠ hexDigit d' ∧ hexDigit d < hexDigit d' := by
  decide

theorem isWord_hexDigit (v : Nat) : isWord (hexDigit (v % 16)) = true :=
  (hexDigit_table.1 _ (Nat.mod_lt _ (by decide))).1

/-- Digits are read back as the number. -/
theorem hexValue_hexDigits (n v : Nat) : hexValue (hexDigits n v) = some (v % 16 ^ n) := by
  induction n generalizing v with
  | zero => simp [hexDigits, hexValue, Nat.mod_one]
  | succ n ih =>
      have hlast := (hexDigit_table.1 (v % 16) (Nat.mod_lt _ (by decide))).2
      have hmod : v % 16 ^ (n + 1) = 16 * (v / 16 % 16 ^ n) + v % 16 := by
        rw [Nat.pow_succ, Nat.mul_comm, Nat.mod_mul, Nat.add_comm]
      rw [hexDigits, hexValue, List.foldlM_append, ← hexValue, ih, hmod]
      simp [hlast]

/-- Texts of the same length compare by their first parts, and then by the rest. -/
theorem unitsLe_append {a b : List UInt16} (h : a.length = b.length) (c d : List UInt16) :
    unitsLe (a ++ c) (b ++ d) = if a = b then unitsLe c d else unitsLe a b := by
  induction a generalizing b with
  | nil =>
      obtain rfl := List.length_eq_zero_iff.mp h.symm
      simp
  | cons u a ih =>
      cases b with
      | nil => cases h
      | cons u' b =>
          rw [List.cons_append, List.cons_append, unitsLe, unitsLe, ih (Nat.succ.inj h)]
          by_cases hu : u = u'
          · simp [hu]
          · simp [hu]

/-- Digits compare as the numbers do. -/
theorem unitsLe_hexDigits {n v w : Nat} (hw : w < 16 ^ n) (h : v < w) :
    unitsLe (hexDigits n v) (hexDigits n w) = true ∧ hexDigits n v ≠ hexDigits n w := by
  induction n generalizing v w with
  | zero => omega
  | succ n ih =>
      have hlength : (hexDigits n (v / 16)).length = (hexDigits n (w / 16)).length := by
        rw [length_hexDigits, length_hexDigits]
      rw [hexDigits, hexDigits, unitsLe_append hlength]
      rcases Nat.lt_or_ge (v / 16) (w / 16) with hlt | hge
      · obtain ⟨hle, hne⟩ := ih (by rw [Nat.pow_succ] at hw; omega) hlt
        refine ⟨by rw [if_neg hne, hle], fun heq => hne ?_⟩
        exact (List.append_inj heq hlength).1
      · have heq : v / 16 = w / 16 := by omega
        obtain ⟨hne, hlt⟩ := hexDigit_table.2 (v % 16) (Nat.mod_lt _ (by decide)) (w % 16)
          (Nat.mod_lt _ (by decide)) (by omega)
        rw [heq, if_pos rfl]
        refine ⟨by simp [unitsLe, hne, hlt], fun hdigits => hne ?_⟩
        exact List.singleton_inj.mp (List.append_inj hdigits rfl).2

/-! ## Keys -/

/-- The number of digits of a key. -/
def ItemKind.digits : ItemKind → Nat
  | baseClass | subclass | progif => 2
  | vendor | device => 4
  | subsystem => 8

/-- The key of an ID. -/
def keyText (k : ItemKind) (value : UInt64) : List UInt16 := hexDigits k.digits value.toNat

theorem valueBound_eq_pow (k : ItemKind) : k.valueBound = 16 ^ k.digits := by
  cases k <;> rfl

theorem keyText_ne {k : ItemKind} {v w : UInt64} (hw : w.toNat < k.valueBound) (h : v < w) :
    keyText k v ≠ keyText k w :=
  (unitsLe_hexDigits (valueBound_eq_pow k ▸ hw) (UInt64.lt_iff_toNat_lt.mp h)).2

theorem unitsLe_keyText {k : ItemKind} {v w : UInt64} (hw : w.toNat < k.valueBound) (h : v < w) :
    unitsLe (keyText k v) (keyText k w) = true :=
  (unitsLe_hexDigits (valueBound_eq_pow k ▸ hw) (UInt64.lt_iff_toNat_lt.mp h)).1

/-- A key makes a constant. -/
theorem constantValue_keyText_mod (k : ItemKind) (v : UInt64) :
    constantValue ([0x30, 0x78] ++ keyText k v) = some (v.toNat % 16 ^ k.digits) := by
  have hvalue := hexValue_hexDigits k.digits v.toNat
  have hlength := length_hexDigits k.digits v.toNat
  rw [← keyText] at hvalue hlength
  cases hkey : keyText k v with
  | nil =>
      rw [hkey] at hlength
      cases k <;> cases hlength
  | cons digit digits =>
      rw [hkey] at hvalue
      simpa [constantValue] using hvalue

/-- The constant of a key is the ID. -/
theorem constantValue_keyText {k : ItemKind} {v : UInt64} (hv : v.toNat < k.valueBound) :
    constantValue ([0x30, 0x78] ++ keyText k v) = some v.toNat := by
  rw [constantValue_keyText_mod, Nat.mod_eq_of_lt (valueBound_eq_pow k ▸ hv)]

/-! ## Escapes -/

theorem unescape_cons {u : UInt16} (hslash : u ≠ 0x5c) (hquote : u ≠ 0x22) (hreturn : u ≠ 0x0d)
    (literal : List UInt16) : unescape (u :: literal) = (unescape literal).map (u :: ·) := by
  have hend : ¬(u = 0x22 ∨ u = 0x0d) := not_or.mpr ⟨hquote, hreturn⟩
  cases literal with
  | nil => simp [unescape, hslash, hquote, hreturn]
  | cons u' literal => rw [unescape, if_neg hslash, if_neg hend]

/-- The escapes of the script are undone. -/
theorem unescape_escape {name : List UInt16} (hname : 0x0d ∉ name) :
    unescape (escape name) = some name := by
  induction name with
  | nil => rfl
  | cons u name ih =>
      obtain ⟨hreturn, hrest⟩ := not_or.mp fun h => hname (List.mem_cons.mpr h)
      have ih := ih hrest
      rw [escape, List.flatMap_cons, ← escape]
      by_cases hspecial : u = 0x3f ∨ u = 0x22 ∨ u = 0x5c
      · rw [if_pos hspecial, List.cons_append, List.singleton_append, unescape, if_pos rfl,
          if_pos hspecial, ih, Option.map_some]
      · rw [if_neg hspecial, List.singleton_append]
        push Not at hspecial
        rw [unescape_cons hspecial.2.2 hspecial.2.1 (Ne.symm hreturn), ih, Option.map_some]

/-! ## Lines -/

theorem splitLines_line {line : List UInt16} (h : ∀ u ∈ line, u ≠ 0x0a) (rest : List UInt16) :
    splitLines (line ++ [0x0a] ++ rest) = line :: splitLines rest := by
  induction line with
  | nil => rfl
  | cons u line ih =>
      have hu : u ≠ 0x0a := h u List.mem_cons_self
      rw [List.cons_append, List.cons_append, splitLines, if_neg hu,
        ih fun u' hu' => h u' (List.mem_cons_of_mem _ hu')]

/-- The script reads the lines of a text. -/
theorem splitLines_renderLines {lines : List Line} (h : ∀ line ∈ lines, line.Valid) :
    splitLines (renderLines lines) = lines.map Line.units := by
  induction lines with
  | nil => rfl
  | cons line lines ih =>
      rw [show renderLines (line :: lines) = line.units ++ [0x0a] ++ renderLines lines from rfl,
        splitLines_line (h line List.mem_cons_self).not_mem,
        ih fun line' hline' => h line' (List.mem_cons_of_mem _ hline')]
      rfl

theorem tab_ne_hexDigit (v : Nat) : 0x09 ≠ hexDigit (v % 16) :=
  (hexDigit_spec _ (Nat.mod_lt v (by decide))).2.2.1.symm

theorem capital_ne_hexDigit (v : Nat) : 0x43 ≠ hexDigit (v % 16) := by
  have htable : ∀ d < 16, 0x43 ≠ hexDigit d := by decide
  exact htable _ (Nat.mod_lt v (by decide))

theorem isWord_eq_false : isWord 0x20 = false ∧ isWord 0x09 = false ∧ isWord 0x23 = false := by
  decide

/-- The expression of a kind is the first one that matches its lines. -/
theorem matchLine_units (i : IdLine) :
    matchLine i.units = some (i.kind, keyText i.kind i.value, i.name) := by
  obtain ⟨kind, value, name⟩ := i
  -- Every expression sees only the blanks, the digits and the `C` at the start.
  cases kind <;>
    simp [matchLine, matchSubsystem, matchItem, takeText, takeWord, IdLine.units, idText, hex16,
      hex8, keyText, ItemKind.digits, hexDigits, Nat.div_div_eq_div_mul, isWord_hexDigit,
      tab_ne_hexDigit, capital_ne_hexDigit, isWord_eq_false]

theorem matchLine_comment (text : List UInt16) : matchLine (0x23 :: text) = none := by
  simp [matchLine, matchSubsystem, matchItem, takeText, takeWord, isWord_eq_false]

/-- What the script does with a line that has a value. -/
def Perl.addItem (st : Perl) (i : IdLine) : Perl :=
  (st.printall i.kind.level).assign i.kind (keyText i.kind i.value) i.name

/-- Blank lines and comments are skipped. -/
theorem foldl_readLine (lines : List Line) (st : Perl) :
    (lines.map Line.units).foldl Perl.readLine st =
      (lines.filterMap Line.item?).foldl Perl.addItem st := by
  induction lines generalizing st with
  | nil => rfl
  | cons line lines ih =>
      rw [List.map_cons, List.foldl_cons, ih]
      cases line with
      | blank => rfl
      | comment text =>
          have hskip : st.readLine (Line.comment text).units = st := by
            rw [Line.units, Perl.readLine, matchLine_comment]
          rw [hskip]
          rfl
      | item i =>
          have hitem : st.readLine (Line.item i).units = st.addItem i := by
            rw [Line.units, Perl.readLine, matchLine_units]
            rfl
          rw [hitem]
          rfl

/-- The script on a text, as the lines with values go. -/
theorem convertPciIds_eq (text : IdsText) :
    convertPciIds (renderLines text.lines) =
      (((text.entries.flatMap Entry.lines).foldl Perl.addItem {}).printall 6).out ++
        [internalDecl] := by
  rw [convertPciIds, splitLines_renderLines text.valid, foldl_readLine, text.items]

end PciIds
end EfiApps
