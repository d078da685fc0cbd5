import EfiApps.PciIds.Text

/-!
# The first pass

The pass turns every line into a header and leaves the name behind it.  It only
writes to lines that it has seen to their end, so it can be followed line by line.
-/

namespace EfiApps
namespace PciIds

/-! ## Packing digits -/

theorem or_shiftLeft (a : Nat) {b i : Nat} (hi : i < 32) (hb : b < 2 ^ i)
    (ha : a * 2 ^ i + b < 2 ^ 32) :
    UInt32.ofNat a <<< UInt32.ofNat i ||| UInt32.ofNat b = UInt32.ofNat (a * 2 ^ i + b) := by
  have hpos : 0 < 2 ^ i := Nat.two_pow_pos i
  have ha' : a < 2 ^ 32 := by
    have := Nat.le_mul_of_pos_right a hpos
    omega
  rw [← UInt32.toNat_inj, UInt32.toNat_or, UInt32.toNat_shiftLeft,
    UInt32.toNat_ofNat_of_lt' ha', UInt32.toNat_ofNat_of_lt' (show b < 2 ^ 32 by omega),
    UInt32.toNat_ofNat_of_lt' ha, UInt32.toNat_ofNat_of_lt' (show i < 2 ^ 32 by omega),
    Nat.mod_eq_of_lt hi, Nat.mod_eq_of_lt (by rw [Nat.shiftLeft_eq]; omega),
    ← Nat.shiftLeft_add_eq_or_of_lt hb, Nat.shiftLeft_eq]

section digits

variable {mem : Nat → UInt16} {x v : Nat}

theorem get4_eq {d : Nat} (hd : d < 16) (h : mem x = hexDigit d) :
    get4 mem x = UInt32.ofNat d := by
  rw [get4, h]
  exact (hexDigit_spec d hd).2.2.2.2.2.2

theorem get8_eq (h : TextAt mem x (hex8 v)) : get8 mem x = UInt32.ofNat (v % 256) := by
  obtain ⟨hhigh, h⟩ := textAt_cons_iff.mp h
  obtain ⟨hlow, -⟩ := textAt_cons_iff.mp h
  rw [get8, get4_eq (Nat.mod_lt _ (by decide)) hhigh, get4_eq (Nat.mod_lt _ (by decide)) hlow]
  rw [show (4 : UInt32) = UInt32.ofNat 4 from rfl, or_shiftLeft _ (by decide) (by omega) (by omega)]
  congr 1
  omega

theorem get16_eq (h : TextAt mem x (hex16 v)) : get16 mem x = UInt32.ofNat (v % 65536) := by
  obtain ⟨hhigh, hlow⟩ := textAt_append_iff.mp h
  replace hlow : TextAt mem (x + 2) (hex8 v) := hlow
  rw [get16, get8_eq hhigh, get8_eq hlow]
  rw [show (8 : UInt32) = UInt32.ofNat 8 from rfl, or_shiftLeft _ (by decide) (by omega) (by omega)]
  congr 1
  omega

theorem get32_eq (hhigh : TextAt mem x (hex16 (v / 65536))) (hlow : TextAt mem (x + 5) (hex16 v)) :
    get32 mem x = UInt32.ofNat (v % 4294967296) := by
  rw [get32, get16_eq hhigh, get16_eq hlow]
  rw [show (16 : UInt32) = UInt32.ofNat 16 from rfl,
    or_shiftLeft _ (by decide) (by omega) (by omega)]
  congr 1
  omega

end digits

/-! ## One line -/

section line

variable {mem : Nat → UInt16} {l : Nat}

/-- The text of a line with a value, from its parts. -/
theorem textAt_units_iff {i : IdLine} {u : UInt16} :
    TextAt mem l (i.units ++ [u]) ↔ TextAt mem l (idText i.kind i.value.toNat) ∧
      TextAt mem (l + (idText i.kind i.value.toNat).length) [0x20, 0x20] ∧
        TextAt mem (l + i.kind.nameOffset) (i.name ++ [u]) := by
  rw [IdLine.units, List.append_assoc, List.append_assoc, textAt_append_iff, textAt_append_iff,
    ← length_idText i.kind i.value.toNat]
  rfl

/-- The first digit of a line without indentation is no blank. -/
theorem hex16_spec (v : Nat) (h : TextAt mem l (hex16 v)) :
    ∀ j < 4, mem (l + j) ≠ 0x20 ∧ mem (l + j) ≠ 0x09 ∧ mem (l + j) > 0x23 ∧ mem (l + j) ≠ 0 ∧
      mem (l + j) ≠ 0x23 := by
  intro j hj
  have hdigit : ∃ d < 16, mem (l + j) = hexDigit d := by
    have hget := h j hj
    rcases j with _ | _ | _ | _ | j
    · exact ⟨_, Nat.mod_lt _ (by decide), hget⟩
    · exact ⟨_, Nat.mod_lt _ (by decide), hget⟩
    · exact ⟨_, Nat.mod_lt _ (by decide), hget⟩
    · exact ⟨_, Nat.mod_lt _ (by decide), hget⟩
    · omega
  obtain ⟨d, hd, heq⟩ := hdigit
  obtain ⟨-, hspace, htab, hhex, hnul, hcomment, -⟩ := hexDigit_spec d hd
  rw [heq]
  exact ⟨hspace, htab, hhex, hnul, hcomment⟩

theorem hex8_spec (v : Nat) (h : TextAt mem l (hex8 v)) :
    ∀ j < 2, mem (l + j) ≠ 0x20 ∧ mem (l + j) ≠ 0x09 := by
  intro j hj
  have hdigit : ∃ d < 16, mem (l + j) = hexDigit d := by
    have hget := h j hj
    rcases j with _ | _ | j
    · exact ⟨_, Nat.mod_lt _ (by decide), hget⟩
    · exact ⟨_, Nat.mod_lt _ (by decide), hget⟩
    · omega
  obtain ⟨d, hd, heq⟩ := hdigit
  rw [heq]
  exact ⟨(hexDigit_spec d hd).2.1, (hexDigit_spec d hd).2.2.1⟩

/-- A line with a value is recognized. -/
theorem lineKind_eq {i : IdLine} {u : UInt16} (h : TextAt mem l (i.units ++ [u])) :
    mem l ≠ 0 ∧ mem l ≠ 0x23 ∧ lineKind mem l = i.kind := by
  obtain ⟨hid, hspaces, -⟩ := textAt_units_iff.mp h
  obtain ⟨kind, value, name⟩ := i
  dsimp only at hid hspaces ⊢
  cases kind with
  | vendor =>
      have hdigits := hex16_spec _ hid
      obtain ⟨-, -, hhex, hnul, hcomment⟩ := hdigits 0 (by decide)
      rw [Nat.add_zero] at hhex
      refine ⟨hnul, hcomment, ?_⟩
      rw [lineKind, if_neg (hdigits 1 (by decide)).1, if_pos hhex]
  | device =>
      obtain ⟨htab, hid⟩ := textAt_cons_iff.mp hid
      have hdigits := hex16_spec _ hid
      have h1 := hdigits 0 (by decide)
      have h3 := hdigits 2 (by decide)
      rw [Nat.add_zero] at h1
      rw [Nat.add_assoc] at h3
      refine ⟨by rw [htab]; decide, by rw [htab]; decide, ?_⟩
      rw [lineKind, if_neg h1.1, htab, if_neg (by decide), if_neg h1.2.1, if_neg h3.1]
  | subsystem =>
      obtain ⟨⟨hid, -⟩, -⟩ := (textAt_append_iff.trans (and_congr_left fun _ =>
        textAt_append_iff)).mp hid
      obtain ⟨htabs, hid⟩ := textAt_append_iff.mp hid
      obtain ⟨htab, htabs⟩ := textAt_cons_iff.mp htabs
      obtain ⟨htab', -⟩ := textAt_cons_iff.mp htabs
      -- The third digit tells a subsystem from a programming interface.
      have h4 : mem (l + 4) ≠ 0x20 := (hex16_spec _ hid 2 (by decide)).1
      refine ⟨by rw [htab]; decide, by rw [htab]; decide, ?_⟩
      rw [lineKind, htab', if_neg (by decide), htab, if_neg (by decide), if_pos rfl, if_neg h4]
  | progif =>
      obtain ⟨htabs, hid⟩ := textAt_append_iff.mp hid
      obtain ⟨htab, htabs⟩ := textAt_cons_iff.mp htabs
      obtain ⟨htab', -⟩ := textAt_cons_iff.mp htabs
      have hspace : mem (l + 4) = 0x20 := (textAt_cons_iff.mp hspaces).1
      refine ⟨by rw [htab]; decide, by rw [htab]; decide, ?_⟩
      rw [lineKind, htab', if_neg (by decide), htab, if_neg (by decide), if_pos rfl, if_pos hspace]
  | subclass =>
      obtain ⟨htab, hid⟩ := textAt_cons_iff.mp hid
      have hspace : mem (l + 3) = 0x20 := (textAt_cons_iff.mp hspaces).1
      have h1 := hex8_spec _ hid 0 (by decide)
      rw [Nat.add_zero] at h1
      refine ⟨by rw [htab]; decide, by rw [htab]; decide, ?_⟩
      rw [lineKind, if_neg h1.1, htab, if_neg (by decide), if_neg h1.2, if_pos hspace]
  | baseClass =>
      obtain ⟨hclass, hid⟩ := textAt_cons_iff.mp hid
      obtain ⟨hspace, -⟩ := textAt_cons_iff.mp hid
      refine ⟨by rw [hclass]; decide, by rw [hclass]; decide, ?_⟩
      rw [lineKind, if_pos hspace]

/-- The stores of `initone` are to the header. -/
theorem initone_of_le (k : ItemKind) {j : Nat} (hj : j < l ∨ l + 4 ≤ j) :
    initone mem l k j = mem j := by
  rw [initone, Function.update_of_ne (by omega)]
  cases k.width with
  | w8 => exact Function.update_of_ne (by omega) _ _
  | w16 => exact Function.update_of_ne (by omega) _ _
  | w32 => exact (Function.update_of_ne (by omega) _ _).trans (Function.update_of_ne (by omega) _ _)

theorem initone_self (k : ItemKind) : initone mem l k l = k.typeCode := by
  rw [initone, Function.update_self]

theorem and_or_low (x y : UInt16) : (x &&& 0xff00 ||| y &&& 0xff) &&& 0xff = y &&& 0xff := by
  rw [← UInt16.toNat_inj]
  simp only [UInt16.toNat_and, UInt16.toNat_or]
  rw [Nat.and_or_distrib_right, Nat.and_assoc, Nat.and_assoc, Nat.and_self,
    show (UInt16.toNat 0xff00 &&& UInt16.toNat 0xff) = 0 from rfl, Nat.and_zero, Nat.zero_or]

/-- An 8-bit value that is stored to the low byte of `l[2]`. -/
theorem storedValue_w8 {k : ItemKind} (hk : k.width = .w8) {v : Nat} (hv : v < 256)
    (hget : get8 mem (l + k.valueOffset) = UInt32.ofNat v) :
    (storedValue (initone mem l k) l .w8).toNat = v := by
  have hstore : initone mem l k (l + 2) =
      (mem (l + 2) &&& 0xff00) ||| ((UInt32.ofNat v).toUInt16 &&& 0xff) := by
    rw [initone, Function.update_of_ne (by omega), hk]
    dsimp only
    rw [Function.update_self, hget]
  rw [storedValue, hstore, and_or_low, UInt16.toNat_toUInt64, UInt16.toNat_and,
    UInt32.toNat_toUInt16, UInt32.toNat_ofNat_of_lt' (show v < 2 ^ 32 by omega)]
  rw [show UInt16.toNat 0xff = 2 ^ 8 - 1 from rfl, Nat.and_two_pow_sub_one_eq_mod]
  omega

/-- A 16-bit value that is stored to `l[2]`. -/
theorem storedValue_w16 {k : ItemKind} (hk : k.width = .w16) {v : Nat} (hv : v < 65536)
    (hget : get16 mem (l + k.valueOffset) = UInt32.ofNat v) :
    (storedValue (initone mem l k) l .w16).toNat = v := by
  have hstore : initone mem l k (l + 2) = (UInt32.ofNat v).toUInt16 := by
    rw [initone, Function.update_of_ne (by omega), hk]
    dsimp only
    rw [Function.update_self, hget]
  rw [storedValue, hstore, UInt16.toNat_toUInt64, UInt32.toNat_toUInt16,
    UInt32.toNat_ofNat_of_lt' (show v < 2 ^ 32 by omega)]
  omega

/-- A 32-bit value that is stored to `l[2]` and `l[3]`, the low half first. -/
theorem storedValue_w32 {k : ItemKind} (hk : k.width = .w32) {v : Nat} (hv : v < 4294967296)
    (hget : get32 mem (l + k.valueOffset) = UInt32.ofNat v) :
    (storedValue (initone mem l k) l .w32).toNat = v := by
  have hlow : initone mem l k (l + 2) = (UInt32.ofNat v).toUInt16 := by
    rw [initone, Function.update_of_ne (by omega), hk]
    dsimp only
    rw [Function.update_of_ne (by omega), Function.update_self, hget]
  have hhigh : initone mem l k (l + 3) = (UInt32.ofNat v >>> 16).toUInt16 := by
    rw [initone, Function.update_of_ne (by omega), hk]
    dsimp only
    rw [Function.update_self, hget]
  have hv32 : (UInt32.ofNat v).toNat = v := UInt32.toNat_ofNat_of_lt' (show v < 2 ^ 32 by omega)
  have hshift : (UInt32.ofNat v >>> 16).toNat = v / 65536 := by
    rw [UInt32.toNat_shiftRight, hv32, Nat.shiftRight_eq_div_pow]
    rfl
  rw [storedValue, hlow, hhigh, UInt64.toNat_or, UInt64.toNat_shiftLeft, UInt16.toNat_toUInt64,
    UInt16.toNat_toUInt64, UInt32.toNat_toUInt16, UInt32.toNat_toUInt16, hv32, hshift,
    show UInt64.toNat 16 % 64 = 16 from rfl, Nat.mod_eq_of_lt (show v / 65536 < 2 ^ 16 by omega),
    Nat.mod_eq_of_lt (show (v / 65536) <<< 16 < 2 ^ 64 by rw [Nat.shiftLeft_eq]; omega),
    Nat.or_comm, ← Nat.shiftLeft_add_eq_or_of_lt (Nat.mod_lt _ (by decide)), Nat.shiftLeft_eq]
  omega

/-- The two halves of a subsystem's ID are stored as one value. -/
theorem storedValue_subsystem {v : Nat} (hid : TextAt mem l (idText .subsystem v))
    (hv : v < 4294967296) :
    (storedValue (initone mem l .subsystem) l .w32).toNat = v := by
  obtain ⟨hid, hlow⟩ := textAt_append_iff.mp hid
  obtain ⟨hid, -⟩ := textAt_append_iff.mp hid
  obtain ⟨-, hhigh⟩ := textAt_append_iff.mp hid
  refine storedValue_w32 rfl hv ((get32_eq hhigh hlow).trans ?_)
  rw [Nat.mod_eq_of_lt hv]

/-- What the second pass reads from the header is the ID. -/
theorem storedValue_initone {i : IdLine} {u : UInt16} (h : TextAt mem l (i.units ++ [u]))
    (hvalue : i.value.toNat < i.kind.valueBound) :
    storedValue (initone mem l i.kind) l i.kind.width = i.value := by
  obtain ⟨hid, -, -⟩ := textAt_units_iff.mp h
  obtain ⟨kind, value, name⟩ := i
  rw [← UInt64.toNat_inj]
  cases kind with
  | vendor =>
      replace hvalue : value.toNat < 65536 := hvalue
      refine storedValue_w16 rfl hvalue ((get16_eq hid).trans ?_)
      rw [Nat.mod_eq_of_lt hvalue]
  | device =>
      replace hvalue : value.toNat < 65536 := hvalue
      refine storedValue_w16 rfl hvalue ((get16_eq (textAt_cons_iff.mp hid).2).trans ?_)
      rw [Nat.mod_eq_of_lt hvalue]
  | subsystem => exact storedValue_subsystem hid hvalue
  | progif =>
      replace hvalue : value.toNat < 256 := hvalue
      refine storedValue_w8 rfl hvalue ((get8_eq (textAt_append_iff.mp hid).2).trans ?_)
      rw [Nat.mod_eq_of_lt hvalue]
  | subclass =>
      replace hvalue : value.toNat < 256 := hvalue
      refine storedValue_w8 rfl hvalue ((get8_eq (textAt_cons_iff.mp hid).2).trans ?_)
      rw [Nat.mod_eq_of_lt hvalue]
  | baseClass =>
      replace hvalue : value.toNat < 256 := hvalue
      refine storedValue_w8 rfl hvalue ((get8_eq (textAt_append_iff.mp hid).2).trans ?_)
      rw [Nat.mod_eq_of_lt hvalue]

theorem storedValue_congr {mem' : Nat → UInt16} (w : Width) (h2 : mem' (l + 2) = mem (l + 2))
    (h3 : mem' (l + 3) = mem (l + 3)) : storedValue mem' l w = storedValue mem l w := by
  cases w <;> simp only [storedValue, h2, h3]

/-- What the first pass leaves of a line. -/
def HeaderAt (mem : Nat → UInt16) (l : Nat) : Line → Prop
  | .blank => mem l = 0
  | .comment text => mem l = 1 ∧ (mem (l + 1)).toNat = text.length + 2
  | .item i =>
      mem l = i.kind.typeCode ∧ (mem (l + 1)).toNat = i.units.length + 1 ∧
        storedValue mem l i.kind.width = i.value ∧
          TextAt mem (l + i.kind.nameOffset) (i.name ++ [0])

/-- The headers of lines that follow each other. -/
def HeadersAt (mem : Nat → UInt16) : Nat → List Line → Prop
  | _, [] => True
  | l, line :: lines => HeaderAt mem l line ∧ HeadersAt mem (l + (line.units.length + 1)) lines

theorem nameOffset_le_length (i : IdLine) :
    i.units.length = i.kind.nameOffset + i.name.length := by
  rw [IdLine.units, ← length_idText i.kind i.value.toNat]
  simp
  omega

theorem four_lt_nameOffset (k : ItemKind) : 4 < k.nameOffset := by
  cases k <;> decide

/-- A header depends only on the memory of its line. -/
theorem HeaderAt.congr {mem' : Nat → UInt16} {line : Line} (h : HeaderAt mem l line)
    (hsame : ∀ j, l ≤ j → j < l + (line.units.length + 1) → mem' j = mem j) :
    HeaderAt mem' l line := by
  cases line with
  | blank => exact (hsame l le_rfl (by simp)).trans h
  | comment text =>
      obtain ⟨hcode, hlength⟩ := h
      refine ⟨(hsame l le_rfl (by simp)).trans hcode, ?_⟩
      rw [hsame (l + 1) (by omega) (by simp [Line.units])]
      exact hlength
  | item i =>
      obtain ⟨hcode, hlength, hvalue, hname⟩ := h
      have hunits : (Line.item i).units.length = i.kind.nameOffset + i.name.length :=
        nameOffset_le_length i
      have hoffset := four_lt_nameOffset i.kind
      refine ⟨(hsame l le_rfl (by omega)).trans hcode, ?_, ?_, ?_⟩
      · rw [hsame (l + 1) (by omega) (by omega)]
        exact hlength
      · rw [← hvalue]
        exact storedValue_congr _ (hsame _ (by omega) (by omega)) (hsame _ (by omega) (by omega))
      · refine hname.congr fun j hj hj' => hsame j (by omega) ?_
        rw [List.length_append, List.length_singleton] at hj'
        omega

end line

/-! ## All lines -/

/-- The counters after a line. -/
def countLine (count : ItemKind → Nat) (line : Line) : ItemKind → Nat :=
  match line with
  | .item i => Function.update count i.kind (count i.kind + 1)
  | _ => count

theorem toNat_ofNat_length {n : Nat} (h : n < 65535) : (UInt16.ofNat (n + 1)).toNat = n + 1 :=
  UInt16.toNat_ofNat_of_lt' (show n + 1 < 2 ^ 16 by omega)

/-- What the step at the line feed of a line comes to. -/
structure LineEnded (s s' : FirstPass) (line : Line) : Prop where
  l : s'.l = s.l + (line.units.length + 1)
  count : s'.count = countLine s.count line
  other : ∀ j, j < s.l ∨ s.l + (line.units.length + 1) ≤ j → s'.mem j = s.mem j
  header : HeaderAt s'.mem s.l line

theorem endLine_blank (s : FirstPass) : LineEnded s (endLine s s.l) .blank := by
  have hmem : Function.update s.mem s.l 0 s.l = 0 := Function.update_self ..
  have hstep : endLine s s.l = { s with mem := Function.update s.mem s.l 0, l := s.l + 1 } := by
    rw [endLine]
    exact if_pos hmem
  have hlength : Line.blank.units.length = 0 := rfl
  rw [hstep]
  refine ⟨rfl, rfl, fun j hj => ?_, hmem⟩
  rw [hlength] at hj
  exact Function.update_of_ne (by omega) _ _

theorem endLine_comment {s : FirstPass} {text : List UInt16} (hbound : text.length + 1 < 65535)
    (hcomment : s.mem s.l = 0x23) :
    LineEnded s (endLine s (s.l + (text.length + 1))) (.comment text) := by
  set c := s.l + (text.length + 1) with hc
  have hmem : Function.update s.mem c 0 s.l = 0x23 := by
    rw [Function.update_of_ne (by omega), hcomment]
  have hstep : endLine s c =
      { s with
        mem := Function.update (Function.update (Function.update s.mem c 0) s.l 1) (s.l + 1)
          (UInt16.ofNat (c - s.l + 1))
        l := c + 1 } := by
    rw [endLine]
    dsimp only
    rw [if_neg (by rw [hmem]; decide), if_pos hmem]
  have hlength : (Line.comment text).units.length = text.length + 1 := rfl
  rw [hstep]
  refine ⟨?_, rfl, fun j hj => ?_, ?_, ?_⟩
  · rw [hlength]
    dsimp only
    omega
  · rw [hlength] at hj
    dsimp only
    rw [Function.update_of_ne (by omega), Function.update_of_ne (by omega),
      Function.update_of_ne (by omega)]
  · dsimp only
    rw [Function.update_of_ne (by omega), Function.update_self]
  · dsimp only
    rw [Function.update_self, show c - s.l = text.length + 1 by omega, toNat_ofNat_length hbound]

theorem endLine_item {s : FirstPass} {i : IdLine} (hitem : i.Valid)
    (hbound : i.units.length < 65535) (htext : TextAt s.mem s.l (i.units ++ [0x0a])) :
    LineEnded s (endLine s (s.l + i.units.length)) (.item i) := by
  have hunits := nameOffset_le_length i
  have hoffset := four_lt_nameOffset i.kind
  set c := s.l + i.units.length with hc
  set mem := Function.update s.mem c 0 with hmem
  have htext' : TextAt mem s.l (i.units ++ [0]) := by
    rw [textAt_append_iff]
    refine ⟨(textAt_append_iff.mp htext).1.congr fun j _ hj => ?_, ?_⟩
    · rw [hmem, Function.update_of_ne (by omega)]
    · rw [textAt_cons_iff]
      exact ⟨by rw [hmem, ← hc, Function.update_self], textAt_nil⟩
  obtain ⟨hnul, hcomment, hkind⟩ := lineKind_eq htext'
  have hstep : endLine s c =
      { mem := Function.update (initone mem s.l i.kind) (s.l + 1)
          (UInt16.ofNat (c - s.l + 1))
        l := c + 1
        count := Function.update s.count i.kind (s.count i.kind + 1) } := by
    rw [endLine]
    dsimp only
    rw [← hmem, if_neg hnul, if_neg hcomment, hkind]
  have hstored := storedValue_initone htext' hitem.value
  have hlength : (Line.item i).units.length = i.units.length := rfl
  rw [hstep]
  refine ⟨?_, rfl, fun j hj => ?_, ?_, ?_, ?_, ?_⟩
  · rw [hlength]
    dsimp only
    omega
  · rw [hlength] at hj
    dsimp only
    rw [Function.update_of_ne (by omega), initone_of_le _ (by omega), hmem,
      Function.update_of_ne (by omega)]
  · dsimp only
    rw [Function.update_of_ne (by omega), initone_self]
  · dsimp only
    rw [Function.update_self, show c - s.l = i.units.length by omega, toNat_ofNat_length hbound]
  · rw [← hstored]
    exact storedValue_congr _ (Function.update_of_ne (by omega) _ _)
      (Function.update_of_ne (by omega) _ _)
  · refine (textAt_units_iff.mp htext').2.2.congr fun j hj _ => ?_
    dsimp only
    rw [Function.update_of_ne (by omega), initone_of_le _ (by omega)]

/-- At its line feed a line becomes a header. -/
theorem endLine_spec {s : FirstPass} {line : Line} (hvalid : line.Valid)
    (htext : TextAt s.mem s.l (line.units ++ [0x0a])) :
    LineEnded s (endLine s (s.l + line.units.length)) line := by
  cases line with
  | blank => exact endLine_blank s
  | comment text => exact endLine_comment hvalid.length (textAt_cons_iff.mp htext).1
  | item i => exact endLine_item (hvalid.item i rfl) hvalid.length htext

/-- Nothing is done before the line feed of a line. -/
theorem firstPass_quiet {s : FirstPass} {line : Line} (hvalid : line.Valid)
    (htext : TextAt s.mem s.l (line.units ++ [0x0a])) {n : Nat} (hn : n ≤ line.units.length) :
    (List.range' s.l n).foldl firstPassStep s = s := by
  induction n with
  | zero => rfl
  | succ n ih =>
      have hunit : s.mem (s.l + n) = line.units[n] := by
        rw [htext n (by simp; omega), List.getElem_append_left hn]
      rw [List.range'_1_concat, List.foldl_append, ih (by omega), List.foldl_cons, List.foldl_nil,
        firstPassStep, hunit, if_neg (hvalid.not_mem _ (List.getElem_mem _))]

theorem lineFeed_of_textAt {s : FirstPass} {line : Line}
    (htext : TextAt s.mem s.l (line.units ++ [0x0a])) :
    s.mem (s.l + line.units.length) = 0x0a := by
  rw [htext line.units.length (by simp)]
  simp

/-- The pass reaches the line feed of a line without a change. -/
theorem firstPass_line {s : FirstPass} {line : Line} (hvalid : line.Valid)
    (htext : TextAt s.mem s.l (line.units ++ [0x0a])) :
    (List.range' s.l (line.units.length + 1)).foldl firstPassStep s =
      endLine s (s.l + line.units.length) := by
  rw [List.range'_1_concat, List.foldl_append, firstPass_quiet hvalid htext le_rfl,
    List.foldl_cons, List.foldl_nil, firstPassStep, if_pos (lineFeed_of_textAt htext)]

/-- The first pass leaves a header for every line and counts the lines of every kind. -/
theorem firstPass_lines {lines : List Line} (hvalid : ∀ line ∈ lines, line.Valid) {s : FirstPass}
    (htext : TextAt s.mem s.l (renderLines lines)) :
    ∃ s', (List.range' s.l (renderLines lines).length).foldl firstPassStep s = s' ∧
      s'.count = lines.foldl countLine s.count ∧ (∀ j < s.l, s'.mem j = s.mem j) ∧
      HeadersAt s'.mem s.l lines := by
  induction lines generalizing s with
  | nil => exact ⟨s, rfl, rfl, fun _ _ => rfl, trivial⟩
  | cons line lines ih =>
      have hline := hvalid line (by simp)
      have hlength : (renderLines (line :: lines)).length =
          (line.units.length + 1) + (renderLines lines).length := by
        simp [renderLines]
        omega
      rw [show renderLines (line :: lines) = (line.units ++ [0x0a]) ++ renderLines lines from rfl,
        textAt_append_iff] at htext
      obtain ⟨hfirst, hrest⟩ := htext
      obtain ⟨hl, hcount, hsame, hheader⟩ := endLine_spec hline hfirst
      have hrest' : TextAt (endLine s (s.l + line.units.length)).mem
          (endLine s (s.l + line.units.length)).l (renderLines lines) := by
        rw [hl]
        rw [List.length_append, List.length_singleton] at hrest
        exact hrest.congr fun j hj _ => hsame j (.inr hj)
      obtain ⟨s', hrun, hcount', hsame', hheaders⟩ :=
        ih (fun line' hmem => hvalid line' (List.mem_cons_of_mem _ hmem)) hrest'
      rw [hl] at hrun hsame' hheaders
      refine ⟨s', ?_, ?_, fun j hj => ?_, hheader.congr fun j _ hj => hsame' j hj, hheaders⟩
      · rw [hlength, ← List.range'_append_1, List.foldl_append, firstPass_line hline hfirst]
        exact hrun
      · rw [hcount', hcount]
        rfl
      · rw [hsame' j (by omega), hsame j (.inl hj)]

end PciIds
end EfiApps
