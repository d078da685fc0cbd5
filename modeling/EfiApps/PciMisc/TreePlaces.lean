import EfiApps.PciMisc.TreeVisit

/-!
# Where `PciTreeIterate` is

A run is followed from one loop head to the next, whether it returns in the end or
not.  At the head of the loop over the devices the ancestors of the device are known,
and the indentation goes with their number.
-/

namespace EfiApps
namespace PciMisc

/-- A loop head, with the pointer that the loop has there. -/
inductive Place
  | segments (p : Option Addr)
  | devices (p : Option Addr)

section places

variable {σ : Type _} (v : Visitor σ) (doPrint : Bool) (indentMaxLength : UInt64)

/-- A run from a state comes to a loop head with these locals. -/
inductive ComesTo (state : σ) : Place → Iteration σ → Prop
  | start : ComesTo state (.segments (v.heap state hostBridge).firstChild) (.start state)
  | enter {a : Addr} {it it' : Iteration σ} (hplace : ComesTo state (.segments (some a)) it)
      (hcall : v.call a (startSegment doPrint (v.heap it.state a) it) = .ok it') :
      ComesTo state (.devices (v.heap it'.state a).firstChild) it'
  | next {fuel : Nat} {a d : Addr} {it it₁ it₂ : Iteration σ}
      (hplace : ComesTo state (.devices (some a)) it)
      (hcall : v.call a (printDevice doPrint indentMaxLength (v.heap it.state a) it) = .ok it₁)
      (hnext : nextDevice v doPrint fuel a it₁ = .ok (some d, it₂))
      (hparent : (v.heap it₂.state d).parent ≠ some hostBridge) :
      ComesTo state (.devices (some d)) it₂
  | leave {fuel : Nat} {a d : Addr} {it it₁ it₂ : Iteration σ}
      (hplace : ComesTo state (.devices (some a)) it)
      (hcall : v.call a (printDevice doPrint indentMaxLength (v.heap it.state a) it) = .ok it₁)
      (hnext : nextDevice v doPrint fuel a it₁ = .ok (some d, it₂))
      (hparent : (v.heap it₂.state d).parent = some hostBridge) :
      ComesTo state (.segments (v.heap it₂.state d).nextSibling) it₂

end places

section run

variable {σ : Type _} {v : Visitor σ} {doPrint : Bool} {indentMaxLength : UInt64} {state : σ}

/-- When the loop over the devices ends, the run is back at the loop over the segments. -/
theorem comesTo_of_visitDevices {fuel n : Nat} {p : Option Addr} {it it' : Iteration σ} {d : Addr}
    (hplace : ComesTo v doPrint indentMaxLength state (.devices p) it)
    (h : visitDevices v doPrint indentMaxLength fuel n p it = .ok (some d, it')) :
    ComesTo v doPrint indentMaxLength state (.segments (v.heap it'.state d).nextSibling) it' := by
  induction n generalizing p it with
  | zero =>
      cases p with
      | none => cases h
      | some a => cases h
  | succ n ih =>
      cases p with
      | none => cases h
      | some a =>
          simp only [visitDevices, Run.bind_eq_ok] at h
          obtain ⟨it₁, hcall, ⟨next, it₂⟩, hnext, e, he, h⟩ := h
          obtain rfl : next = some e := by
            cases next with
            | none => cases he
            | some e' =>
                obtain rfl := Except.ok.inj he
                rfl
          split at h
          · rename_i hparent
            obtain ⟨rfl, rfl⟩ : e = d ∧ it₂ = it' := by simpa using h
            exact .leave hplace hcall hnext hparent
          · rename_i hparent
            exact ih (.next hplace hcall hnext hparent) h

/-- A run that returns has come to the end of the list of segments. -/
theorem comesTo_of_visitSegments {fuel n : Nat} {p : Option Addr} {it it' : Iteration σ}
    (hplace : ComesTo v doPrint indentMaxLength state (.segments p) it)
    (h : visitSegments v doPrint indentMaxLength fuel n p it = .ok it') :
    ComesTo v doPrint indentMaxLength state (.segments none) it' := by
  induction n generalizing p it with
  | zero =>
      cases p with
      | none =>
          obtain rfl := Except.ok.inj h
          exact hplace
      | some a => cases h
  | succ n ih =>
      cases p with
      | none =>
          obtain rfl := Except.ok.inj h
          exact hplace
      | some a =>
          simp only [visitSegments, Run.bind_eq_ok] at h
          obtain ⟨it₁, hcall, ⟨last, it₂⟩, hdevices, d, hd, h⟩ := h
          obtain rfl : last = some d := by
            cases last with
            | none => cases hd
            | some e =>
                obtain rfl := Except.ok.inj hd
                rfl
          exact ih (comesTo_of_visitDevices (.enter hplace hcall) hdevices) h

theorem comesTo_of_pciTreeIterate {fuel : Nat} {it : Iteration σ}
    (hwidth : indentWidth doPrint fuel (v.heap state) = .ok indentMaxLength)
    (h : pciTreeIterate v doPrint fuel state = .ok it) :
    ComesTo v doPrint indentMaxLength state (.segments none) it := by
  rw [pciTreeIterate, hwidth, Run.ok_bind] at h
  exact comesTo_of_visitSegments .start h

end run

/-! ## Devices and their ancestors -/

/-- A device is so many generations below a root bridge. -/
def DepthBelow (heap : Heap) (r : Addr) : Nat → Addr → Prop
  | 0, a => a = r
  | depth + 1, a => ∃ p, (heap a).parent = some p ∧ DepthBelow heap r depth p

/-- A device of a segment, with the bridges between it and the root bridge. -/
structure BelowRoot (heap : Heap) (t : Addr × Forest Addr) (path : List Addr) (a : Addr) :
    Prop where
  mem : a ∈ t.2.preorder
  bridges : ∀ p ∈ path, p ∈ t.2.preorder ∧ (heap p).isSegment = false
  linked : Linked heap.links.parent (heap a).parent (path ++ [t.1, hostBridge])

namespace BelowRoot

variable {heap : Heap} {t : Addr × Forest Addr} {path : List Addr} {a : Addr}

theorem depthBelow (h : BelowRoot heap t path a) : DepthBelow heap t.1 (path.length + 1) a := by
  have hlinked := h.linked
  clear h
  induction path generalizing a with
  | nil => exact ⟨t.1, hlinked.1, rfl⟩
  | cons p path ih => exact ⟨p, hlinked.1, ih hlinked.2⟩

/-- The parent of a device is not the host bridge. -/
theorem parent_ne (h : BelowRoot heap t path a) (hroot : t.1 ≠ hostBridge)
    (hhost : (heap hostBridge).parent = none) : (heap a).parent ≠ some hostBridge := by
  intro hparent
  have hlinked := h.linked
  rw [hparent] at hlinked
  cases path with
  | nil => exact hroot (Option.some.inj hlinked.1).symm
  | cons p path =>
      obtain ⟨hp, hnext⟩ := hlinked
      obtain rfl := Option.some.inj hp
      rw [show heap.links.parent hostBridge = none from hhost] at hnext
      cases path with
      | nil => cases hnext.1
      | cons q path => cases hnext.1

variable (hforest : t.2.Represents heap.links t.1 (heap t.1).firstChild)

include hforest

theorem firstChild (h : BelowRoot heap t path a) (htame : Tame heap t.2) {c : Addr}
    (hfirst : (heap a).firstChild = some c) : BelowRoot heap t (a :: path) c := by
  obtain ⟨hmem, hparent⟩ := hforest.mem_of_firstChild h.mem hfirst
  have hsegment : (heap a).isSegment = false := by
    by_contra hsegment
    have hnone := htame a h.mem (by simpa using hsegment)
    rw [hfirst] at hnone
    cases hnone
  refine ⟨hmem, ?_, hparent, h.linked⟩
  intro p hp
  rcases List.mem_cons.mp hp with rfl | hp
  · exact ⟨h.mem, hsegment⟩
  · exact h.bridges p hp

theorem nextSibling (h : BelowRoot heap t path a) {q : Addr}
    (hnext : (heap a).nextSibling = some q) : BelowRoot heap t path q := by
  obtain ⟨hmem, hparent⟩ := hforest.mem_of_nextSibling h.mem hnext
  have hlinked := h.linked
  rw [← show (heap q).parent = (heap a).parent from hparent] at hlinked
  exact ⟨hmem, h.bridges, hlinked⟩

omit hforest in
theorem parent {p : Addr} (h : BelowRoot heap t (p :: path) a) : BelowRoot heap t path p :=
  ⟨(h.bridges p List.mem_cons_self).1, fun q hq => h.bridges q (List.mem_cons_of_mem _ hq),
    h.linked.2⟩

end BelowRoot

/-! ## The indent string -/

section string

variable {buffer : List UInt16} {n : Nat}

theorem toNat_indentLength (hn : n ≤ 200) : (UInt64.ofNat n).toNat = n := by
  rw [UInt64.toNat_ofNat']
  omega

theorem toNat_indentRest (hn : n ≤ 200) :
    ((indentStringMaxLen - .ofNat n) * 2).toNat = 400 - 2 * n := by
  have hrest : (indentStringMaxLen - .ofNat n).toNat = 200 - n := by
    have hle : UInt64.ofNat n ≤ indentStringMaxLen := by
      rw [UInt64.le_iff_toNat_le, toNat_indentLength hn]
      exact hn
    rw [UInt64.toNat_sub_of_le _ _ hle, toNat_indentLength hn]
    rfl
  rw [UInt64.toNat_mul, hrest, show (2 : UInt64).toNat = 2 from rfl]
  omega

/-- Two characters are printed in full where the buffer has room for them. -/
theorem unicodeSPrint_two (hn : n ≤ 197) (u₁ u₂ : UInt16) :
    unicodeSPrint buffer (.ofNat n) ((indentStringMaxLen - .ofNat n) * 2) ([u₁] ++ [u₂]) =
      buffer.take n ++ [u₁, u₂, 0] ++ buffer.drop (n + 3) := by
  have hsize := toNat_indentRest (n := n) (by omega)
  have hroom : ¬ ((indentStringMaxLen - .ofNat n) * 2 < 2 ∨
      (indentStringMaxLen - .ofNat n) * 2 > maxSPrintSize) := by
    have htwo : (2 : UInt64).toNat = 2 := rfl
    have hmax : maxSPrintSize.toNat = 2000001 := rfl
    rw [gt_iff_lt, UInt64.lt_iff_toNat_lt, UInt64.lt_iff_toNat_lt, hsize, htwo, hmax]
    omega
  have htake : ([u₁] ++ [u₂]).take ((400 - 2 * n) / 2 - 1) = [u₁, u₂] :=
    List.take_of_length_le (by show 2 ≤ _; omega)
  rw [unicodeSPrint, if_neg hroom, hsize, htake, toNat_indentLength (by omega)]
  rfl

/-- `StrLen`. -/
def stringLength (text : List UInt16) : Nat := (text.takeWhile (· ≠ 0)).length

theorem stringLength_append {units : List UInt16} (later : List UInt16)
    (h : ∀ u ∈ units, u ≠ 0) :
    stringLength (units ++ 0 :: later) = units.length := by
  rw [stringLength, List.takeWhile_append_of_pos (by simpa using h), List.length_append]
  simp

/-- The indentation is that many characters, which are in the buffer. -/
structure Indented {σ : Type _} (n : Nat) (it : Iteration σ) : Prop where
  indentLength : it.indentLength = .ofNat n
  length : it.indentString.length = 200
  units : ∀ u ∈ it.indentString.take n, u ≠ 0

section indented

variable {σ : Type _} {it : Iteration σ} {d : PciIoDevice}

theorem length_unicodeSPrint_two (hn : n ≤ 197) (hlength : buffer.length = 200)
    (u₁ u₂ : UInt16) : (buffer.take n ++ [u₁, u₂, 0] ++ buffer.drop (n + 3)).length = 200 := by
  rw [List.length_append, List.length_append, List.length_take, List.length_drop, hlength]
  show min n 200 + 3 + (200 - (n + 3)) = 200
  omega

/-- The part that is printed behind the indentation. -/
def lineText (d : PciIoDevice) : List UInt16 :=
  (if d.nextSibling.isSome then kPciTreeSibling else kPciTreeNoSibling) ++
    (if d.pciType1 then kPciTreeBridge else kPciTreeEndPoint)

theorem lineText_eq (d : PciIoDevice) :
    ∃ u₁ u₂, lineText d = [u₁] ++ [u₂] ∧ u₁ ≠ 0 ∧ u₂ ≠ 0 := by
  cases hsibling : d.nextSibling.isSome <;> cases htype : d.pciType1 <;>
    exact ⟨_, _, by rw [lineText, hsibling, htype]; rfl, by decide, by decide⟩

/-- The line of a device is two characters longer than the indentation, which it keeps. -/
theorem Indented.printDevice (h : Indented n it) (hn : n ≤ 197) (d : PciIoDevice)
    (indentMaxLength : UInt64) :
    ∃ indentString,
      PciMisc.printDevice true indentMaxLength d it =
        { it with
          indentString := indentString
          printed := it.printed ++ [.device d indentString indentMaxLength] } ∧
      stringLength indentString = n + 2 ∧
      Indented n (PciMisc.printDevice true indentMaxLength d it) := by
  obtain ⟨u₁, u₂, htext, hu₁, hu₂⟩ := lineText_eq d
  have hstring : unicodeSPrint it.indentString it.indentLength
      ((indentStringMaxLen - it.indentLength) * 2) (lineText d) =
      it.indentString.take n ++ [u₁, u₂, 0] ++ it.indentString.drop (n + 3) := by
    rw [h.indentLength, htext]
    exact unicodeSPrint_two hn u₁ u₂
  have hline : PciMisc.printDevice true indentMaxLength d it =
      { it with
        indentString := it.indentString.take n ++ [u₁, u₂, 0] ++ it.indentString.drop (n + 3)
        printed := it.printed ++ [.device d (it.indentString.take n ++ [u₁, u₂, 0] ++
          it.indentString.drop (n + 3)) indentMaxLength] } := by
    rw [← hstring]
    rfl
  have htake : (it.indentString.take n).length = n := by
    rw [List.length_take, h.length]
    omega
  refine ⟨_, hline, ?_, ?_⟩
  · have hunits : ∀ u ∈ it.indentString.take n ++ [u₁, u₂], u ≠ 0 := by
      intro u hu
      rcases List.mem_append.mp hu with hu | hu
      · exact h.units u hu
      · rcases List.mem_pair.mp hu with rfl | rfl
        · exact hu₁
        · exact hu₂
    have hsplit := stringLength_append (it.indentString.drop (n + 3)) hunits
    rw [List.length_append, htake, List.append_assoc] at hsplit
    rw [List.append_assoc]
    exact hsplit
  · rw [hline]
    refine ⟨h.indentLength, length_unicodeSPrint_two hn h.length u₁ u₂, ?_⟩
    rw [List.append_assoc, List.take_append_of_le_length (by omega), List.take_take, min_self]
    exact h.units

/-- The part that is added to the indentation below a device. -/
def indentText (d : PciIoDevice) : List UInt16 :=
  (if d.nextSibling.isSome then kPciTreeUncle else kPciTreeNoUncle) ++ [0x20]

theorem indentText_eq (d : PciIoDevice) : ∃ u, indentText d = [u] ++ [0x20] ∧ u ≠ 0 := by
  cases hsibling : d.nextSibling.isSome <;>
    exact ⟨_, by rw [indentText, hsibling]; rfl, by decide⟩

theorem ofNat_add_one (n : Nat) :
    UInt64.ofNat n + (kIndentAncestor + kIndentSelf) = .ofNat (n + 1) := by
  rw [UInt64.ofNat_add]
  rfl

/-- The locals below a device. -/
theorem indent_eq (d : PciIoDevice) (it : Iteration σ) :
    PciMisc.indent true d it =
      { it with
        indentString := unicodeSPrint it.indentString it.indentLength
          ((indentStringMaxLen - it.indentLength) * 2) (indentText d)
        indentLength := it.indentLength + (kIndentAncestor + kIndentSelf) } := by
  rw [PciMisc.indent, if_pos rfl, indentText]

theorem Indented.indent (h : Indented n it) (hn : n ≤ 197) :
    Indented (n + 1) (PciMisc.indent true d it) := by
  obtain ⟨u, htext, hu⟩ := indentText_eq d
  have hstring : unicodeSPrint it.indentString it.indentLength
      ((indentStringMaxLen - it.indentLength) * 2) (indentText d) =
      it.indentString.take n ++ [u, 0x20, 0] ++ it.indentString.drop (n + 3) := by
    rw [h.indentLength, htext]
    exact unicodeSPrint_two hn u 0x20
  have htake : (it.indentString.take n).length = n := by
    rw [List.length_take, h.length]
    omega
  rw [indent_eq, hstring]
  constructor
  · dsimp only
    rw [h.indentLength, ofNat_add_one]
  · exact length_unicodeSPrint_two hn h.length u 0x20
  · dsimp only
    rw [List.append_assoc, List.take_append, htake, List.take_take]
    intro w hw
    rcases List.mem_append.mp hw with hw | hw
    · rw [min_eq_right (Nat.le_succ n)] at hw
      exact h.units w hw
    · rw [Nat.add_sub_cancel_left] at hw
      obtain rfl : w = u := by simpa using hw
      exact hu

theorem Indented.outdent (h : Indented (n + 1) it) : Indented n (PciMisc.outdent true it) := by
  constructor
  · show it.indentLength - (kIndentAncestor + kIndentSelf) = _
    rw [h.indentLength, ← ofNat_add_one, UInt64.add_sub_cancel]
  · exact h.length
  · intro u hu
    exact h.units u (List.take_subset_take_left _ (Nat.le_succ n) hu)

end indented

end string

/-! ## One step of the loop over the devices -/

section step

variable {σ : Type _} {v : Visitor σ} {heap : Heap} {t : Addr × Forest Addr} {path : List Addr}
  {a : Addr} {it it' : Iteration σ}

/-- The locals but for the indentation. -/
structure SameText (it it' : Iteration σ) : Prop where
  state : it'.state = it.state
  printed : it'.printed = it.printed
  length : it'.indentString.length = it.indentString.length

theorem SameText.refl (it : Iteration σ) : SameText it it := ⟨rfl, rfl, rfl⟩

theorem SameText.of_outdent (h : SameText (PciMisc.outdent true it) it') : SameText it it' :=
  ⟨h.state, h.printed, h.length⟩

/-- The climb ends at the root bridge, or at a device whose ancestors go with the
indentation again. -/
theorem BelowRoot.climbPath (hforest : t.2.Represents heap.links t.1 (heap t.1).firstChild)
    (hroot : (heap t.1).isSegment = true) (h : BelowRoot heap t path a)
    (hit : Indented path.length it) :
    ∃ d it', PciMisc.climbPath true heap (path ++ [t.1, hostBridge]) it = (some d, it') ∧
      SameText it it' ∧
      (d = t.1 ∨ ∃ path', BelowRoot heap t path' d ∧ Indented path'.length it') := by
  induction path generalizing a it with
  | nil =>
      refine ⟨t.1, it, ?_, .refl it, .inl rfl⟩
      rw [List.nil_append, PciMisc.climbPath, if_pos hroot]
  | cons p path ih =>
      have hp := h.parent
      have hsegment := (h.bridges p List.mem_cons_self).2
      rw [List.cons_append, PciMisc.climbPath, if_neg (by rw [hsegment]; exact Bool.false_ne_true)]
      cases hnext : (heap p).nextSibling with
      | some q =>
          exact ⟨q, outdent true it, rfl, (SameText.refl _).of_outdent,
            .inr ⟨path, hp.nextSibling hforest hnext, hit.outdent⟩⟩
      | none =>
          obtain ⟨d, it', hclimb, hsame, hd⟩ := ih hp hit.outdent
          exact ⟨d, it', hclimb, hsame.of_outdent, hd⟩

/-- After a device comes its first child, a sibling of it or of one of its ancestors, or
the root bridge. -/
theorem BelowRoot.nextDevice (hforest : t.2.Represents heap.links t.1 (heap t.1).firstChild)
    (hroot : (heap t.1).isSegment = true) (htame : Tame heap t.2)
    (hsame : SameTree heap (v.heap it.state)) (h : BelowRoot heap t path a)
    (hit : Indented path.length it) (hn : path.length ≤ 197) {fuel : Nat} {d : Addr}
    (hnext : PciMisc.nextDevice v true fuel a it = .ok (some d, it')) :
    it'.state = it.state ∧ it'.printed = it.printed ∧ it'.indentString.length = 200 ∧
      (d = t.1 ∨ ∃ path', BelowRoot heap t path' d ∧ Indented path'.length it') := by
  cases hfirst : (heap a).firstChild with
  | some c =>
      rw [nextDevice_child hsame hfirst] at hnext
      obtain ⟨rfl, rfl⟩ : c = d ∧ indent true (v.heap it.state a) it = it' := by simpa using hnext
      have hindent : Indented (path.length + 1) (indent true (v.heap it.state a) it) :=
        hit.indent hn
      refine ⟨?_, ?_, hindent.length,
        .inr ⟨a :: path, h.firstChild hforest htame hfirst, hindent⟩⟩
      · rw [indent_eq]
      · rw [indent_eq]
  | none =>
      -- With more fuel the loop that climbs gets to the end of the ancestors.
      have hmore := nextDevice_mono hnext (path ++ [t.1, hostBridge]).length
      rw [nextDevice_leaf hsame hfirst h.linked (Nat.le_add_left _ _)] at hmore
      cases hsibling : (heap a).nextSibling with
      | some q =>
          rw [hsibling] at hmore
          obtain ⟨rfl, rfl⟩ : q = d ∧ it = it' := by simpa using hmore
          exact ⟨rfl, rfl, hit.length, .inr ⟨path, h.nextSibling hforest hsibling, hit⟩⟩
      | none =>
          obtain ⟨e, it₁, hclimb, htext, he⟩ := h.climbPath hforest hroot hit
          rw [hsibling] at hmore
          dsimp only at hmore
          rw [hclimb] at hmore
          obtain ⟨rfl, rfl⟩ : e = d ∧ it₁ = it' := by simpa using hmore
          exact ⟨htext.state, htext.printed, htext.length.trans hit.length, he⟩

end step

end PciMisc
end EfiApps
