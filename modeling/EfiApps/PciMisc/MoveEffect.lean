import EfiApps.PciMisc.VerifyBuses

/-!
# What a move does to the records

Whatever the registers hold and however many writes there have been, a move and its undoing
change the same records in the same way: only the bus numbers on the path and behind it,
and these go back to the `Save` copies.
-/

namespace EfiApps
namespace PciMisc

/-! ## The records after the writes -/

section records

variable {bridges : List Addr} {children : Addr → List Addr} {brk fuel n : Nat}
  {path : List Addr} {a : Addr}

theorem writeBridge_heap (st : BusState) (htree : TreeLinks st.heap bridges children brk)
    (hfuel : brk ≤ fuel) (hbridge : (st.heap a).pciType1 = true) :
    ∃ writes, writeBridge fuel a st = .ok ⟨writtenBridge a st.heap, writes⟩ :=
  ⟨_, writeBridge_eq htree hfuel hbridge⟩

/-- `WriteBuses` takes the `New` numbers over along the path, in either direction. -/
theorem writeBuses_heap (restore : Bool) (st : BusState)
    (htree : TreeLinks st.heap bridges children brk) (hfuel : brk ≤ fuel) (hn : path.length ≤ n)
    (hpath : BridgePath st.heap path a) :
    ∃ writes, writeBuses fuel restore n a st = .ok ⟨rewritten restore path st.heap, writes⟩ := by
  induction path generalizing a n st with
  | nil =>
      refine ⟨st.writes, ?_⟩
      unfold writeBuses
      rw [if_pos hpath.1, rewritten_nil]
  | cons b path ih =>
      have hb := (List.nodup_cons.mp hpath.nodup).1
      obtain ⟨rfl, hsegment, hbridge, p, hp, hrest⟩ := hpath
      obtain ⟨n, rfl⟩ : ∃ k, n = k + 1 := ⟨n - 1, by simp at hn; omega⟩
      unfold writeBuses
      rw [if_neg (by simp [hsegment])]
      cases restore with
      | true =>
          obtain ⟨writes₁, hbridge₁⟩ := writeBridge_heap st htree hfuel hbridge
          have hsame := writtenBridge_same a st.heap
          obtain ⟨writes₂, hrec⟩ := ih ⟨writtenBridge a st.heap, writes₁⟩
            (htree.sameButBuses hsame) (by simpa using hn) (hrest.sameButBuses hsame)
          refine ⟨writes₂, ?_⟩
          simp only [if_true, hbridge₁, Run.ok_bind, hsame.parent, hp, Run.deref_some, hrec]
          rw [rewritten_true_cons hb]
          rfl
      | false =>
          obtain ⟨writes₁, hrec⟩ := ih st htree (by simpa using hn) hrest
          have hsame : SameButBuses st.heap
              ((rewritten false path st.heap).modify a (.setPciIo none)) :=
            (rewritten_same false path st.heap).modify a (by simp)
          obtain ⟨writes₂, hbridge₂⟩ := writeBridge_heap
            ⟨(rewritten false path st.heap).modify a (.setPciIo none), writes₁⟩
            (htree.sameButBuses hsame) hfuel ((hsame.pciType1 a).trans hbridge)
          refine ⟨writes₂, ?_⟩
          simp only [Bool.false_eq_true, if_false, hp, Run.deref_some, Run.ok_bind, hrec]
          rw [rewritten_false_cons hb]
          exact hbridge₂

/-! ## A move and its undoing -/

/-- `MoveBuses`, whatever has been written before: it fails and moves nothing, or gives the
bridge the bus that follows those for the bridges above it. -/
theorem moveBuses_effect {st : BusState} {root : Addr}
    (htree : TreeLinks st.heap bridges children brk) (hfuel : brk ≤ fuel)
    (hpath : BridgePath st.heap path a) (hroot : LeadsTo st.heap path a root)
    (hbelow : path ≠ []) :
    ∃ st', if TooFewBuses st.heap path root then
        moveBuses fuel a st = .ok (.outOfResources, st') ∧ SameButNew st.heap st'.heap
      else
        moveBuses fuel a st = .ok (.success, st') ∧ MovedPath st.heap path st'.heap ∧
          ((st'.heap a).bridgeBus .secondary).toNat =
            (st.heap root).bigUnusedStart.toNat + (path.length - 1) := by
  have hn := (htree.length_path_le hpath).trans hfuel
  obtain ⟨heap₁, hrun₁, hsame₁, -, hnumbers₁⟩ := renumberBuses_spec htree hfuel hn hpath
  obtain ⟨hsecondary, hsubordinate⟩ := newNumbers hsame₁ hnumbers₁ hpath hroot hbelow
  have htest : ((heap₁ a).newSecondaryBus = pciMaxBus ∨
      (heap₁ a).newSubordinateBus < (heap₁ a).newSecondaryBus) ↔
        TooFewBuses st.heap path root := by
    have hlength : 0 < path.length := List.length_pos_iff.mpr hbelow
    have hmax : pciMaxBus.toNat = 255 := rfl
    have hend := (st.heap root).bigUnusedEnd.toNat_lt
    unfold TooFewBuses
    rw [← UInt8.toNat_inj, UInt8.lt_iff_toNat_lt, hsecondary, hsubordinate]
    omega
  unfold moveBuses
  simp only [hrun₁, Run.ok_bind, htest]
  split
  · exact ⟨_, rfl, hsame₁⟩
  · rename_i hfits
    have hbuses₁ := hsame₁.sameButBuses
    obtain ⟨writes, hrun₂⟩ := writeBuses_heap false ⟨heap₁, st.writes⟩
      (htree.sameButBuses hbuses₁) hfuel hn (hpath.sameButBuses hbuses₁)
    refine ⟨_, by rw [hrun₂]; rfl, movedPath_rewritten hsame₁ false path, ?_⟩
    rw [rewritten_bridgeBus, if_pos (hpath.self_mem_of_ne_nil hbelow)]
    unfold TooFewBuses at hfits
    show (heap₁ a).newSecondaryBus.toNat = _
    omega

/-- `UnmoveBuses`, whatever has been written before. -/
theorem unmoveBuses_effect {st : BusState} (htree : TreeLinks st.heap bridges children brk)
    (hfuel : brk ≤ fuel) (hpath : BridgePath st.heap path a) :
    ∃ st', unmoveBuses fuel a st = .ok (.success, st') ∧ MovedBack st.heap path st'.heap := by
  have hn := (htree.length_path_le hpath).trans hfuel
  obtain ⟨heap₁, hrun₁, hsame₁, hnew₁⟩ := unrenumberBuses_spec htree hfuel hn hpath
  have hbuses₁ := hsame₁.sameButBuses
  obtain ⟨writes, hrun₂⟩ := writeBuses_heap true ⟨heap₁, st.writes⟩
    (htree.sameButBuses hbuses₁) hfuel hn (hpath.sameButBuses hbuses₁)
  refine ⟨⟨rewritten true path heap₁, writes⟩, ?_, movedBack_rewritten hsame₁ hnew₁⟩
  unfold unmoveBuses
  simp only [hrun₁, Run.ok_bind, hrun₂]

end records

end PciMisc
end EfiApps
