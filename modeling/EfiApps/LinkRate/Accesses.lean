import EfiApps.LinkRate.Retrain

/-!
# The accesses of `SetMaxLinkSpeed`

The macro `Action` leaves the innermost loop with `break` when an access fails.
Outside the polls this leaves `SetMaxLinkSpeed`.  In a poll it only leaves the
poll, so after a failed read of the status register the link is retrained as if
the training had ended.

The lists below are the accesses in the order in which they are made, with the
status that each of them returns.  With too little fuel for a poll they end in
that poll; where `SetMaxLinkSpeed` returns they are what it has added to the log.
-/

namespace EfiApps
namespace LinkRate

open PciMisc

section accesses

variable (hw : LinkHardware)

/-- The access of the macro `Read`. -/
def readLinkAccess (a : Addr) (r : LinkRegister) (s : LinkState) : LinkAccess where
  isWrite := false
  device := a
  register := r
  status := (readLink hw a r s).1

/-- The access of the macro `Write`. -/
def writeLinkAccess (a : Addr) (r : LinkRegister) (s : LinkState) : LinkAccess where
  isWrite := true
  device := a
  register := r
  status := (writeLink hw a r s).1

/-- The accesses of the macro `Modify`. -/
def modifyLinkAccesses (a : Addr) (r : LinkRegister) (f : UInt16 → UInt16) (s : LinkState) :
    List LinkAccess :=
  let (status, s₁) := readLink hw a r s
  readLinkAccess hw a r s ::
    if status.isError then []
    else
      [writeLinkAccess hw a r
        { s₁ with heap := s₁.heap.modify a (setLinkCopy r (f (linkCopy (s₁.heap a) r))) }]

/-- The accesses of a poll. -/
def pollLinkTrainingAccesses (a : Addr) : Nat → LinkState → List LinkAccess
  | fuel, s =>
      let (status, s₁) := readLink hw a .linkStatus s
      readLinkAccess hw a .linkStatus s ::
        if status.isError then []
        else if linkTraining (linkCopy (s₁.heap a) .linkStatus) then
          match fuel with
          | 0 => []
          | fuel + 1 => pollLinkTrainingAccesses a fuel s₁
        else []

/-- The accesses of `SetMaxLinkSpeed` from the second `Modify` on. -/
def retrainAccesses (fuel : Nat) (p c : Addr) (s : LinkState) : List LinkAccess :=
  let (status, s₁) := modifyLink hw p .linkControl setRetrainLink s
  modifyLinkAccesses hw p .linkControl setRetrainLink s ++
    if status.isError then []
    else
      pollLinkTrainingAccesses hw p fuel s₁ ++
        match pollLinkTraining hw p fuel s₁ with
        | .ok s₂ => [readLinkAccess hw c .linkStatus s₂]
        | .error _ => []

/-- The accesses of `SetMaxLinkSpeed`. -/
def setMaxLinkSpeedAccesses (fuel : Nat) (p c : Addr) (s : LinkState) : List LinkAccess :=
  let f := setTargetLinkSpeed (targetLinkSpeedValue (s.heap p) (s.heap c))
  let (status, s₁) := modifyLink hw p .linkControl2 f s
  modifyLinkAccesses hw p .linkControl2 f s ++
    if status.isError then []
    else
      pollLinkTrainingAccesses hw p fuel s₁ ++
        match pollLinkTraining hw p fuel s₁ with
        | .ok s₂ => retrainAccesses hw fuel p c s₂
        | .error _ => []

/-- After an access that fails there is no write: in particular the link is retrained
only if everything before has succeeded. -/
def NoWriteAfterError (accesses : List LinkAccess) : Prop :=
  accesses.Pairwise fun x y => x.status.isError = true → y.isWrite = false

/-- The poll whose first read is the access `t` reads `n` times that the link is in
training, and then fails. -/
def PollFails (t n : Nat) : Prop :=
  (∀ i < n, (hw.read (t + i)).1.isError = false ∧ linkTraining (hw.read (t + i)).2 = true) ∧
    (hw.read (t + n)).1.isError = true

/-- The update of the target speed succeeds, the first poll fails, and the read of the
control register that comes next does not. -/
def IgnoresFailedPoll (p : Addr) (s : LinkState) : Prop :=
  (s.heap p).configPath.isSome = true ∧ (hw.read s.time).1.isError = false ∧
    (hw.write (s.time + 1)).1.isError = false ∧
      ∃ n, PollFails hw (s.time + 2) n ∧ (hw.read (s.time + 2 + n + 1)).1.isError = false

end accesses

variable {hw : LinkHardware} {p c a : Addr} {r : LinkRegister} {f : UInt16 → UInt16}
variable {s s' : LinkState} {path : ConfigPath} {fuel n : Nat}

theorem noWriteAfterError_append {l l' : List LinkAccess} :
    NoWriteAfterError (l ++ l') ↔ NoWriteAfterError l ∧ NoWriteAfterError l' ∧
      ∀ x ∈ l, ∀ y ∈ l', x.status.isError = true → y.isWrite = false :=
  List.pairwise_append

/-- Reads alone are never a write after an error. -/
theorem noWriteAfterError_of_reads {l : List LinkAccess} (h : ∀ x ∈ l, x.isWrite = false) :
    NoWriteAfterError l :=
  List.pairwise_of_forall_mem_list fun _ _ y hy _ => h y hy

/-! ## One access -/

theorem readLink_fst (hpath : (s.heap a).configPath = some path) :
    (readLink hw a r s).1 = (hw.read s.time).1 := by
  rw [readLink, hpath]

theorem time_readLink (hpath : (s.heap a).configPath = some path) :
    (readLink hw a r s).2.time = s.time + 1 := by
  rw [readLink, hpath]
  rfl

theorem linkStatus_readLink (hpath : (s.heap a).configPath = some path) :
    linkCopy ((readLink hw a .linkStatus s).2.heap a) .linkStatus = (hw.read s.time).2 := by
  rw [readLink, hpath]
  simp

theorem configPath_readLink :
    ((readLink hw a r s).2.heap a).configPath = (s.heap a).configPath := by
  have hread : Retrains a a s (readLink hw a r s).2 := retrains_readLink
  exact hread.heap.configPath a

theorem writeLink_fst (hpath : (s.heap a).configPath = some path) :
    (writeLink hw a r s).1 = (hw.write s.time).1 := by
  rw [writeLink, hpath]

theorem time_writeLink (hpath : (s.heap a).configPath = some path) :
    (writeLink hw a r s).2.time = s.time + 1 := by
  rw [writeLink, hpath]
  rfl

/-! ## `Modify` -/

theorem noWriteAfterError_modifyLinkAccesses :
    NoWriteAfterError (modifyLinkAccesses hw a r f s) := by
  rw [modifyLinkAccesses]
  dsimp only
  split
  · exact List.pairwise_singleton _ _
  · rename_i hok
    refine List.pairwise_pair.mpr fun herror => ?_
    exact absurd herror hok

/-- `Modify` returns the status of its last access. -/
theorem status_of_mem_modifyLinkAccesses (hok : (modifyLink hw a r f s).1.isError = false) :
    ∀ x ∈ modifyLinkAccesses hw a r f s, x.status.isError = false := by
  rw [modifyLink] at hok
  rw [modifyLinkAccesses]
  dsimp only at hok ⊢
  split at hok
  · rename_i herror
    rw [herror] at hok
    cases hok
  · rename_i hread
    rw [if_neg hread]
    simp only [List.mem_cons, List.not_mem_nil, or_false]
    rintro x (rfl | rfl)
    · simpa [readLinkAccess] using hread
    · exact hok

/-- `Modify` gets to its write exactly if its read succeeds. -/
theorem exists_write_modifyLinkAccesses_iff :
    (∃ x ∈ modifyLinkAccesses hw a r f s, x.isWrite = true) ↔
      (readLink hw a r s).1.isError = false := by
  rw [modifyLinkAccesses]
  dsimp only
  split
  · rename_i herror
    simp [readLinkAccess, herror]
  · rename_i hok
    simp [readLinkAccess, writeLinkAccess, hok]

/-- The state between the read and the write of `Modify`. -/
def betweenAccesses (hw : LinkHardware) (a : Addr) (r : LinkRegister) (f : UInt16 → UInt16)
    (s : LinkState) : LinkState :=
  let s₁ := (readLink hw a r s).2
  { s₁ with heap := s₁.heap.modify a (setLinkCopy r (f (linkCopy (s₁.heap a) r))) }

theorem modifyLink_of_read (hok : (readLink hw a r s).1.isError = false) :
    modifyLink hw a r f s = writeLink hw a r (betweenAccesses hw a r f s) := by
  rw [modifyLink]
  dsimp only
  rw [if_neg (by simp [hok])]
  rfl

theorem configPath_betweenAccesses :
    ((betweenAccesses hw a r f s).heap a).configPath = (s.heap a).configPath := by
  have hread : Retrains a a s (readLink hw a r s).2 := retrains_readLink
  exact (hread.heap.modify a r _).configPath a

theorem time_betweenAccesses (hpath : (s.heap a).configPath = some path) :
    (betweenAccesses hw a r f s).time = s.time + 1 :=
  time_readLink hpath

/-- `Modify` succeeds if its two accesses do. -/
theorem modifyLink_isError_iff (hpath : (s.heap a).configPath = some path) :
    (modifyLink hw a r f s).1.isError = false ↔
      (hw.read s.time).1.isError = false ∧ (hw.write (s.time + 1)).1.isError = false := by
  cases hread : (hw.read s.time).1.isError with
  | true =>
      have herror : (readLink hw a r s).1.isError = true := by rw [readLink_fst hpath, hread]
      rw [modifyLink]
      dsimp only
      rw [if_pos herror]
      simp [herror]
  | false =>
      rw [modifyLink_of_read (by rw [readLink_fst hpath, hread]),
        writeLink_fst (configPath_betweenAccesses.trans hpath), time_betweenAccesses hpath]
      simp

/-- Then the next access is the second one after the read. -/
theorem time_modifyLink (hpath : (s.heap a).configPath = some path)
    (hok : (modifyLink hw a r f s).1.isError = false) :
    (modifyLink hw a r f s).2.time = s.time + 2 := by
  have hread := ((modifyLink_isError_iff hpath).mp hok).1
  rw [modifyLink_of_read (by rw [readLink_fst hpath, hread]),
    time_writeLink (configPath_betweenAccesses.trans hpath), time_betweenAccesses hpath]

/-- Without a path to the device nothing is read. -/
theorem modifyLink_isError_of_none (hpath : (s.heap a).configPath = none) :
    (modifyLink hw a r f s).1.isError = true := by
  have herror : (readLink hw a r s).1.isError = true := by
    rw [readLink, hpath]
    rfl
  rw [modifyLink]
  dsimp only
  rw [if_pos herror]
  exact herror

/-! ## The polls -/

theorem isWrite_of_mem_pollLinkTrainingAccesses :
    ∀ x ∈ pollLinkTrainingAccesses hw a fuel s, x.isWrite = false := by
  induction fuel generalizing s with
  | zero =>
      unfold pollLinkTrainingAccesses
      dsimp only
      split
      · simp [readLinkAccess]
      · split <;> simp [readLinkAccess]
  | succ fuel ih =>
      unfold pollLinkTrainingAccesses
      dsimp only
      split
      · simp [readLinkAccess]
      · split
        · exact List.forall_mem_cons.mpr ⟨rfl, ih⟩
        · simp [readLinkAccess]

/-- A poll whose first read fails ends with it. -/
theorem pollLinkTraining_of_error (hpath : (s.heap a).configPath = some path)
    (herror : (hw.read s.time).1.isError = true) :
    pollLinkTraining hw a fuel s = .ok (readLink hw a .linkStatus s).2 := by
  unfold pollLinkTraining
  dsimp only
  rw [readLink_fst hpath, if_pos herror]

/-- A poll that reads that the link is in training goes on. -/
theorem pollLinkTraining_of_training (hpath : (s.heap a).configPath = some path)
    (hok : (hw.read s.time).1.isError = false) (htraining : linkTraining (hw.read s.time).2 = true) :
    pollLinkTraining hw a (fuel + 1) s =
      pollLinkTraining hw a fuel (readLink hw a .linkStatus s).2 := by
  conv_lhs => unfold pollLinkTraining
  dsimp only
  rw [readLink_fst hpath, if_neg (by simp [hok]), linkStatus_readLink hpath, if_pos htraining]

theorem mem_pollLinkTrainingAccesses_iff (hpath : (s.heap a).configPath = some path)
    {x : LinkAccess} :
    x ∈ pollLinkTrainingAccesses hw a fuel s ↔ x = readLinkAccess hw a .linkStatus s ∨
      ((hw.read s.time).1.isError = false ∧ linkTraining (hw.read s.time).2 = true ∧
        ∃ k, fuel = k + 1 ∧
          x ∈ pollLinkTrainingAccesses hw a k (readLink hw a .linkStatus s).2) := by
  conv_lhs => unfold pollLinkTrainingAccesses
  dsimp only
  rw [readLink_fst hpath, linkStatus_readLink hpath, List.mem_cons]
  refine or_congr_right ?_
  cases herror : (hw.read s.time).1.isError with
  | true => simp
  | false =>
      cases htraining : linkTraining (hw.read s.time).2 with
      | false => simp
      | true => cases fuel <;> simp

/-- A poll that fails returns all the same, after one more read than there were
readings of a link in training. -/
theorem pollLinkTraining_of_fails (hpath : (s.heap a).configPath = some path)
    (h : PollFails hw s.time n) (hfuel : n ≤ fuel) :
    ∃ s', pollLinkTraining hw a fuel s = .ok s' ∧ s'.time = s.time + n + 1 ∧
      (s'.heap a).configPath = some path ∧
        ∃ x ∈ pollLinkTrainingAccesses hw a fuel s, x.status.isError = true := by
  induction n generalizing fuel s with
  | zero =>
      have herror : (hw.read s.time).1.isError = true := h.2
      refine ⟨_, pollLinkTraining_of_error hpath herror, time_readLink hpath,
        configPath_readLink.trans hpath, readLinkAccess hw a .linkStatus s,
        (mem_pollLinkTrainingAccesses_iff hpath).mpr (.inl rfl), ?_⟩
      rw [readLinkAccess, readLink_fst hpath, herror]
  | succ n ih =>
      obtain ⟨fuel, rfl⟩ : ∃ k, fuel = k + 1 := ⟨fuel - 1, by omega⟩
      obtain ⟨htrained, herror⟩ := h
      obtain ⟨hok, htraining⟩ := htrained 0 (by omega)
      -- The rest of the poll begins with the next access.
      have hrest : PollFails hw (readLink hw a .linkStatus s).2.time n := by
        rw [time_readLink hpath]
        constructor
        · intro i hi
          have hnext := htrained (i + 1) (by omega)
          rwa [show s.time + (i + 1) = s.time + 1 + i by omega] at hnext
        · rwa [show s.time + (n + 1) = s.time + 1 + n by omega] at herror
      obtain ⟨s', hpoll, htime, hpath', x, hx, hxerror⟩ :=
        ih (configPath_readLink.trans hpath) hrest (show n ≤ fuel by omega)
      refine ⟨s', ?_, ?_, hpath', x, ?_, hxerror⟩
      · rw [pollLinkTraining_of_training hpath hok htraining]
        exact hpoll
      · rw [htime, time_readLink hpath]
        omega
      · exact (mem_pollLinkTrainingAccesses_iff hpath).mpr (.inr ⟨hok, htraining, fuel, rfl, hx⟩)

/-- Conversely, a poll with a failed read has failed. -/
theorem fails_of_mem_pollLinkTrainingAccesses (hpath : (s.heap a).configPath = some path)
    {x : LinkAccess} (hx : x ∈ pollLinkTrainingAccesses hw a fuel s)
    (herror : x.status.isError = true) : ∃ n ≤ fuel, PollFails hw s.time n := by
  induction fuel generalizing s with
  | zero =>
      obtain rfl | ⟨-, -, k, hk, -⟩ := (mem_pollLinkTrainingAccesses_iff hpath).mp hx
      · rw [readLinkAccess, readLink_fst hpath] at herror
        exact ⟨0, le_rfl, by simp, herror⟩
      · omega
  | succ fuel ih =>
      obtain rfl | ⟨hok, htraining, k, hk, hx⟩ := (mem_pollLinkTrainingAccesses_iff hpath).mp hx
      · rw [readLinkAccess, readLink_fst hpath] at herror
        exact ⟨0, by omega, by simp, herror⟩
      · obtain rfl : fuel = k := by omega
        obtain ⟨n, hn, htrained, hfails⟩ := ih (configPath_readLink.trans hpath) hx
        rw [time_readLink hpath] at htrained hfails
        refine ⟨n + 1, by omega, fun i hi => ?_, ?_⟩
        · cases i with
          | zero => exact ⟨hok, htraining⟩
          | succ i =>
              have hnext := htrained i (by omega)
              rwa [show s.time + 1 + i = s.time + (i + 1) by omega] at hnext
        · rwa [show s.time + 1 + n = s.time + (n + 1) by omega] at hfails

/-! ## `SetMaxLinkSpeed` -/

/-- After the second `Modify` there are only reads. -/
theorem retrainAccesses_eq (hw : LinkHardware) (fuel : Nat) (p c : Addr) (s : LinkState) :
    ∃ reads, retrainAccesses hw fuel p c s =
        modifyLinkAccesses hw p .linkControl setRetrainLink s ++ reads ∧
      ∀ y ∈ reads, y.isWrite = false := by
  generalize hmodify : modifyLink hw p .linkControl setRetrainLink s = modify
  obtain ⟨status, s₁⟩ := modify
  rw [retrainAccesses, hmodify]
  refine ⟨_, rfl, ?_⟩
  split
  · simp
  · intro y hy
    rcases List.mem_append.mp hy with hy | hy
    · exact isWrite_of_mem_pollLinkTrainingAccesses y hy
    · split at hy
      · obtain rfl := List.mem_singleton.mp hy
        rfl
      · cases hy

theorem noWriteAfterError_retrainAccesses :
    NoWriteAfterError (retrainAccesses hw fuel p c s) := by
  obtain ⟨reads, heq, hreads⟩ := retrainAccesses_eq hw fuel p c s
  rw [heq, noWriteAfterError_append]
  exact ⟨noWriteAfterError_modifyLinkAccesses, noWriteAfterError_of_reads hreads,
    fun _ _ y hy _ => hreads y hy⟩

/-- The link is retrained if the control register can be read. -/
theorem exists_write_retrainAccesses_iff :
    (∃ x ∈ retrainAccesses hw fuel p c s, x.isWrite = true) ↔
      (readLink hw p .linkControl s).1.isError = false := by
  obtain ⟨reads, heq, hreads⟩ := retrainAccesses_eq hw fuel p c s
  rw [heq, ← exists_write_modifyLinkAccesses_iff (f := setRetrainLink)]
  constructor
  · rintro ⟨x, hx, hwrite⟩
    rcases List.mem_append.mp hx with hx | hx
    · exact ⟨x, hx, hwrite⟩
    · rw [hreads x hx] at hwrite
      cases hwrite
  · rintro ⟨x, hx, hwrite⟩
    exact ⟨x, List.mem_append_left _ hx, hwrite⟩

section run

variable (hw p c s)

/-- The path to the port stays as it is in the update of the target speed. -/
theorem configPath_modifyLink_linkControl2 :
    ((modifyLink hw p .linkControl2 f s).2.heap p).configPath = (s.heap p).configPath :=
  (modifyLink_spec hw p f s (show LinkRegister.linkControl2 ≠ .linkStatus by decide)).1.configPath p

/-- After the failed poll the link is retrained. -/
theorem exists_writeAfterError (h : IgnoresFailedPoll hw p s) :
    ∃ fuel, ¬ NoWriteAfterError (setMaxLinkSpeedAccesses hw fuel p c s) := by
  obtain ⟨hsome, hread, hwrite, n, hfails, hcontrol⟩ := h
  obtain ⟨path, hpath⟩ := Option.isSome_iff_exists.mp hsome
  let f := setTargetLinkSpeed (targetLinkSpeedValue (s.heap p) (s.heap c))
  have hok : (modifyLink hw p .linkControl2 f s).1.isError = false :=
    (modifyLink_isError_iff hpath).mpr ⟨hread, hwrite⟩
  have hpath₁ : ((modifyLink hw p .linkControl2 f s).2.heap p).configPath = some path :=
    (configPath_modifyLink_linkControl2 hw p s).trans hpath
  rw [← time_modifyLink hpath hok] at hfails
  obtain ⟨s₂, hpoll, htime, hpath₂, x, hx, hxerror⟩ := pollLinkTraining_of_fails hpath₁ hfails le_rfl
  have hretrain : (readLink hw p .linkControl s₂).1.isError = false := by
    rw [readLink_fst hpath₂, htime, time_modifyLink hpath hok]
    exact hcontrol
  obtain ⟨y, hy, hywrite⟩ : ∃ y ∈ retrainAccesses hw n p c s₂, y.isWrite = true :=
    exists_write_retrainAccesses_iff.mpr hretrain
  refine ⟨n, fun hlist => ?_⟩
  rw [setMaxLinkSpeedAccesses] at hlist
  dsimp only at hlist
  rw [if_neg (by rw [hok]; decide), hpoll] at hlist
  have hcross := (noWriteAfterError_append.mp (noWriteAfterError_append.mp hlist).2.1).2.2
  rw [hcross x hx y hy hxerror] at hywrite
  cases hywrite

/-- Otherwise nothing is written after an error. -/
theorem noWriteAfterError_setMaxLinkSpeedAccesses (hnot : ¬ IgnoresFailedPoll hw p s) (fuel : Nat) :
    NoWriteAfterError (setMaxLinkSpeedAccesses hw fuel p c s) := by
  let f := setTargetLinkSpeed (targetLinkSpeedValue (s.heap p) (s.heap c))
  rw [setMaxLinkSpeedAccesses]
  dsimp only
  cases hok : (modifyLink hw p .linkControl2 f s).1.isError with
  | true =>
      rw [if_pos rfl, List.append_nil]
      exact noWriteAfterError_modifyLinkAccesses
  | false =>
      rw [if_neg (by decide)]
      have htarget := status_of_mem_modifyLinkAccesses hok
      refine noWriteAfterError_append.mpr ⟨noWriteAfterError_modifyLinkAccesses, ?_,
        fun x hx y _ herror => absurd herror (by simp [htarget x hx])⟩
      obtain ⟨path, hpath⟩ : ∃ path, (s.heap p).configPath = some path := by
        cases hnone : (s.heap p).configPath with
        | none => simp [modifyLink_isError_of_none hnone] at hok
        | some path => exact ⟨path, rfl⟩
      have hpath₁ : ((modifyLink hw p .linkControl2 f s).2.heap p).configPath = some path :=
        (configPath_modifyLink_linkControl2 hw p s).trans hpath
      obtain ⟨hread, hwrite⟩ := (modifyLink_isError_iff hpath).mp hok
      refine noWriteAfterError_append.mpr
        ⟨noWriteAfterError_of_reads isWrite_of_mem_pollLinkTrainingAccesses, ?_, ?_⟩
      · split
        · exact noWriteAfterError_retrainAccesses
        · exact List.Pairwise.nil
      · intro x hx y hy hxerror
        by_contra hywrite
        -- The poll has failed, and the control register could be read after that.
        obtain ⟨n, hn, hfails⟩ :=
          fails_of_mem_pollLinkTrainingAccesses hpath₁ hx hxerror
        obtain ⟨s₂, hpoll, htime, hpath₂, -⟩ :=
          pollLinkTraining_of_fails hpath₁ hfails hn
        rw [hpoll] at hy
        have hretrain := exists_write_retrainAccesses_iff.mp ⟨y, hy, by simpa using hywrite⟩
        rw [readLink_fst hpath₂, htime] at hretrain
        rw [time_modifyLink hpath hok] at hfails hretrain
        exact hnot ⟨by simp [hpath], hread, hwrite, n, hfails, hretrain⟩

/-- In `SetMaxLinkSpeed` no write comes after an access that has failed, unless the
first poll fails between accesses that do not. -/
theorem setMaxLinkSpeed_noWriteAfterError_iff :
    (∀ fuel, NoWriteAfterError (setMaxLinkSpeedAccesses hw fuel p c s)) ↔
      ¬ IgnoresFailedPoll hw p s := by
  constructor
  · intro hsafe hignores
    obtain ⟨fuel, hwrite⟩ := exists_writeAfterError hw p c s hignores
    exact hwrite (hsafe fuel)
  · exact noWriteAfterError_setMaxLinkSpeedAccesses hw p c s

end run

/-! ## The lists are the log -/

theorem accesses_readLink :
    (readLink hw a r s).2.accesses = s.accesses ++ [readLinkAccess hw a r s] := by
  unfold readLinkAccess readLink
  cases (s.heap a).configPath <;> rfl

theorem accesses_writeLink :
    (writeLink hw a r s).2.accesses = s.accesses ++ [writeLinkAccess hw a r s] := by
  unfold writeLinkAccess writeLink
  cases (s.heap a).configPath <;> rfl

theorem accesses_modifyLink :
    (modifyLink hw a r f s).2.accesses = s.accesses ++ modifyLinkAccesses hw a r f s := by
  have hread : (readLink hw a r s).2.accesses = s.accesses ++ [readLinkAccess hw a r s] :=
    accesses_readLink
  unfold modifyLink modifyLinkAccesses
  dsimp only
  split
  · exact hread
  · rw [accesses_writeLink]
    dsimp only
    rw [hread, List.append_assoc]
    rfl

theorem accesses_pollLinkTraining (h : pollLinkTraining hw a fuel s = .ok s') :
    s'.accesses = s.accesses ++ pollLinkTrainingAccesses hw a fuel s := by
  have hread : (readLink hw a .linkStatus s).2.accesses =
      s.accesses ++ [readLinkAccess hw a .linkStatus s] := accesses_readLink
  induction fuel generalizing s with
  | zero =>
      unfold pollLinkTraining at h
      unfold pollLinkTrainingAccesses
      dsimp only at h ⊢
      split at h
      · rename_i herror
        obtain rfl := Except.ok.inj h
        rw [if_pos herror, hread]
      · rename_i hok
        split at h
        · cases h
        · rename_i htrained
          obtain rfl := Except.ok.inj h
          rw [if_neg hok, if_neg htrained, hread]
  | succ fuel ih =>
      unfold pollLinkTraining at h
      unfold pollLinkTrainingAccesses
      dsimp only at h ⊢
      split at h
      · rename_i herror
        obtain rfl := Except.ok.inj h
        rw [if_pos herror, hread]
      · rename_i hok
        split at h
        · rename_i htraining
          rw [if_neg hok, if_pos htraining, ih h accesses_readLink, hread, List.append_assoc]
          rfl
        · rename_i htrained
          obtain rfl := Except.ok.inj h
          rw [if_neg hok, if_neg htrained, hread]

theorem accesses_setMaxLinkSpeed (h : setMaxLinkSpeed hw fuel p c s = .ok s') :
    s'.accesses = s.accesses ++ setMaxLinkSpeedAccesses hw fuel p c s := by
  let f := setTargetLinkSpeed (targetLinkSpeedValue (s.heap p) (s.heap c))
  have htarget : (modifyLink hw p .linkControl2 f s).2.accesses =
      s.accesses ++ modifyLinkAccesses hw p .linkControl2 f s := accesses_modifyLink
  rw [setMaxLinkSpeed] at h
  rw [setMaxLinkSpeedAccesses]
  dsimp only at h ⊢
  split at h
  · rename_i herror
    obtain rfl := Except.ok.inj h
    rw [if_pos herror, List.append_nil]
    exact htarget
  · rename_i hok
    obtain ⟨s₁, hpoll, h⟩ := Run.bind_eq_ok.mp h
    have hpolled := accesses_pollLinkTraining hpoll
    rw [htarget, List.append_assoc] at hpolled
    have hretrain : (modifyLink hw p .linkControl setRetrainLink s₁).2.accesses =
        s₁.accesses ++ modifyLinkAccesses hw p .linkControl setRetrainLink s₁ := accesses_modifyLink
    rw [if_neg hok, hpoll]
    dsimp only
    rw [retrainAccesses]
    dsimp only
    split at h
    · rename_i herror
      obtain rfl := Except.ok.inj h
      rw [if_pos herror, List.append_nil, hretrain, hpolled]
      simp only [List.append_assoc]
      rfl
    · rename_i hok₁
      obtain ⟨s₂, hpoll₂, h⟩ := Run.bind_eq_ok.mp h
      obtain rfl := Except.ok.inj h
      rw [if_neg hok₁, hpoll₂]
      rw [accesses_readLink, accesses_pollLinkTraining hpoll₂, hretrain, hpolled]
      simp only [List.append_assoc]
      rfl

/-! ## Nothing else is written -/

theorem registers_readLink : (readLink hw a r s).2.registers = s.registers := by
  unfold readLink
  split <;> rfl

theorem registers_modifyLink (h : ∀ x ∈ modifyLinkAccesses hw a r f s, x.isWrite = false) :
    (modifyLink hw a r f s).2.registers = s.registers := by
  have herror : (readLink hw a r s).1.isError = true := by
    by_contra hok
    obtain ⟨x, hx, hwrite⟩ :=
      (exists_write_modifyLinkAccesses_iff (f := f)).mpr (by simpa using hok)
    rw [h x hx] at hwrite
    cases hwrite
  rw [modifyLink]
  dsimp only
  rw [if_pos herror]
  exact registers_readLink

theorem registers_pollLinkTraining (h : pollLinkTraining hw a fuel s = .ok s') :
    s'.registers = s.registers :=
  pollLinkTraining_keeps (P := fun t => t.registers = s.registers)
    (fun _ ht => registers_readLink.trans ht) rfl h

/-- `SetMaxLinkSpeed` changes no register without a write among its accesses. -/
theorem registers_setMaxLinkSpeed (h : setMaxLinkSpeed hw fuel p c s = .ok s')
    (hreads : ∀ x ∈ setMaxLinkSpeedAccesses hw fuel p c s, x.isWrite = false) :
    s'.registers = s.registers := by
  rw [setMaxLinkSpeedAccesses] at hreads
  dsimp only at hreads
  obtain ⟨hmodify, hrest⟩ := List.forall_mem_append.mp hreads
  have htarget := registers_modifyLink hmodify
  rw [setMaxLinkSpeed] at h
  dsimp only at h
  split at h
  · obtain rfl := Except.ok.inj h
    exact htarget
  · rename_i hok
    rw [if_neg hok] at hrest
    obtain ⟨s₁, hpoll, h⟩ := Run.bind_eq_ok.mp h
    have hpolled := (registers_pollLinkTraining hpoll).trans htarget
    rw [hpoll] at hrest
    obtain ⟨reads, heq, -⟩ := retrainAccesses_eq hw fuel p c s₁
    have hcontrol : (modifyLink hw p .linkControl setRetrainLink s₁).2.registers = s₁.registers := by
      apply registers_modifyLink
      intro x hx
      refine hrest x (List.mem_append_right _ ?_)
      dsimp only
      rw [heq]
      exact List.mem_append_left _ hx
    split at h
    · obtain rfl := Except.ok.inj h
      exact hcontrol.trans hpolled
    · obtain ⟨s₂, hpoll₂, h⟩ := Run.bind_eq_ok.mp h
      obtain rfl := Except.ok.inj h
      rw [registers_readLink, registers_pollLinkTraining hpoll₂, hcontrol, hpolled]

/-! ## A poll that fails -/

/-- Hardware on which only the first poll fails. -/
def failedPoll : LinkHardware where
  read t := (if t = 2 then .error 7 else .success, 0)
  write _ := (.success, true)

/-- A port that can be reached and the device below it. -/
def portState : LinkState where
  heap a := { pciIo := some a }
  registers _ := 0
  time := 0
  parentDevice := none
  calls := []
  accesses := []

/-- The status register cannot be read, and the link is retrained all the same. -/
theorem setMaxLinkSpeed_failedPoll :
    (failedPoll.read 2).1.isError = true ∧
      ∃ fuel, ¬ NoWriteAfterError (setMaxLinkSpeedAccesses failedPoll fuel 1 2 portState) :=
  ⟨rfl, exists_writeAfterError failedPoll 1 2 portState
    ⟨rfl, rfl, rfl, 0, ⟨by simp, rfl⟩, rfl⟩⟩

end LinkRate
end EfiApps
