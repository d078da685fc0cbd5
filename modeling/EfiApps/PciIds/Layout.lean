import EfiApps.PciIds.SecondPass

/-!
# The layout of the arrays

The lines of a node add one record to the list of its kind and the records of what
is below it to the lists further down.  `Added` says so for a list of nodes: the
new records stand one after the other, and their owner has a pointer to the first
of them and their number.  Records that are complete are never touched again, so
what they describe holds in every later state.
-/

namespace EfiApps
namespace PciIds

/-- What `adopt` does for a number of records that follow each other. -/
def adoptAll (first : Ptr) (n : Nat) (p : PciIdItem) : PciIdItem :=
  { p with
    children := if n = 0 then p.children else if p.children.isNone then some first else p.children
    numChildren := p.numChildren + n }

theorem adoptAll_zero (first : Ptr) : adoptAll first 0 = id := rfl

theorem adoptAll_add (file first n n' : Nat) :
    adoptAll ⟨file, first + n⟩ n' ∘ adoptAll ⟨file, first⟩ n = adoptAll ⟨file, first⟩ (n + n') := by
  funext p
  obtain ⟨value, name, numChildren, children⟩ := p
  cases n <;> cases n' <;> cases children <;> simp [adoptAll, Nat.add_assoc]

theorem modifyLast_id (l : List PciIdItem) : l.modifyLast id = l := by
  rcases List.eq_nil_or_concat' l with rfl | ⟨init, r, rfl⟩
  · rfl
  · rw [List.modifyLast_concat, id]

theorem modifyLast_modifyLast (f g : PciIdItem → PciIdItem) (l : List PciIdItem) :
    (l.modifyLast f).modifyLast g = l.modifyLast (g ∘ f) := by
  rcases List.eq_nil_or_concat' l with rfl | ⟨init, r, rfl⟩
  · rfl
  · rw [List.modifyLast_concat, List.modifyLast_concat, List.modifyLast_concat]
    rfl

section layout

variable {start : ItemKind → Nat} {file buffer : Nat} {a a' a'' : Arrays} {k k' : ItemKind}

/-- The lines one after the other. -/
def Arrays.pushAll (start : ItemKind → Nat) (file buffer : Nat) (a : Arrays)
    (placed : List Placed) : Arrays :=
  placed.foldl (Arrays.push start file buffer) a

theorem Arrays.pushAll_append (placed placed' : List Placed) :
    a.pushAll start file buffer (placed ++ placed') =
      (a.pushAll start file buffer placed).pushAll start file buffer placed' :=
  List.foldl_append

/-- Every line finds its owner open. -/
def OwnersOpen (start : ItemKind → Nat) (file buffer : Nat) : Arrays → List Placed → Prop
  | _, [] => True
  | a, x :: placed =>
      OwnerOpen a x.kind ∧ OwnersOpen start file buffer (a.push start file buffer x) placed

theorem ownersOpen_append_iff {placed placed' : List Placed} :
    OwnersOpen start file buffer a (placed ++ placed') ↔ OwnersOpen start file buffer a placed ∧
      OwnersOpen start file buffer (a.pushAll start file buffer placed) placed' := by
  induction placed generalizing a with
  | nil => simp [OwnersOpen, Arrays.pushAll]
  | cons x placed ih =>
      rw [List.cons_append, OwnersOpen, OwnersOpen, ih, and_assoc]
      rfl

theorem owner_ne_self (k : ItemKind) : k.owner ≠ .items k := by
  cases k <;> decide

section push

variable (x : Placed)

/-- The record of a new line. -/
def Placed.record (buffer : Nat) (x : Placed) : PciIdItem :=
  { value := x.value, name := some ⟨buffer, x.name⟩ }

theorem push_self : (a.push start file buffer x).records (.items x.kind) =
    a.records (.items x.kind) ++ [x.record buffer] := by
  rw [Arrays.push, Arrays.modifyLast_records, if_neg (owner_ne_self _).symm,
    Arrays.append_records, if_pos rfl, foldl_close_records]
  rfl

theorem push_owner : (a.push start file buffer x).records x.kind.owner =
    (a.records x.kind.owner).modifyLast
      (adopt ⟨file, start x.kind + (a.records (.items x.kind)).length⟩) := by
  rw [Arrays.push, Arrays.modifyLast_records, if_pos rfl, Arrays.append_records,
    if_neg (owner_ne_self _), foldl_close_records]

theorem push_other {s : Slot} (hs : s ≠ .items x.kind) (howner : s ≠ x.kind.owner) :
    (a.push start file buffer x).records s = a.records s := by
  rw [Arrays.push, Arrays.modifyLast_records, if_neg howner, Arrays.append_records, if_neg hs,
    foldl_close_records]

theorem push_opened (j : ItemKind) : (a.push start file buffer x).opened j =
    if j = x.kind then true else if j ∈ x.kind.fallThrough then false else a.opened j := by
  rw [Arrays.push, Arrays.modifyLast]
  dsimp only
  rw [Arrays.append_opened, foldl_close_opened]

theorem mem_fallThrough_self (k : ItemKind) : k ∈ k.fallThrough := by
  cases k <;> decide

theorem push_opened_of_not_mem {j : ItemKind} (hj : j ∉ x.kind.fallThrough) :
    (a.push start file buffer x).opened j = a.opened j := by
  have hne : j ≠ x.kind := by
    rintro rfl
    exact hj (mem_fallThrough_self x.kind)
  rw [push_opened, if_neg hne, if_neg hj]

end push

/-! ## What is added -/

variable {β : Type} {low : List ItemKind} {describes : ItemMemory → PciIdItem → β → Prop}

/-- The memory holds the records of a kind. -/
def Agrees (start : ItemKind → Nat) (file : Nat) (m : ItemMemory) (a : Arrays) (k : ItemKind) :
    Prop :=
  ∀ i (h : i < (a.records (.items k)).length), m file (start k + i) = (a.records (.items k))[i]

theorem Agrees.of_isPrefix {m : ItemMemory} (h : Agrees start file m a' k)
    (hpre : a.records (.items k) <+: a'.records (.items k)) : Agrees start file m a k := by
  intro i hi
  rw [h i (lt_of_lt_of_le hi hpre.length_le), hpre.getElem hi]

/-- The records of some nodes of a kind, and of what is below them, are added. -/
structure Grown (start : ItemKind → Nat) (file : Nat) (k : ItemKind) (low : List ItemKind)
    (describes : ItemMemory → PciIdItem → β → Prop) (nodes : List β) (a a' : Arrays) : Prop where
  self : ∃ records, a'.records (.items k) = a.records (.items k) ++ records ∧
    records.length = nodes.length ∧
    ∀ m, (∀ j ∈ low, Agrees start file m a' j) → List.Forall₂ (describes m) records nodes
  owner : a'.records k.owner = (a.records k.owner).modifyLast
    (adoptAll ⟨file, start k + (a.records (.items k)).length⟩ nodes.length)
  below : ∀ j ∈ low, a.records (.items j) <+: a'.records (.items j)

/-- Nothing is added. -/
theorem Grown.of_same (hself : a'.records (.items k) = a.records (.items k))
    (howner : a'.records k.owner = a.records k.owner)
    (hlow : ∀ j ∈ low, a'.records (.items j) = a.records (.items j)) :
    Grown start file k low describes [] a a' where
  self := ⟨[], by rw [hself, List.append_nil], rfl, fun _ _ => .nil⟩
  owner := by rw [howner, List.length_nil, adoptAll_zero, modifyLast_id]
  below j hj := by rw [hlow j hj]

theorem Grown.trans {nodes nodes' : List β} (h : Grown start file k low describes nodes a a')
    (h' : Grown start file k low describes nodes' a' a'') :
    Grown start file k low describes (nodes ++ nodes') a a'' := by
  obtain ⟨records, hself, hlength, hdescribes⟩ := h.self
  obtain ⟨records', hself', hlength', hdescribes'⟩ := h'.self
  refine ⟨⟨records ++ records', ?_, ?_, fun m hm => ?_⟩, ?_,
    fun j hj => (h.below j hj).trans (h'.below j hj)⟩
  · rw [hself', hself, List.append_assoc]
  · rw [List.length_append, List.length_append, hlength, hlength']
  · exact List.rel_append (hdescribes m fun j hj => (hm j hj).of_isPrefix (h'.below j hj))
      (hdescribes' m hm)
  · rw [h'.owner, h.owner, modifyLast_modifyLast, hself, List.length_append, hlength,
      ← Nat.add_assoc, adoptAll_add, List.length_append]

/-- Nothing is added, and then some nodes. -/
theorem Grown.after_same {nodes : List β} (h : Grown start file k low describes nodes a' a'')
    (hself : a'.records (.items k) = a.records (.items k))
    (howner : a'.records k.owner = a.records k.owner)
    (hlow : ∀ j ∈ low, a'.records (.items j) = a.records (.items j)) :
    Grown start file k low describes nodes a a'' := by
  rw [← List.nil_append nodes]
  exact (Grown.of_same hself howner hlow).trans h

/-- Nothing but that is changed, and no owner further up is closed. -/
structure Added (start : ItemKind → Nat) (file : Nat) (k : ItemKind) (low : List ItemKind)
    (describes : ItemMemory → PciIdItem → β → Prop) (nodes : List β) (a a' : Arrays) : Prop
    extends Grown start file k low describes nodes a a' where
  other : ∀ s, s ≠ .items k → s ≠ k.owner → (∀ j ∈ low, s ≠ .items j) →
    a'.records s = a.records s
  opened : ∀ j, j ∉ k.fallThrough → a'.opened j = a.opened j

theorem Added.trans {nodes nodes' : List β} (h : Added start file k low describes nodes a a')
    (h' : Added start file k low describes nodes' a' a'') :
    Added start file k low describes (nodes ++ nodes') a a'' where
  toGrown := h.toGrown.trans h'.toGrown
  other s hs howner hlow := (h'.other s hs howner hlow).trans (h.other s hs howner hlow)
  opened j hj := (h'.opened j hj).trans (h.opened j hj)

/-- The lines add the nodes, wherever they are found. -/
def Lays (start : ItemKind → Nat) (file buffer : Nat) (mem : Nat → UInt16) (k : ItemKind)
    (low : List ItemKind) (describes : ItemMemory → PciIdItem → β → Prop) (nodes : List β)
    (lines : List IdLine) : Prop :=
  ∀ a placed, OwnerOpen a k → List.Forall₂ (Placed.Matches mem) placed lines →
    OwnersOpen start file buffer a placed ∧
      Added start file k low describes nodes a (a.pushAll start file buffer placed)

variable {mem : Nat → UInt16}

/-- The owner of a kind is closed by no line of that kind. -/
theorem not_mem_fallThrough_of_owner {p : ItemKind} (h : k.owner = .items p) :
    p ∉ k.fallThrough := by
  revert h
  cases k <;> cases p <;> decide

theorem OwnerOpen.congr (h : OwnerOpen a k)
    (hopened : ∀ j, j ∉ k.fallThrough → a'.opened j = a.opened j) : OwnerOpen a' k :=
  fun p hp => (hopened p (not_mem_fallThrough_of_owner hp)).trans (h p hp)

theorem Lays.flatMap {nodes : List β} {lines : β → List IdLine}
    (h : ∀ node ∈ nodes, Lays start file buffer mem k low describes [node] (lines node)) :
    Lays start file buffer mem k low describes nodes (nodes.flatMap lines) := by
  induction nodes with
  | nil =>
      intro a placed _ hmatches
      obtain rfl := List.forall₂_nil_right_iff.mp hmatches
      exact ⟨trivial, .of_same rfl rfl fun _ _ => rfl, fun _ _ _ _ => rfl, fun _ _ => rfl⟩
  | cons node nodes ih =>
      intro a placed hopen hmatches
      rw [List.flatMap_cons] at hmatches
      have hfirst := List.forall₂_take_append placed _ _ hmatches
      have hrest := List.forall₂_drop_append placed _ _ hmatches
      rw [← List.take_append_drop (lines node).length placed, ownersOpen_append_iff,
        Arrays.pushAll_append]
      obtain ⟨howners, hadded⟩ := h node (by simp) a _ hopen hfirst
      obtain ⟨howners', hadded'⟩ := ih (fun node' hmem => h node' (List.mem_cons_of_mem _ hmem)) _ _
        (hopen.congr hadded.opened) hrest
      exact ⟨⟨howners, howners'⟩, hadded.trans hadded'⟩

/-- A line with nothing below it. -/
theorem lays_leaf {text : TextMemory} (k : ItemKind) (node : IdLeaf) :
    Lays start file buffer (text buffer) k [] (fun m => DescribesLeaf text m) [node]
      [leafLine k node] := by
  intro a placed hopen hmatches
  obtain ⟨x, rest, hx, hrest, rfl⟩ := List.forall₂_cons_right_iff.mp hmatches
  obtain rfl := List.forall₂_nil_right_iff.mp hrest
  obtain rfl : x.kind = k := hx.kind
  refine ⟨⟨hopen, trivial⟩, ⟨⟨[x.record buffer], push_self x, rfl, fun m _ => ?_⟩, push_owner x,
    fun _ hj => absurd hj List.not_mem_nil⟩, fun s hs howner _ => push_other x hs howner,
    fun j hj => push_opened_of_not_mem x hj⟩
  refine .cons ⟨hx.value, ⟨_, rfl, hx.name⟩, ?_⟩ .nil
  have hnil : node.children = [] := by
    rcases node with ⟨_, _, _ | ⟨c, _⟩⟩
    · rfl
    · exact c.elim
  exact ⟨by rw [hnil]; rfl, .inl ⟨hnil, rfl⟩⟩

/-- A line and the lines below it. -/
theorem lays_node {text : TextMemory} {node : IdNode β} {lines : List IdLine}
    (howner : k'.owner = .items k) (hfall : ∀ j ∈ k'.fallThrough, j ∈ k.fallThrough)
    (hlow : ∀ j ∈ k' :: low, j ≠ k ∧ .items j ≠ k.owner)
    (h : Lays start file buffer (text buffer) k' low describes node.children lines) :
    Lays start file buffer (text buffer) k (k' :: low)
      (fun m => Describes (describes m) text m) [node] (⟨k, node.value, node.name⟩ :: lines) := by
  intro a placed hopen hmatches
  obtain ⟨x, rest, hx, hrest, rfl⟩ := List.forall₂_cons_right_iff.mp hmatches
  obtain rfl : x.kind = k := hx.kind
  set a₁ := a.push start file buffer x with ha₁
  have hopen₁ : OwnerOpen a₁ k' := by
    intro p hp
    obtain rfl : x.kind = p := by
      rw [howner] at hp
      exact Slot.items.inj hp
    rw [ha₁, push_opened, if_pos rfl]
  obtain ⟨howners, hadded⟩ := h a₁ rest hopen₁ hrest
  have hpush : a.pushAll start file buffer (x :: rest) = a₁.pushAll start file buffer rest := rfl
  rw [hpush]
  set a₂ := a₁.pushAll start file buffer rest
  -- The lists below `x` are untouched by its own line.
  have hbelow : ∀ j ∈ k' :: low, a₁.records (.items j) = a.records (.items j) := fun j hj =>
    push_other x (fun heq => (hlow j hj).1 (Slot.items.inj heq)) (hlow j hj).2
  obtain ⟨records, hself, hlength, hdescribes⟩ := hadded.self
  have howner₂ : a₂.records (.items x.kind) = a.records (.items x.kind) ++
      [adoptAll ⟨file, start k' + (a.records (.items k')).length⟩ node.children.length
        (x.record buffer)] := by
    have hmodified := hadded.owner
    rw [howner, push_self, List.modifyLast_concat, hbelow k' (by simp)] at hmodified
    exact hmodified
  refine ⟨⟨hopen, howners⟩, ⟨⟨_, howner₂, rfl, fun m hm => ?_⟩, ?_, fun j hj => ?_⟩,
    fun s hs hs' hslow => ?_, fun j hj => ?_⟩
  · refine .cons ⟨hx.value, ⟨_, rfl, hx.name⟩, ?_⟩ .nil
    refine ⟨Nat.zero_add _, ?_⟩
    cases hchildren : node.children with
    | nil => exact .inl ⟨rfl, rfl⟩
    | cons child children =>
        refine .inr ⟨_, rfl, fun i hi => ?_⟩
        have hforall := hdescribes m fun j hj => hm j (List.mem_cons_of_mem _ hj)
        rw [hchildren] at hforall hlength
        have hi' : i < records.length := hlength ▸ hi
        have hrecord : m file (start k' + (a.records (.items k')).length + i) = records[i] := by
          have hagrees := hm k' (by simp) ((a.records (.items k')).length + i) (by
            rw [hself, List.length_append, hbelow k' (by simp)]
            omega)
          rw [← Nat.add_assoc] at hagrees
          rw [hagrees]
          simp only [hself, hbelow k' List.mem_cons_self]
          rw [List.getElem_append_right (Nat.le_add_right _ _)]
          simp
        rw [hrecord]
        exact hforall.get hi' hi
  · rw [hadded.other _ (hlow k' (by simp)).2.symm (howner ▸ owner_ne_self x.kind)
      fun j hj => (hlow j (List.mem_cons_of_mem _ hj)).2.symm]
    exact push_owner x
  · rw [← hbelow j hj]
    rcases List.mem_cons.mp hj with rfl | hj
    · rw [hself]
      exact List.prefix_append _ _
    · exact hadded.below j hj
  · rw [hadded.other s (hslow k' (by simp)) (howner ▸ hs)
      fun j hj => hslow j (List.mem_cons_of_mem _ hj)]
    exact push_other x hs hs'
  · rw [hadded.opened j fun hmem => hj (hfall j hmem)]
    exact push_opened_of_not_mem x hj

end layout

end PciIds
end EfiApps
