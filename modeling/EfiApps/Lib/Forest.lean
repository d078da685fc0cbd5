import EfiApps.Lib.Linked

/-!
# Forests kept in link fields

A C program keeps an ordered tree in four link fields of its nodes: the parent,
the first and the last child, and the next sibling.  `Forest` is the tree as a
value and `Forest.Represents` says that the link fields hold it.

The nodes are an arbitrary type and the links arbitrary functions, so a proof
about a traversal can recurse on the forest instead of on the pointers.
-/

namespace EfiApps

variable {α : Type _}

/-- An ordered forest: the root of the first tree with the forest of its
children, and the forest of its later siblings. -/
inductive Forest (α : Type _)
  | nil
  | node (a : α) (children siblings : Forest α)

/-- The link fields of a node. -/
structure Links (α : Type _) where
  parent : α → Option α
  firstChild : α → Option α
  lastChild : α → Option α
  nextSibling : α → Option α

namespace Forest

/-- The roots, from left to right. -/
def roots : Forest α → List α
  | nil => []
  | node a _ siblings => a :: siblings.roots

/-- The nodes in depth-first order, a parent before its children. -/
def preorder : Forest α → List α
  | nil => []
  | node a children siblings => a :: (children.preorder ++ siblings.preorder)

/-- The trees: every root with the forest of its children. -/
def trees : Forest α → List (α × Forest α)
  | nil => []
  | node a children siblings => (a, children) :: siblings.trees

/-- The number of nodes. -/
def size : Forest α → Nat
  | nil => 0
  | node _ children siblings => 1 + children.size + siblings.size

@[simp] theorem roots_nil : (nil : Forest α).roots = [] := rfl

@[simp] theorem roots_node (a : α) (children siblings : Forest α) :
    (node a children siblings).roots = a :: siblings.roots := rfl

@[simp] theorem preorder_nil : (nil : Forest α).preorder = [] := rfl

@[simp] theorem preorder_node (a : α) (children siblings : Forest α) :
    (node a children siblings).preorder = a :: (children.preorder ++ siblings.preorder) := rfl

@[simp] theorem trees_nil : (nil : Forest α).trees = [] := rfl

@[simp] theorem trees_node (a : α) (children siblings : Forest α) :
    (node a children siblings).trees = (a, children) :: siblings.trees := rfl

/-- The links hold the forest: `p` points to its first root, and the roots are
children of `owner`. -/
def Represents (links : Links α) : Forest α → α → Option α → Prop
  | nil, _, p => p = none
  | node a children siblings, owner, p =>
      p = some a ∧ links.parent a = some owner ∧
        links.lastChild a = children.roots.getLast? ∧
        children.Represents links a (links.firstChild a) ∧
        siblings.Represents links owner (links.nextSibling a)

@[simp] theorem represents_nil_iff (links : Links α) (owner : α) (p : Option α) :
    (nil : Forest α).Represents links owner p ↔ p = none := Iff.rfl

@[simp] theorem represents_node_iff (links : Links α) (a owner : α) (children siblings : Forest α)
    (p : Option α) :
    (node a children siblings).Represents links owner p ↔
      p = some a ∧ links.parent a = some owner ∧
        links.lastChild a = children.roots.getLast? ∧
        children.Represents links a (links.firstChild a) ∧
        siblings.Represents links owner (links.nextSibling a) := Iff.rfl

section Represents

variable {links : Links α} {f : Forest α} {owner : α} {p : Option α}

/-- The roots are linked through `nextSibling`. -/
theorem Represents.linked (h : f.Represents links owner p) :
    Linked links.nextSibling p f.roots := by
  induction f generalizing p with
  | nil => exact h
  | node a children siblings _ ih => exact ⟨h.1, ih h.2.2.2.2⟩

/-- Every node climbs to a root and from there along the ancestors of the owner. -/
theorem Represents.ancestors (h : f.Represents links owner p) {path : List α}
    (hpath : Linked links.parent (some owner) path) {a : α} (ha : a ∈ f.preorder) :
    ∃ l, ∃ r ∈ f.roots, Linked links.parent (some a) (l ++ r :: path) ∧ l.length < f.size := by
  induction f generalizing owner p path with
  | nil => simp at ha
  | node b children siblings ihc ihs =>
      obtain ⟨-, hparent, -, hchildren, hsiblings⟩ := h
      have hb : Linked links.parent (some b) (b :: path) := ⟨rfl, hparent ▸ hpath⟩
      rcases List.mem_cons.mp ha with rfl | ha
      · exact ⟨[], a, List.mem_cons_self, hb, by rw [size, List.length_nil]; omega⟩
      · rcases List.mem_append.mp ha with ha | ha
        · obtain ⟨l, r, -, hlinked, hlength⟩ := ihc hchildren hb ha
          exact ⟨l ++ [r], b, List.mem_cons_self, by simpa using hlinked, by simp [size]; omega⟩
        · obtain ⟨l, r, hr, hlinked, hlength⟩ := ihs hsiblings hpath ha
          exact ⟨l, r, List.mem_cons_of_mem _ hr, hlinked, by simp [size]; omega⟩

/-- No node occurs twice, as soon as the owner climbs to the end of its
ancestors: the ancestors of a node are determined by the node. -/
theorem Represents.nodup (h : f.Represents links owner p) {path : List α}
    (hpath : Linked links.parent (some owner) path) : f.preorder.Nodup := by
  induction f generalizing owner p path with
  | nil => exact List.nodup_nil
  | node a children siblings ihc ihs =>
      have hroots := h.linked.nodup
      obtain ⟨-, hparent, -, hchildren, hsiblings⟩ := h
      have ha : Linked links.parent (some a) (a :: path) := ⟨rfl, hparent ▸ hpath⟩
      have hnot : a ∉ siblings.roots := (List.nodup_cons.mp hroots).1
      refine List.nodup_cons.mpr ⟨?_, List.nodup_append.mpr
        ⟨ihc hchildren ha, ihs hsiblings hpath, ?_⟩⟩
      · intro hmem
        rcases List.mem_append.mp hmem with hmem | hmem
        · -- A descendant of `a` has more ancestors than `a`.
          obtain ⟨l, r, -, hlinked, -⟩ := hchildren.ancestors ha hmem
          have hlength := congrArg List.length (ha.unique hlinked)
          simp at hlength
          omega
        · obtain ⟨l, r, hr, hlinked, -⟩ := hsiblings.ancestors hpath hmem
          have heq : [a] ++ path = (l ++ [r]) ++ path := by
            simpa using ha.unique hlinked
          have hlast := congrArg List.getLast? (List.append_cancel_right heq)
          obtain rfl : a = r := by simpa using hlast
          exact hnot hr
      · intro b hb c hc hbc
        subst hbc
        obtain ⟨l, r, -, hlinked, -⟩ := hchildren.ancestors ha hb
        obtain ⟨l', r', hr', hlinked', -⟩ := hsiblings.ancestors hpath hc
        have heq : (l ++ [r, a]) ++ path = (l' ++ [r']) ++ path := by
          simpa using hlinked.unique hlinked'
        have hinit := List.append_cancel_right heq
        have hlast := congrArg List.getLast? hinit
        obtain rfl : a = r' := by simpa using hlast
        exact hnot hr'

/-- In preorder a node is followed by its first child. -/
theorem Represents.head?_of_firstChild (h : f.Represents links owner p) {before after : List α}
    {a c : α} (ha : f.preorder = before ++ a :: after) (hfirst : links.firstChild a = some c) :
    after.head? = some c := by
  induction f generalizing owner p before after with
  | nil => simp at ha
  | node b children siblings ihc ihs =>
      obtain ⟨-, -, -, hchildren, hsiblings⟩ := h
      cases before with
      | nil =>
          obtain ⟨rfl, rfl⟩ := List.cons.inj ha
          rw [hfirst] at hchildren
          cases children with
          | nil => cases hchildren
          | node d children' siblings' => exact hchildren.1.symm
      | cons b' before =>
          obtain ⟨-, ha⟩ := List.cons.inj ha
          rcases List.append_eq_append_iff.mp ha with ⟨l, -, hright⟩ | ⟨l, hleft, hright⟩
          · exact ihs hsiblings hright
          · cases l with
            | nil =>
                exact ihs hsiblings (show siblings.preorder = [] ++ a :: after from hright.symm)
            | cons d l =>
                obtain ⟨rfl, hafter⟩ := List.cons.inj hright
                replace hafter : after = l ++ siblings.preorder := hafter
                rw [hafter, List.head?_append, ihc hchildren hleft]
                rfl

/-- The first node of a forest is the root of a tree. -/
theorem Represents.first {c : α} (h : f.Represents links owner (some c)) :
    c ∈ f.preorder ∧ links.parent c = some owner ∧ ∃ t ∈ f.trees, t.1 = c := by
  cases f with
  | nil => cases h
  | node b children siblings =>
      obtain rfl := Option.some.inj h.1
      exact ⟨List.mem_cons_self, h.2.1, _, List.mem_cons_self, rfl⟩

/-- The first child of a node is in the forest, and has the node as its parent. -/
theorem Represents.mem_of_firstChild (h : f.Represents links owner p) {a c : α}
    (ha : a ∈ f.preorder) (hfirst : links.firstChild a = some c) :
    c ∈ f.preorder ∧ links.parent c = some a := by
  induction f generalizing owner p with
  | nil => cases ha
  | node b children siblings ihc ihs =>
      obtain ⟨-, -, -, hchildren, hsiblings⟩ := h
      rw [preorder_node, List.mem_cons, List.mem_append] at ha
      rcases ha with rfl | ha | ha
      · rw [hfirst] at hchildren
        obtain ⟨hmem, hparent, -⟩ := hchildren.first
        exact ⟨by simp [hmem], hparent⟩
      · obtain ⟨hmem, hparent⟩ := ihc hchildren ha
        exact ⟨by simp [hmem], hparent⟩
      · obtain ⟨hmem, hparent⟩ := ihs hsiblings ha
        exact ⟨by simp [hmem], hparent⟩

/-- The next sibling of a node is in the forest, and has the same parent. -/
theorem Represents.mem_of_nextSibling (h : f.Represents links owner p) {a q : α}
    (ha : a ∈ f.preorder) (hnext : links.nextSibling a = some q) :
    q ∈ f.preorder ∧ links.parent q = links.parent a := by
  induction f generalizing owner p with
  | nil => cases ha
  | node b children siblings ihc ihs =>
      obtain ⟨-, hparent, -, hchildren, hsiblings⟩ := h
      rw [preorder_node, List.mem_cons, List.mem_append] at ha
      rcases ha with rfl | ha | ha
      · rw [hnext] at hsiblings
        obtain ⟨hmem, hsame, -⟩ := hsiblings.first
        exact ⟨by simp [hmem], hsame.trans hparent.symm⟩
      · obtain ⟨hmem, hsame⟩ := ihc hchildren ha
        exact ⟨by simp [hmem], hsame⟩
      · obtain ⟨hmem, hsame⟩ := ihs hsiblings ha
        exact ⟨by simp [hmem], hsame⟩

/-- The parent of a node is a node that has children, or the owner. -/
theorem Represents.parent_of_mem (h : f.Represents links owner p) {a : α} (ha : a ∈ f.preorder) :
    ∃ b, links.parent a = some b ∧
      (b = owner ∧ p ≠ none ∨ b ∈ f.preorder ∧ links.firstChild b ≠ none) := by
  induction f generalizing owner p with
  | nil => cases ha
  | node d children siblings ihc ihs =>
      obtain ⟨rfl, hparent, -, hchildren, hsiblings⟩ := h
      rw [preorder_node, List.mem_cons, List.mem_append] at ha
      rcases ha with rfl | ha | ha
      · exact ⟨owner, hparent, .inl ⟨rfl, Option.some_ne_none _⟩⟩
      · obtain ⟨b, hb, ⟨rfl, hfirst⟩ | ⟨hmem, hfirst⟩⟩ := ihc hchildren ha
        · exact ⟨b, hb, .inr ⟨by simp, hfirst⟩⟩
        · exact ⟨b, hb, .inr ⟨by simp [hmem], hfirst⟩⟩
      · obtain ⟨b, hb, ⟨rfl, -⟩ | ⟨hmem, hfirst⟩⟩ := ihs hsiblings ha
        · exact ⟨b, hb, .inl ⟨rfl, Option.some_ne_none _⟩⟩
        · exact ⟨b, hb, .inr ⟨by simp [hmem], hfirst⟩⟩

/-- A tree of the forest is a forest below its root, and the next sibling of its root is
the root of another tree. -/
theorem Represents.tree (h : f.Represents links owner p) {t : α × Forest α} (ht : t ∈ f.trees) :
    links.parent t.1 = some owner ∧ t.2.Represents links t.1 (links.firstChild t.1) ∧
      ∀ q, links.nextSibling t.1 = some q → ∃ t' ∈ f.trees, t'.1 = q := by
  induction f generalizing p with
  | nil => cases ht
  | node b children siblings _ ihs =>
      obtain ⟨-, hparent, -, hchildren, hsiblings⟩ := h
      rcases List.mem_cons.mp ht with rfl | ht
      · refine ⟨hparent, hchildren, fun q hq => ?_⟩
        have hnext : links.nextSibling b = some q := hq
        rw [hnext] at hsiblings
        obtain ⟨-, -, t', ht', rfl⟩ := hsiblings.first
        exact ⟨t', List.mem_cons_of_mem _ ht', rfl⟩
      · obtain ⟨hroot, hforest, hnext⟩ := ihs hsiblings ht
        refine ⟨hroot, hforest, fun q hq => ?_⟩
        obtain ⟨t', ht', rfl⟩ := hnext q hq
        exact ⟨t', List.mem_cons_of_mem _ ht', rfl⟩

end Represents

theorem fst_mem_roots {f : Forest α} {t : α × Forest α} (ht : t ∈ f.trees) : t.1 ∈ f.roots := by
  induction f with
  | nil => cases ht
  | node b children siblings _ ihs =>
      rcases List.mem_cons.mp ht with rfl | ht
      · exact List.mem_cons_self
      · exact List.mem_cons_of_mem _ (ihs ht)

theorem mem_preorder_of_tree {f : Forest α} {t : α × Forest α} (ht : t ∈ f.trees) {a : α}
    (ha : a = t.1 ∨ a ∈ t.2.preorder) : a ∈ f.preorder := by
  induction f with
  | nil => cases ht
  | node b children siblings _ ihs =>
      rcases List.mem_cons.mp ht with rfl | ht
      · rcases ha with rfl | ha
        · simp
        · simp [ha]
      · simp [ihs ht]

end Forest

end EfiApps
