/-
  The root of a list of chunks, as the root of a perfect tree.

  The tree has the chunks as its leaves, and after them as many chunks of zeros as it takes to make
  their number a power of two.  The rounds never build these leaves: a round appends one node at
  most, the root of an all-zero subtree as high as the layer.  One node is enough, because the
  padding of a padded layer pairs up with itself (`pairUp_append_replicate`), so that hashing the
  lowest two levels of the tree together (`PerfectTree.collapse`) leaves a layer that is padded in
  the same way, one level higher.

  That is also how the rounds are counted: each takes one level off the tree.
-/
import Mathlib.Algebra.GroupWithZero.Nat
import Mathlib.Data.Nat.Log
import Beacon.Hash.Merkle

namespace Beacon.Merkle

/-! ## Perfect trees -/

/-- Binary trees, by their height, with all leaves at the bottom. -/
inductive PerfectTree : Nat → Type where
  | leaf (chunk : Root) : PerfectTree 0
  | node {height : Nat} (left right : PerfectTree height) : PerfectTree (height + 1)

namespace PerfectTree

/-- The leaves from left to right. -/
def leaves : {height : Nat} → PerfectTree height → List Root
  | _, leaf chunk => [chunk]
  | _, node left right => left.leaves ++ right.leaves

/-- The root, where every node is the hash of the two below it. -/
def root (H : PairHash) : {height : Nat} → PerfectTree height → Root
  | _, leaf chunk => chunk
  | _, node left right => H (left.root H) (right.root H)

/-- The tree without its lowest level: two leaves with one parent are hashed into one. -/
def collapse (H : PairHash) : {height : Nat} → PerfectTree (height + 1) → PerfectTree height
  | 0, node (leaf x) (leaf y) => leaf (H x y)
  | _ + 1, node left right => node (left.collapse H) (right.collapse H)

theorem length_leaves {height : Nat} (tree : PerfectTree height) :
    tree.leaves.length = 2 ^ height := by
  induction tree with
  | leaf chunk => rfl
  | node left right ihleft ihright =>
    rw [leaves, List.length_append, ihleft, ihright]
    omega

/-- The leaves tell the tree. -/
theorem eq_of_leaves {height : Nat} (tree : PerfectTree height) :
    ∀ {other : PerfectTree height}, tree.leaves = other.leaves → tree = other := by
  induction tree with
  | leaf chunk =>
    intro other h
    cases other with
    | leaf chunk' => rw [(List.cons.inj h).1]
  | node left right ihleft ihright =>
    intro other h
    cases other with
    | node left' right' =>
      have hlength : left.leaves.length = left'.leaves.length := by
        rw [length_leaves, length_leaves]
      obtain ⟨hleft, hright⟩ := List.append_inj h hlength
      rw [ihleft hleft, ihright hright]

/-- Every list of the right length is the leaves of a tree. -/
theorem exists_of_leaves (height : Nat) :
    ∀ {xs : List Root}, xs.length = 2 ^ height → ∃ tree : PerfectTree height, tree.leaves = xs := by
  induction height with
  | zero =>
    intro xs h
    obtain ⟨x, rfl⟩ := List.length_eq_one_iff.mp h
    exact ⟨leaf x, rfl⟩
  | succ height ih =>
    intro xs h
    have hleft : (xs.take (2 ^ height)).length = 2 ^ height := by
      rw [List.length_take]
      omega
    have hright : (xs.drop (2 ^ height)).length = 2 ^ height := by
      rw [List.length_drop]
      omega
    obtain ⟨left, hleft⟩ := ih hleft
    obtain ⟨right, hright⟩ := ih hright
    refine ⟨node left right, ?_⟩
    rw [leaves, hleft, hright, List.take_append_drop]

theorem root_collapse (H : PairHash) {height : Nat} (tree : PerfectTree (height + 1)) :
    (tree.collapse H).root H = tree.root H := by
  fun_induction collapse H tree with
  | case1 x y => rfl
  | case2 height left right ihleft ihright => rw [root, root, ihleft, ihright]

end PerfectTree

/-! ## One round -/

/-- The first of two lists pairs up by itself if nothing of it is left over. -/
theorem pairUp_append (H : PairHash) (padding : Root) (xs ys : List Root)
    (h : xs.length % 2 = 0) :
    pairUp H padding (xs ++ ys) = pairUp H padding xs ++ pairUp H padding ys := by
  fun_induction pairUp H padding xs with
  | case1 => rfl
  | case2 x => exact absurd h Nat.one_ne_zero
  | case3 x y rest ih =>
    have hrest : rest.length % 2 = 0 := by
      rw [List.length_cons, List.length_cons] at h
      omega
    rw [List.cons_append, List.cons_append, pairUp, ih hrest, List.cons_append]

/-- The padding of a layer pairs up to the padding of the layer above. -/
theorem pairUp_replicate (H : PairHash) (padding : Root) (m : Nat) :
    pairUp H padding (List.replicate (2 * m) padding) =
      List.replicate m (H padding padding) := by
  induction m with
  | zero => rfl
  | succ m ih =>
    rw [Nat.mul_succ, List.replicate_succ, List.replicate_succ, pairUp, ih, List.replicate_succ]

/-- A padded layer pairs up to a padded layer: hashing a last node with one padding stands for
    hashing all of the padding. -/
theorem pairUp_append_replicate (H : PairHash) (padding : Root) (xs : List Root) {n : Nat}
    (h : xs.length ≤ 2 * n) :
    pairUp H padding (xs ++ List.replicate (2 * n - xs.length) padding) =
      pairUp H padding xs ++
        List.replicate (n - (pairUp H padding xs).length) (H padding padding) := by
  fun_induction pairUp H padding xs generalizing n with
  | case1 => exact pairUp_replicate H padding n
  | case2 x =>
    have hsplit : 2 * n - [x].length = 2 * (n - 1) + 1 := by
      rw [List.length_singleton] at h ⊢
      omega
    rw [hsplit, List.replicate_succ, List.singleton_append, pairUp, pairUp_replicate]
    rfl
  | case3 x y rest ih =>
    rw [List.length_cons, List.length_cons] at h ⊢
    have hsplit : 2 * n - (rest.length + 1 + 1) = 2 * (n - 1) - rest.length := by omega
    rw [hsplit, List.cons_append, List.cons_append, pairUp, ih (by omega), List.length_cons,
      List.cons_append, Nat.sub_sub, Nat.add_comm 1]

theorem PerfectTree.leaves_collapse (H : PairHash) (padding : Root) {height : Nat}
    (tree : PerfectTree (height + 1)) :
    (tree.collapse H).leaves = pairUp H padding tree.leaves := by
  fun_induction collapse H tree with
  | case1 x y => rfl
  | case2 height left right ihleft ihright =>
    have heven : left.leaves.length % 2 = 0 := by
      rw [length_leaves]
      omega
    rw [leaves, leaves, ihleft, ihright, pairUp_append H padding _ _ heven]

/-- Each round halves the number of nodes, and the logarithm counts how often that can be done. -/
theorem clog_length_pairUp (H : PairHash) (padding : Root) {xs : List Root} (h : 1 < xs.length) :
    Nat.clog 2 xs.length = Nat.clog 2 (pairUp H padding xs).length + 1 := by
  rw [Nat.clog_of_one_lt (by decide) h, length_pairUp]
  rfl

/-- The root of a layer is that of the tree over the padded layer. -/
theorem rootOfLayer_eq_root (H : PairHash) (padding : Root) (xs : List Root) :
    ∀ {height : Nat} (tree : PerfectTree height), height = Nat.clog 2 xs.length →
      tree.leaves = xs ++ List.replicate (2 ^ height - xs.length) padding →
      rootOfLayer H padding xs = tree.root H := by
  fun_induction rootOfLayer H padding xs with
  | case1 padding =>
    intro height tree hheight hleaves
    rw [List.length_nil, Nat.clog_zero_right] at hheight
    subst hheight
    cases tree
    exact (List.cons.inj hleaves).1.symm
  | case2 padding x =>
    intro height tree hheight hleaves
    rw [List.length_singleton, Nat.clog_one_right] at hheight
    subst hheight
    cases tree
    exact (List.cons.inj hleaves).1.symm
  | case3 padding x y rest ih =>
    intro height tree hheight hleaves
    have hlong : 1 < (x :: y :: rest).length := by
      rw [List.length_cons, List.length_cons]
      omega
    have hfits := Nat.le_pow_clog (b := 2) (by decide) (x :: y :: rest).length
    rw [← hheight] at hfits
    rw [clog_length_pairUp H padding hlong] at hheight
    subst hheight
    -- the tree above the lowest level is the tree over the next layer
    have hnext : (tree.collapse H).leaves = pairUp H padding (x :: y :: rest) ++
        List.replicate (2 ^ Nat.clog 2 (pairUp H padding (x :: y :: rest)).length -
          (pairUp H padding (x :: y :: rest)).length) (H padding padding) := by
      rw [Nat.pow_succ, Nat.mul_comm] at hfits hleaves
      rw [PerfectTree.leaves_collapse H padding, hleaves, pairUp_append_replicate H padding _ hfits]
    rw [ih (tree.collapse H) rfl hnext, PerfectTree.root_collapse]

/-! ## All rounds -/

/-- A layer, and the all-zero subtree of its height. -/
structure Layer where
  padding : Root
  nodes : List Root

/-- The layer of the chunks themselves. -/
def Layer.bottom (chunks : List Root) : Layer := ⟨zeroChunk, chunks⟩

/-- The layer above. -/
def Layer.next (H : PairHash) (layer : Layer) : Layer :=
  ⟨H layer.padding layer.padding, pairUp H layer.padding layer.nodes⟩

/-- The layer after some rounds. -/
def Layer.after (H : PairHash) (layer : Layer) : Nat → Layer
  | 0 => layer
  | rounds + 1 => (layer.next H).after H rounds

/-- A round leaves the root as it is. -/
theorem Layer.root_next (H : PairHash) {layer : Layer} (h : 1 < layer.nodes.length) :
    rootOfLayer H (layer.next H).padding (layer.next H).nodes =
      rootOfLayer H layer.padding layer.nodes := by
  obtain ⟨padding, _ | ⟨x, _ | ⟨y, rest⟩⟩⟩ := layer
  · nomatch h
  · exact absurd h (Nat.lt_irrefl 1)
  · conv => rhs; rw [rootOfLayer]
    rfl

theorem Layer.clog_next (H : PairHash) {layer : Layer} (h : 1 < layer.nodes.length) :
    Nat.clog 2 layer.nodes.length = Nat.clog 2 (layer.next H).nodes.length + 1 :=
  clog_length_pairUp H layer.padding h

/-- More than one node is left just as long as fewer rounds have been done than the logarithm of the
    number of nodes says. -/
theorem Layer.one_lt_length_after_iff (H : PairHash) (k : Nat) :
    ∀ layer : Layer,
      1 < (layer.after H k).nodes.length ↔ k < Nat.clog 2 layer.nodes.length := by
  induction k with
  | zero =>
    intro layer
    rw [Nat.lt_clog_iff_pow_lt (by decide)]
    rfl
  | succ k ih =>
    intro layer
    rw [after, ih]
    by_cases h : 1 < layer.nodes.length
    · rw [clog_next H h]
      exact (Nat.add_lt_add_iff_right).symm
    · have hnext : (layer.next H).nodes.length ≤ 1 := by
        show (pairUp H layer.padding layer.nodes).length ≤ 1
        rw [length_pairUp]
        omega
      rw [Nat.clog_of_right_le_one (Nat.le_of_not_lt h), Nat.clog_of_right_le_one hnext]
      omega

/-- After all rounds the root is what is left. -/
theorem Layer.nodes_after_clog (H : PairHash) (k : Nat) :
    ∀ layer : Layer, k = Nat.clog 2 layer.nodes.length → layer.nodes ≠ [] →
      (layer.after H k).nodes = [rootOfLayer H layer.padding layer.nodes] := by
  induction k with
  | zero =>
    intro layer hk hne
    have hshort : ¬ 1 < layer.nodes.length := fun h =>
      Nat.lt_irrefl 0 (hk ▸ (one_lt_length_after_iff H 0 layer).mp h)
    obtain ⟨padding, _ | ⟨x, _ | ⟨y, rest⟩⟩⟩ := layer
    · exact absurd rfl hne
    · rw [rootOfLayer]
      rfl
    · exact absurd (by rw [List.length_cons, List.length_cons]; omega) hshort
  | succ k ih =>
    intro layer hk hne
    have hlong : 1 < layer.nodes.length :=
      (one_lt_length_after_iff H 0 layer).mpr (hk ▸ Nat.succ_pos k)
    have hnext : (layer.next H).nodes ≠ [] := by
      rw [← List.length_pos_iff]
      show 0 < (pairUp H layer.padding layer.nodes).length
      rw [length_pairUp]
      omega
    rw [clog_next H hlong] at hk
    rw [after, ih _ (Nat.succ.inj hk) hnext, root_next H hlong]

/-- The chunks, and after them chunks of zeros up to the next power of two. -/
def padded (chunks : List Root) : List Root :=
  chunks ++ List.replicate (2 ^ Nat.clog 2 chunks.length - chunks.length) zeroChunk

theorem length_padded (chunks : List Root) :
    (padded chunks).length = 2 ^ Nat.clog 2 chunks.length := by
  have hfits := Nat.le_pow_clog (b := 2) (by decide) chunks.length
  rw [padded, List.length_append, List.length_replicate]
  omega

/-- There is one perfect tree over the padded chunks, and the root of the chunks is its root.  The
    rounds go on just as long as the logarithm of the number of chunks, rounded up, says, and then
    the root alone is left. -/
theorem merkleRoot_eq_perfectTree (H : PairHash) (chunks : List Root) :
    (∃! tree : PerfectTree (Nat.clog 2 chunks.length), tree.leaves = padded chunks) ∧
    (∀ tree : PerfectTree (Nat.clog 2 chunks.length), tree.leaves = padded chunks →
      merkleRoot H chunks = tree.root H) ∧
    (∀ k, 1 < ((Layer.bottom chunks).after H k).nodes.length ↔ k < Nat.clog 2 chunks.length) ∧
    (chunks ≠ [] → ((Layer.bottom chunks).after H (Nat.clog 2 chunks.length)).nodes =
      [merkleRoot H chunks]) ∧
    merkleRoot H [] = zeroChunk ∧ ∀ chunk, merkleRoot H [chunk] = chunk := by
  refine ⟨?_, ?_, ?_, ?_, ?_, ?_⟩
  · obtain ⟨tree, htree⟩ := PerfectTree.exists_of_leaves _ (length_padded chunks)
    exact ⟨tree, htree, fun other hother => other.eq_of_leaves (hother.trans htree.symm)⟩
  · exact fun tree htree => rootOfLayer_eq_root H zeroChunk chunks tree rfl htree
  · exact fun k => Layer.one_lt_length_after_iff H k (Layer.bottom chunks)
  · exact Layer.nodes_after_clog H _ (Layer.bottom chunks) rfl
  · rw [merkleRoot, rootOfLayer]
  · intro chunk
    rw [merkleRoot, rootOfLayer]

/-- Five chunks are padded to eight, but the last one is hashed with one node in each round. -/
example (H : PairHash) (a b c d e : Root) :
    merkleRoot H [a, b, c, d, e] =
      H (H (H a b) (H c d))
        (H (H e zeroChunk) (H zeroChunk zeroChunk)) := by
  cbv

end Beacon.Merkle
