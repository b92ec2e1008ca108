/-
  Equal roots, and the collision they come down to.

  The hash of a pair is an arbitrary function, so that roots of different records may well be
  equal.  What can be said is where that comes from: among the pairs of chunks that are hashed on
  the way to the two roots there are two different ones with one hash (`Collides`).

  The pairs are listed along the rounds (`Merkle.layerPairs`), for a record together with those of
  the records within it (`treePairs`).  The lists are complete: a root depends on the hashes of
  the listed pairs and on no others (`rootOfLayer_congr`, `treeRoot_congr`).  Going down the tree is
  an induction on the rounds: if a round has equal results for two layers of one length, either the
  layers are equal or two of the pairs hashed in it collide.
-/
import Beacon.Record

namespace Beacon

/-! ## Collisions -/

/-- Two different pairs among these have one hash. -/
def Collides (H : PairHash) (pairs : List (Root × Root)) : Prop :=
  ∃ p ∈ pairs, ∃ q ∈ pairs, p ≠ q ∧ H p.1 p.2 = H q.1 q.2

theorem Collides.mono {H : PairHash} {pairs more : List (Root × Root)} (h : Collides H pairs)
    (hsub : pairs ⊆ more) : Collides H more := by
  obtain ⟨p, hp, q, hq, hne, hash⟩ := h
  exact ⟨p, hsub hp, q, hsub hq, hne, hash⟩

/-- The pairs hashed for two things are among those of two larger ones. -/
theorem Collides.widen {H : PairHash} {ps qs ps' qs' : List (Root × Root)}
    (h : Collides H (ps ++ qs)) (hps : ps ⊆ ps') (hqs : qs ⊆ qs') : Collides H (ps' ++ qs') :=
  h.mono (List.append_subset.mpr
    ⟨List.subset_append_of_subset_left _ hps, List.subset_append_of_subset_right _ hqs⟩)

/-- Pairs that have equal hashes one by one are equal, or two of them collide. -/
theorem eq_or_collides_of_map {H : PairHash} (ps : List (Root × Root)) :
    ∀ {qs : List (Root × Root)},
      ps.map (fun p => H p.1 p.2) = qs.map (fun p => H p.1 p.2) →
      ps = qs ∨ Collides H (ps ++ qs) := by
  induction ps with
  | nil =>
    intro qs h
    exact Or.inl (List.map_eq_nil_iff.mp h.symm).symm
  | cons p ps ih =>
    intro qs h
    cases qs with
    | nil => nomatch h
    | cons q qs =>
      rw [List.map_cons, List.map_cons, List.cons.injEq] at h
      by_cases hpq : p = q
      · subst hpq
        rcases ih h.2 with rfl | hcollides
        · exact Or.inl rfl
        · refine Or.inr (hcollides.widen ?_ ?_)
          · exact List.subset_cons_self p ps
          · exact List.subset_cons_self p qs
      · exact Or.inr ⟨p, List.mem_append_left _ List.mem_cons_self, q,
          List.mem_append_right _ List.mem_cons_self, hpq, h.1⟩

/-! ## Down the rounds -/

namespace Merkle

/-- The pairs that one round hashes for a layer. -/
def roundPairs (padding : Root) : List Root → List (Root × Root)
  | [] => []
  | [x] => [(x, padding)]
  | x :: y :: rest => (x, y) :: roundPairs padding rest

/-- The pairs that are hashed on the way to the root of a layer: those of each round, and the
    padding with itself for the round after it. -/
def layerPairs (H : PairHash) (padding : Root) : List Root → List (Root × Root)
  | [] => []
  | [_] => []
  | x :: y :: rest =>
    roundPairs padding (x :: y :: rest) ++ (padding, padding) ::
      layerPairs H (H padding padding) (pairUp H padding (x :: y :: rest))
termination_by xs => xs.length
decreasing_by simp only [length_pairUp, List.length_cons]; omega

theorem pairUp_eq_map (H : PairHash) (padding : Root) (xs : List Root) :
    pairUp H padding xs = (roundPairs padding xs).map fun p => H p.1 p.2 := by
  fun_induction roundPairs padding xs with
  | case1 => rfl
  | case2 x => rfl
  | case3 x y rest ih => rw [pairUp, ih, List.map_cons]

theorem exists_eq_cons_cons {x x' : Root} {rest ys : List Root}
    (h : (x :: x' :: rest).length = ys.length) :
    ∃ y y' rest', ys = y :: y' :: rest' ∧ rest.length = rest'.length := by
  obtain ⟨y, ys, rfl⟩ := List.exists_cons_of_length_eq_add_one h.symm
  obtain ⟨y', rest', rfl⟩ := List.exists_cons_of_length_eq_add_one (Nat.succ.inj h).symm
  exact ⟨y, y', rest', rfl, Nat.succ.inj (Nat.succ.inj h)⟩

/-- The pairs of a round tell the layer. -/
theorem roundPairs_inj {padding : Root} (xs : List Root) :
    ∀ {ys : List Root}, xs.length = ys.length →
      roundPairs padding xs = roundPairs padding ys → xs = ys := by
  fun_induction roundPairs padding xs with
  | case1 =>
    intro ys hlength _
    exact (List.length_eq_zero_iff.mp hlength.symm).symm
  | case2 x =>
    intro ys hlength h
    obtain ⟨y, rfl⟩ := List.length_eq_one_iff.mp hlength.symm
    cases h
    rfl
  | case3 x x' rest ih =>
    intro ys hlength h
    obtain ⟨y, y', rest', rfl, hrest⟩ := exists_eq_cons_cons hlength
    rw [roundPairs, List.cons.injEq, Prod.mk.injEq] at h
    rw [h.1.1, h.1.2, ih hrest h.2]

/-- Layers of one length with equal roots are equal, or two of the pairs hashed collide. -/
theorem eq_or_collides_of_rootOfLayer {H : PairHash} (padding : Root) (xs : List Root) :
    ∀ {ys : List Root}, xs.length = ys.length →
      rootOfLayer H padding xs = rootOfLayer H padding ys →
      xs = ys ∨ Collides H (layerPairs H padding xs ++ layerPairs H padding ys) := by
  fun_induction layerPairs H padding xs with
  | case1 padding =>
    intro ys hlength _
    exact Or.inl (List.length_eq_zero_iff.mp hlength.symm).symm
  | case2 padding x =>
    intro ys hlength h
    obtain ⟨y, rfl⟩ := List.length_eq_one_iff.mp hlength.symm
    rw [rootOfLayer, rootOfLayer] at h
    exact Or.inl (congrArg ([·]) h)
  | case3 padding x x' rest ih =>
    intro ys hlength h
    obtain ⟨y, y', rest', rfl, -⟩ := exists_eq_cons_cons hlength
    rw [rootOfLayer, rootOfLayer] at h
    rw [layerPairs]
    have hrounds : (pairUp H padding (x :: x' :: rest)).length =
        (pairUp H padding (y :: y' :: rest')).length := by
      rw [length_pairUp, length_pairUp, hlength]
    rcases ih hrounds h with hround | hcollides
    · -- the layers above are equal: this round decides
      rw [pairUp_eq_map, pairUp_eq_map] at hround
      rcases eq_or_collides_of_map _ hround with hpairs | hcollides
      · exact Or.inl (roundPairs_inj _ hlength hpairs)
      · refine Or.inr (hcollides.widen ?_ ?_)
        · exact List.subset_append_left _ _
        · exact List.subset_append_left _ _
    · refine Or.inr (hcollides.widen ?_ ?_)
      · exact List.subset_append_of_subset_right _ (List.subset_cons_self _ _)
      · exact List.subset_append_of_subset_right _ (List.subset_cons_self _ _)

/-- The root of a layer depends on the hashes of the listed pairs only. -/
theorem rootOfLayer_congr {H H' : PairHash} (padding : Root) (xs : List Root)
    (h : ∀ p ∈ layerPairs H padding xs, H' p.1 p.2 = H p.1 p.2) :
    rootOfLayer H' padding xs = rootOfLayer H padding xs := by
  fun_induction layerPairs H padding xs with
  | case1 padding => rw [rootOfLayer, rootOfLayer]
  | case2 padding x => rw [rootOfLayer, rootOfLayer]
  | case3 padding x y rest ih =>
    have hround : pairUp H' padding (x :: y :: rest) = pairUp H padding (x :: y :: rest) := by
      rw [pairUp_eq_map, pairUp_eq_map]
      exact List.map_congr_left fun p hp => h p (List.mem_append_left _ hp)
    have hpadding : H' padding padding = H padding padding :=
      h (padding, padding) (List.mem_append_right _ List.mem_cons_self)
    rw [rootOfLayer, rootOfLayer, hround, hpadding]
    exact ih fun p hp => h p (List.mem_append_right _ (List.mem_cons_of_mem _ hp))

/-! ## Chunks -/

theorem fill_inj {n : Nat} {as bs : List UInt8} (hlength : as.length = bs.length)
    (hle : as.length ≤ n) (h : Bytes.fill n as = Bytes.fill n bs) : as = bs := by
  apply List.ext_getElem hlength
  intro i hi hi'
  have hn : i < n := by omega
  have hbyte : (Bytes.fill n as)[i] = (Bytes.fill n bs)[i] := by rw [h]
  simpa [Bytes.fill, hi, hi'] using hbyte

theorem chunkOfVersion_inj {v w : Version} (h : chunkOfVersion v = chunkOfVersion w) : v = w := by
  apply Vector.toList_inj.mp
  refine fill_inj ?_ ?_ h
  · rw [Vector.length_toList, Vector.length_toList]
  · rw [Vector.length_toList]
    decide

theorem toNat_byte (w : UInt64) {shift : UInt64} (h : shift.toNat < 64) :
    (w >>> shift).toUInt8.toNat = (w.toNat >>> shift.toNat) % 256 := by
  rw [UInt64.toNat_toUInt8, UInt64.toNat_shiftRight, Nat.mod_eq_of_lt h]

/-- The bytes of a word are its digits to the base 256, so that a word has other bytes than every
    other word. -/
theorem chunkOfWord_inj {v w : UInt64} (h : chunkOfWord v = chunkOfWord w) : v = w := by
  have hbytes : wordBytes v = wordBytes w := fill_inj rfl (by show 8 ≤ 32; omega) h
  have hdigit : ∀ shift ∈ ([0, 8, 16, 24, 32, 40, 48, 56] : List UInt64), shift.toNat < 64 →
      (v.toNat >>> shift.toNat) % 256 = (w.toNat >>> shift.toNat) % 256 := by
    intro shift hshift hlt
    rw [← toNat_byte v hlt, ← toNat_byte w hlt, List.map_inj_left.mp hbytes shift hshift]
  simp only [List.mem_cons, List.not_mem_nil, or_false, forall_eq_or_imp, forall_eq,
    UInt64.reduceToNat, Nat.reduceLT, Nat.shiftRight_eq_div_pow, Nat.reducePow, UInt64.toNat_zero,
    Nat.pow_zero, Nat.div_one, Nat.zero_lt_succ, forall_const] at hdigit
  have hv := v.toNat_lt
  have hw := w.toNat_lt
  apply UInt64.toNat_inj.mp
  omega

end Merkle

/-! ## Records -/

/-- Records whose chunks commit to them, with the pairs hashed for the records within them. -/
class Committing (α : Type) [Chunked α] where
  /-- The number of chunks, the same for every record. -/
  width : Nat
  inner : PairHash → α → List (Root × Root)
  length_chunks : ∀ (H : PairHash) (record : α), (Chunked.chunks H record).length = width
  /-- The chunks depend on the hashes of the pairs within only. -/
  chunks_congr : ∀ {H H' : PairHash} (record : α),
    (∀ p ∈ inner H record, H' p.1 p.2 = H p.1 p.2) →
      Chunked.chunks H' record = Chunked.chunks H record
  eq_or_collides : ∀ {H : PairHash} {a b : α}, Chunked.chunks H a = Chunked.chunks H b →
    a = b ∨ Collides H (inner H a ++ inner H b)

section Records

variable {α : Type} [Chunked α] [Committing α]

/-- The pairs hashed on the way to the root of a record. -/
def treePairs (H : PairHash) (record : α) : List (Root × Root) :=
  Committing.inner H record ++
    Merkle.layerPairs H Merkle.zeroChunk (Chunked.chunks H record)

/-- The root of a record depends on the hashes of the listed pairs only. -/
theorem treeRoot_congr {H H' : PairHash} (record : α)
    (h : ∀ p ∈ treePairs H record, H' p.1 p.2 = H p.1 p.2) :
    treeRoot H' record = treeRoot H record := by
  have hchunks : Chunked.chunks H' record = Chunked.chunks H record :=
    Committing.chunks_congr record fun p hp => h p (List.mem_append_left _ hp)
  unfold treeRoot merkleRoot
  rw [hchunks]
  exact Merkle.rootOfLayer_congr _ _ fun p hp => h p (List.mem_append_right _ hp)

/-- Records with equal roots are equal, or two of the pairs hashed collide. -/
theorem eq_or_collides_of_treeRoot {H : PairHash} {a b : α} (h : treeRoot H a = treeRoot H b) :
    a = b ∨ Collides H (treePairs H a ++ treePairs H b) := by
  have hlength : (Chunked.chunks H a).length = (Chunked.chunks H b).length := by
    rw [Committing.length_chunks, Committing.length_chunks]
  rcases Merkle.eq_or_collides_of_rootOfLayer Merkle.zeroChunk _ hlength h with hchunks | hlayers
  · rcases Committing.eq_or_collides hchunks with heq | hinner
    · exact Or.inl heq
    · refine Or.inr (hinner.widen ?_ ?_)
      · exact List.subset_append_left _ _
      · exact List.subset_append_left _ _
  · refine Or.inr (hlayers.widen ?_ ?_)
    · exact List.subset_append_right _ _
    · exact List.subset_append_right _ _

end Records

/-! Records of words and byte strings hash nothing within. -/

instance : Committing Checkpoint where
  width := 2
  inner _ _ := []
  length_chunks _ _ := rfl
  chunks_congr _ _ := rfl
  eq_or_collides := by
    rintro H ⟨epoch, root⟩ ⟨epoch', root'⟩ h
    simp only [Chunked.chunks, List.cons.injEq] at h
    rw [Merkle.chunkOfWord_inj h.1, h.2.1]
    exact Or.inl rfl

instance : Committing BlockHeader where
  width := 5
  inner _ _ := []
  length_chunks _ _ := rfl
  chunks_congr _ _ := rfl
  eq_or_collides := by
    rintro H ⟨slot, proposer, parent, state, body⟩ ⟨slot', proposer', parent', state', body'⟩ h
    simp only [Chunked.chunks, List.cons.injEq] at h
    rw [Merkle.chunkOfWord_inj h.1, Merkle.chunkOfWord_inj h.2.1, h.2.2.1, h.2.2.2.1, h.2.2.2.2.1]
    exact Or.inl rfl

instance : Committing VoluntaryExit where
  width := 2
  inner _ _ := []
  length_chunks _ _ := rfl
  chunks_congr _ _ := rfl
  eq_or_collides := by
    rintro H ⟨epoch, index⟩ ⟨epoch', index'⟩ h
    simp only [Chunked.chunks, List.cons.injEq] at h
    rw [Merkle.chunkOfWord_inj h.1, Merkle.chunkOfWord_inj h.2.1]
    exact Or.inl rfl

instance : Committing ForkData where
  width := 2
  inner _ _ := []
  length_chunks _ _ := rfl
  chunks_congr _ _ := rfl
  eq_or_collides := by
    rintro H ⟨version, root⟩ ⟨version', root'⟩ h
    simp only [Chunked.chunks, List.cons.injEq] at h
    rw [Merkle.chunkOfVersion_inj h.1, h.2.1]
    exact Or.inl rfl

instance : Committing SigningData where
  width := 2
  inner _ _ := []
  length_chunks _ _ := rfl
  chunks_congr _ _ := rfl
  eq_or_collides := by
    rintro H ⟨object, domain⟩ ⟨object', domain'⟩ h
    simp only [Chunked.chunks, List.cons.injEq] at h
    rw [h.1, h.2.1]
    exact Or.inl rfl

/-- A vote holds two checkpoints; an equal chunk for one of them is an equal root. -/
instance : Committing AttestationData where
  width := 5
  inner H data := treePairs H data.source ++ treePairs H data.target
  length_chunks _ _ := rfl
  chunks_congr := by
    intro H H' data h
    have hsource := treeRoot_congr data.source fun p hp => h p (List.mem_append_left _ hp)
    have htarget := treeRoot_congr data.target fun p hp => h p (List.mem_append_right _ hp)
    simp only [Chunked.chunks, hsource, htarget]
  eq_or_collides := by
    rintro H ⟨slot, index, block, source, target⟩ ⟨slot', index', block', source', target'⟩ h
    simp only [Chunked.chunks, List.cons.injEq] at h
    obtain ⟨hslot, hindex, rfl, hsource, htarget, -⟩ := h
    rcases eq_or_collides_of_treeRoot hsource with rfl | hcollides
    · rcases eq_or_collides_of_treeRoot htarget with rfl | hcollides
      · rw [Merkle.chunkOfWord_inj hslot, Merkle.chunkOfWord_inj hindex]
        exact Or.inl rfl
      · refine Or.inr (hcollides.widen ?_ ?_)
        · exact List.subset_append_right _ _
        · exact List.subset_append_right _ _
    · refine Or.inr (hcollides.widen ?_ ?_)
      · exact List.subset_append_left _ _
      · exact List.subset_append_left _ _

end Beacon
