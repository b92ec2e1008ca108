/-
  What is in the cache of keys after any use of it.

  The cache is a memory of its past: which key stands under an index depends on which bytes were
  first tried for it.  `triedFor` lists the bytes that a sequence of calls tries for an index, as
  they come, and the law of the whole cache is one equation (`get?_after`): the key is that of the
  first bytes of the list that can be decompressed.  All else is about one call.

  A load goes through the records in order, passes over those that are cached, and stops at the
  first that is not and gives no key (`obstacle?`).  Either there is none and all records are
  loaded, or those before it are (`LoadOutcome`).  That is shown by an induction from the end of the
  list: one more record comes to a load that has succeeded so far, or it is never looked at.
-/
import Mathlib.Data.List.Induction
import Beacon.KeyCache
import Beacon.Proofs.Action

namespace Beacon

open Beacon.Action

namespace KeyCache

variable {κ : Type} {decompress : KeyBytes → Option κ}

/-! ## Single keys -/

@[simp]
theorem get?_empty (i : Nat) : (empty : KeyCache κ).get? i = none :=
  Std.HashMap.getElem?_empty

theorem get?_insert (cache : KeyCache κ) (index : Nat) (key : κ) (i : Nat) :
    (cache.insert index key).get? i = if index = i then some key else cache.get? i := by
  unfold get? insert
  rw [Std.HashMap.getElem?_insert]
  simp only [beq_iff_eq]

/-! ## Calls -/

/-- A call that may fill the cache. -/
inductive Call where
  | obtain (index : Nat) (bytes : KeyBytes)
  | loadAll (records : List (Except AccessError Validator))

/-- Makes a call and forgets the key it gives. -/
def Call.perform (decompress : KeyBytes → Option κ) : Call → Action (KeyCache κ) Unit
  | obtain index bytes => do
    let _ ← KeyCache.obtain decompress index bytes
  | loadAll records => KeyCache.loadAll decompress records

/-- What calls leave in the cache, one after the other and whether they succeed or fail. -/
def after (decompress : KeyBytes → Option κ) (cache : KeyCache κ) (calls : List Call) :
    KeyCache κ :=
  calls.foldl (fun cache call => ((call.perform decompress).runOn cache).2) cache

/-! ## Records -/

/-- The bytes in a record, if it can be read. -/
def bytesAt (records : List (Except AccessError Validator)) (k : Nat) : Option KeyBytes :=
  match records[k]? with
  | some (.ok validator) => some validator.pubkey
  | _ => none

/-- Why a load cannot go past an index: nothing is cached there, and the record cannot be read or
    its bytes are no key. -/
def obstacle? (decompress : KeyBytes → Option κ) (cache : KeyCache κ)
    (records : List (Except AccessError Validator)) (k : Nat) : Option Failure :=
  match cache.get? k with
  | some _ => none
  | none =>
    match records[k]? with
    | some (.error cause) => some (.access cause)
    | some (.ok validator) =>
      if (decompress validator.pubkey).isSome then none
      else some (.access (.invalidPublicKey k))
    | none => none

/-- The records before `count` have been loaded: there is a key for each, the one cached before or
    else that of the record.  Everything from `count` on is as it was. -/
structure Loaded (decompress : KeyBytes → Option κ)
    (records : List (Except AccessError Validator)) (count : Nat) (before after : KeyCache κ) :
    Prop where
  below : ∀ k < count, (after.get? k).isSome ∧
    after.get? k = (before.get? k).or ((bytesAt records k).bind decompress)
  above : ∀ k, count ≤ k → after.get? k = before.get? k

/-- How a load may end: with all records loaded, or at the first obstacle with those before it
    loaded. -/
inductive LoadOutcome (decompress : KeyBytes → Option κ)
    (records : List (Except AccessError Validator)) (before : KeyCache κ) :
    Except Failure Unit × KeyCache κ → Prop where
  | done {after : KeyCache κ} (clear : ∀ k, obstacle? decompress before records k = none)
      (loaded : Loaded decompress records records.length before after) :
      LoadOutcome decompress records before (.ok (), after)
  | stopped {after : KeyCache κ} {failure : Failure} (k : Nat)
      (obstacle : obstacle? decompress before records k = some failure)
      (first : ∀ j < k, obstacle? decompress before records j = none)
      (loaded : Loaded decompress records k before after) :
      LoadOutcome decompress records before (.error failure, after)

/-! ## One load -/

theorem runOn_loadFrom_cons (index : Nat) (record : Except AccessError Validator)
    (records : List (Except AccessError Validator)) (cache : KeyCache κ) :
    (loadFrom decompress index (record :: records)).runOn cache =
      match cache.get? index, record with
      | some _, _ => (loadFrom decompress (index + 1) records).runOn cache
      | none, .error cause => (.error (.access cause), cache)
      | none, .ok validator =>
        match decompress validator.pubkey with
        | none => (.error (.access (.invalidPublicKey index)), cache)
        | some key => (loadFrom decompress (index + 1) records).runOn (cache.insert index key) := by
  conv => lhs; unfold loadFrom
  rw [runOn_bind, runOn_view]
  rcases hcached : cache.get? index with _ | key
  · rcases record with cause | validator
    · rfl
    · show (obtain decompress index validator.pubkey >>= fun _ => _).runOn cache = _
      unfold obtain
      rw [runOn_bind, runOn_ofRun, hcached]
      dsimp only
      rcases decompress validator.pubkey with _ | key
      · rfl
      · rfl
  · rfl

/-- A load goes through one part of the records and then, if it gets to its end, the other. -/
theorem runOn_loadFrom_append (front rest : List (Except AccessError Validator)) :
    ∀ (index : Nat) (cache : KeyCache κ),
      (loadFrom decompress index (front ++ rest)).runOn cache =
        match (loadFrom decompress index front).runOn cache with
        | (.ok _, t) => (loadFrom decompress (index + front.length) rest).runOn t
        | (.error failure, t) => (.error failure, t) := by
  induction front with
  | nil => exact fun _ _ => rfl
  | cons record front ih =>
    intro index cache
    rw [List.cons_append, runOn_loadFrom_cons, runOn_loadFrom_cons, List.length_cons,
      Nat.add_comm front.length, ← Nat.add_assoc]
    rcases cache.get? index with _ | key
    · rcases record with cause | validator
      · rfl
      · dsimp only
        rcases decompress validator.pubkey with _ | key
        · rfl
        · exact ih (index + 1) (cache.insert index key)
    · exact ih (index + 1) cache

/-- Where all are cached there is nothing to load. -/
theorem runOn_loadFrom_of_cached (records : List (Except AccessError Validator)) :
    ∀ {index : Nat} {cache : KeyCache κ},
      (∀ k < records.length, (cache.get? (index + k)).isSome) →
      (loadFrom decompress index records).runOn cache = (.ok (), cache) := by
  induction records with
  | nil => exact fun _ => rfl
  | cons record records ih =>
    intro index cache h
    obtain ⟨key, hkey⟩ := Option.isSome_iff_exists.mp (h 0 (Nat.succ_pos _))
    rw [Nat.add_zero] at hkey
    rw [runOn_loadFrom_cons, hkey]
    refine ih fun k hk => ?_
    rw [Nat.add_assoc, Nat.add_comm 1]
    exact h (k + 1) (Nat.succ_lt_succ hk)

/-! ## One record more -/

section

variable {records : List (Except AccessError Validator)} {record : Except AccessError Validator}
  {before after : KeyCache κ}

theorem bytesAt_append {k : Nat} (h : k < records.length) (rest) :
    bytesAt (records ++ rest) k = bytesAt records k := by
  unfold bytesAt
  rw [List.getElem?_append_left h]

theorem obstacle?_append {k : Nat} (h : k < records.length) (rest) :
    obstacle? decompress before (records ++ rest) k = obstacle? decompress before records k := by
  unfold obstacle?
  rw [List.getElem?_append_left h]

theorem obstacle?_eq_none_of_cached {k : Nat} (h : (before.get? k).isSome) :
    obstacle? decompress before records k = none := by
  obtain ⟨key, hkey⟩ := Option.isSome_iff_exists.mp h
  unfold obstacle?
  rw [hkey]

theorem obstacle?_eq_some_iff {k : Nat} {failure : Failure} :
    obstacle? decompress before records k = some failure ↔ before.get? k = none ∧
      ((∃ cause, records[k]? = some (.error cause) ∧ failure = .access cause) ∨
        ∃ validator, records[k]? = some (.ok validator) ∧ decompress validator.pubkey = none ∧
          failure = .access (.invalidPublicKey k)) := by
  unfold obstacle?
  rcases before.get? k with _ | _
  · rcases records[k]? with _ | cause | validator
    · simp
    · simp [eq_comm]
    · rcases hkey : decompress validator.pubkey with _ | key
      · simp [hkey, eq_comm]
      · simp [hkey]
  · simp

/-- There are no obstacles behind the end. -/
theorem lt_of_obstacle? {k : Nat} {failure : Failure}
    (h : obstacle? decompress before records k = some failure) : k < records.length := by
  obtain ⟨-, ⟨_, hrecord, -⟩ | ⟨_, hrecord, -⟩⟩ := obstacle?_eq_some_iff.mp h
  · exact (List.getElem?_eq_some_iff.mp hrecord).1
  · exact (List.getElem?_eq_some_iff.mp hrecord).1

/-- The bytes that stop a load give no key. -/
theorem bytesAt_of_obstacle? {k : Nat} {failure : Failure}
    (h : obstacle? decompress before records k = some failure) :
    (bytesAt records k).bind decompress = none := by
  unfold bytesAt
  obtain ⟨-, ⟨_, hrecord, -⟩ | ⟨_, hrecord, hkey, -⟩⟩ := obstacle?_eq_some_iff.mp h
  · rw [hrecord]
    rfl
  · rw [hrecord]
    exact hkey

/-- What stands in the way at the last record. -/
theorem obstacle?_last (decompress : KeyBytes → Option κ) (before : KeyCache κ)
    (records : List (Except AccessError Validator)) (record : Except AccessError Validator) :
    obstacle? decompress before (records ++ [record]) records.length =
    match before.get? records.length with
    | some _ => none
    | none =>
      match record with
      | .error cause => some (.access cause)
      | .ok validator =>
        if (decompress validator.pubkey).isSome then none
        else some (.access (.invalidPublicKey records.length)) := by
  unfold obstacle?
  rw [List.getElem?_append_right (Nat.le_refl _), Nat.sub_self, List.getElem?_cons_zero]
  rcases record with cause | validator
  · rfl
  · rfl

/-- If nothing stands in the way of the first records and of the last, nothing does. -/
theorem clear_append (hclear : ∀ k, obstacle? decompress before records k = none)
    (hlast : obstacle? decompress before (records ++ [record]) records.length = none) (k : Nat) :
    obstacle? decompress before (records ++ [record]) k = none := by
  rcases h : obstacle? decompress before (records ++ [record]) k with _ | failure
  · rfl
  have hk := lt_of_obstacle? h
  rw [List.length_append, List.length_singleton] at hk
  rcases Nat.lt_succ_iff_lt_or_eq.mp hk with hlt | rfl
  · rw [obstacle?_append hlt, hclear] at h
    nomatch h
  · rw [hlast] at h
    nomatch h

/-- What has been loaded is loaded of a longer list. -/
theorem Loaded.append {count : Nat} (h : Loaded decompress records count before after)
    (hcount : count ≤ records.length) (rest) :
    Loaded decompress (records ++ rest) count before after where
  below k hk := by
    rw [bytesAt_append (Nat.lt_of_lt_of_le hk hcount)]
    exact h.below k hk
  above := h.above

/-- One more record, which was cached before. -/
theorem Loaded.skip (h : Loaded decompress records records.length before after)
    (hcached : (before.get? records.length).isSome) (rest) :
    Loaded decompress (records ++ rest) (records.length + 1) before after where
  below k hk := by
    rcases Nat.lt_succ_iff_lt_or_eq.mp hk with hlt | rfl
    · exact (h.append (Nat.le_refl _) rest).below k hlt
    · obtain ⟨key, hkey⟩ := Option.isSome_iff_exists.mp hcached
      rw [h.above _ (Nat.le_refl _), hkey]
      exact ⟨rfl, rfl⟩
  above k hk := h.above k (Nat.le_of_succ_le hk)

/-- One more record, whose key is put into the cache. -/
theorem Loaded.add {validator : Validator} {key : κ} {rest}
    (h : Loaded decompress records records.length before after)
    (huncached : before.get? records.length = none)
    (hkey : decompress validator.pubkey = some key) :
    Loaded decompress (records ++ .ok validator :: rest) (records.length + 1) before
      (after.insert records.length key) where
  below k hk := by
    rw [get?_insert]
    rcases Nat.lt_succ_iff_lt_or_eq.mp hk with hlt | rfl
    · rw [if_neg (Nat.ne_of_gt hlt)]
      exact (h.append (Nat.le_refl _) _).below k hlt
    · have hbytes : bytesAt (records ++ .ok validator :: rest) records.length =
          some validator.pubkey := by
        unfold bytesAt
        rw [List.getElem?_append_right (Nat.le_refl _), Nat.sub_self, List.getElem?_cons_zero]
      rw [if_pos rfl, huncached, hbytes, Option.bind_some, hkey]
      exact ⟨rfl, rfl⟩
  above k hk := by
    rw [get?_insert, if_neg (Nat.ne_of_lt hk)]
    exact h.above k (Nat.le_of_succ_le hk)

end

/-- A load ends in one of the two ways. -/
theorem loadOutcome (records : List (Except AccessError Validator)) (cache : KeyCache κ) :
    LoadOutcome decompress records cache ((loadAll decompress records).runOn cache) := by
  induction records using List.reverseRecOn with
  | nil =>
    refine .done (fun k => ?_) ⟨fun k hk => absurd hk (Nat.not_lt_zero k), fun _ _ => rfl⟩
    rcases h : obstacle? decompress cache [] k with _ | failure
    · rfl
    · exact absurd (lt_of_obstacle? h) (Nat.not_lt_zero k)
  | append_singleton records record ih =>
    unfold loadAll at ih ⊢
    rw [runOn_loadFrom_append, Nat.zero_add]
    generalize (loadFrom decompress 0 records).runOn cache = run at ih
    cases ih with
    | stopped k obstacle first loaded =>
      -- the last record is not looked at
      have hk := lt_of_obstacle? obstacle
      refine .stopped k ?_ (fun j hj => ?_) (loaded.append (Nat.le_of_lt hk) _)
      · rw [obstacle?_append hk, obstacle]
      · rw [obstacle?_append (Nat.lt_trans hj hk), first j hj]
    | @done t clear loaded =>
      have hfirst : ∀ j < records.length,
          obstacle? decompress cache (records ++ [record]) j = none := fun j hj => by
        rw [obstacle?_append hj, clear j]
      have hlength : (records ++ [record]).length = records.length + 1 := List.length_append
      have hlast := obstacle?_last decompress cache records record
      dsimp only
      rw [runOn_loadFrom_cons, loaded.above records.length (Nat.le_refl _)]
      rcases hcached : cache.get? records.length with _ | key
      · rw [hcached] at hlast
        rcases record with cause | validator
        · exact .stopped records.length hlast hfirst (loaded.append (Nat.le_refl _) _)
        · dsimp only at hlast ⊢
          rcases hkey : decompress validator.pubkey with _ | key
          · rw [hkey] at hlast
            exact .stopped records.length hlast hfirst (loaded.append (Nat.le_refl _) _)
          · rw [hkey] at hlast
            exact .done (clear_append clear hlast) (hlength ▸ loaded.add hcached hkey)
      · have hpresent : (cache.get? records.length).isSome := by rw [hcached]; rfl
        exact .done (clear_append clear (obstacle?_eq_none_of_cached hpresent))
          (hlength ▸ loaded.skip hpresent [record])

/-- Records that have been loaded make no difference to a further load. -/
theorem runOn_loadAll_append {front rest : List (Except AccessError Validator)}
    {cache t : KeyCache κ} (h : (loadAll decompress front).runOn cache = (.ok (), t)) :
    (loadAll decompress (front ++ rest)).runOn t =
      (loadAll decompress (front ++ rest)).runOn cache := by
  have houtcome : LoadOutcome decompress front cache _ := loadOutcome front cache
  rw [h] at houtcome
  have hcached : ∀ k < front.length, (t.get? (0 + k)).isSome := by
    intro k hk
    cases houtcome with
    | done clear loaded =>
      rw [Nat.zero_add]
      exact (loaded.below k hk).1
  unfold loadAll at h ⊢
  rw [runOn_loadFrom_append, runOn_loadFrom_append, h, runOn_loadFrom_of_cached front hcached]

/-! ## Many calls -/

/-- The bytes that a call tries for an index.  A load gets to an index if no earlier one stands in
    its way. -/
def Call.bytesFor (decompress : KeyBytes → Option κ) (cache : KeyCache κ) (i : Nat) :
    Call → Option KeyBytes
  | obtain index bytes => if index = i then some bytes else none
  | loadAll records =>
    if ∀ j < i, obstacle? decompress cache records j = none then bytesAt records i else none

/-- All bytes that a sequence of calls tries for an index, as they come. -/
def triedFor (decompress : KeyBytes → Option κ) (i : Nat) : KeyCache κ → List Call → List KeyBytes
  | _, [] => []
  | cache, call :: calls =>
    (call.bytesFor decompress cache i).toList ++
      triedFor decompress i ((call.perform decompress).runOn cache).2 calls

theorem runOn_perform_obtain (index : Nat) (bytes : KeyBytes) (cache : KeyCache κ) :
    (((Call.obtain index bytes).perform decompress).runOn cache).2 =
      match cache.get? index, decompress bytes with
      | none, some key => cache.insert index key
      | _, _ => cache := by
  show ((obtain decompress index bytes >>= fun _ => pure ()).runOn cache).2 = _
  unfold obtain
  rw [runOn_bind, runOn_ofRun]
  rcases cache.get? index with _ | key
  · rcases decompress bytes with _ | key
    · rfl
    · rfl
  · rfl

theorem bytesFor_of_reached {cache : KeyCache κ} {records : List (Except AccessError Validator)}
    {i : Nat} (h : ∀ j < i, obstacle? decompress cache records j = none) :
    (Call.loadAll records).bytesFor decompress cache i = bytesAt records i :=
  if_pos h

theorem bytesFor_of_obstacle {cache : KeyCache κ} {records : List (Except AccessError Validator)}
    {i k : Nat} {failure : Failure} (hk : k < i)
    (h : obstacle? decompress cache records k = some failure) :
    (Call.loadAll records).bytesFor decompress cache i = none := by
  refine if_neg fun hclear => ?_
  rw [hclear k hk] at h
  nomatch h

/-- What one call does to an index: nothing if it is cached, and else it caches the key of the bytes
    tried, if they are one. -/
theorem get?_perform (call : Call) (cache : KeyCache κ) (i : Nat) :
    ((call.perform decompress).runOn cache).2.get? i =
      (cache.get? i).or ((call.bytesFor decompress cache i).bind decompress) := by
  cases call with
  | obtain index bytes =>
    rw [runOn_perform_obtain]
    show _ = (cache.get? i).or ((if index = i then some bytes else none).bind decompress)
    by_cases hi : index = i
    · subst hi
      rw [if_pos rfl, Option.bind_some]
      rcases hcached : cache.get? index with _ | key
      · rcases decompress bytes with _ | key
        · exact hcached
        · rw [get?_insert, if_pos rfl]
          rfl
      · exact hcached
    · rw [if_neg hi, Option.bind_none, Option.or_none]
      split
      · rw [get?_insert, if_neg hi]
      · rfl
  | loadAll records =>
    have houtcome : LoadOutcome decompress records cache _ := loadOutcome records cache
    show ((loadAll decompress records).runOn cache).2.get? i = _
    generalize (loadAll decompress records).runOn cache = run at houtcome
    cases houtcome with
    | done clear loaded =>
      rw [bytesFor_of_reached fun j _ => clear j]
      rcases Nat.lt_or_ge i records.length with hlt | hge
      · exact (loaded.below i hlt).2
      · have hbytes : bytesAt records i = none := by
          unfold bytesAt
          rw [List.getElem?_eq_none hge]
        rw [hbytes, Option.bind_none, Option.or_none]
        exact loaded.above i hge
    | stopped k obstacle first loaded =>
      rcases Nat.lt_trichotomy i k with hlt | rfl | hgt
      · rw [bytesFor_of_reached fun j hj => first j (Nat.lt_trans hj hlt)]
        exact (loaded.below i hlt).2
      · rw [bytesFor_of_reached first, bytesAt_of_obstacle? obstacle, Option.or_none]
        exact loaded.above i (Nat.le_refl i)
      · rw [bytesFor_of_obstacle hgt obstacle, Option.bind_none, Option.or_none]
        exact loaded.above i (Nat.le_of_lt hgt)

/-- The law of the cache: what is there stays, and to that comes the key of the first bytes tried
    that are one. -/
theorem get?_after (calls : List Call) (i : Nat) :
    ∀ cache : KeyCache κ, (after decompress cache calls).get? i =
      (cache.get? i).or ((triedFor decompress i cache calls).findSome? decompress) := by
  induction calls with
  | nil =>
    intro cache
    rw [triedFor, List.findSome?_nil, Option.or_none]
    rfl
  | cons call calls ih =>
    intro cache
    have hcall : (call.bytesFor decompress cache i).toList.findSome? decompress =
        (call.bytesFor decompress cache i).bind decompress := by
      rcases call.bytesFor decompress cache i with _ | bytes
      · rfl
      · show (match decompress bytes with | some key => some key | none => none) = decompress bytes
        rcases decompress bytes with _ | key
        · rfl
        · rfl
    rw [triedFor, List.findSome?_append, hcall, ← Option.or_assoc, ← get?_perform]
    exact ih _

theorem after_append (cache : KeyCache κ) (calls more : List Call) :
    after decompress cache (calls ++ more) = after decompress (after decompress cache calls) more :=
  List.foldl_append

/-- However a cache has been filled from nothing, by calls that succeeded or failed:
    * what is in it stays;
    * under every index stands the key of the first bytes tried for it that are one;
    * a load leaves a key for every record and nothing else changed, or it names the first record
      that is not cached and gives no key and has loaded those before it;
    * having loaded the front of a registry makes no difference to loading all of it. -/
theorem keeps_first_keys (decompress : KeyBytes → Option κ) (calls : List Call) :
    (∀ more i key, (after decompress empty calls).get? i = some key →
      (after decompress empty (calls ++ more)).get? i = some key) ∧
    (∀ i, (after decompress empty calls).get? i =
      (triedFor decompress i empty calls).findSome? decompress) ∧
    (∀ records, LoadOutcome decompress records (after decompress empty calls)
      ((loadAll decompress records).runOn (after decompress empty calls))) ∧
    ∀ front rest t,
      (loadAll decompress front).runOn (after decompress empty calls) = (.ok (), t) →
        (loadAll decompress (front ++ rest)).runOn t =
          (loadAll decompress (front ++ rest)).runOn (after decompress empty calls) := by
  refine ⟨fun more i key h => ?_, fun i => ?_, fun records => ?_, fun front rest t h => ?_⟩
  · rw [after_append, get?_after, h, Option.some_or]
  · rw [get?_after, get?_empty, Option.none_or]
  · exact loadOutcome records _
  · exact runOn_loadAll_append h

/-! ### A load that fails, and one that does not -/

/-- Stands for decompression: the first byte is the key, and zero is none. -/
def firstByte (bytes : KeyBytes) : Option UInt8 := if bytes[0] = 0 then none else some bytes[0]

/-- The bytes that begin with this one. -/
def spelling (first : UInt8) : KeyBytes := (Bytes.zero 48).set 0 first

/-- A record with these bytes in it. -/
def keyed (first : UInt8) : Except AccessError Validator :=
  .ok { (default : Validator) with pubkey := spelling first }

/-- The second record cannot be read, and the third gives no key. -/
def damaged : List (Except AccessError Validator) :=
  [keyed 3, .error (.foreign "unreadable"), keyed 0]

/-- All of these give a key. -/
def mended : List (Except AccessError Validator) := [keyed 8, keyed 9, keyed 7]

theorem after_obtain_spelling :
    after firstByte empty [.obtain 1 (spelling 5)] = empty.insert 1 5 := by
  show (((Call.obtain 1 (spelling 5)).perform firstByte).runOn empty).2 = _
  rw [runOn_perform_obtain, get?_empty]
  rfl

theorem runOn_loadAll_damaged : (loadAll firstByte damaged).runOn (empty.insert 1 5) =
    (.error (.access (.invalidPublicKey 2)), (empty.insert 1 5).insert 0 3) := by
  simp [loadAll, damaged, runOn_loadFrom_cons, get?_insert, keyed, spelling, firstByte]

theorem after_damaged : after firstByte empty [.obtain 1 (spelling 5), .loadAll damaged] =
    (empty.insert 1 5).insert 0 3 := by
  show ((loadAll firstByte damaged).runOn (after firstByte empty [.obtain 1 (spelling 5)])).2 = _
  rw [after_obtain_spelling, runOn_loadAll_damaged]

theorem triedFor_mended (rest : List (Except AccessError Validator)) :
    triedFor firstByte 2 empty
        [.obtain 1 (spelling 5), .loadAll damaged, .loadAll (mended ++ rest)] =
      [spelling 0, spelling 7] := by
  have hreached : ∀ j < 2, obstacle? firstByte (empty.insert 1 5) damaged j = none := by
    intro j hj
    rcases j with _ | _ | j
    · simp [obstacle?, damaged, get?_insert, keyed, spelling, firstByte]
    · simp [obstacle?, get?_insert]
    · omega
  have hcached : ∀ j < 2, obstacle? firstByte ((empty.insert 1 5).insert 0 3) (mended ++ rest) j =
      none := by
    intro j hj
    refine obstacle?_eq_none_of_cached ?_
    rcases j with _ | _ | j
    · simp [get?_insert]
    · simp [get?_insert]
    · omega
  show [] ++ ((Call.loadAll damaged).bytesFor firstByte
      (after firstByte empty [.obtain 1 (spelling 5)]) 2).toList ++
    (((Call.loadAll (mended ++ rest)).bytesFor firstByte
      (after firstByte empty [.obtain 1 (spelling 5), .loadAll damaged]) 2).toList ++ []) = _
  rw [after_obtain_spelling, after_damaged, bytesFor_of_reached hreached,
    bytesFor_of_reached hcached]
  rfl

/-- A key is asked for and cached.  The load after it passes over the record that cannot be read and
    fails at the one that gives no key.  Given other bytes for this one, the front of the registry can
    be loaded and then all of it; the keys that were there before stay. -/
theorem keeps_first_keys_mended :
    let asked := after firstByte empty [.obtain 1 (spelling 5)]
    let calls : List Call := [.obtain 1 (spelling 5), .loadAll damaged]
    let cache := after firstByte empty calls
    let later := after firstByte empty (calls ++ [.loadAll (mended ++ [keyed 6])])
    LoadOutcome firstByte damaged asked (.error (.access (.invalidPublicKey 2)), cache) ∧
    cache.get? 0 = some 3 ∧ cache.get? 1 = some 5 ∧ cache.get? 2 = none ∧
    (∃ t, (loadAll firstByte mended).runOn cache = (.ok (), t) ∧
      (loadAll firstByte (mended ++ [keyed 6])).runOn t =
        (loadAll firstByte (mended ++ [keyed 6])).runOn cache) ∧
    later.get? 0 = some 3 ∧ later.get? 1 = some 5 ∧ later.get? 2 = some 7 := by
  intro asked calls cache later
  obtain ⟨-, -, houtcome, -⟩ := keeps_first_keys firstByte [.obtain 1 (spelling 5)]
  obtain ⟨hkeeps, -, -, hfront⟩ := keeps_first_keys firstByte calls
  obtain ⟨-, hfirst, -, -⟩ :=
    keeps_first_keys firstByte (calls ++ [.loadAll (mended ++ [keyed 6])])
  have hasked : asked = empty.insert 1 5 := after_obtain_spelling
  have hcache : cache = (empty.insert 1 5).insert 0 3 := after_damaged
  have hzero : cache.get? 0 = some 3 := by rw [hcache]; simp [get?_insert]
  have hone : cache.get? 1 = some 5 := by rw [hcache]; simp [get?_insert]
  have hloaded : (loadAll firstByte mended).runOn cache = (.ok (), cache.insert 2 7) := by
    rw [hcache]
    simp [loadAll, mended, runOn_loadFrom_cons, get?_insert, keyed, spelling, firstByte]
    rfl
  refine ⟨?_, hzero, hone, ?_, ⟨_, hloaded, hfront _ _ _ hloaded⟩, hkeeps _ _ _ hzero,
    hkeeps _ _ _ hone, ?_⟩
  · have hrun : (loadAll firstByte damaged).runOn asked =
        (.error (.access (.invalidPublicKey 2)), cache) := by
      rw [hasked, hcache, runOn_loadAll_damaged]
    exact hrun ▸ houtcome damaged
  · rw [hcache]
    simp [get?_insert]
  · exact (hfirst 2).trans (congrArg (List.findSome? firstByte) (triedFor_mended [keyed 6]))

end KeyCache

end Beacon
