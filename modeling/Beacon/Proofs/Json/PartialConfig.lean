/-
  A configuration of which only some fields are given.

  `Config.contents` lists what the fields of a configuration hold, under the keys of the written
  form.  An object describes a configuration (`Config.Describes`) if every field that it gives at
  all, it gives once and with what the configuration holds there; the fields may stand in any order,
  integers in any of their spellings, and members under other keys can be anything.

  Reading walks the table `Config.fields`.  Row by row this is the list of the contents
  (`fields_hold`), so that each field is found under its own key and put back into its own place.  A
  field that is given is then replaced as by what would be written for it, and one that is not keeps
  the default (`replaceFields_given`).

  An overlay reads the members that are given anew together with those of the written form that are
  not.  All fields are given then, so that none falls back to its default (`overlay?_of_describes`).
-/
import Mathlib.Data.List.Forall2
import Mathlib.Data.List.Nodup
import Beacon.Proofs.Json.Integers

namespace Beacon

namespace Config

/-! ## What the fields hold -/

/-- What a field of a configuration holds. -/
inductive Content where
  | text (text : String)
  | version (version : Version)
  | word (word : UInt64)
  | divisor (divisor : Divisor)

/-- The JSON values that stand for the content of a field. -/
inductive Content.SpelledBy : Content → Json → Prop
  | text (text : String) : SpelledBy (.text text) (.ofString text)
  | version (version : Version) : SpelledBy (.version version) (.ofString version.toHex)
  | word {word : UInt64} {value : Json} : value.Spells word.toNat → SpelledBy (.word word) value
  | divisor {divisor : Divisor} {value : Json} : value.Spells divisor.val.toNat →
      SpelledBy (.divisor divisor) value

/-- The keys of a configuration, and what it holds under each of them. -/
def contents (config : Config) : List (String × Content) :=
  [("CONFIG_NAME", .text config.configName),
   ("GENESIS_FORK_VERSION", .version config.genesisForkVersion),
   ("SLOTS_PER_EPOCH", .divisor config.slotsPerEpoch),
   ("SLOTS_PER_HISTORICAL_ROOT", .divisor config.slotsPerHistoricalRoot),
   ("MAX_SEED_LOOKAHEAD", .word config.maxSeedLookahead),
   ("MIN_EPOCHS_TO_INACTIVITY_PENALTY", .word config.minEpochsToInactivityPenalty),
   ("MIN_VALIDATOR_WITHDRAWABILITY_DELAY", .word config.minValidatorWithdrawabilityDelay),
   ("SHARD_COMMITTEE_PERIOD", .word config.shardCommitteePeriod),
   ("EPOCHS_PER_SLASHINGS_VECTOR", .divisor config.epochsPerSlashingsVector),
   ("MAX_VALIDATORS_PER_COMMITTEE", .divisor config.maxValidatorsPerCommittee),
   ("EFFECTIVE_BALANCE_INCREMENT", .divisor config.effectiveBalanceIncrement),
   ("EJECTION_BALANCE", .word config.ejectionBalance),
   ("MAX_EFFECTIVE_BALANCE", .word config.maxEffectiveBalance),
   ("BASE_REWARD_FACTOR", .word config.baseRewardFactor),
   ("INACTIVITY_PENALTY_QUOTIENT", .divisor config.inactivityPenaltyQuotient),
   ("MIN_SLASHING_PENALTY_QUOTIENT", .divisor config.minSlashingPenaltyQuotient),
   ("PROPORTIONAL_SLASHING_MULTIPLIER", .word config.proportionalSlashingMultiplier),
   ("PROPOSER_REWARD_QUOTIENT", .divisor config.proposerRewardQuotient),
   ("WHISTLEBLOWER_REWARD_QUOTIENT", .divisor config.whistleblowerRewardQuotient),
   ("CHURN_LIMIT_QUOTIENT", .divisor config.churnLimitQuotient),
   ("MIN_PER_EPOCH_CHURN_LIMIT", .word config.minPerEpochChurnLimit)]

/-- The keys of all configurations. -/
def keys : List String := default.contents.map Prod.fst

/-- What a configuration holds in a field if its key is given, and the default otherwise. -/
def ifGiven {α : Type} (config : Config) (given : List String) (key : String)
    (get : Config → α) : α :=
  if key ∈ given then get config else get default

/-- The fields of a configuration that stand under these keys, on top of the defaults. -/
def onDefault (config : Config) (given : List String) : Config where
  configName := config.ifGiven given "CONFIG_NAME" configName
  genesisForkVersion := config.ifGiven given "GENESIS_FORK_VERSION" genesisForkVersion
  slotsPerEpoch := config.ifGiven given "SLOTS_PER_EPOCH" slotsPerEpoch
  slotsPerHistoricalRoot := config.ifGiven given "SLOTS_PER_HISTORICAL_ROOT" slotsPerHistoricalRoot
  maxSeedLookahead := config.ifGiven given "MAX_SEED_LOOKAHEAD" maxSeedLookahead
  minEpochsToInactivityPenalty :=
    config.ifGiven given "MIN_EPOCHS_TO_INACTIVITY_PENALTY" minEpochsToInactivityPenalty
  minValidatorWithdrawabilityDelay :=
    config.ifGiven given "MIN_VALIDATOR_WITHDRAWABILITY_DELAY" minValidatorWithdrawabilityDelay
  shardCommitteePeriod := config.ifGiven given "SHARD_COMMITTEE_PERIOD" shardCommitteePeriod
  epochsPerSlashingsVector :=
    config.ifGiven given "EPOCHS_PER_SLASHINGS_VECTOR" epochsPerSlashingsVector
  maxValidatorsPerCommittee :=
    config.ifGiven given "MAX_VALIDATORS_PER_COMMITTEE" maxValidatorsPerCommittee
  effectiveBalanceIncrement :=
    config.ifGiven given "EFFECTIVE_BALANCE_INCREMENT" effectiveBalanceIncrement
  ejectionBalance := config.ifGiven given "EJECTION_BALANCE" ejectionBalance
  maxEffectiveBalance := config.ifGiven given "MAX_EFFECTIVE_BALANCE" maxEffectiveBalance
  baseRewardFactor := config.ifGiven given "BASE_REWARD_FACTOR" baseRewardFactor
  inactivityPenaltyQuotient :=
    config.ifGiven given "INACTIVITY_PENALTY_QUOTIENT" inactivityPenaltyQuotient
  minSlashingPenaltyQuotient :=
    config.ifGiven given "MIN_SLASHING_PENALTY_QUOTIENT" minSlashingPenaltyQuotient
  proportionalSlashingMultiplier :=
    config.ifGiven given "PROPORTIONAL_SLASHING_MULTIPLIER" proportionalSlashingMultiplier
  proposerRewardQuotient := config.ifGiven given "PROPOSER_REWARD_QUOTIENT" proposerRewardQuotient
  whistleblowerRewardQuotient :=
    config.ifGiven given "WHISTLEBLOWER_REWARD_QUOTIENT" whistleblowerRewardQuotient
  churnLimitQuotient := config.ifGiven given "CHURN_LIMIT_QUOTIENT" churnLimitQuotient
  minPerEpochChurnLimit := config.ifGiven given "MIN_PER_EPOCH_CHURN_LIMIT" minPerEpochChurnLimit

/-- These members give some of the fields of a configuration, each of them once.  Members under
    other keys can be anything, and there may be any number of them. -/
structure Describes (config : Config) (members : List (String × Json)) : Prop where
  once : ∀ key ∈ keys, (members.map Prod.fst).count key ≤ 1
  given : ∀ key value, (key, value) ∈ members → key ∈ keys →
    ∃ content, (key, content) ∈ config.contents ∧ content.SpelledBy value

/-! ## The table of the fields -/

/-- A field of the table that is read as this content is, and holds it. -/
inductive Holds (config : Config) : Field → Content → Prop
  | text (key : String) (get : Config → String) (set : Config → String → Config) :
      Holds config (field key get set) (.text (get config))
  | version (key : String) (get : Config → Version) (set : Config → Version → Config) :
      Holds config (field key get set) (.version (get config))
  | word (key : String) (get : Config → UInt64) (set : Config → UInt64 → Config) :
      Holds config (field key get set) (.word (get config))
  | divisor (key : String) (get : Config → Divisor) (set : Config → Divisor → Config) :
      Holds config (field key get set) (.divisor (get config))

/-- The table and the contents have the same rows. -/
theorem fields_hold (config : Config) :
    List.Forall₂ (fun f entry => f.key = entry.1 ∧ Holds config f entry.2) fields
      config.contents := by
  unfold fields contents
  repeat' constructor

/-- What stands in the second of two lists with the same rows has its row in the first. -/
theorem exists_row {α β : Type} {R : α → β → Prop} {as : List α} {bs : List β}
    (h : List.Forall₂ R as bs) {b : β} (hb : b ∈ bs) : ∃ a ∈ as, R a b := by
  induction h with
  | nil => cases hb
  | cons hrow _ ih =>
    rcases List.mem_cons.mp hb with rfl | hlater
    · exact ⟨_, List.mem_cons_self, hrow⟩
    · obtain ⟨a, ha, hrow⟩ := ih hlater
      exact ⟨a, List.mem_cons_of_mem _ ha, hrow⟩

theorem exists_field {config : Config} {key : String} {content : Content}
    (h : (key, content) ∈ config.contents) : ∃ f ∈ fields, f.key = key ∧ Holds config f content :=
  exists_row (fields_hold config) h

theorem exists_content (config : Config) {f : Field} (hf : f ∈ fields) :
    ∃ content, (f.key, content) ∈ config.contents ∧ Holds config f content := by
  obtain ⟨⟨_, content⟩, hentry, rfl, hholds⟩ := exists_row (fields_hold config).flip hf
  exact ⟨content, hentry, hholds⟩

/-- In whatever way the content of a field is spelt, it is read as what would be written for it. -/
theorem Holds.replace_eq {config : Config} {f : Field} {content : Content}
    (h : Holds config f content) {value : Json} (hvalue : content.SpelledBy value)
    (target : Config) : f.replace target value = f.replace target (f.write config) := by
  cases h with
  | text key get set =>
    cases hvalue
    rfl
  | version key get set =>
    cases hvalue
    rfl
  | word key get set =>
    cases hvalue with
    | word hvalue =>
      rw [replace_write]
      show (value.read? UInt64).map (set target) = _
      rw [Json.read?_word_eq_some_iff.mpr hvalue, Option.map_some]
  | divisor key get set =>
    cases hvalue with
    | divisor hvalue =>
      rw [replace_write]
      show (value.read? Divisor).map (set target) = _
      rw [Json.read?_divisor_eq_some_iff.mpr hvalue, Option.map_some]

/-- What spells zero is not put into the place of a divisor. -/
theorem Holds.replace_eq_none {config : Config} {f : Field} {d : Divisor}
    (h : Holds config f (.divisor d)) {value : Json} (hvalue : value.Spells 0) (target : Config) :
    f.replace target value = none := by
  cases h with
  | divisor key get set =>
    show (value.read? Divisor).map (set target) = none
    have hnone : value.read? Divisor = none :=
      Json.read?_divisor_eq_none_iff.mpr fun n hn => .inl (hn.unique hvalue)
    rw [hnone, Option.map_none]

/-! ## Replacing the given fields -/

/-- Given fields may be written anew. -/
theorem replaceFields_given {table : List Field} {get? : Field → Option Json} {given : List String}
    {config : Config}
    (h : ∀ f ∈ table, (get? f = none ∧ f.key ∉ given) ∨
      ∃ value, get? f = some value ∧ f.key ∈ given ∧
        ∀ target, f.replace target value = f.replace target (f.write config))
    (target : Config) :
    replaceFields target (table.map fun f => (f, get? f)) =
      replaceFields target
        (table.map fun f => (f, if f.key ∈ given then some (f.write config) else none)) := by
  induction table generalizing target with
  | nil => rfl
  | cons f table ih =>
    have hrest := fun target => ih (fun f hf => h f (List.mem_cons_of_mem _ hf)) target
    rw [List.map_cons, List.map_cons]
    rcases h f List.mem_cons_self with ⟨hget, hkey⟩ | ⟨value, hget, hkey, hreplace⟩
    · rw [hget, if_neg hkey]
      exact hrest target
    · rw [hget, if_pos hkey]
      simp only [replaceFields, hreplace, hrest]

/-- One row of the table after the other. -/
theorem replaceFields_field {α : Type} [JsonForm α] [LawfulForm α] {key : String}
    {get : Config → α} {set : Config → α → Config} {p : Prop} [Decidable p]
    {config target : Config} {rest : List (Field × Option Json)}
    (hset : ∀ c, set c (get c) = c) :
    replaceFields target ((field key get set,
        if p then some ((field key get set).write config) else none) :: rest) =
      replaceFields (set target (if p then get config else get target)) rest := by
  by_cases hp : p
  · rw [if_pos hp, if_pos hp, replaceFields, replace_write, Option.bind_some]
  · rw [if_neg hp, if_neg hp, hset]
    rfl

theorem replaceFields_onDefault (config : Config) (given : List String) :
    replaceFields default
        (fields.map fun f => (f, if f.key ∈ given then some (f.write config) else none)) =
      some (config.onDefault given) := by
  simp only [fields, List.map_cons, List.map_nil]
  iterate 21 rw [replaceFields_field]
  · rfl
  all_goals exact fun _ => rfl

/-- A given field that cannot be read spoils it all. -/
theorem replaceFields_eq_none {entries : List (Field × Option Json)} {f : Field} {value : Json}
    (hentry : (f, some value) ∈ entries) (h : ∀ target, f.replace target value = none)
    (target : Config) : replaceFields target entries = none := by
  induction entries generalizing target with
  | nil => nomatch hentry
  | cons entry entries ih =>
    rcases List.mem_cons.mp hentry with rfl | hlater
    · rw [replaceFields, h, Option.bind_none]
    · obtain ⟨g, _ | other⟩ := entry
      · exact ih hlater target
      · rw [replaceFields, Option.bind_eq_none_iff]
        exact fun c _ => ih hlater c

end Config

/-! ## Looking up a key -/

namespace Json

theorem get?_ofMembers (pairs : List (String × Json)) (key : String) :
    (ofMembers pairs).get? key = (pairs.find? fun pair => pair.1 == key).map Prod.snd := by
  rw [get?, valuesAt_ofMembers_eq, List.head?_map, List.head?_filter]

theorem get?_ofMembers_eq_none_iff {pairs : List (String × Json)} {key : String} :
    (ofMembers pairs).get? key = none ↔ key ∉ pairs.map Prod.fst := by
  rw [get?_ofMembers, Option.map_eq_none_iff, List.find?_eq_none, List.mem_map]
  simp only [beq_iff_eq, not_exists, not_and]

theorem mem_of_get?_ofMembers {pairs : List (String × Json)} {key : String} {value : Json}
    (h : (ofMembers pairs).get? key = some value) : (key, value) ∈ pairs := by
  rw [get?_ofMembers, Option.map_eq_some_iff] at h
  obtain ⟨⟨name, _⟩, hfind, rfl⟩ := h
  have hname := List.find?_some hfind
  obtain rfl : name = key := beq_iff_eq.mp hname
  exact List.mem_of_find?_eq_some hfind

/-- A member whose key no other one has is found. -/
theorem get?_object_of_mem {members : List (Option String × Json)} {key : String} {value : Json}
    (hone : (members.map Prod.fst).count (some key) ≤ 1) (h : (some key, value) ∈ members) :
    (object members).get? key = some value := by
  rw [← length_valuesAt] at hone
  have hmem : value ∈ (object members).valuesAt key :=
    List.mem_map.mpr ⟨_, List.mem_filter.mpr ⟨h, BEq.rfl⟩, rfl⟩
  obtain ⟨only, honly⟩ :=
    List.length_eq_one_iff.mp (Nat.le_antisymm hone (List.length_pos_of_mem hmem))
  rw [honly] at hmem
  rw [get?, honly, List.mem_singleton.mp hmem, List.head?_cons]

end Json

/-! ## Reading -/

namespace Config

theorem keys_eq : fields.map Field.key = keys := rfl

/-- Each field is replaced by what stands under its own key. -/
theorem read?_of_optionalFields? {value : Json}
    (h : value.optionalFields? keys = some (keys.map value.get?)) :
    value.read? Config =
      replaceFields default (fields.map fun f => (f, value.get? f.key)) := by
  rw [read?_eq, keys_eq, h, Option.bind_some, ← keys_eq, List.map_map, List.map_prod_left_eq_zip]
  rfl

theorem read?_ofMembers_of_describes {config : Config} {members : List (String × Json)}
    (h : config.Describes members) :
    (Json.ofMembers members).read? Config = some (config.onDefault (members.map Prod.fst)) := by
  rw [read?_of_optionalFields? (Json.optionalFields?_ofMembers_eq_some_iff.mpr ⟨h.once, rfl⟩),
    ← replaceFields_onDefault]
  refine replaceFields_given (fun f hf => ?_) default
  rcases hget : (Json.ofMembers members).get? f.key with _ | value
  · exact .inl ⟨rfl, Json.get?_ofMembers_eq_none_iff.mp hget⟩
  · have hmem := Json.mem_of_get?_ofMembers hget
    have hkey : f.key ∈ keys := keys_eq ▸ List.mem_map_of_mem hf
    obtain ⟨content, hcontent, hspelled⟩ := h.given f.key value hmem hkey
    obtain ⟨g, hg, hgkey, hholds⟩ := exists_field hcontent
    obtain rfl : g = f := List.inj_on_of_nodup_map nodup_keys hg hf hgkey
    exact .inr ⟨value, rfl, List.mem_map_of_mem hmem, hholds.replace_eq hspelled⟩

/-- An object that is read has each key at most once, and everything that it gives is replaced. -/
theorem of_read?_object {members : List (Option String × Json)} {config : Config}
    (h : (Json.object members).read? Config = some config) :
    (∀ key ∈ keys, (members.map Prod.fst).count (some key) ≤ 1) ∧
    replaceFields default (fields.map fun f => (f, (Json.object members).get? f.key)) =
      some config := by
  obtain ⟨values, hvalues, -⟩ := Option.bind_eq_some_iff.mp h
  rw [keys_eq] at hvalues
  obtain ⟨-, hone, rfl⟩ := Json.optionalFields?_object_eq_some_iff.mp hvalues
  exact ⟨hone, read?_of_optionalFields? hvalues ▸ h⟩

theorem read?_object_of_repeated {members : List (Option String × Json)} {key : String}
    (hkey : key ∈ keys) (htwice : 2 ≤ (members.map Prod.fst).count (some key)) :
    (Json.object members).read? Config = none := by
  rw [Option.eq_none_iff_forall_ne_some]
  intro config h
  have hone := (of_read?_object h).1 key hkey
  omega

theorem read?_object_of_zero {members : List (Option String × Json)} {key : String} {d : Divisor}
    {value : Json} (hkey : (key, .divisor d) ∈ default.contents)
    (hmem : (some key, value) ∈ members) (hzero : value.Spells 0) :
    (Json.object members).read? Config = none := by
  rw [Option.eq_none_iff_forall_ne_some]
  intro config h
  obtain ⟨hone, hreplace⟩ := of_read?_object h
  have hget := Json.get?_object_of_mem (hone key (List.mem_map_of_mem hkey)) hmem
  obtain ⟨f, hf, rfl, hholds⟩ := exists_field hkey
  have hentry : (f, some value) ∈ fields.map fun f => (f, (Json.object members).get? f.key) :=
    List.mem_map.mpr ⟨f, hf, by rw [hget]⟩
  rw [replaceFields_eq_none hentry (hholds.replace_eq_none hzero)] at hreplace
  nomatch hreplace

/-! ## Overlays -/

/-- What is written for a field spells what the field holds. -/
theorem Holds.spelledBy_write {config : Config} {f : Field} {content : Content}
    (h : Holds config f content) : content.SpelledBy (f.write config) := by
  cases h with
  | text key get set => exact .text (get config)
  | version key get set => exact .version (get config)
  | word key get set =>
    exact .word (Json.read?_word_eq_some_iff.mp (LawfulForm.read?_toJson (get config)))
  | divisor key get set =>
    exact .divisor (Json.read?_divisor_eq_some_iff.mp (LawfulForm.read?_toJson (get config)))

/-- Where all fields are given, none keeps the default. -/
theorem onDefault_of_all {config : Config} {given : List String} (h : ∀ key ∈ keys, key ∈ given) :
    config.onDefault given = config := by
  have hgiven : ∀ {α : Type} (key : String) (get : Config → α), key ∈ keys →
      config.ifGiven given key get = get config := fun key _ hkey => if_pos (h key hkey)
  unfold onDefault
  iterate 21 rw [hgiven]
  all_goals decide

/-- The members of the written form under keys that are not given anew. -/
def kept (config : Config) (members : List (String × Json)) : List (String × Json) :=
  (fields.map fun f => (f.key, f.write config)).filter fun member =>
    !members.any fun new => new.1 == member.1

theorem overlay?_eq (config : Config) (members : List (String × Json)) :
    config.overlay? (members.map fun member => (some member.1, member.2)) =
      (Json.ofMembers (config.kept members ++ members)).read? Config := by
  show (Json.object (List.filter _ (List.map _ _) ++ _)).read? Config = _
  simp only [kept, Json.ofMembers, List.map_append, List.filter_map, List.any_map,
    Function.comp_def, Option.some_beq_some]

theorem mem_kept_iff {config : Config} {members : List (String × Json)} {key : String}
    {value : Json} : (key, value) ∈ config.kept members ↔
      (∃ f ∈ fields, f.key = key ∧ f.write config = value) ∧ key ∉ members.map Prod.fst := by
  simp only [kept, List.mem_filter, List.mem_map, Prod.mk.injEq, Bool.not_eq_true',
    List.any_eq_false, beq_iff_eq, not_exists, not_and]

/-- What is kept gives no key twice, and none that is given anew. -/
theorem count_kept_add_le {config : Config} {members : List (String × Json)} {key : String}
    (h : (members.map Prod.fst).count key ≤ 1) :
    ((config.kept members ++ members).map Prod.fst).count key ≤ 1 := by
  rw [List.map_append, List.count_append]
  by_cases hkey : key ∈ members.map Prod.fst
  · have hnone : key ∉ (config.kept members).map Prod.fst := by
      rw [List.mem_map]
      rintro ⟨⟨_, value⟩, hkept, rfl⟩
      exact (mem_kept_iff.mp hkept).2 hkey
    rw [List.count_eq_zero_of_not_mem hnone, Nat.zero_add]
    exact h
  · rw [List.count_eq_zero_of_not_mem hkey, Nat.add_zero]
    have hsub : ((config.kept members).map Prod.fst).Sublist (fields.map Field.key) := by
      have hfst : (fields.map fun f => (f.key, f.write config)).map Prod.fst =
          fields.map Field.key := by rw [List.map_map]; rfl
      rw [← hfst]
      exact List.filter_sublist.map Prod.fst
    exact List.nodup_iff_count.mp (nodup_keys.sublist hsub) key

/-- Members laid over a configuration replace the fields that they describe, and the others stay:
    read is the configuration that they describe and that is otherwise the one below. -/
theorem overlay?_of_describes {config other : Config} {members : List (String × Json)}
    (h : other.Describes members)
    (hothers : ∀ entry ∈ config.contents, entry.1 ∉ members.map Prod.fst →
      entry ∈ other.contents) :
    config.overlay? (members.map fun member => (some member.1, member.2)) = some other := by
  have hdescribes : other.Describes (config.kept members ++ members) := by
    refine ⟨fun key hkey => count_kept_add_le (h.once key hkey), fun key value hmem hkey => ?_⟩
    rcases List.mem_append.mp hmem with hkept | hnew
    · obtain ⟨⟨f, hf, rfl, rfl⟩, hold⟩ := mem_kept_iff.mp hkept
      obtain ⟨content, hcontent, hholds⟩ := exists_content config hf
      exact ⟨content, hothers _ hcontent hold, hholds.spelledBy_write⟩
    · exact h.given key value hnew hkey
  have hall : ∀ key ∈ keys, key ∈ (config.kept members ++ members).map Prod.fst := by
    intro key hkey
    rw [List.map_append, List.mem_append]
    by_cases hnew : key ∈ members.map Prod.fst
    · exact .inr hnew
    · rw [← keys_eq] at hkey
      obtain ⟨f, hf, rfl⟩ := List.mem_map.mp hkey
      exact .inl (List.mem_map_of_mem (mem_kept_iff.mpr ⟨⟨f, hf, rfl, rfl⟩, hnew⟩))
  rw [overlay?_eq, read?_ofMembers_of_describes hdescribes, onDefault_of_all hall]

/-- One field replaced, and a member that is no field. -/
example : Config.minimal.overlay? [(some "MAX_SEED_LOOKAHEAD", .natural 9), (some "NOTE", .null)] =
    some { Config.minimal with maxSeedLookahead := 9 } := by
  decide +kernel

end Config

/-- **A configuration of which some fields are given is the default one but for these.**
    * An object that describes a configuration is read as the fields that it gives, on top of the
      defaults.
    * An object that gives a field more than once is not read;
    * nor is one that gives a divisor as zero, in whatever spelling.
    * So no configuration that is read has a divisor that is zero. -/
theorem partial_config_overlays_defaults :
    (∀ (config : Config) (members : List (String × Json)), config.Describes members →
      (Json.ofMembers members).read? Config =
        some (config.onDefault (members.map Prod.fst))) ∧
    (∀ members, ∀ key ∈ Config.keys, 2 ≤ (members.map Prod.fst).count (some key) →
      (Json.object members).read? Config = none) ∧
    (∀ (key : String) (d : Divisor), (key, .divisor d) ∈ Config.default.contents →
      ∀ members value, (some key, value) ∈ members → value.Spells 0 →
        (Json.object members).read? Config = none) ∧
    ∀ (value : Json) (config : Config), value.read? Config = some config →
      ∀ (key : String) (d : Divisor), (key, .divisor d) ∈ config.contents → 0 < d.val.toNat := by
  refine ⟨?_, ?_, ?_, ?_⟩
  · exact fun config members => Config.read?_ofMembers_of_describes
  · exact fun members key => Config.read?_object_of_repeated
  · exact fun key d hkey members value => Config.read?_object_of_zero hkey
  · exact fun value config _ key d _ => d.toNat_pos

/-- Four fields in another order than that of the table, a number among them, and a member that is no
    field; and two objects that are not read. -/
theorem partial_config_overlays_defaults_testnet :
    let members : List (String × Json) :=
      [("MIN_PER_EPOCH_CHURN_LIMIT", .natural 2), ("COMMENT", .null),
       ("CHURN_LIMIT_QUOTIENT", .ofString "+032"), ("CONFIG_NAME", .ofString "testnet"),
       ("EJECTION_BALANCE", .ofString "16000000000")]
    let testnet : Config := { Config.default with
      configName := "testnet"
      churnLimitQuotient := ⟨32, by decide⟩
      minPerEpochChurnLimit := 2 }
    (testnet.Describes members ∧ (Json.ofMembers members).read? Config = some testnet) ∧
    (Json.object [(some "CONFIG_NAME", .null), (some "CONFIG_NAME", .null)]).read? Config = none ∧
    (Json.object [(some "PROPOSER_REWARD_QUOTIENT", .natural 0)]).read? Config = none := by
  intro members testnet
  have hdescribes : testnet.Describes members := by
    refine ⟨by decide +kernel, fun key value hmember hkey => ?_⟩
    simp only [members, List.mem_cons, List.not_mem_nil, or_false, Prod.mk.injEq] at hmember
    rcases hmember with ⟨rfl, rfl⟩ | ⟨rfl, rfl⟩ | ⟨rfl, rfl⟩ | ⟨rfl, rfl⟩ | ⟨rfl, rfl⟩
    · exact ⟨.word 2, by simp [Config.contents, testnet], .word (.number 2)⟩
    · exact absurd hkey (by decide)
    · refine ⟨.divisor ⟨32, by decide⟩, by simp [Config.contents, testnet], .divisor ?_⟩
      exact Json.read?_divisor_eq_some_iff.mp (by decide +kernel)
    · exact ⟨.text "testnet", by simp [Config.contents, testnet], .text "testnet"⟩
    · refine ⟨.word 16000000000, by simp [Config.contents, testnet, Config.default], .word ?_⟩
      exact Json.read?_word_eq_some_iff.mp (by decide +kernel)
  obtain ⟨hread, hrepeated, hzero, -⟩ := partial_config_overlays_defaults
  refine ⟨⟨hdescribes, (hread testnet members hdescribes).trans (by decide +kernel)⟩,
    hrepeated _ "CONFIG_NAME" (by decide) (by decide), ?_⟩
  exact hzero "PROPOSER_REWARD_QUOTIENT" Config.default.proposerRewardQuotient
    (by simp [Config.contents]) _ _ List.mem_cons_self (.number 0)

end Beacon
