/-
  Reading a record undoes writing it.

  A type is lawful (`LawfulForm`) if what it writes can be read back, as a JSON value and then, by
  `IsPlain.parse?_render`, as a text.  Lists of a lawful type are lawful, and so is a record whose
  fields are: its members are found under their names, in whatever order they stand, because no name
  is used twice (`fields?_of_perm`).  The instances below follow the forms one by one.

  Many texts stand for one value.  The one that is written for it is its canonical text: reading it
  gives the value again, and writing that gives the canonical text again (`json_forms_round_trip`).
  What else is read as it is, is told by `json_forms_other_spellings`.
-/
import Beacon.Config.Form
import Beacon.Proofs.Json.Text
import Beacon.State.Form

namespace Beacon

/-! ## Lawful forms -/

/-- Types whose written form can be read back. -/
class LawfulForm (α : Type) [JsonForm α] : Prop where
  isPlain_toJson : ∀ a : α, (toJson a).IsPlain
  read?_toJson : ∀ a : α, (toJson a).read? α = some a

attribute [simp] LawfulForm.isPlain_toJson LawfulForm.read?_toJson

open LawfulForm

instance : LawfulForm Bool where
  isPlain_toJson b := Json.IsPlain.bool b
  read?_toJson _ := rfl

instance : LawfulForm String where
  isPlain_toJson text := Json.IsPlain.string (some text)
  read?_toJson _ := rfl

theorem Json.wordOfText?_text (w : UInt64) : Json.wordOfText? (Decimal.text w.toNat) = some w := by
  obtain ⟨c, cs, hcons, hdigit⟩ := Json.exists_digits_eq_cons w.toNat
  have hvalue : Decimal.value? (Decimal.digits w.toNat) = some w.toNat := Decimal.value?_digits _
  unfold Json.wordOfText? Decimal.text
  rw [String.toList_ofList]
  split
  · next h =>
    -- no digit is a plus sign
    rw [hcons] at h
    exact absurd (List.cons.inj h).1 (Json.ne_of_isDigit hdigit rfl)
  · show (Decimal.value? (Decimal.digits w.toNat)).bind Word.ofNat? = some w
    rw [hvalue, Option.bind_some, Word.ofNat?_eq_some_iff]

instance : LawfulForm UInt64 where
  isPlain_toJson _ := Json.IsPlain.string _
  read?_toJson := Json.wordOfText?_text

instance : LawfulForm Divisor where
  isPlain_toJson _ := Json.IsPlain.string _
  read?_toJson d := by
    have hword : (toJson d).word? = some d.val := Json.wordOfText?_text d.val
    show (toJson d).word?.bind Divisor.ofWord? = some d
    rw [hword, Option.bind_some, Divisor.ofWord?_eq_some_iff]

instance {n : Nat} : LawfulForm (Bytes n) where
  isPlain_toJson _ := Json.IsPlain.string _
  read?_toJson := Bytes.ofHex?_toHex

instance {α : Type} [JsonForm α] [LawfulForm α] : LawfulForm (List α) where
  isPlain_toJson items := by
    refine Json.IsPlain.array _ fun item hitem => ?_
    obtain ⟨a, -, rfl⟩ := List.mem_map.mp hitem
    exact isPlain_toJson a
  read?_toJson items := by
    show (items.map toJson).mapM (Json.read? α) = some items
    induction items with
    | nil => rfl
    | cons a items ih => simp [ih]

instance {α : Type} [JsonForm α] [LawfulForm α] : LawfulForm (Array α) where
  isPlain_toJson items := isPlain_toJson items.toList
  read?_toJson items := by
    show ((toJson items.toList).read? (List α)).map List.toArray = some items
    rw [read?_toJson, Option.map_some]

/-! ## Members of objects -/

namespace Json

theorem isPlain_ofMembers {pairs : List (String × Json)} (h : ∀ pair ∈ pairs, pair.2.IsPlain) :
    (ofMembers pairs).IsPlain := by
  refine IsPlain.object _ fun member hmember => ?_
  obtain ⟨pair, hpair, rfl⟩ := List.mem_map.mp hmember
  exact h pair hpair

theorem isPlain_record {names : List String} {values : List Json}
    (h : ∀ value ∈ values, value.IsPlain) : (ofMembers (names.zip values)).IsPlain :=
  isPlain_ofMembers fun pair hpair => h pair.2 (List.of_mem_zip hpair).2

theorem valuesAt_ofMembers_eq (pairs : List (String × Json)) (name : String) :
    (ofMembers pairs).valuesAt name = (pairs.filter fun p => p.1 == name).map Prod.snd := by
  simp [ofMembers, valuesAt, List.filter_map, Function.comp_def]

/-- The members under a key are counted by their values. -/
theorem length_valuesAt (members : List (Option String × Json)) (key : String) :
    ((object members).valuesAt key).length = (members.map Prod.fst).count (some key) := by
  rw [valuesAt, List.length_map, ← List.countP_eq_length_filter, List.count, List.countP_map]
  rfl

/-- A name that is used once has one value. -/
theorem valuesAt_ofMembers {pairs : List (String × Json)} (hnames : (pairs.map Prod.fst).Nodup)
    {name : String} {value : Json} (h : (name, value) ∈ pairs) :
    (ofMembers pairs).valuesAt name = [value] := by
  rw [valuesAt_ofMembers_eq]
  induction pairs with
  | nil => nomatch h
  | cons pair pairs ih =>
    rw [List.map_cons, List.nodup_cons] at hnames
    have hused : ∀ p ∈ pairs, p.1 ≠ pair.1 := fun p hp heq =>
      hnames.1 (heq ▸ List.mem_map_of_mem hp)
    rcases List.mem_cons.mp h with rfl | hlater
    · simpa [List.filter_eq_nil_iff] using fun key other hp => hused (key, other) hp
    · have hother : pair.1 ≠ name := (hused (name, value) hlater).symm
      rw [List.filter_cons_of_neg (by simpa using hother)]
      exact ih hnames.2 hlater

/-- What is read one by one is read as a whole. -/
theorem mapM_eq_some_iff {α β : Type} {f : α → Option β} {names : List α} {values : List β} :
    names.mapM f = some values ↔ names.map f = values.map some := by
  induction names generalizing values with
  | nil => cases values <;> simp
  | cons name names ih =>
    cases values with
    | nil => simp [Option.bind_eq_some_iff]
    | cons value values => simp [Option.bind_eq_some_iff, ih]

/-- What is read one by one, with a test for each, is read if all of them pass. -/
theorem mapM_eq_some_iff_of_ite {α β : Type} {p : α → Prop} [DecidablePred p] {f : α → β}
    {g : α → Option β} (hg : ∀ name, g name = if p name then some (f name) else none)
    {names : List α} {values : List β} :
    names.mapM g = some values ↔ (∀ name ∈ names, p name) ∧ values = names.map f := by
  rw [mapM_eq_some_iff]
  induction names generalizing values with
  | nil => cases values <;> simp
  | cons name names ih =>
    rw [List.map_cons, List.map_cons, List.forall_mem_cons, hg]
    cases values with
    | nil => simp
    | cons value values =>
      rw [List.map_cons, List.cons.injEq, List.cons.injEq, ih]
      by_cases hp : p name
      · rw [if_pos hp, Option.some.injEq, eq_comm, and_left_comm, and_iff_right hp]
      · simp [hp]

theorem mapM_eq_some_of_zip {α β : Type} {f : α → Option β} {names : List α} {values : List β}
    (hlength : names.length = values.length) (h : ∀ p ∈ names.zip values, f p.1 = some p.2) :
    names.mapM f = some values := by
  rw [mapM_eq_some_iff]
  refine List.ext_getElem (by simpa using hlength) fun i hname hvalue => ?_
  rw [List.length_map] at hname hvalue
  rw [List.getElem_map, List.getElem_map]
  exact h (names[i], values[i]) (List.mem_iff_getElem.mpr
    ⟨i, by rw [List.length_zip]; omega, List.getElem_zip⟩)

section

variable {names : List String} {values : List Json} {pairs : List (String × Json)}

theorem nodup_of_perm_zip (hnames : names.Nodup) (hlength : names.length = values.length)
    (hperm : pairs.Perm (names.zip values)) : (pairs.map Prod.fst).Nodup := by
  have hfst : (names.zip values).map Prod.fst = names := List.map_fst_zip (Nat.le_of_eq hlength)
  rw [(hperm.map Prod.fst).nodup_iff, hfst]
  exact hnames

/-- Members are found under their names, in whatever order they stand. -/
theorem mapM_get?_of_perm (hnames : names.Nodup) (hlength : names.length = values.length)
    (hperm : pairs.Perm (names.zip values)) :
    names.mapM (fun name => (ofMembers pairs).get? name) = some values := by
  refine mapM_eq_some_of_zip hlength fun pair hpair => ?_
  rw [get?, valuesAt_ofMembers (nodup_of_perm_zip hnames hlength hperm)
    (hperm.mem_iff.mpr hpair), List.head?_cons]

/-- An object gives the values of the named fields in the order of the names, in whatever order
    its members stand. -/
theorem fields?_of_perm (hnames : names.Nodup) (hlength : names.length = values.length)
    (hperm : pairs.Perm (names.zip values)) : (ofMembers pairs).fields? names = some values := by
  have hcount : pairs.length = names.length := by
    rw [hperm.length_eq, List.length_zip, ← hlength, Nat.min_self]
  rw [← mapM_get?_of_perm hnames hlength hperm]
  exact if_pos ((List.length_map _).trans hcount)

end

/-- A record reads the fields that it has written. -/
theorem fields?_ofMembers {names : List String} {values : List Json} (hnames : names.Nodup)
    (hlength : names.length = values.length) :
    (ofMembers (names.zip values)).fields? names = some values :=
  fields?_of_perm hnames hlength (List.Perm.refl _)

end Json

/-! ## Records -/

theorem Json.bind_fields? {α : Type} {names : List String} {values : List Json}
    (hnames : names.Nodup) (hlength : names.length = values.length)
    (build : List Json → Option α) :
    ((Json.ofMembers (names.zip values)).fields? names >>= build) = build values := by
  rw [fields?_ofMembers hnames hlength]
  rfl

instance : LawfulForm Checkpoint where
  isPlain_toJson _ := Json.isPlain_record (by simp)
  read?_toJson _ := (Json.bind_fields? (by decide) rfl _).trans (by simp)

instance : LawfulForm AttestationData where
  isPlain_toJson _ := Json.isPlain_record (by simp)
  read?_toJson _ := (Json.bind_fields? (by decide) rfl _).trans (by simp)

instance : LawfulForm IndexedAttestation where
  isPlain_toJson _ := Json.isPlain_record (by simp)
  read?_toJson _ := (Json.bind_fields? (by decide) rfl _).trans (by simp)

instance : LawfulForm BlockHeader where
  isPlain_toJson _ := Json.isPlain_record (by simp)
  read?_toJson _ := (Json.bind_fields? (by decide) rfl _).trans (by simp)

instance : LawfulForm SignedBlockHeader where
  isPlain_toJson _ := Json.isPlain_record (by simp)
  read?_toJson _ := (Json.bind_fields? (by decide) rfl _).trans (by simp)

instance : LawfulForm AttesterSlashing where
  isPlain_toJson _ := Json.isPlain_record (by simp)
  read?_toJson _ := (Json.bind_fields? (by decide) rfl _).trans (by simp)

instance : LawfulForm ProposerSlashing where
  isPlain_toJson _ := Json.isPlain_record (by simp)
  read?_toJson _ := (Json.bind_fields? (by decide) rfl _).trans (by simp)

instance : LawfulForm VoluntaryExit where
  isPlain_toJson _ := Json.isPlain_record (by simp)
  read?_toJson _ := (Json.bind_fields? (by decide) rfl _).trans (by simp)

instance : LawfulForm SignedVoluntaryExit where
  isPlain_toJson _ := Json.isPlain_record (by simp)
  read?_toJson _ := (Json.bind_fields? (by decide) rfl _).trans (by simp)

instance : LawfulForm Fork where
  isPlain_toJson _ := Json.isPlain_record (by simp)
  read?_toJson _ := (Json.bind_fields? (by decide) rfl _).trans (by simp)

instance : LawfulForm ForkData where
  isPlain_toJson _ := Json.isPlain_record (by simp)
  read?_toJson _ := (Json.bind_fields? (by decide) rfl _).trans (by simp)

instance : LawfulForm SigningData where
  isPlain_toJson _ := Json.isPlain_record (by simp)
  read?_toJson _ := (Json.bind_fields? (by decide) rfl _).trans (by simp)

instance : LawfulForm Validator where
  isPlain_toJson _ := Json.isPlain_record (by simp)
  read?_toJson _ := (Json.bind_fields? (by decide) rfl _).trans (by simp)

/-! ## The configuration -/

namespace Json

/-- An object gives the values of the named fields if all its keys are texts and none of the names
    comes twice. -/
theorem optionalFields?_object_eq_some_iff {names : List String}
    {members : List (Option String × Json)} {values : List (Option Json)} :
    (object members).optionalFields? names = some values ↔
      (∀ member ∈ members, member.1 ≠ none) ∧
      (∀ name ∈ names, (members.map Prod.fst).count (some name) ≤ 1) ∧
      values = names.map (object members).get? := by
  unfold optionalFields?
  dsimp only
  by_cases h : (members.any fun member => member.1.isNone) = true
  · rw [if_pos h]
    obtain ⟨member, hmember, hnone⟩ := List.any_eq_true.mp h
    exact ⟨fun hread => (Option.some_ne_none _ hread.symm).elim,
      fun hall => absurd (Option.isNone_iff_eq_none.mp hnone) (hall.1 member hmember)⟩
  · rw [if_neg h]
    have htexts : ∀ member ∈ members, member.1 ≠ none := fun member hmember hnone =>
      h (List.any_eq_true.mpr ⟨member, hmember, Option.isNone_iff_eq_none.mpr hnone⟩)
    rw [and_iff_right htexts]
    simp only [← length_valuesAt]
    refine mapM_eq_some_iff_of_ite fun name => ?_
    rw [get?]
    rcases (object members).valuesAt name with _ | ⟨value, _ | ⟨other, rest⟩⟩
    · rfl
    · rfl
    · rw [if_neg (by simp)]

theorem optionalFields?_ofMembers_eq_some_iff {names : List String}
    {pairs : List (String × Json)} {values : List (Option Json)} :
    (ofMembers pairs).optionalFields? names = some values ↔
      (∀ name ∈ names, (pairs.map Prod.fst).count name ≤ 1) ∧
      values = names.map (ofMembers pairs).get? := by
  have hcount : ∀ name, ((pairs.map fun pair => (some pair.1, pair.2)).map Prod.fst).count
      (some name) = (pairs.map Prod.fst).count name := by
    intro name
    simp [List.count, List.countP_map, Function.comp_def]
  have htexts : ∀ member ∈ pairs.map fun pair => (some pair.1, pair.2), member.1 ≠ none := by
    intro member hmember
    obtain ⟨pair, -, rfl⟩ := List.mem_map.mp hmember
    exact Option.some_ne_none pair.1
  refine optionalFields?_object_eq_some_iff.trans ?_
  simp only [hcount]
  exact and_iff_right htexts

/-- An object that gives all the named fields, in whatever order, gives the value of each. -/
theorem optionalFields?_of_perm {names : List String} {values : List Json}
    {pairs : List (String × Json)} (hnames : names.Nodup) (hlength : names.length = values.length)
    (hperm : pairs.Perm (names.zip values)) :
    (ofMembers pairs).optionalFields? names = some (values.map some) := by
  have hkeys := nodup_of_perm_zip hnames hlength hperm
  refine optionalFields?_ofMembers_eq_some_iff.mpr
    ⟨fun name _ => List.nodup_iff_count.mp hkeys name, ?_⟩
  exact (mapM_eq_some_iff.mp (mapM_get?_of_perm hnames hlength hperm)).symm

end Json

namespace Config

theorem isPlain_write (config : Config) : ∀ field ∈ fields, (field.write config).IsPlain := by
  simp [fields, field]

theorem replace_write {α : Type} [JsonForm α] [LawfulForm α] (key : String) (get : Config → α)
    (set : Config → α → Config) (source target : Config) :
    (field key get set).replace target ((field key get set).write source) =
      some (set target (get source)) := by
  simp [field]

/-- Replacing every field of a configuration by that of another one gives the other one. -/
theorem replaceFields_write (source target : Config) :
    replaceFields target (fields.zip (fields.map fun field => some (field.write source))) =
      some source := by
  simp only [fields, List.map_cons, List.map_nil, List.zip_cons_cons, List.zip_nil_right,
    replaceFields, replace_write, Option.bind_some]

theorem nodup_keys : (fields.map Field.key).Nodup := by decide

/-- Fields that are written under different keys are all there to be read. -/
theorem optionalFields?_write {table : List Field} (hkeys : (table.map Field.key).Nodup)
    (config : Config) :
    (Json.ofMembers (table.map fun field => (field.key, field.write config))).optionalFields?
        (table.map Field.key) =
      some (table.map fun field => some (field.write config)) := by
  have hzip : table.map (fun field => (field.key, field.write config)) =
      (table.map Field.key).zip (table.map fun field => field.write config) :=
    List.zip_map'.symm
  rw [hzip, Json.optionalFields?_of_perm hkeys (by simp) (List.Perm.refl _), List.map_map]
  rfl

theorem toJson_eq (config : Config) :
    toJson config = Json.ofMembers (fields.map fun field => (field.key, field.write config)) := rfl

theorem read?_eq (value : Json) :
    value.read? Config = (value.optionalFields? (fields.map Field.key)).bind fun values =>
      replaceFields default (fields.zip values) := rfl

end Config

instance : LawfulForm Config where
  isPlain_toJson config := by
    refine Json.isPlain_ofMembers fun pair hpair => ?_
    obtain ⟨field, hfield, rfl⟩ := List.mem_map.mp hpair
    exact Config.isPlain_write config field hfield
  read?_toJson config := by
    rw [Config.read?_eq, Config.toJson_eq, Config.optionalFields?_write Config.nodup_keys,
      Option.bind_some]
    exact Config.replaceFields_write config Config.default

/-! ## The chain state -/

namespace State

/-- A state without waiting votes has a written form, and it can be read back. -/
theorem exists_toJson? {s : State} (hprevious : s.previousAttestations = [])
    (hcurrent : s.currentAttestations = []) :
    ∃ j, s.toJson? = some j ∧ j.IsPlain ∧ ofJson? j = some s := by
  have hempty : (Json.array []).IsPlain := Json.IsPlain.array [] nofun
  obtain ⟨slot, root, fork, blockRoots, validators, balances, slashings, previous, current,
    checkpoint⟩ := s
  obtain rfl : previous = [] := hprevious
  obtain rfl : current = [] := hcurrent
  refine ⟨_, if_pos ⟨rfl, rfl⟩, Json.isPlain_record (by simp [hempty]), ?_⟩
  exact (Json.bind_fields? (by decide) rfl _).trans (by simp [isEmptyArray])

/-- A state that is read has no waiting votes. -/
theorem attestations_eq_nil_of_ofJson? {j : Json} {s : State} (h : ofJson? j = some s) :
    s.previousAttestations = [] ∧ s.currentAttestations = [] := by
  obtain ⟨values, -, h⟩ := Option.bind_eq_some_iff.mp h
  split at h
  · split at h
    · simp only [Option.bind_eq_bind, Option.bind_eq_some_iff, Option.some.injEq] at h
      obtain ⟨slot, -, root, -, fork, -, blockRoots, -, validators, -, balances, -, slashings, -,
        checkpoint, -, rfl⟩ := h
      exact ⟨rfl, rfl⟩
    · nomatch h
  · nomatch h

end State

/-! ## Texts -/

section

variable {α : Type} [JsonForm α]

/-- The text that is written for a value. -/
def encode (a : α) : String := (toJson a).render

/-- The value that a text stands for. -/
def decode? (α : Type) [JsonForm α] (text : String) : Option α :=
  (Json.parse? text).bind (Json.read? α)

/-- The text that is written for what a text stands for. -/
def canonical? (α : Type) [JsonForm α] (text : String) : Option String :=
  (decode? α text).map encode

theorem decode?_encode [LawfulForm α] (a : α) : decode? α (encode a) = some a := by
  rw [decode?, encode, (isPlain_toJson a).parse?_render, Option.bind_some, read?_toJson]

/-- Decoding undoes encoding; and whatever text a value is read from, it has a canonical text, which
    stands for the same value and is its own canonical text. -/
def RoundTrips (α : Type) [JsonForm α] : Prop :=
  (∀ a : α, decode? α (encode a) = some a) ∧
    ∀ (text : String) (a : α), decode? α text = some a →
      ∃ canonical, canonical? α text = some canonical ∧ decode? α canonical = some a ∧
        canonical? α canonical = some canonical

theorem roundTrips (α : Type) [JsonForm α] [LawfulForm α] : RoundTrips α := by
  refine ⟨decode?_encode, fun text a h => ⟨encode a, ?_, decode?_encode a, ?_⟩⟩
  · rw [canonical?, h, Option.map_some]
  · rw [canonical?, decode?_encode, Option.map_some]

end

namespace State

/-- The text that is written for a state, unless votes are waiting. -/
def encode? (s : State) : Option String := s.toJson?.map Json.render

/-- The state that a text stands for. -/
def decode? (text : String) : Option State := (Json.parse? text).bind ofJson?

/-- The text that is written for the state that a text stands for. -/
def canonical? (text : String) : Option String := (decode? text).bind encode?

theorem exists_encode? {s : State} (hprevious : s.previousAttestations = [])
    (hcurrent : s.currentAttestations = []) :
    ∃ text, s.encode? = some text ∧ decode? text = some s := by
  obtain ⟨j, hj, hplain, hread⟩ := exists_toJson? hprevious hcurrent
  refine ⟨j.render, by rw [encode?, hj, Option.map_some], ?_⟩
  rw [decode?, hplain.parse?_render, Option.bind_some, hread]

/-- A state that was read can be written, and read again. -/
theorem exists_canonical? {text : String} {s : State} (h : decode? text = some s) :
    ∃ canonical, canonical? text = some canonical ∧ decode? canonical = some s ∧
      canonical? canonical = some canonical := by
  obtain ⟨j, -, hread⟩ := Option.bind_eq_some_iff.mp h
  obtain ⟨hprevious, hcurrent⟩ := attestations_eq_nil_of_ofJson? hread
  obtain ⟨canonical, hencode, hdecode⟩ := exists_encode? hprevious hcurrent
  refine ⟨canonical, ?_, hdecode, ?_⟩
  · rw [canonical?, h, Option.bind_some, hencode]
  · rw [canonical?, hdecode, Option.bind_some, hencode]

end State

/-- Every type with a JSON form round-trips: the records for all their values, and chain states for
    those without waiting votes, which all states that are read are. -/
theorem json_forms_round_trip :
    RoundTrips AttestationData ∧ RoundTrips AttesterSlashing ∧ RoundTrips BlockHeader ∧
    RoundTrips Checkpoint ∧ RoundTrips Config ∧ RoundTrips Fork ∧ RoundTrips ForkData ∧
    RoundTrips IndexedAttestation ∧ RoundTrips ProposerSlashing ∧ RoundTrips SignedBlockHeader ∧
    RoundTrips SignedVoluntaryExit ∧ RoundTrips SigningData ∧ RoundTrips Validator ∧
    RoundTrips VoluntaryExit ∧
    (∀ s : State, s.previousAttestations = [] → s.currentAttestations = [] →
      ∃ text, s.encode? = some text ∧ State.decode? text = some s) ∧
    ∀ (text : String) (s : State), State.decode? text = some s →
      ∃ canonical, State.canonical? text = some canonical ∧ State.decode? canonical = some s ∧
        State.canonical? canonical = some canonical := by
  refine ⟨roundTrips _, roundTrips _, roundTrips _, roundTrips _, roundTrips _, roundTrips _,
    roundTrips _, roundTrips _, roundTrips _, roundTrips _, roundTrips _, roundTrips _,
    roundTrips _, roundTrips _, ?_, ?_⟩
  · exact fun s hprevious hcurrent => State.exists_encode? hprevious hcurrent
  · exact fun text s h => State.exists_canonical? h

/-- A fork in another order, with a bare number, and in upper case without the mark; and a state
    with its own text. -/
theorem json_forms_round_trip_respelt :
    let text := "\x7b \"epoch\" : 18446744073709551615, \"previous_version\": \"0x00FF0aB1\"," ++
      "\n\"current_version\":\"ABCDEF09\" \x7d"
    let fork : Fork := ⟨#v[0x00, 0xff, 0x0a, 0xb1], #v[0xab, 0xcd, 0xef, 0x09], Word.largest⟩
    let s : State := { (default : State) with fork := fork, balances := #[7, 8] }
    (decode? Fork text = some fork ∧
      ∃ canonical, canonical? Fork text = some canonical ∧ decode? Fork canonical = some fork ∧
        canonical? Fork canonical = some canonical) ∧
    ∃ written, s.encode? = some written ∧ State.decode? written = some s ∧
      ∃ canonical, State.canonical? written = some canonical ∧
        State.decode? canonical = some s ∧ State.canonical? canonical = some canonical := by
  intro text fork s
  have hfork : decode? Fork text = some fork := by decide +kernel
  obtain ⟨-, -, -, -, -, ⟨-, hforks⟩, -, -, -, -, -, -, -, -, hwrite, hread⟩ :=
    json_forms_round_trip
  obtain ⟨written, hencode, hdecode⟩ := hwrite s rfl rfl
  exact ⟨⟨hfork, hforks text fork hfork⟩, written, hencode, hdecode, hread written s hdecode⟩

/-! ## Other spellings

  Of what stands for a record only one text is written.  The members of an object may stand in any
  order, their values may stand alone in an array, and of a byte string neither the mark nor the case
  of the digits matters. -/

/-- What is read from an object with these members, in whatever order they stand, is what is read
    from an array of their values in order. -/
def InAnyOrder {α : Type} (names : List String) (read? : Json → Option α) : Prop :=
  ∀ (values : List Json) (pairs : List (String × Json)), names.length = values.length →
    pairs.Perm (names.zip values) → read? (.ofMembers pairs) = read? (.array values)

namespace InAnyOrder

variable {α : Type} {names : List String} {read? : Json → Option α}

theorem of_fields? (hnames : names.Nodup) (build : List Json → Option α)
    (hread : ∀ j, read? j = j.fields? names >>= build) : InAnyOrder names read? := by
  intro values pairs hlength hperm
  have harray : (Json.array values).fields? names = some values := if_pos hlength.symm
  rw [hread, hread, Json.fields?_of_perm hnames hlength hperm, harray]

theorem of_optionalFields? (hnames : names.Nodup) (build : List (Option Json) → Option α)
    (hread : ∀ j, read? j = j.optionalFields? names >>= build) : InAnyOrder names read? := by
  intro values pairs hlength hperm
  have harray : (Json.array values).optionalFields? names = some (values.map some) := by
    show (if values.length ≤ names.length then _ else _) = _
    rw [if_pos (Nat.le_of_eq hlength.symm), hlength, Nat.sub_self, List.replicate_zero,
      List.append_nil]
  rw [hread, hread, Json.optionalFields?_of_perm hnames hlength hperm, harray]

end InAnyOrder

namespace Hex

theorem toNat_toLower {c : Char} (h : 65 ≤ c.toNat ∧ c.toNat ≤ 90) :
    c.toLower.toNat = c.toNat + 32 := by
  have hupper : 'A'.val ≤ c.val ∧ c.val ≤ 'Z'.val := h
  have hle : c.val.toNat ≤ 90 := h.2
  unfold Char.toLower
  rw [dif_pos hupper]
  show (c.val + 32).toNat = c.val.toNat + 32
  rw [UInt32.toNat_add]
  show (c.val.toNat + 32) % 4294967296 = c.val.toNat + 32
  omega

theorem toLower_eq_self {c : Char} (h : ¬ (65 ≤ c.toNat ∧ c.toNat ≤ 90)) : c.toLower = c :=
  dif_neg h

theorem value?_toLower (c : Char) : value? c.toLower = value? c := by
  by_cases h : 65 ≤ c.toNat ∧ c.toNat ≤ 90
  · have hlower := toNat_toLower h
    have hle : ∀ d e : Char, d ≤ e ↔ d.toNat ≤ e.toNat := fun _ _ => Iff.rfl
    simp only [value?, hle, hlower, Char.reduceToNat]
    repeat' split
    all_goals first | omega | exact congrArg some (by omega) | rfl
  · rw [toLower_eq_self h]

theorem isBlank_toLower (c : Char) : isBlank c.toLower = isBlank c := by
  by_cases h : 65 ≤ c.toNat ∧ c.toNat ≤ 90
  · have hlower := toNat_toLower h
    have hblank : ∀ d : Char, 32 < d.toNat → isBlank d = false := by
      intro d hd
      simp only [isBlank, Bool.or_eq_false_iff, beq_eq_false_iff_ne]
      refine ⟨⟨⟨?_, ?_⟩, ?_⟩, ?_⟩ <;> (rintro rfl; revert hd; decide)
    rw [hblank c (by omega), hblank c.toLower (by omega)]
  · rw [toLower_eq_self h]

theorem readSpaced?_map_toLower (cs : List Char) :
    readSpaced? (cs.map Char.toLower) = readSpaced? cs := by
  have hvalues : ∀ ds : List Char, values? (ds.map Char.toLower) = values? ds := by
    intro ds
    induction ds with
    | nil => rfl
    | cons d ds ih =>
      unfold values? at ih ⊢
      rw [List.map_cons, List.mapM_cons, List.mapM_cons, value?_toLower, ih]
  have hdrop : dropBlanks (cs.map Char.toLower) = (dropBlanks cs).map Char.toLower := by
    simp only [dropBlanks, List.filter_map, Function.comp_def, isBlank_toLower]
  rw [readSpaced?, hdrop, hvalues, readSpaced?]

/-- No blank is a digit. -/
theorem isBlank_of_value? {c : Char} {v : Nat} (h : value? c = some v) : isBlank c = false := by
  rcases hblank : isBlank c with _ | _
  · rfl
  · simp only [isBlank, Bool.or_eq_true, beq_iff_eq] at hblank
    rcases hblank with ((rfl | rfl) | rfl) | rfl <;> cases h

theorem length_ofHalves (vs : List Nat) : (ofHalves vs).length = vs.length / 2 := by
  fun_induction ofHalves vs with
  | case1 high low rest ih => simp only [List.length_cons, ih]; omega
  | case2 vs hshort =>
    rcases vs with _ | ⟨v, _ | ⟨w, vs⟩⟩
    · rfl
    · simp
    · exact absurd rfl (hshort v w vs)

/-- Digits alone have no blanks to drop, and are twice as many as the bytes. -/
theorem readSpaced?_of_readBytes? {cs : List Char} {bs : List UInt8}
    (h : readBytes? cs = some bs) : cs.length = 2 * bs.length ∧ readSpaced? cs = some bs := by
  unfold readBytes? at h
  split at h
  · next heven =>
    obtain ⟨vs, hvalues, rfl⟩ := Option.map_eq_some_iff.mp h
    have hmap : cs.map value? = vs.map some := Json.mapM_eq_some_iff.mp hvalues
    have hlength : cs.length = vs.length := by simpa using congrArg List.length hmap
    have hdrop : dropBlanks cs = cs := by
      rw [dropBlanks, List.filter_eq_self]
      intro c hc
      obtain ⟨v, -, hv⟩ := List.mem_map.mp (hmap ▸ List.mem_map_of_mem hc)
      rw [isBlank_of_value? hv.symm]
      rfl
    rw [length_ofHalves, readSpaced?, hdrop, hvalues, Option.map_some]
    exact ⟨by omega, rfl⟩
  · cases h

end Hex

/-- Texts that differ in the case of their digits, or in the mark before them, stand for the same
    byte string. -/
theorem Bytes.ofHex?_eq_of_toLower {n : Nat} {text text' : String}
    (h : (stripMark text.toList).map Char.toLower = (stripMark text'.toList).map Char.toLower) :
    ofHex? n text = ofHex? n text' := by
  have hlength := congrArg List.length h
  have hbytes := congrArg Hex.readSpaced? h
  rw [List.length_map, List.length_map] at hlength
  rw [Hex.readSpaced?_map_toLower, Hex.readSpaced?_map_toLower] at hbytes
  simp only [ofHex?, hlength, hbytes]

/-- A byte string is read from its digits, whatever their case and with the mark or without. -/
theorem Bytes.ofHex?_of_readBytes? {n : Nat} {text : String} {b : Bytes n}
    (h : Hex.readBytes? (stripMark text.toList) = some b.toList) : ofHex? n text = some b := by
  obtain ⟨hlength, hread⟩ := Hex.readSpaced?_of_readBytes? h
  rw [Vector.length_toList] at hlength
  simp only [ofHex?, if_pos hlength, hread, Option.map_some, fill_toList]

/-- **Other spellings of what is written.**
    * A record is read from an object whatever the order of its members, and from an array of their
      values just the same.
    * A byte string is read from its digits, with the mark before them or without.
    * Neither the mark nor the case of the digits makes a difference to what is read, or whether. -/
theorem json_forms_other_spellings :
    (InAnyOrder AttestationData.fieldNames (Json.read? AttestationData) ∧
      InAnyOrder AttesterSlashing.fieldNames (Json.read? AttesterSlashing) ∧
      InAnyOrder BlockHeader.fieldNames (Json.read? BlockHeader) ∧
      InAnyOrder Checkpoint.fieldNames (Json.read? Checkpoint) ∧
      InAnyOrder (Config.fields.map Config.Field.key) (Json.read? Config) ∧
      InAnyOrder Fork.fieldNames (Json.read? Fork) ∧
      InAnyOrder ForkData.fieldNames (Json.read? ForkData) ∧
      InAnyOrder IndexedAttestation.fieldNames (Json.read? IndexedAttestation) ∧
      InAnyOrder ProposerSlashing.fieldNames (Json.read? ProposerSlashing) ∧
      InAnyOrder signedFieldNames (Json.read? SignedBlockHeader) ∧
      InAnyOrder signedFieldNames (Json.read? SignedVoluntaryExit) ∧
      InAnyOrder SigningData.fieldNames (Json.read? SigningData) ∧
      InAnyOrder Validator.fieldNames (Json.read? Validator) ∧
      InAnyOrder VoluntaryExit.fieldNames (Json.read? VoluntaryExit) ∧
      InAnyOrder State.fieldNames State.ofJson?) ∧
    (∀ {n : Nat} (text : String) (b : Bytes n),
      Hex.readBytes? (Bytes.stripMark text.toList) = some b.toList →
        (Json.ofString text).read? (Bytes n) = some b) ∧
    ∀ (n : Nat) (text text' : String),
      (Bytes.stripMark text.toList).map Char.toLower =
          (Bytes.stripMark text'.toList).map Char.toLower →
        (Json.ofString text).read? (Bytes n) = (Json.ofString text').read? (Bytes n) := by
  refine ⟨⟨?_, ?_, ?_, ?_, ?_, ?_, ?_, ?_, ?_, ?_, ?_, ?_, ?_, ?_, ?_⟩, ?_, ?_⟩
  case refine_5 => exact .of_optionalFields? Config.nodup_keys _ Config.read?_eq
  case refine_16 => exact fun _ _ => Bytes.ofHex?_of_readBytes?
  case refine_17 => exact fun _ _ _ => Bytes.ofHex?_eq_of_toLower
  all_goals exact .of_fields? (by decide) _ fun _ => rfl

/-- A fork without the names of its fields. -/
example :
    (Json.array [.ofString "0x00FF0aB1", .ofString "ABCDEF09", .natural 7]).read? Fork =
      some ⟨#v[0x00, 0xff, 0x0a, 0xb1], #v[0xab, 0xcd, 0xef, 0x09], 7⟩ := by
  decide +kernel

end Beacon
