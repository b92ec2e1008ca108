/-
  Signature checks are a gate.

  A check of a message may ask any verifier for its signatures, with rules of its own in between.
  Yet all that can come of it is settled before the verifier is asked: there is a list of checks
  and a result such that every verifier is asked for these checks in order, up to the first that
  it refuses, and the result is this one if it refuses none (`Asks`).  A verifier decides whether
  the message passes and nothing else.

  From the message, the state and the cached keys it can be told which checks a message needs
  (`BlockOperation.requiredChecks`).  They are what is asked of the verifier whenever the rest of
  the message is in order (`Gates`), so that nothing is applied to the state without them.
-/
import Beacon.Proofs.Epoch.Collected
import Beacon.Proofs.Operation.Stages

namespace Beacon

open Beacon.Action

variable {κ ω α β : Type}

/-! ## Asking for several checks -/

namespace Verifier

/-- Asks for checks one after the other, up to the first that is refused. -/
def askAll (verifier : Verifier κ ω) : List (SignatureCheck κ) → Action ω Unit
  | [] => pure ()
  | c :: cs => do
    verifier.check c
    verifier.askAll cs

/-- A check that was asked, and whether it was accepted. -/
abbrev Answered (κ : Type) := SignatureCheck κ × Except Failure Unit

/-- The verifier that asks another one and notes all its answers. -/
def logging (verifier : Verifier κ ω) : Verifier κ (ω × List (Answered κ)) where
  check c := Action.ofRun fun (w, log) =>
    let (answer, w') := (verifier.check c).runOn w
    (answer, w', log ++ [(c, answer)])

theorem runOn_askAll_cons (verifier : Verifier κ ω) (c : SignatureCheck κ)
    (cs : List (SignatureCheck κ)) (w : ω) :
    (verifier.askAll (c :: cs)).runOn w =
      (verifier.check c >>= fun _ => verifier.askAll cs).runOn w := rfl

theorem runOn_logging (verifier : Verifier κ ω) (c : SignatureCheck κ) (w : ω)
    (log : List (Answered κ)) :
    (verifier.logging.check c).runOn (w, log) =
      (((verifier.check c).runOn w).1, ((verifier.check c).runOn w).2,
        log ++ [(c, ((verifier.check c).runOn w).1)]) := rfl

theorem runOn_askAll_append (verifier : Verifier κ ω) (cs cs' : List (SignatureCheck κ)) (w : ω) :
    (verifier.askAll (cs ++ cs')).runOn w =
      (verifier.askAll cs >>= fun _ => verifier.askAll cs').runOn w := by
  induction cs generalizing w with
  | nil => rfl
  | cons c cs ih =>
    rw [List.cons_append, runOn_askAll_cons, runOn_bind, runOn_bind, runOn_askAll_cons, runOn_bind]
    rcases (verifier.check c).runOn w with ⟨_ | _, w'⟩
    · rfl
    · dsimp only
      rw [ih w', runOn_bind]

/-- The verifier that accepts everything accepts any number of checks. -/
theorem runOn_askAll_null (cs : List (SignatureCheck κ)) :
    ((null : Verifier κ Unit).askAll cs).runOn () = (.ok (), ()) := by
  induction cs with
  | nil => rfl
  | cons c cs ih => exact ih

/-- The log of checks that were all accepted. -/
def allAccepted (cs : List (SignatureCheck κ)) : List (Answered κ) := cs.map fun c => (c, .ok ())

theorem refused_notMem_allAccepted (c : SignatureCheck κ) (failure : Failure)
    (cs : List (SignatureCheck κ)) : (c, .error failure) ∉ allAccepted cs := by
  intro hmem
  obtain ⟨d, -, hd⟩ := List.mem_map.mp hmem
  nomatch hd

/-- If only the last of the checks is refused, no refusal stands anywhere else. -/
theorem eq_of_refused_last {accepted : List (SignatureCheck κ)} {c d : SignatureCheck κ}
    {failure other : Failure} {before after : List (Answered κ)}
    (h : allAccepted accepted ++ [(c, .error failure)] = before ++ (d, .error other) :: after) :
    after = [] ∧ failure = other := by
  rcases List.append_eq_append_iff.mp h with ⟨between, -, hlast⟩ | ⟨between, haccepted, hrest⟩
  · rcases between with _ | ⟨b, between⟩
    · cases hlast
      exact ⟨rfl, rfl⟩
    · have hlength := congrArg List.length hlast
      simp only [List.length_append, List.length_cons, List.length_nil] at hlength
      omega
  · rcases between with _ | ⟨b, between⟩
    · cases hrest
      exact ⟨rfl, rfl⟩
    · -- the refusal would be among those accepted
      cases hrest
      refine absurd ?_ (refused_notMem_allAccepted d other accepted)
      rw [haccepted]
      exact List.mem_append_right _ List.mem_cons_self

/-- Either all checks are accepted, or the log ends with the first that is refused. -/
theorem runOn_askAll_logging (verifier : Verifier κ ω) (cs : List (SignatureCheck κ)) (w : ω)
    (seen : List (Answered κ)) :
    (∃ w', (verifier.askAll cs).runOn w = (.ok (), w') ∧
      (verifier.logging.askAll cs).runOn (w, seen) = (.ok (), w', seen ++ allAccepted cs)) ∨
    ∃ accepted c failure w', (verifier.askAll cs).runOn w = (.error failure, w') ∧
      (verifier.logging.askAll cs).runOn (w, seen) =
        (.error failure, w', seen ++ (allAccepted accepted ++ [(c, .error failure)])) := by
  induction cs generalizing w seen with
  | nil =>
    left
    refine ⟨w, rfl, ?_⟩
    show _ = (_, w, seen ++ [])
    rw [List.append_nil]
    rfl
  | cons c cs ih =>
    rw [runOn_askAll_cons, runOn_bind, runOn_askAll_cons, runOn_bind, runOn_logging]
    rcases (verifier.check c).runOn w with ⟨failure | _, w'⟩
    · right
      exact ⟨[], c, failure, w', rfl, rfl⟩
    · rcases ih w' (seen ++ [(c, .ok ())]) with ⟨w'', hrun, hlogged⟩ | h
      · left
        refine ⟨w'', hrun, ?_⟩
        dsimp only
        rw [hlogged, List.append_assoc]
        rfl
      · obtain ⟨accepted, d, failure, w'', hrun, hlogged⟩ := h
        right
        refine ⟨c :: accepted, d, failure, w'', hrun, ?_⟩
        dsimp only
        rw [hlogged, List.append_assoc]
        rfl

end Verifier

/-! ## What an action asks of a verifier -/

/-- Whatever the verifier, the action asks for these checks in order and ends with this result if
    all of them are accepted. -/
def Asks (checks : List (SignatureCheck κ)) (result : Except Failure α)
    (act : ∀ {ω : Type}, Verifier κ ω → Action ω α) : Prop :=
  ∀ {ω : Type} (verifier : Verifier κ ω) (w : ω),
    (act verifier).runOn w = (verifier.askAll checks >>= fun _ => Action.ofExcept result).runOn w

/-- The action asks for checks that do not depend on the verifier.  If it can succeed, they are the
    required ones. -/
def Gates (required : Option (List (SignatureCheck κ)))
    (act : ∀ {ω : Type}, Verifier κ ω → Action ω α) : Prop :=
  ∃ checks result, Asks checks result act ∧ ∀ a, result = .ok a → required = some checks

namespace Gates

/-- A result that no verifier is asked about. -/
theorem ofExcept (result : Except Failure α) :
    Gates (κ := κ) (some []) fun {_} _ => Action.ofExcept result :=
  ⟨[], result, fun _ _ => rfl, fun _ _ => rfl⟩

theorem check (c : SignatureCheck κ) : Gates (some [c]) fun verifier => verifier.check c := by
  refine ⟨[c], .ok (), ?_, fun _ _ => rfl⟩
  intro ω verifier w
  rw [runOn_bind, Verifier.runOn_askAll_cons, runOn_bind]
  rcases (verifier.check c).runOn w with ⟨_ | _, w'⟩ <;> rfl

/-- A rule in between asks for nothing; what comes after it may rely on its result. -/
theorem bind_ofExcept {result : Except Failure α} {required : Option (List (SignatureCheck κ))}
    {next : α → ∀ {ω : Type}, Verifier κ ω → Action ω β}
    (hnext : ∀ a, result = .ok a → Gates required (next a)) :
    Gates required fun {_} verifier => Action.ofExcept result >>= fun a => next a verifier := by
  cases result with
  | ok a =>
    obtain ⟨checks, result, hasks, hrequired⟩ := hnext a rfl
    exact ⟨checks, result, fun verifier w => hasks verifier w, hrequired⟩
  | error failure => exact ⟨[], .error failure, fun _ _ => rfl, fun _ h => nomatch h⟩

/-- Two parts ask for the checks of the first and then for those of the second. -/
theorem bind {required required' : Option (List (SignatureCheck κ))}
    {first : ∀ {ω : Type}, Verifier κ ω → Action ω α}
    {next : α → ∀ {ω : Type}, Verifier κ ω → Action ω β}
    (hfirst : Gates required first) (hnext : ∀ a, Gates required' (next a)) :
    Gates (do return (← required) ++ (← required'))
      fun {_} verifier => first verifier >>= fun a => next a verifier := by
  obtain ⟨checks, result, hasks, hrequired⟩ := hfirst
  cases result with
  | error failure =>
    refine ⟨checks, .error failure, ?_, fun _ h => nomatch h⟩
    intro ω verifier w
    rw [runOn_bind, hasks, runOn_bind, runOn_bind]
    rcases (verifier.askAll checks).runOn w with ⟨_ | _, w'⟩ <;> rfl
  | ok a =>
    obtain ⟨checks', result', hasks', hrequired'⟩ := hnext a
    refine ⟨checks ++ checks', result', ?_, ?_⟩
    · intro ω verifier w
      rw [runOn_bind, hasks, runOn_bind, runOn_bind, verifier.runOn_askAll_append, runOn_bind]
      rcases (verifier.askAll checks).runOn w with ⟨_ | _, w'⟩
      · rfl
      · show (next a verifier).runOn w' = _
        rw [hasks', runOn_bind]
    · intro b hb
      rw [hrequired a rfl, hrequired' b hb]
      rfl

/-- The case of a second part that asks for nothing. -/
theorem bind_rest {required : Option (List (SignatureCheck κ))}
    {first : ∀ {ω : Type}, Verifier κ ω → Action ω α}
    {next : α → ∀ {ω : Type}, Verifier κ ω → Action ω β}
    (hfirst : Gates required first) (hnext : ∀ a, Gates (some []) (next a)) :
    Gates required fun {_} verifier => first verifier >>= fun a => next a verifier := by
  have h := hfirst.bind hnext
  have hsame : (do return (← required) ++ (← some [])) = required := by
    cases required with
    | none => rfl
    | some checks => exact congrArg some (List.append_nil checks)
  rwa [hsame] at h

end Gates

/-! ## The checks a message needs -/

section

variable {σ : Type} [StateAccess σ] (config : Config) (s : σ) (cache : KeyCache κ)

/-- What is signed of a message: its root in the domain that its kind has in an epoch. -/
def rootForEpoch {α : Type} [Signable α] (epoch : Epoch) (message : α) : Root :=
  rootInDomain Sha256.hashPair message
    (domainAt Sha256.hashPair config s (Signable.domainType α) (some epoch))

/-- The exit, signed with the key of its validator for its own epoch. -/
def SignedVoluntaryExit.requiredCheck (signed : SignedVoluntaryExit) :
    Option (SignatureCheck κ) := do
  let key ← cache.get? signed.message.validatorIndex.toNat
  return {
    kind := .voluntaryExit
    message := rootForEpoch config s signed.message.epoch signed.message
    signature := signed.signature
    signers := .one key }

/-- The header, signed with the key of its proposer for the epoch of its slot. -/
def SignedBlockHeader.requiredCheck (signed : SignedBlockHeader) : Option (SignatureCheck κ) := do
  let key ← cache.get? signed.message.proposerIndex.toNat
  return {
    kind := .block
    message := rootForEpoch config s (epochAtSlot config signed.message.slot) signed.message
    signature := signed.signature
    signers := .one key }

/-- The vote, signed with the keys of all its attesters for the epoch of its target. -/
def IndexedAttestation.requiredCheck (attestation : IndexedAttestation) :
    Option (SignatureCheck κ) := do
  let keys ← attestation.attestingIndices.mapM fun index => cache.get? index.toNat
  return {
    kind := .attestation
    message := rootForEpoch config s attestation.data.target.epoch attestation.data
    signature := attestation.signature
    signers := .all keys }

/-- All checks that an operation needs, in the order in which they are made, if all keys are
    cached. -/
def BlockOperation.requiredChecks : BlockOperation → Option (List (SignatureCheck κ))
  | voluntaryExit signed => do
    return [← signed.requiredCheck config s cache]
  | proposerSlashing slashing _ => do
    return [← slashing.signedHeader1.requiredCheck config s cache,
      ← slashing.signedHeader2.requiredCheck config s cache]
  | attesterSlashing slashing _ => do
    return [← slashing.attestation1.requiredCheck config s cache,
      ← slashing.attestation2.requiredCheck config s cache]

end

/-! ## What the operations ask for -/

section

variable {σ : Type} [StateAccess σ] (config : Config) (s : σ) {cache : KeyCache κ}

theorem SignedVoluntaryExit.requiredCheck_of_require {signed : SignedVoluntaryExit} {key : κ}
    (h : cache.require signed.message.validatorIndex.toNat = .ok key) :
    signed.requiredCheck config s cache = some {
      kind := Signable.kind VoluntaryExit
      message := signingRoot Sha256.hashPair config s signed.message
      signature := signed.signature
      signers := .one key } := by
  unfold requiredCheck
  rw [orFail_eq_ok_iff.mp h]
  rfl

theorem SignedBlockHeader.requiredCheck_of_require {signed : SignedBlockHeader} {key : κ}
    (h : cache.require signed.message.proposerIndex.toNat = .ok key) :
    signed.requiredCheck config s cache = some (signed.signatureCheck config s key) := by
  unfold requiredCheck
  rw [orFail_eq_ok_iff.mp h]
  rfl

/-- Keys that are required are the cached ones. -/
theorem KeyCache.mapM_get?_of_require {indices : List UInt64} {keys : List κ}
    (h : (indices.mapM fun index => cache.require index.toNat) = .ok keys) :
    (indices.mapM fun index => cache.get? index.toNat) = some keys := by
  induction indices generalizing keys with
  | nil =>
    cases h
    rfl
  | cons index indices ih =>
    rw [List.mapM_cons] at h ⊢
    obtain ⟨key, hkey, h⟩ := bind_eq_ok_iff.mp h
    obtain ⟨rest, hrest, h⟩ := bind_eq_ok_iff.mp h
    cases h
    rw [orFail_eq_ok_iff.mp hkey, ih hrest]
    rfl

theorem IndexedAttestation.requiredCheck_of_require {attestation : IndexedAttestation}
    {keys : List κ}
    (h : (attestation.attestingIndices.mapM fun index => cache.require index.toNat) = .ok keys) :
    attestation.requiredCheck config s cache = some {
      kind := Signable.kind AttestationData
      message := signingRoot Sha256.hashPair config s attestation.data
      signature := attestation.signature
      signers := .all keys } := by
  unfold requiredCheck
  rw [KeyCache.mapM_get?_of_require h]
  rfl

variable (cache)

theorem IndexedAttestation.gates_check (attestation : IndexedAttestation) :
    Gates ((attestation.requiredCheck config s cache).map fun c => [c])
      fun {_} verifier => attestation.check config s cache verifier := by
  refine Gates.bind_ofExcept fun _ _ => ?_
  refine Gates.bind_ofExcept fun keys hkeys => ?_
  refine Gates.bind_ofExcept fun _ _ => ?_
  rw [requiredCheck_of_require config s hkeys]
  exact Gates.check _

theorem SignedVoluntaryExit.gates_check (signed : SignedVoluntaryExit) :
    Gates (do return [← signed.requiredCheck config s cache])
      fun {_} verifier => signed.check config s cache verifier := by
  refine Gates.bind_ofExcept fun _ _ => ?_
  refine Gates.bind_ofExcept fun key hkey => ?_
  rw [requiredCheck_of_require config s hkey]
  exact Gates.check _

theorem ProposerSlashing.gates_check (slashing : ProposerSlashing) :
    Gates (do
        return [← slashing.signedHeader1.requiredCheck config s cache,
          ← slashing.signedHeader2.requiredCheck config s cache])
      fun {_} verifier => slashing.check config s cache verifier := by
  refine Gates.bind_ofExcept fun _ hheaders => ?_
  refine Gates.bind_ofExcept fun key hkey => ?_
  -- the key is looked up once, for both headers are of one proposer
  obtain ⟨_, -, hheaders⟩ := bind_eq_ok_iff.mp hheaders
  obtain ⟨_, hsame, -⟩ := bind_eq_ok_iff.mp hheaders
  rw [ensure_eq_ok_iff, beq_iff_eq] at hsame
  have hkey2 : cache.require slashing.signedHeader2.message.proposerIndex.toNat = .ok key := by
    rw [← hsame]
    exact hkey
  rw [SignedBlockHeader.requiredCheck_of_require config s hkey,
    SignedBlockHeader.requiredCheck_of_require config s hkey2]
  exact Gates.bind (Gates.check _) fun _ => Gates.check _

theorem AttesterSlashing.gates_check (slashing : AttesterSlashing) :
    Gates (do
        return [← slashing.attestation1.requiredCheck config s cache,
          ← slashing.attestation2.requiredCheck config s cache])
      fun {_} verifier => slashing.check config s cache verifier := by
  have h1 := slashing.attestation1.gates_check config s cache
  have h2 := slashing.attestation2.gates_check config s cache
  have happend : ∀ a b : Option (SignatureCheck κ), (do return [← a, ← b]) =
      (do return (← a.map fun c => [c]) ++ (← b.map fun c => [c])) := by
    rintro (_ | a) (_ | b) <;> rfl
  rw [happend]
  refine Gates.bind_ofExcept fun _ _ => ?_
  refine h1.bind fun _ => ?_
  refine h2.bind_rest fun _ => ?_
  refine Gates.bind_ofExcept fun slashable _ => ?_
  exact Gates.bind_ofExcept fun _ _ => Gates.ofExcept (.ok slashable)

/-- Each of the three operations asks for the checks it needs. -/
theorem BlockOperation.gates_check (op : BlockOperation) :
    Gates (op.requiredChecks config s cache)
      fun {_} verifier => op.check config s cache verifier := by
  cases op with
  | voluntaryExit signed =>
    exact (signed.gates_check config s cache).bind_rest fun _ => Gates.ofExcept (.ok [])
  | proposerSlashing slashing proposer =>
    exact (slashing.gates_check config s cache).bind_rest fun _ => Gates.ofExcept (.ok [])
  | attesterSlashing slashing proposer => exact slashing.gates_check config s cache

end

/-! ## The gate -/

section

variable {σ : Type} [StateAccess σ]

open Verifier in
/-- An operation ends as it would if every signature were accepted, unless one is refused: then
    nothing more is asked, the refusal is the outcome and the state is as before.  Nothing comes of
    an operation before all the checks it needs have been made, in order, and accepted. -/
theorem BlockOperation.enact_gated (config : Config) (cache : KeyCache κ)
    (verifier : Verifier κ ω) (op : BlockOperation) (s : σ) (w : ω) :
    ∃ result t w' log,
      (op.enact config cache verifier).runOn (s, w) = (result, t, w') ∧
      (op.enact config cache verifier.logging).runOn (s, w, []) = (result, t, w', log) ∧
      ((∀ c answer, (c, answer) ∈ log → answer = .ok ()) →
        (op.enact config cache null).runOn (s, ()) = (result, t, ())) ∧
      (∀ before c failure after, log = before ++ (c, .error failure) :: after →
        after = [] ∧ result = .error failure ∧ t = s) ∧
      (t ≠ s ∨ result = .ok () →
        ∃ checks, op.requiredChecks config s cache = some checks ∧ log = allAccepted checks) := by
  obtain ⟨checks, outcome, hasks, hrequired⟩ := op.gates_check config s cache
  have hnull : (op.check config s cache null).runOn () = (outcome, ()) := by
    rw [hasks, runOn_bind, runOn_askAll_null]
    rfl
  rcases verifier.runOn_askAll_logging checks w [] with ⟨w', hrun, hlogged⟩ | hrefused
  · -- all are accepted: the rest does not see the verifier
    have hcheck : (op.check config s cache verifier).runOn w = (outcome, w') := by
      rw [hasks, runOn_bind, hrun]
      rfl
    have hcheckLogged : (op.check config s cache verifier.logging).runOn (w, []) =
        (outcome, w', allAccepted checks) := by
      rw [hasks, runOn_bind, hlogged]
      rfl
    have haccepted : ∀ before c failure after,
        allAccepted checks ≠ before ++ (c, .error failure) :: after := by
      intro before c failure after hlog
      refine refused_notMem_allAccepted c failure checks ?_
      rw [hlog]
      exact List.mem_append_right _ List.mem_cons_self
    cases outcome with
    | error failure =>
      refine ⟨.error failure, s, w', allAccepted checks, runOn_enact_of_check_error hcheck,
        runOn_enact_of_check_error hcheckLogged, fun _ => runOn_enact_of_check_error hnull,
        fun before c f after hlog => absurd hlog (haccepted before c f after), ?_⟩
      rintro (h | h)
      · exact absurd rfl h
      · nomatch h
    | ok struck =>
      exact ⟨_, _, w', allAccepted checks, runOn_enact_of_check_ok hcheck,
        runOn_enact_of_check_ok hcheckLogged, fun _ => runOn_enact_of_check_ok hnull,
        fun before c f after hlog => absurd hlog (haccepted before c f after),
        fun _ => ⟨checks, hrequired struck rfl, rfl⟩⟩
  · -- the refusal ends the check
    obtain ⟨accepted, c, failure, w', hrun, hlogged⟩ := hrefused
    have hcheck : (op.check config s cache verifier).runOn w = (.error failure, w') := by
      rw [hasks, runOn_bind, hrun]
    have hcheckLogged : (op.check config s cache verifier.logging).runOn (w, []) =
        (.error failure, w', allAccepted accepted ++ [(c, .error failure)]) := by
      rw [hasks, runOn_bind, hlogged]
      rfl
    refine ⟨.error failure, s, w', _, runOn_enact_of_check_error hcheck,
      runOn_enact_of_check_error hcheckLogged, ?_, ?_, ?_⟩
    · intro hall
      nomatch hall c (.error failure) (List.mem_append_right _ (List.mem_singleton_self _))
    · intro before d other after hlog
      obtain ⟨hafter, rfl⟩ := eq_of_refused_last hlog
      exact ⟨hafter, rfl, rfl⟩
    · rintro (h | h)
      · exact absurd rfl h
      · nomatch h

end

/-- Two votes of the first validator for one target. -/
def doubleVote : AttesterSlashing where
  attestation1 := { attestingIndices := [0], data := default, signature := default }
  attestation2 := {
    attestingIndices := [0]
    data := { (default : AttestationData) with beaconBlockRoot := Vector.replicate 32 1 }
    signature := default }

/-- The double vote, brought in by the second validator, with all checks noted. -/
def doubleVoteRun : Except Failure Unit × State × List (SignatureCheck Nat) :=
  ((BlockOperation.attesterSlashing doubleVote 1).enact Config.minimal (KeyCache.empty.insert 0 5)
    (.recording none)).runOn (Collect.overlapping, [])

/-- The first validator is slashed, after both votes were checked with its key.  The third has been
    slashed before. -/
theorem BlockOperation.enact_gated_doubleVote : ∃ checks t w',
    (BlockOperation.attesterSlashing doubleVote 1).requiredChecks Config.minimal Collect.overlapping
      (KeyCache.empty.insert 0 5) = some checks ∧
    checks.map SignatureCheck.signers = [.all [5], .all [5]] ∧
    t.validators.toList.map Validator.slashed = [true, false, true] ∧
    ((BlockOperation.attesterSlashing doubleVote 1).enact Config.minimal
      (KeyCache.empty.insert 0 5) (Verifier.recording none).logging).runOn
        (Collect.overlapping, [], []) = (.ok (), t, w', Verifier.allAccepted checks) := by
  obtain ⟨result, t, w', log, hrun, hlogged, -, -, heffect⟩ :=
    BlockOperation.enact_gated Config.minimal (KeyCache.empty.insert 0 5) (.recording none)
      (.attesterSlashing doubleVote 1) Collect.overlapping []
  have hrun : doubleVoteRun = (result, t, w') := hrun
  have hok : doubleVoteRun.1.isOk = true := by decide +kernel
  have hslashed : doubleVoteRun.2.1.validators.toList.map Validator.slashed =
      [true, false, true] := by decide +kernel
  rw [hrun] at hok hslashed
  obtain rfl : result = .ok () := by
    cases result with
    | ok => rfl
    | error => nomatch hok
  obtain ⟨checks, hchecks, rfl⟩ := heffect (.inr rfl)
  have hsigners : ((BlockOperation.attesterSlashing doubleVote 1).requiredChecks Config.minimal
      Collect.overlapping (KeyCache.empty.insert 0 5)).map (·.map SignatureCheck.signers) =
        some [.all [5], .all [5]] := by decide +kernel
  rw [hchecks, Option.map_some, Option.some.injEq] at hsigners
  exact ⟨checks, t, w', hchecks, hsigners, hslashed, hlogged⟩

end Beacon
