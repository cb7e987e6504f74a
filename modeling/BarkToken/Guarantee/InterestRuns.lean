import BarkToken.Guarantee.InterestRate
import BarkToken.Invariant.Settings
import BarkToken.Processor.Overflow
import BarkToken.Program.Replay

/-!
# Interest over whole runs (extension/interest_bearing_mint)

The runs after `InitializeInterestBearingMint` on one mint, with the rates that they
set. Everything the mint stores follows from these rates and from when they were set.
-/

namespace BarkToken
open Fallible AccountData Transition

/-! ### The configuration of a mint -/

/-- The interest configuration at an address, before or after `InitializeMint`. -/
abbrev InterestAt (l : Ledger) (M : Pubkey) (v : InterestBearingConfig) : Prop :=
  ExtensionAt l M .interestBearingConfig v

/-- The rate that the instruction sets at `M`, and when. -/
def Call.rateSet (c : Call) (M : Pubkey) : List RateSetting :=
  match c.ix with
  | .updateRate rate => if c.key 0 = some M then [⟨c.env.unixTimestamp, rate⟩] else []
  | _ => []

/-- The instruction creates an interest configuration at `M`. -/
def Call.CreatesInterest (c : Call) (M : Pubkey) : Prop :=
  c.ix.isInitializeInterestBearingMint = true ∧ c.key 0 = some M

section Configuration

variable {M : Pubkey} {l l' : Ledger} {v : InterestBearingConfig} {env : Env} {rate : Int16}
  {authority : OptionalNonZeroPubkey} {accounts : List AccountInfo}

/-- `InitializeInterestBearingMint` writes the mint in first place, and no other account. -/
theorem processInitializeInterestBearingMint_eq_ok
    (h : processInitializeInterestBearingMint env authority rate accounts l = .ok l') :
    ∃ info rest len, ∃ tlv : Tlv, accounts = info :: rest ∧ len ≠ multisigLen ∧
      l' = l.setData info.key (.zeroed len (tlv.put .interestBearingConfig
        ⟨authority, env.unixTimestamp, rate, env.unixTimestamp, rate⟩)) := by
  simp only [processInitializeInterestBearingMint, initMintExtension, bind_eq_ok, Prod.exists,
    nextAccountInfo_eq_ok, pure_eq_ok] at h
  obtain ⟨mintInfo, rest, rfl, mint, hmint, mint', hinit, v, rfl, hwrite⟩ := h
  obtain ⟨rfl, -⟩ := PodStateWithExtensions.initExtension_eq_ok hinit
  exact ⟨mintInfo, rest, mint.len, _, rfl, (unpackUninitializedMint_len hmint).1,
    (Ledger.writeData_eq_ok.mp hwrite).2⟩

/-- What `InitializeInterestBearingMint` creates. -/
theorem processInitializeInterestBearingMint_config {x : Externals}
    (hkey : (Call.mk x env (.initializeInterestBearingMint authority rate) accounts l).key 0 = some M)
    (howner : (l M).owner = programId)
    (h : processInitializeInterestBearingMint env authority rate accounts l = .ok l') :
    InterestAt l' M ⟨authority, env.unixTimestamp, rate, env.unixTimestamp, rate⟩ := by
  obtain ⟨info, rest, len, tlv, rfl, hlen, rfl⟩ := processInitializeInterestBearingMint_eq_ok h
  obtain rfl : info.key = M := Option.some.inj hkey
  exact .fresh ((Ledger.setData_owner ..).trans howner)
    (congrArg AccountRecord.data Ledger.setData_self) hlen (TypedStore.get_put_self _ _ _)

/-- `UpdateRate` writes the mint in first place, and no other account. -/
theorem processUpdateRate_eq_ok (h : processUpdateRate env rate accounts l = .ok l') :
    ∃ info rest mint v v', accounts = info :: rest ∧ (l info.key).data.unpackMint = .ok mint ∧
      mint.tlv.get .interestBearingConfig = some v ∧ v.updateRate env.unixTimestamp rate = some v' ∧
      l' = l.setData info.key (.mint (mint.setExtension .interestBearingConfig v')) := by
  simp only [processUpdateRate, updateMintExtension, bind_eq_ok, Prod.exists, exists_unit,
    nextAccountInfo_eq_ok, okOr_eq_ok, pure_eq_ok] at h
  obtain ⟨mintInfo, rest, rfl, ownerInfo, signers, -, mint, hmint, v, hv, key, -, -, v',
    ⟨average, haverage, rfl⟩, hwrite⟩ := h
  have hv := PodStateWithExtensions.getExtension_eq_ok.mp hv
  refine ⟨mintInfo, rest, mint, v, _, rfl, hmint, hv, ?_, (Ledger.writeData_eq_ok.mp hwrite).2⟩
  rw [InterestBearingConfig.updateRate, haverage, Option.map_some]

/-- At the mint it names, `UpdateRate` changes the configuration as intended. -/
theorem processUpdateRate_config {x : Externals}
    (hkey : (Call.mk x env (.updateRate rate) accounts l).key 0 = some M)
    (h : processUpdateRate env rate accounts l = .ok l') (hv : InterestAt l M v) :
    ∃ v', InterestAt l' M v' ∧ v.updateRate env.unixTimestamp rate = some v' := by
  obtain ⟨info, rest, mint, w, v', rfl, hmint, hw, hupdate, rfl⟩ := processUpdateRate_eq_ok h
  obtain rfl : info.key = M := Option.some.inj hkey
  obtain ⟨hdata, -⟩ := unpackMint_eq_ok.mp hmint
  cases hv with
  | fresh _ hzero => exact absurd (hzero.symm.trans hdata) (by simp)
  | mint hm hget =>
    obtain rfl := AccountData.mint.inj (hm.data.symm.trans hdata)
    obtain rfl := Option.some.inj (hw.symm.trans hget)
    exact ⟨v', .mint ⟨(Ledger.setData_owner ..).trans hm.owner, by rw [Ledger.setData_self]⟩
      (TypedStore.get_put_self _ _ _), hupdate⟩

/-- Every instruction but the two that set rates changes no more than the authority. -/
theorem Call.process_keeps_interest {c : Call} (hl : WellFormedLedger c.ledger)
    (h : c.process = .ok l') (hv : InterestAt c.ledger M v) (hset : ∀ rate, c.ix ≠ .updateRate rate)
    (hinit : c.ix.isInitializeInterestBearingMint = false) (hclose : ¬ c.ClosesMint M) :
    ∃ authority, InterestAt l' M { v with rateAuthority := authority } := by
  have hstep : ∀ m m', m.tlv.get .interestBearingConfig = some v → MintStep c M m m' →
      ∃ v', m'.tlv.get .interestBearingConfig = some v' ∧
        ∃ authority, v' = { v with rateAuthority := authority } := by
    intro m m' hget hstep
    obtain ⟨v', hget', hsame | ⟨rate, hix⟩⟩ := hstep.interest v hget
    · exact ⟨v', hget', hsame⟩
    · exact absurd hix (hset _)
  have hspares : c.Spares .interestBearingConfig := fun u _ hinterest hu => by
    simp [hinterest hu] at hinit
  obtain ⟨v', hv', authority, rfl⟩ := Call.process_extensionAt (fun w : InterestBearingConfig =>
    ∃ authority, w = { v with rateAuthority := authority }) hl h hv rfl hspares hclose ⟨_, rfl⟩ hstep
  exact ⟨authority, hv'⟩

/-- An interest configuration after an instruction: updated if the instruction sets its
rate, and with the same interest otherwise. -/
theorem Call.process_interest {c : Call} (hl : WellFormedLedger c.ledger) (h : c.process = .ok l')
    (hv : InterestAt c.ledger M v) (hcreate : ¬ c.CreatesInterest M) (hclose : ¬ c.ClosesMint M) :
    ∃ v', InterestAt l' M v' ∧
      ((c.rateSet M = [] ∧ ∃ authority, v' = { v with rateAuthority := authority }) ∨
        ∃ e, c.rateSet M = [e] ∧ v.updateRate e.timestamp e.rate = some v') := by
  obtain ⟨x, env, ix, accounts, l⟩ := c
  by_cases hset : ∃ rate, ix = .updateRate rate
  · obtain ⟨rate, rfl⟩ := hset
    by_cases hkey : (Call.mk x env (.updateRate rate) accounts l).key 0 = some M
    · obtain ⟨v', hv', hupdate⟩ := processUpdateRate_config hkey h hv
      exact ⟨v', hv', Or.inr ⟨⟨env.unixTimestamp, rate⟩, by simp [Call.rateSet, hkey], hupdate⟩⟩
    · obtain ⟨info, rest, mint, w, w', rfl, -, -, -, rfl⟩ := processUpdateRate_eq_ok h
      have hne : M ≠ info.key := fun hM => hkey (congrArg some hM.symm)
      exact ⟨v, hv.congr (Ledger.setData_of_ne hne), Or.inl ⟨by simp [Call.rateSet, hkey], _, rfl⟩⟩
  · have hset : ∀ rate, ix ≠ .updateRate rate := fun rate hix => hset ⟨rate, hix⟩
    have hnone : (Call.mk x env ix accounts l).rateSet M = [] := by
      unfold Call.rateSet
      split
      · exact absurd ‹_› (hset _)
      · rfl
    cases hinit : ix.isInitializeInterestBearingMint with
    | false =>
      obtain ⟨authority, hv'⟩ := Call.process_keeps_interest hl h hv hset hinit hclose
      exact ⟨_, hv', Or.inl ⟨hnone, authority, rfl⟩⟩
    | true =>
      -- The configuration it creates is another mint's.
      cases ix with
      | initializeInterestBearingMint a rate =>
        obtain ⟨info, rest, len, tlv, rfl, -, rfl⟩ := processInitializeInterestBearingMint_eq_ok h
        have hne : M ≠ info.key := fun hM => hcreate ⟨rfl, congrArg some hM.symm⟩
        exact ⟨v, hv.congr (Ledger.setData_of_ne hne), Or.inl ⟨hnone, _, rfl⟩⟩
      | _ => simp [TokenInstruction.isInitializeInterestBearingMint] at hinit

/-- While the clock does not go back, `UpdateRate` does not overflow. -/
theorem processUpdateRate_avoids {x : Externals}
    (hkey : (Call.mk x env (.updateRate rate) accounts l).key 0 = some M) (hv : InterestAt l M v)
    (hinit : v.initializationTimestamp ≤ v.lastUpdateTimestamp)
    (hnow : v.lastUpdateTimestamp ≤ env.unixTimestamp) :
    Avoids overflow (processUpdateRate env rate accounts l) := by
  refine .bind (nextAccountInfo_avoids _) fun a ha => .bind (nextAccountInfo_avoids _) fun b _ =>
    .bind (unpackMint_avoids _) fun mint hmint => .bind (getExtension_avoids _ _) fun w hw =>
      .bind (.okOr (by decide)) fun _ _ => .bind (validateOwner_avoids _ _ _ _) fun _ _ =>
        .bind (.bind ?_ fun _ _ => .pure _) fun _ _ => writeData_avoids _ _ _
  -- The configuration it reads is the one at `M`
  obtain ⟨info, rest⟩ := a
  obtain rfl := nextAccountInfo_eq_ok.mp ha
  obtain rfl : info.key = M := Option.some.inj hkey
  obtain ⟨hdata, -⟩ := unpackMint_eq_ok.mp hmint
  have hw := PodStateWithExtensions.getExtension_eq_ok.mp hw
  cases hv with
  | fresh _ hzero => exact absurd (hzero.symm.trans hdata) (by simp)
  | mint hm hget =>
    obtain rfl := AccountData.mint.inj (hm.data.symm.trans hdata)
    obtain rfl := Option.some.inj (hw.symm.trans hget)
    obtain ⟨r, hr, -⟩ := InterestBearingConfig.timeWeightedAverageRate_eq hinit hnow
    exact .of_eq_ok (okOr_eq_ok.mpr hr)

end Configuration

/-! ### Runs -/

/-- Runs that neither create an interest configuration at `M` nor close the mint, with
the rates that they set. -/
abbrev InterestRun (x : Externals) (M : Pubkey) :
    Ledger × List RateSetting → List Event → Ledger × List RateSetting → Prop :=
  RecordedRun x (fun c => c.Succeeds → ¬ c.CreatesInterest M ∧ ¬ c.ClosesMint M)
    fun c _ => c.rateSet M

/-- The configuration at `M` is what the recorded rates make of `v`, but for its
authority. -/
def InterestTraced (M : Pubkey) (v : InterestBearingConfig) (past : List RateSetting) (l : Ledger)
    (history : List RateSetting) : Prop :=
  WellFormedLedger l ∧ ∃ later w authority, history = past ++ later ∧
    v.updateRates later = some w ∧ InterestAt l M { w with rateAuthority := authority }

section Runs

variable {x : Externals} {M : Pubkey} {v : InterestBearingConfig} {past : List RateSetting}
  {events : List Event}

theorem InterestRun.interestTraced {state state' : Ledger × List RateSetting}
    (hrun : InterestRun x M state events state') (h : InterestTraced M v past state.1 state.2) :
    InterestTraced M v past state'.1 state'.2 := by
  refine RecordedRun.invariant (InterestTraced M v past) (fun c l' history _ hP hinv hok => ?_)
    (fun l l' history hinv hf => ?_) hrun h
  · obtain ⟨hl, later, w, authority, rfl, hlater, hw⟩ := hinv
    obtain ⟨hcreate, hclose⟩ := hP ⟨_, hok⟩
    refine ⟨Call.process_wellFormed hl hok, ?_⟩
    obtain ⟨w', hw', ⟨hnone, authority', rfl⟩ | ⟨e, hset, hupdate⟩⟩ :=
      Call.process_interest hl hok hw hcreate hclose
    · exact ⟨later, w, authority', by rw [hnone, List.append_nil], hlater, hw'⟩
    · obtain ⟨u, hu, rfl⟩ := InterestBearingConfig.updateRate_reassigned hupdate
      refine ⟨later ++ [e], u, authority, by rw [hset, List.append_assoc], ?_, hw'⟩
      rw [InterestBearingConfig.updateRates_append hlater,
        InterestBearingConfig.updateRates_singleton, hu]
  · obtain ⟨hl, later, w, authority, hhistory, hlater, hw⟩ := hinv
    exact ⟨hf.wellFormed hl, later, w, authority, hhistory, hlater, hf.extensionAt hw⟩

/-- What the mint stores after a run from its creation on. -/
theorem InterestRun.rateHistory {c₀ : Call} {l₁ l : Ledger} {authority : OptionalNonZeroPubkey}
    {rate : Int16} {history : List RateSetting} (hreach : Reachable c₀.x c₀.ledger)
    (hix : c₀.ix = .initializeInterestBearingMint authority rate) (hkey : c₀.key 0 = some M)
    (howner : (c₀.ledger M).owner = programId) (hok : c₀.process = .ok l₁)
    (hrun : InterestRun c₀.x M (l₁, [⟨c₀.env.unixTimestamp, rate⟩]) events (l, history)) :
    WellFormedLedger l ∧ (∃ later, history = ⟨c₀.env.unixTimestamp, rate⟩ :: later) ∧
      ∃ v, InterestAt l M v ∧ RateHistory history v := by
  obtain ⟨x, env, ix, accounts, l₀⟩ := c₀
  subst hix
  have hv := processInitializeInterestBearingMint_config hkey howner hok
  obtain ⟨hl, later, w, authority', rfl, hlater, hw⟩ := InterestRun.interestTraced
    (v := ⟨authority, env.unixTimestamp, rate, env.unixTimestamp, rate⟩) hrun
    ⟨Call.process_wellFormed hreach.wellFormed hok, [], _, authority, (List.append_nil _).symm, rfl, hv⟩
  exact ⟨hl, ⟨later, rfl⟩, _, hw, (RateHistory.created.updateRates hlater).reassigned⟩

end Runs

/-! ### A mint whose rate is set three times -/

def rateMintLedger : Ledger := .ofList [(⟨1⟩, ⟨1, programId, .zeroed 222 []⟩)]

def rateEnv (unixTimestamp : Int64) : Env := { Env.plain 0 with unixTimestamp := unixTimestamp }

def createRate : Call :=
  ⟨.refusing, rateEnv 0, .initializeInterestBearingMint ⟨⟨5⟩⟩ 0, [⟨⟨1⟩, false⟩], rateMintLedger⟩

/-- Two rates that are never seen in the rounded average. -/
def rateCalls : List (Env × TokenInstruction × List AccountInfo) :=
  [(rateEnv 0, .initializeMint 2 ⟨5⟩ none false, [⟨⟨1⟩, false⟩]),
   (rateEnv 10, .updateRate 9, [⟨⟨1⟩, false⟩, ⟨⟨5⟩, true⟩]),
   (rateEnv 11, .updateRate 11, [⟨⟨1⟩, false⟩, ⟨⟨5⟩, true⟩]),
   (rateEnv 12, .updateRate 0, [⟨⟨1⟩, false⟩, ⟨⟨5⟩, true⟩])]

def rateSettings : List RateSetting := [⟨0, 0⟩, ⟨10, 9⟩, ⟨11, 11⟩, ⟨12, 0⟩]

def createdLedger : Ledger :=
  execute .refusing createRate.env createRate.ix createRate.accounts rateMintLedger

/-- The mint and its rates, after all of this. -/
def ratedLedger : Ledger := replay .refusing rateCalls createdLedger

theorem createRate_eq_ok : createRate.process = .ok createdLedger := by
  obtain ⟨l, hok⟩ := Call.succeeds_of_isOk (c := createRate) (by decide)
  exact hok.trans (congrArg Except.ok (execute_of_process hok).symm)

theorem rateCalls_run :
    InterestRun .refusing ⟨1⟩ (createdLedger, [⟨0, 0⟩]) (rateCalls.map Event.ofCall)
      (ratedLedger, rateSettings) := by
  have hrecord : [⟨0, 0⟩] ++ replayRecord .refusing (fun c _ => c.rateSet ⟨1⟩) rateCalls createdLedger =
      rateSettings := by decide +kernel
  rw [← hrecord]
  refine recordedRun_replay _ (fun c hc l _ => ?_) createdLedger _
  simp only [rateCalls, List.mem_cons, List.not_mem_nil, or_false] at hc
  rcases hc with rfl | rfl | rfl | rfl <;>
    simp [Call.CreatesInterest, Call.ClosesMint, Call.Closes,
      TokenInstruction.isInitializeInterestBearingMint]

theorem ratedLedger_interest : InterestAt ratedLedger ⟨1⟩ ⟨⟨⟨5⟩⟩, 0, 0, 12, 0⟩ := by
  have hfound : ∃ m, (ratedLedger ⟨1⟩).data = .mint m ∧
      m.tlv.get .interestBearingConfig = some ⟨⟨⟨5⟩⟩, 0, 0, 12, 0⟩ := ⟨_, rfl, rfl⟩
  obtain ⟨m, hdata, hget⟩ := hfound
  exact .mint ⟨rfl, hdata⟩ hget

/-! ### The guarantees -/

section Guarantee

variable {M : Pubkey} {events : List Event}

/-- The interest average stays in range. After `InitializeInterestBearingMint` on `M`
and any run along which the clock does not go back, the average is there at every later
time, `UpdateRate` does not overflow, and what is stored lies between two rates that have
been set. -/
theorem interestRate_in_range {c : Call} {l₁ l : Ledger} {authority : OptionalNonZeroPubkey}
    {rate : Int16} {history : List RateSetting} (hreach : Reachable c.x c.ledger)
    (hix : c.ix = .initializeInterestBearingMint authority rate) (hkey : c.key 0 = some M)
    (howner : (c.ledger M).owner = programId) (hok : c.process = .ok l₁)
    (hrun : InterestRun c.x M (l₁, [⟨c.env.unixTimestamp, rate⟩]) events (l, history))
    (hclock : Nondecreasing history) :
    ∃ v, InterestAt l M v ∧ ⟨v.lastUpdateTimestamp, v.currentRate⟩ ∈ history ∧
      (∀ now, v.lastUpdateTimestamp ≤ now → (v.timeWeightedAverageRate now).isSome) ∧
      (∀ (env : Env) (rate' : Int16) (accounts : List AccountInfo),
        (Call.mk c.x env (.updateRate rate') accounts l).key 0 = some M →
        v.lastUpdateTimestamp ≤ env.unixTimestamp →
        process c.x env (.updateRate rate') accounts l ≠ .error TokenError.overflow) ∧
      ∃ lo ∈ history, ∃ hi ∈ history,
        lo.rate ≤ v.preUpdateAverageRate ∧ v.preUpdateAverageRate ≤ hi.rate := by
  obtain ⟨-, -, v, hv, hhistory⟩ := InterestRun.rateHistory hreach hix hkey howner hok hrun
  have hinit := hhistory.ordered hclock
  refine ⟨v, hv, hhistory.last_mem, fun now hnow => ?_, fun env rate' accounts hkey' hnow => ?_,
    hhistory.between hclock⟩
  · obtain ⟨r, hr, -⟩ := InterestBearingConfig.timeWeightedAverageRate_eq hinit hnow
    exact Option.isSome_of_eq_some hr
  · exact processUpdateRate_avoids hkey' hv hinit hnow

/-- The three updates above. -/
theorem interestRate_in_range_thrice :
    ∃ v, InterestAt ratedLedger ⟨1⟩ v ∧ (∀ now, 12 ≤ now → (v.timeWeightedAverageRate now).isSome) ∧
      0 ≤ v.preUpdateAverageRate ∧ v.preUpdateAverageRate ≤ 11 := by
  have hall : ∀ e ∈ rateSettings, e.timestamp ≤ 12 ∧ 0 ≤ e.rate ∧ e.rate ≤ 11 := by decide
  obtain ⟨v, hv, hlast, hsome, -, lo, hlo, hi, hhi, hle, hge⟩ := interestRate_in_range
    (c := createRate) ⟨_, _, .ofList (by decide) (by decide), Run.nil _⟩ rfl rfl (by decide)
    createRate_eq_ok rateCalls_run (by decide)
  exact ⟨v, hv, fun now hnow => hsome now (Int64.le_trans (hall _ hlast).1 hnow),
    Int16.le_trans (hall lo hlo).2.1 hle, Int16.le_trans hge (hall hi hhi).2.2⟩

/-- How accurate the interest average is. After `InitializeInterestBearingMint` on `M` and
any run along which the clock goes forward, what is stored is the rate it began with until
the first update and the exact mean after it, and for each further update the error grows by
less than one basis point. An update that sets the rate already in force changes what is
reported afterwards by one basis point at most, whatever is set later. -/
theorem interestRate_accurate {c : Call} {l₁ l : Ledger} {authority : OptionalNonZeroPubkey}
    {rate : Int16} {history : List RateSetting} (hreach : Reachable c.x c.ledger)
    (hix : c.ix = .initializeInterestBearingMint authority rate) (hkey : c.key 0 = some M)
    (howner : (c.ledger M).owner = programId) (hok : c.process = .ok l₁)
    (hrun : InterestRun c.x M (l₁, [⟨c.env.unixTimestamp, rate⟩]) events (l, history))
    (hclock : Increasing history) :
    ∃ v, InterestAt l M v ∧ (history.length = 1 → v.preUpdateAverageRate = rate) ∧
      (2 ≤ history.length → |(v.preUpdateAverageRate.toInt : ℚ) - exactMean history| ≤
        (history.length - 2) * (1 - 1 / timespan history)) ∧
      ∀ (env : Env) (accounts : List AccountInfo) (l' : Ledger),
        (Call.mk c.x env (.updateRate v.currentRate) accounts l).key 0 = some M →
        v.lastUpdateTimestamp < env.unixTimestamp →
        process c.x env (.updateRate v.currentRate) accounts l = .ok l' →
        ∀ later l₂ l₂' events₂ events₂',
          InterestRun c.x M (l, []) events₂ (l₂, later) →
          InterestRun c.x M (l', []) events₂' (l₂', later) →
          ((env.unixTimestamp :: later.map RateSetting.timestamp).Pairwise (· < ·)) →
          ∃ w w', InterestAt l₂ M w ∧ InterestAt l₂' M w' ∧
            ∀ now, env.unixTimestamp ≤ now → (∀ e ∈ later, e.timestamp ≤ now) →
              ∃ r r', w.timeWeightedAverageRate now = some r ∧
                w'.timeWeightedAverageRate now = some r' ∧ |r.toInt - r'.toInt| ≤ 1 := by
  obtain ⟨hl, hfirst, v, hv, hhistory⟩ := InterestRun.rateHistory hreach hix hkey howner hok hrun
  refine ⟨v, hv, fun hone => ?_, hhistory.abs_sub_exactMean_le hclock,
    fun env accounts l' hkey' hnow hok' later l₂ l₂' events₂ events₂' hrun₂ hrun₂' hclock' => ?_⟩
  · obtain ⟨later, rfl⟩ := hfirst
    obtain rfl : later = [] := List.eq_nil_of_length_eq_zero (Nat.succ.inj hone)
    exact (hhistory.of_single rfl).1
  have hinit := hhistory.ordered hclock.nondecreasing
  have hnow := Int64.le_of_lt hnow
  obtain ⟨v', hv', hextra⟩ := processUpdateRate_config hkey' hok' hv
  have hl' : WellFormedLedger l' :=
    Call.process_wellFormed (c := ⟨c.x, env, .updateRate v.currentRate, accounts, l⟩) hl hok'
  obtain ⟨-, later₁, w, a, hsame, hlater, hw⟩ := InterestRun.interestTraced (v := v) hrun₂
    ⟨hl, [], _, v.rateAuthority, (List.append_nil _).symm, rfl, hv⟩
  obtain ⟨-, later₂, w', a', hsame', hlater', hw'⟩ := InterestRun.interestTraced (v := v') hrun₂'
    ⟨hl', [], _, v'.rateAuthority, (List.append_nil _).symm, rfl, hv'⟩
  obtain rfl : later = later₁ := hsame
  obtain rfl : later = later₂ := hsame'
  obtain ⟨u, u', hu, hu', hnear⟩ := (InterestBearingConfig.Near.of_extra hinit hnow hextra).updateRates
    (hclock'.imp Int64.le_of_lt)
  obtain rfl := Option.some.inj (hu.symm.trans hlater)
  obtain rfl := Option.some.inj (hu'.symm.trans hlater')
  exact ⟨_, _, hw, hw', fun now hle hall => (hnear now hle hall).report⟩

/-- The three updates above. -/
theorem interestRate_accurate_thrice :
    ∃ v, InterestAt ratedLedger ⟨1⟩ v ∧
      |(v.preUpdateAverageRate.toInt : ℚ) - exactMean rateSettings| ≤ 2 * (1 - 1 / 12) := by
  obtain ⟨v, hv, -, hclose, -⟩ := interestRate_accurate (c := createRate)
    ⟨_, _, .ofList (by decide) (by decide), Run.nil _⟩ rfl rfl (by decide) createRate_eq_ok
    rateCalls_run (by decide)
  have hspan : timespan rateSettings = 12 := by decide
  have hclose := hclose (by decide)
  rw [hspan] at hclose
  norm_num [rateSettings] at hclose ⊢
  exact ⟨v, hv, hclose⟩

/-- There the average is more than one basis point off: the mean is 20 / 12, and 0 is
stored. -/
theorem interestRate_off_by_more :
    createRate.process = .ok createdLedger ∧
      InterestRun .refusing ⟨1⟩ (createdLedger, [⟨0, 0⟩]) (rateCalls.map Event.ofCall)
        (ratedLedger, rateSettings) ∧
      Increasing rateSettings ∧
      ∃ v, InterestAt ratedLedger ⟨1⟩ v ∧
        ¬ |(v.preUpdateAverageRate.toInt : ℚ) - exactMean rateSettings| < 1 := by
  refine ⟨createRate_eq_ok, rateCalls_run, by decide, _, ratedLedger_interest, ?_⟩
  have hmean : exactMean rateSettings = 20 / 12 := by
    have haccrued : accrued rateSettings = 20 := by decide
    have hspan : timespan rateSettings = 12 := by decide
    rw [exactMean, haccrued, hspan]
    norm_num
  have hstored : (0 : Int16).toInt = 0 := rfl
  rw [hmean]
  norm_num [hstored, abs_of_pos]

end Guarantee

end BarkToken
