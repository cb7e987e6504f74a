import BarkToken.Extension.Mint
import BarkToken.Foundation.RunningMean
import Mathlib.Algebra.Order.Field.Basic
import Mathlib.Algebra.Order.Field.Rat
import Mathlib.Algebra.Order.Ring.Abs
import Mathlib.Tactic.FieldSimp

/-!
# The average interest rate (extension/interest_bearing_mint)

Each `UpdateRate` folds the rate that was in force into a stored average, which it
rounds. The average stays among the rates that have been set; its error is less than a
basis point for each update after the first, and these errors add up.
-/

namespace BarkToken
open Fallible CheckedWord AccountData RunningMean

/-! ### One update -/

namespace InterestBearingConfig

/-- What `process_update_rate` makes of a configuration. -/
def updateRate (v : InterestBearingConfig) (timestamp : Int64) (rate : Int16) :
    Option InterestBearingConfig :=
  (v.timeWeightedAverageRate timestamp).map fun averageRate =>
    { v with
      preUpdateAverageRate := averageRate
      lastUpdateTimestamp := timestamp
      currentRate := rate }

/-- The stored average, and the time behind it. -/
def average (v : InterestBearingConfig) : State :=
  ⟨v.preUpdateAverageRate.toInt, v.lastUpdateTimestamp.toInt - v.initializationTimestamp.toInt⟩

/-- The time since the last update. -/
def elapsed (v : InterestBearingConfig) (now : Int64) : ℤ := now.toInt - v.lastUpdateTimestamp.toInt

/-- The average at a later time, as an integer. -/
def nextAverage (v : InterestBearingConfig) (now : Int64) : ℤ :=
  v.average.next v.currentRate.toInt (v.elapsed now)

end InterestBearingConfig

theorem fitsInt_of_abs_le {z : ℤ} (h : |z| ≤ 2 ^ 80) : fitsInt 128 z = some z := by
  rw [abs_le] at h
  exact if_pos ⟨by omega, by omega⟩

theorem abs_rate_mul_le {rate : Int16} {t : ℤ} (ht : |t| ≤ 2 ^ 64) :
    |rate.toInt * t| ≤ 2 ^ 79 := by
  have h₁ := rate.le_toInt
  have h₂ := rate.toInt_lt
  have hrate : |rate.toInt| ≤ 2 ^ 15 := abs_le.mpr ⟨by omega, by omega⟩
  rw [abs_mul]
  calc |rate.toInt| * |t| ≤ 2 ^ 15 * 2 ^ 64 := mul_le_mul hrate ht (abs_nonneg t) (by norm_num)
    _ = 2 ^ 79 := by norm_num

theorem abs_timespan_le (a b : Int64) : |a.toInt - b.toInt| ≤ 2 ^ 64 := by
  have h₁ := a.le_toInt
  have h₂ := a.toInt_lt
  have h₃ := b.le_toInt
  have h₄ := b.toInt_lt
  rw [abs_le]
  omega

section Update

variable {v : InterestBearingConfig} {now : Int64}

/-- The average lies between the stored one and the current rate. -/
theorem InterestBearingConfig.nextAverage_between {lo hi : ℤ}
    (hinit : v.initializationTimestamp ≤ v.lastUpdateTimestamp) (hnow : v.lastUpdateTimestamp ≤ now)
    (hlo : lo ≤ v.preUpdateAverageRate.toInt) (hlo' : lo ≤ v.currentRate.toInt)
    (hhi : v.preUpdateAverageRate.toInt ≤ hi) (hhi' : v.currentRate.toInt ≤ hi) :
    lo ≤ v.nextAverage now ∧ v.nextAverage now ≤ hi := by
  rw [Int64.le_iff_toInt_le] at hinit hnow
  exact State.next_between (Int.sub_nonneg_of_le hinit) (Int.sub_nonneg_of_le hnow) hlo hlo' hhi hhi'

/-- No step of the computation overflows, and the average fits. -/
theorem InterestBearingConfig.timeWeightedAverageRate_eq
    (hinit : v.initializationTimestamp ≤ v.lastUpdateTimestamp) (hnow : v.lastUpdateTimestamp ≤ now) :
    ∃ r, v.timeWeightedAverageRate now = some r ∧ r.toInt = v.nextAverage now := by
  have hbetween : -2 ^ 15 ≤ v.nextAverage now ∧ v.nextAverage now ≤ 2 ^ 15 - 1 :=
    nextAverage_between hinit hnow v.preUpdateAverageRate.le_toInt v.currentRate.le_toInt
      (Int.le_sub_one_of_lt v.preUpdateAverageRate.toInt_lt)
      (Int.le_sub_one_of_lt v.currentRate.toInt_lt)
  have hfinal : fitsInt 16 (v.nextAverage now) = some (v.nextAverage now) :=
    if_pos ⟨hbetween.1, by omega⟩
  refine ⟨Int16.ofInt (v.nextAverage now), ?_,
    Int16.toInt_ofInt_of_le hbetween.1 (by omega)⟩
  have hspan₁ := abs_timespan_le v.lastUpdateTimestamp v.initializationTimestamp
  have hspan₂ := abs_timespan_le now v.lastUpdateTimestamp
  have htotal : |v.average.weight + v.elapsed now| ≤ 2 ^ 64 + 2 ^ 64 :=
    (abs_add_le _ _).trans (add_le_add hspan₁ hspan₂)
  have hproduct₁ : |v.preUpdateAverageRate.toInt * v.average.weight| ≤ 2 ^ 79 := abs_rate_mul_le hspan₁
  have hproduct₂ : |v.currentRate.toInt * v.elapsed now| ≤ 2 ^ 79 := abs_rate_mul_le hspan₂
  have hsum : |v.preUpdateAverageRate.toInt * v.average.weight +
      v.currentRate.toInt * v.elapsed now| ≤ 2 ^ 79 + 2 ^ 79 :=
    (abs_add_le _ _).trans (add_le_add hproduct₁ hproduct₂)
  have ht₁ : fitsInt 128 (v.lastUpdateTimestamp.toInt - v.initializationTimestamp.toInt) =
      some v.average.weight := fitsInt_of_abs_le (hspan₁.trans (by norm_num))
  have ht₂ : fitsInt 128 (now.toInt - v.lastUpdateTimestamp.toInt) = some (v.elapsed now) :=
    fitsInt_of_abs_le (hspan₂.trans (by norm_num))
  simp only [timeWeightedAverageRate, Option.bind_eq_bind, ht₁, ht₂, Option.bind_some,
    fitsInt_of_abs_le (htotal.trans (by norm_num))]
  by_cases hzero : v.average.weight + v.elapsed now = 0
  · have hnext : v.nextAverage now = v.currentRate.toInt := if_pos hzero
    rw [if_pos hzero, Option.bind_some, ← hnext, hfinal, Option.map_some]
  · have hnext : v.nextAverage now = (v.preUpdateAverageRate.toInt * v.average.weight +
        v.currentRate.toInt * v.elapsed now).tdiv (v.average.weight + v.elapsed now) := if_neg hzero
    have hsmall : |v.nextAverage now| ≤ 2 ^ 80 := abs_le.mpr ⟨by omega, by omega⟩
    rw [if_neg hzero, fitsInt_of_abs_le (hproduct₁.trans (by norm_num)),
      fitsInt_of_abs_le (hproduct₂.trans (by norm_num))]
    simp only [Option.bind_some]
    rw [fitsInt_of_abs_le (hsum.trans (by norm_num)), Option.bind_some, ← hnext,
      fitsInt_of_abs_le hsmall, Option.bind_some, hfinal, Option.map_some]

/-- An update that does not go back in time always has a result. -/
theorem InterestBearingConfig.exists_updateRate
    (hinit : v.initializationTimestamp ≤ v.lastUpdateTimestamp) (hnow : v.lastUpdateTimestamp ≤ now)
    (rate : Int16) : ∃ v', v.updateRate now rate = some v' := by
  obtain ⟨r, hr, -⟩ := timeWeightedAverageRate_eq hinit hnow
  exact ⟨_, by rw [updateRate, hr, Option.map_some]⟩

/-- What an update that does not go back in time changes. -/
theorem InterestBearingConfig.updateRate_eq_some {rate : Int16} {v' : InterestBearingConfig}
    (hinit : v.initializationTimestamp ≤ v.lastUpdateTimestamp) (hnow : v.lastUpdateTimestamp ≤ now)
    (h : v.updateRate now rate = some v') :
    v'.initializationTimestamp = v.initializationTimestamp ∧
      v'.preUpdateAverageRate.toInt = v.nextAverage now ∧ v'.lastUpdateTimestamp = now ∧
      v'.currentRate = rate := by
  obtain ⟨r, hr, hval⟩ := timeWeightedAverageRate_eq hinit hnow
  rw [updateRate, hr, Option.map_some, Option.some.injEq] at h
  subst h
  exact ⟨rfl, hval, rfl, rfl⟩

end Update

/-! ### Histories of a configuration -/

/-- A rate, and when it was set. -/
structure RateSetting where
  timestamp : Int64
  rate : Int16
deriving DecidableEq

/-- The configurations that a list of settings leads to. -/
inductive RateHistory : List RateSetting → InterestBearingConfig → Prop
  | created {authority t rate} : RateHistory [⟨t, rate⟩] ⟨authority, t, rate, t, rate⟩
  | updated {history v v' t rate} (h : RateHistory history v)
      (hupdate : v.updateRate t rate = some v') : RateHistory (history ++ [⟨t, rate⟩]) v'
  | reassigned {history v authority} (h : RateHistory history v) :
      RateHistory history { v with rateAuthority := authority }

/-- No setting is older than the one before. -/
def Nondecreasing (history : List RateSetting) : Prop :=
  history.Pairwise fun a b => a.timestamp ≤ b.timestamp

/-- Every setting is newer than the one before. -/
def Increasing (history : List RateSetting) : Prop :=
  history.Pairwise fun a b => a.timestamp < b.timestamp

instance (history : List RateSetting) : Decidable (Nondecreasing history) :=
  inferInstanceAs (Decidable (List.Pairwise _ history))

instance (history : List RateSetting) : Decidable (Increasing history) :=
  inferInstanceAs (Decidable (List.Pairwise _ history))

theorem Increasing.nondecreasing {history : List RateSetting} (h : Increasing history) :
    Nondecreasing history := h.imp fun {_ _} => Int64.le_of_lt

namespace RateHistory

variable {history : List RateSetting} {v : InterestBearingConfig}

/-- The last setting is in force. -/
theorem last (h : RateHistory history v) :
    ∃ earlier, history = earlier ++ [⟨v.lastUpdateTimestamp, v.currentRate⟩] := by
  induction h with
  | created => exact ⟨[], rfl⟩
  | @updated history v v' t rate h hupdate ih =>
    obtain ⟨r, -, rfl⟩ := Option.map_eq_some_iff.mp hupdate
    exact ⟨history, rfl⟩
  | reassigned h ih => exact ih

theorem last_mem (h : RateHistory history v) :
    ⟨v.lastUpdateTimestamp, v.currentRate⟩ ∈ history := by
  obtain ⟨earlier, hhistory⟩ := h.last
  rw [hhistory]
  exact List.mem_append_right _ List.mem_cons_self

/-- Time has passed since the configuration was created. -/
theorem ordered (h : RateHistory history v) (hclock : Nondecreasing history) :
    v.initializationTimestamp ≤ v.lastUpdateTimestamp := by
  induction h with
  | created => exact Int64.le_refl _
  | @updated history v v' t rate h hupdate ih =>
    obtain ⟨hearlier, -, hlater⟩ := List.pairwise_append.mp hclock
    have hle := hlater _ h.last_mem _ List.mem_cons_self
    obtain ⟨r, -, rfl⟩ := Option.map_eq_some_iff.mp hupdate
    exact Int64.le_trans (ih hearlier) hle
  | reassigned h ih => exact ih hclock

/-- The next update is not older than the last. -/
theorem last_le (h : RateHistory history v) {t : Int64} {rate : Int16}
    (hclock : Nondecreasing (history ++ [⟨t, rate⟩])) : v.lastUpdateTimestamp ≤ t := by
  obtain ⟨-, -, hlater⟩ := List.pairwise_append.mp hclock
  exact hlater _ h.last_mem _ List.mem_cons_self

/-- The average is one of the rates that have been set, or between two of them. -/
theorem between (h : RateHistory history v) (hclock : Nondecreasing history) :
    ∃ lo ∈ history, ∃ hi ∈ history,
      lo.rate ≤ v.preUpdateAverageRate ∧ v.preUpdateAverageRate ≤ hi.rate := by
  induction h with
  | created => exact ⟨_, List.mem_cons_self, _, List.mem_cons_self, Int16.le_refl _, Int16.le_refl _⟩
  | @updated history v v' t rate h hupdate ih =>
    obtain ⟨hearlier, -, -⟩ := List.pairwise_append.mp hclock
    obtain ⟨lo, hlo, hi, hhi, hle, hge⟩ := ih hearlier
    have hlast := h.last_mem
    have hinit := h.ordered hearlier
    have hnow := h.last_le hclock
    obtain ⟨-, hval, -, -⟩ := InterestBearingConfig.updateRate_eq_some hinit hnow hupdate
    simp only [Int16.le_iff_toInt_le] at hle hge ⊢
    have hbetween : min lo.rate.toInt v.currentRate.toInt ≤ v.nextAverage t ∧
        v.nextAverage t ≤ max hi.rate.toInt v.currentRate.toInt :=
      InterestBearingConfig.nextAverage_between hinit hnow ((min_le_left _ _).trans hle)
        (min_le_right _ _) (hge.trans (le_max_left _ _)) (le_max_right _ _)
    rw [← hval] at hbetween
    obtain ⟨lo', hlo', hle'⟩ : ∃ lo' ∈ history, lo'.rate.toInt ≤ v'.preUpdateAverageRate.toInt := by
      rcases min_le_iff.mp hbetween.1 with h | h
      · exact ⟨lo, hlo, h⟩
      · exact ⟨_, hlast, h⟩
    obtain ⟨hi', hhi', hge'⟩ : ∃ hi' ∈ history, v'.preUpdateAverageRate.toInt ≤ hi'.rate.toInt := by
      rcases le_max_iff.mp hbetween.2 with h | h
      · exact ⟨hi, hhi, h⟩
      · exact ⟨_, hlast, h⟩
    exact ⟨lo', List.mem_append_left _ hlo', hi', List.mem_append_left _ hhi', hle', hge'⟩
  | reassigned h ih => exact ih hclock

end RateHistory

/-! ### The exact mean -/

/-- The values of the settings, each times the seconds it was in force for. -/
def weighted (value : RateSetting → ℤ) : List RateSetting → ℤ
  | a :: b :: rest =>
    value a * (b.timestamp.toInt - a.timestamp.toInt) + weighted value (b :: rest)
  | _ => 0

/-- The seconds from the first setting to the last. -/
def timespan (history : List RateSetting) : ℤ := weighted (fun _ => 1) history

/-- The rates times the seconds they were in force for. -/
def accrued (history : List RateSetting) : ℤ := weighted (fun e => e.rate.toInt) history

/-- The time-weighted mean of the rates in force from the first setting to the last. -/
def exactMean (history : List RateSetting) : ℚ := accrued history / timespan history

theorem weighted_append (value : RateSetting → ℤ) (earlier : List RateSetting) (last next : RateSetting) :
    weighted value (earlier ++ [last] ++ [next]) = weighted value (earlier ++ [last]) +
      value last * (next.timestamp.toInt - last.timestamp.toInt) := by
  induction earlier with
  | nil => simp [weighted]
  | cons a earlier ih =>
    cases earlier with
    | nil => simp [weighted]
    | cons b earlier =>
      simp only [List.cons_append, weighted] at ih ⊢
      rw [ih, Int.add_assoc]

namespace RateHistory

variable {history : List RateSetting} {v : InterestBearingConfig}

theorem weighted_updated (h : RateHistory history v) (value : RateSetting → ℤ) (t : Int64)
    (rate : Int16) : weighted value (history ++ [⟨t, rate⟩]) = weighted value history +
      value ⟨v.lastUpdateTimestamp, v.currentRate⟩ * v.elapsed t := by
  obtain ⟨earlier, rfl⟩ := h.last
  exact weighted_append value earlier _ _

/-- The weight behind the stored average. -/
theorem timespan_eq (h : RateHistory history v) : timespan history = v.average.weight := by
  induction h with
  | created => exact (Int.sub_self _).symm
  | @updated history v v' t rate h hupdate ih =>
    rw [timespan, h.weighted_updated, Int.one_mul, ← timespan, ih]
    obtain ⟨r, -, rfl⟩ := Option.map_eq_some_iff.mp hupdate
    simp only [InterestBearingConfig.average, InterestBearingConfig.elapsed]
    omega
  | reassigned h ih => exact ih

/-- Before its first update a configuration stores the rate it was created with. -/
theorem of_single {e : RateSetting} (h : RateHistory history v) (hone : history = [e]) :
    v.preUpdateAverageRate = e.rate ∧ v.average.weight = 0 := by
  induction h with
  | created =>
    obtain rfl := List.singleton_inj.mp hone
    exact ⟨rfl, Int.sub_self _⟩
  | updated h =>
    obtain ⟨earlier, rfl⟩ := h.last
    have hlength := congrArg List.length hone
    simp at hlength
  | reassigned h ih => exact ih hone

/-- The rounding errors of all updates but the first, which is exact. -/
theorem abs_error_le (h : RateHistory history v) (hclock : Increasing history)
    (hupdated : 2 ≤ history.length) :
    0 < v.average.weight ∧
      |v.average.mean * v.average.weight - accrued history| ≤
        (history.length - 2 : ℤ) * (v.average.weight - 1) := by
  induction h with
  | created => simp at hupdated
  | @updated history v v' t rate h hupdate ih =>
    obtain ⟨hearlier, -, hlater⟩ := List.pairwise_append.mp hclock
    have hlt : v.lastUpdateTimestamp < t := hlater _ h.last_mem _ List.mem_cons_self
    have hinit := h.ordered (Increasing.nondecreasing hearlier)
    have hnow := Int64.le_of_lt hlt
    obtain ⟨hsame, hval, hlast, -⟩ := InterestBearingConfig.updateRate_eq_some hinit hnow hupdate
    have hpos : 0 < v.elapsed t := Int.sub_pos_of_lt (Int64.lt_iff_toInt_lt.mp hlt)
    have hweight : v'.average.weight = v.average.weight + v.elapsed t := by
      simp only [InterestBearingConfig.average, InterestBearingConfig.elapsed, hsame, hlast]
      omega
    have hmean : v'.average.mean = v.nextAverage t := hval
    have haccrued : accrued (history ++ [⟨t, rate⟩]) =
        accrued history + v.currentRate.toInt * v.elapsed t :=
      h.weighted_updated (fun e => e.rate.toInt) t rate
    have hlength : (history ++ [RateSetting.mk t rate]).length = history.length + 1 := by simp
    rw [hlength, hweight, hmean, haccrued]
    by_cases hfirst : history.length = 1
    · obtain ⟨⟨t₀, r₀⟩, rfl⟩ := List.length_eq_one_iff.mp hfirst
      obtain ⟨-, hzero⟩ := h.of_single rfl
      have hnext : v.nextAverage t = v.currentRate.toInt := by
        rw [InterestBearingConfig.nextAverage, State.next_of_pos (by omega), State.sum, hzero,
          Int.mul_zero, Int.zero_add, Int.zero_add, Int.mul_tdiv_cancel _ hpos.ne']
      have hnone : accrued [⟨t₀, r₀⟩] = 0 := rfl
      rw [hnext, hzero, hnone]
      simpa using hpos
    · have hmore : 2 ≤ history.length := by
        rw [hlength] at hupdated
        omega
      obtain ⟨hweightPos, herror⟩ := ih hearlier hmore
      refine ⟨by omega, (State.abs_next_error (by omega) herror).trans ?_⟩
      have hgrow : (history.length - 2 : ℤ) * (v.average.weight - 1) ≤
          (history.length - 2 : ℤ) * (v.average.weight + v.elapsed t - 1) :=
        Int.mul_le_mul_of_nonneg_left (by omega) (by omega)
      push_cast
      linarith
  | reassigned h ih => exact ih hclock hupdated

/-- In basis points: less than one for each update after the first. -/
theorem abs_sub_exactMean_le (h : RateHistory history v) (hclock : Increasing history)
    (hupdated : 2 ≤ history.length) :
    |(v.preUpdateAverageRate.toInt : ℚ) - exactMean history| ≤
      (history.length - 2) * (1 - 1 / timespan history) := by
  obtain ⟨hpos, herror⟩ := h.abs_error_le hclock hupdated
  rw [← h.timespan_eq] at hpos herror
  have hposQ : (0 : ℚ) < timespan history := by exact_mod_cast hpos
  have herrorQ : |(v.preUpdateAverageRate.toInt : ℚ) * timespan history - accrued history| ≤
      (history.length - 2) * (timespan history - 1) := by exact_mod_cast herror
  have hscale : (v.preUpdateAverageRate.toInt : ℚ) - exactMean history =
      (v.preUpdateAverageRate.toInt * timespan history - accrued history) / timespan history := by
    rw [exactMean]
    field_simp
  have hbound : ((history.length : ℚ) - 2) * (1 - 1 / timespan history) =
      (history.length - 2) * (timespan history - 1) / timespan history := by
    field_simp
  rw [hscale, hbound, abs_div, abs_of_pos hposQ]
  exact div_le_div_of_nonneg_right herrorQ hposQ.le

end RateHistory

/-! ### An extra update -/

namespace InterestBearingConfig

/-- Updates one after the other. -/
def updateRates (v : InterestBearingConfig) (later : List RateSetting) :
    Option InterestBearingConfig :=
  later.foldlM (fun v e => v.updateRate e.timestamp e.rate) v

variable {v w v' w' : InterestBearingConfig} {since now : Int64} {rate : Int16}

theorem updateRates_append {earlier later : List RateSetting} (h : v.updateRates earlier = some w) :
    v.updateRates (earlier ++ later) = w.updateRates later := by
  rw [updateRates, List.foldlM_append]
  exact congrArg (· >>= fun u => u.updateRates later) h

theorem updateRates_singleton (v : InterestBearingConfig) (e : RateSetting) :
    v.updateRates [e] = v.updateRate e.timestamp e.rate := by
  rw [updateRates, List.foldlM_cons]
  exact Option.bind_fun_some _

/-- The authority has no part in an update. -/
theorem updateRate_reassigned {authority : OptionalNonZeroPubkey} {t : Int64}
    (h : { v with rateAuthority := authority }.updateRate t rate = some v') :
    ∃ w, v.updateRate t rate = some w ∧ v' = { w with rateAuthority := authority } := by
  obtain ⟨r, hr, rfl⟩ := Option.map_eq_some_iff.mp h
  exact ⟨_, Option.map_eq_some_iff.mpr ⟨r, hr, rfl⟩, rfl⟩

/-- Two configurations that have accrued about the same: no more than a basis point
times the whole timespan apart. -/
structure Near (v w : InterestBearingConfig) (since : Int64) : Prop where
  ordered : v.initializationTimestamp ≤ v.lastUpdateTimestamp ∧ v.lastUpdateTimestamp ≤ since
  ordered' : w.initializationTimestamp ≤ w.lastUpdateTimestamp ∧ w.lastUpdateTimestamp ≤ since
  initializationTimestamp : w.initializationTimestamp = v.initializationTimestamp
  currentRate : w.currentRate = v.currentRate
  close : |v.average.sum v.currentRate.toInt (v.elapsed since) -
    w.average.sum w.currentRate.toInt (w.elapsed since)| ≤ v.average.weight + v.elapsed since

theorem weight_add_elapsed (v : InterestBearingConfig) (now : Int64) :
    v.average.weight + v.elapsed now = now.toInt - v.initializationTimestamp.toInt := by
  simp only [average, elapsed]
  omega

theorem Near.mono (h : Near v w since) (hle : since ≤ now) : Near v w now where
  ordered := ⟨h.ordered.1, Int64.le_trans h.ordered.2 hle⟩
  ordered' := ⟨h.ordered'.1, Int64.le_trans h.ordered'.2 hle⟩
  initializationTimestamp := h.initializationTimestamp
  currentRate := h.currentRate
  close := by
    have hclose := h.close
    have hgrow : ∀ u : InterestBearingConfig, u.average.sum u.currentRate.toInt (u.elapsed now) =
        u.average.sum u.currentRate.toInt (u.elapsed since) +
          u.currentRate.toInt * (now.toInt - since.toInt) := by
      intro u
      simp only [State.sum, elapsed]
      ring
    rw [Int64.le_iff_toInt_le] at hle
    rw [weight_add_elapsed] at hclose ⊢
    rw [hgrow v, hgrow w, h.currentRate, abs_le] at *
    omega

/-- Their averages are at most one apart. -/
theorem Near.abs_sub_le (h : Near v w since) : |v.nextAverage since - w.nextAverage since| ≤ 1 := by
  have hordered := h.ordered
  simp only [Int64.le_iff_toInt_le] at hordered
  have hclose := h.close
  rw [h.currentRate] at hclose
  rw [nextAverage, nextAverage, h.currentRate]
  refine State.abs_next_sub_next ?_ ?_ hclose
  · rw [weight_add_elapsed, weight_add_elapsed, h.initializationTimestamp]
  · rw [weight_add_elapsed]
    omega

/-- After the next update they still are. -/
theorem Near.updateRate (h : Near v w since) (hv : v.updateRate since rate = some v')
    (hw : w.updateRate since rate = some w') : Near v' w' since := by
  obtain ⟨hinit, hval, hlast, hrate⟩ := updateRate_eq_some h.ordered.1 h.ordered.2 hv
  obtain ⟨hinit', hval', hlast', hrate'⟩ := updateRate_eq_some h.ordered'.1 h.ordered'.2 hw
  have hle : v.initializationTimestamp ≤ since := Int64.le_trans h.ordered.1 h.ordered.2
  have hnear := h.abs_sub_le
  refine ⟨⟨hinit ▸ hlast ▸ hle, hlast ▸ Int64.le_refl _⟩,
    ⟨hinit' ▸ h.initializationTimestamp ▸ hlast' ▸ hle, hlast' ▸ Int64.le_refl _⟩,
    hinit'.trans (h.initializationTimestamp.trans hinit.symm), hrate'.trans hrate.symm, ?_⟩
  rw [Int64.le_iff_toInt_le] at hle
  simp only [State.sum, average, elapsed, hval, hval', hlast, hlast', hinit, hinit',
    h.initializationTimestamp, Int.sub_self, Int.mul_zero, Int.add_zero, ← Int.sub_mul, abs_mul]
  have hpos : |since.toInt - v.initializationTimestamp.toInt| =
      since.toInt - v.initializationTimestamp.toInt := abs_of_nonneg (Int.sub_nonneg_of_le hle)
  rw [hpos]
  calc |v.nextAverage since - w.nextAverage since| * (since.toInt - v.initializationTimestamp.toInt)
      ≤ 1 * (since.toInt - v.initializationTimestamp.toInt) :=
        Int.mul_le_mul_of_nonneg_right hnear (Int.sub_nonneg_of_le hle)
    _ = since.toInt - v.initializationTimestamp.toInt := Int.one_mul _

/-- An update that sets the rate already in force. -/
theorem Near.of_extra (hinit : v.initializationTimestamp ≤ v.lastUpdateTimestamp)
    (hnow : v.lastUpdateTimestamp ≤ now) (h : v.updateRate now v.currentRate = some w) :
    Near v w now := by
  obtain ⟨hsame, hval, hlast, hrate⟩ := updateRate_eq_some hinit hnow h
  have hle : v.initializationTimestamp ≤ now := Int64.le_trans hinit hnow
  refine ⟨⟨hinit, hnow⟩, ⟨hsame ▸ hlast ▸ hle, hlast ▸ Int64.le_refl _⟩, hsame, hrate, ?_⟩
  have hweight := weight_add_elapsed v now
  have hsum : w.average.sum w.currentRate.toInt (w.elapsed now) =
      v.nextAverage now * (v.average.weight + v.elapsed now) := by
    simp only [State.sum, average, elapsed, hval, hlast, hsame]
    ring
  rw [hsum, abs_sub_comm]
  rw [Int64.le_iff_toInt_le] at hle
  by_cases hzero : v.average.weight + v.elapsed now = 0
  · -- Nothing has accrued
    rw [Int64.le_iff_toInt_le] at hinit hnow
    have hweight₀ : v.average.weight = 0 := by
      simp only [average]
      omega
    have helapsed₀ : v.elapsed now = 0 := by omega
    simp [State.sum, hweight₀, helapsed₀]
  · exact (State.abs_next_mul_sub _ (by omega)).trans (by omega)

theorem Near.report (h : Near v w now) :
    ∃ r₁ r₂, v.timeWeightedAverageRate now = some r₁ ∧ w.timeWeightedAverageRate now = some r₂ ∧
      |r₁.toInt - r₂.toInt| ≤ 1 := by
  obtain ⟨r₁, hr₁, hval₁⟩ := timeWeightedAverageRate_eq h.ordered.1 h.ordered.2
  obtain ⟨r₂, hr₂, hval₂⟩ := timeWeightedAverageRate_eq h.ordered'.1 h.ordered'.2
  have hclose := h.abs_sub_le
  rw [← hval₁, ← hval₂] at hclose
  exact ⟨r₁, r₂, hr₁, hr₂, hclose⟩

/-- Whatever is set later, the reported averages stay at most one apart. -/
theorem Near.updateRates (h : Near v w since) {later : List RateSetting}
    (hclock : (since :: later.map RateSetting.timestamp).Pairwise (· ≤ ·)) :
    ∃ v' w', v.updateRates later = some v' ∧ w.updateRates later = some w' ∧
      ∀ now, since ≤ now → (∀ e ∈ later, e.timestamp ≤ now) → Near v' w' now := by
  induction later generalizing v w since with
  | nil => exact ⟨v, w, rfl, rfl, fun now hle _ => h.mono hle⟩
  | cons e later ih =>
    rw [List.map_cons, List.pairwise_cons] at hclock
    have hnear := h.mono (hclock.1 e.timestamp List.mem_cons_self)
    obtain ⟨v₁, hv₁⟩ := exists_updateRate hnear.ordered.1 hnear.ordered.2 e.rate
    obtain ⟨w₁, hw₁⟩ := exists_updateRate hnear.ordered'.1 hnear.ordered'.2 e.rate
    obtain ⟨v', w', hv', hw', hall⟩ := ih (hnear.updateRate hv₁ hw₁) hclock.2
    refine ⟨v', w', ?_, ?_, fun now _ hlater => hall now (hlater e List.mem_cons_self)
      fun a ha => hlater a (List.mem_cons_of_mem _ ha)⟩
    · rw [InterestBearingConfig.updateRates, List.foldlM_cons, hv₁]
      exact hv'
    · rw [InterestBearingConfig.updateRates, List.foldlM_cons, hw₁]
      exact hw'

end InterestBearingConfig

/-- Updates one after the other extend a history. -/
theorem RateHistory.updateRates {history later : List RateSetting} {v w : InterestBearingConfig}
    (h : RateHistory history v) (hlater : v.updateRates later = some w) :
    RateHistory (history ++ later) w := by
  induction later generalizing history v with
  | nil =>
    obtain rfl := Option.some.inj hlater
    rwa [List.append_nil]
  | cons e later ih =>
    rw [InterestBearingConfig.updateRates, List.foldlM_cons] at hlater
    obtain ⟨u, hu, hrest⟩ := Option.bind_eq_some_iff.mp hlater
    rw [List.append_cons]
    exact ih (h.updated hu) hrest

end BarkToken
