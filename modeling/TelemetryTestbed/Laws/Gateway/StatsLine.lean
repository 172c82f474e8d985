import TelemetryTestbed.Gateway.StatsLine

/-!
# No number of a statistics line has a sign

The clock and the counters never go back, so every `double` of a round is a number that
is not negative, and the batch size is at least one.

It is what the reader of the line depends on: the expression of the analysis script has no
sign in it. The batch size is the one of the configuration, which the gateway has raised to
one.
-/

namespace TelemetryTestbed.Gateway

open TelemetryTestbed.Lib

/-- The clock and the counters have not gone back in between. -/
structure StatsSnapshot.Before (last now : StatsSnapshot) : Prop where
  monoNs : last.monoNs ≤ now.monoNs
  rxMsgs : last.rxMsgs ≤ now.rxMsgs
  rxBytes : last.rxBytes ≤ now.rxBytes
  dbRows : last.dbRows ≤ now.dbRows
  commitCount : last.commitCount ≤ now.commitCount
  commitNsSum : last.commitNsSum ≤ now.commitNsSum
  commitNsMax : last.commitNsMax ≤ now.commitNsMax

theorem StatsSnapshot.Before.trans {a b c : StatsSnapshot} (hab : a.Before b) (hbc : b.Before c) :
    a.Before c where
  monoNs := hab.monoNs.trans hbc.monoNs
  rxMsgs := hab.rxMsgs.trans hbc.rxMsgs
  rxBytes := hab.rxBytes.trans hbc.rxBytes
  dbRows := hab.dbRows.trans hbc.dbRows
  commitCount := hab.commitCount.trans hbc.commitCount
  commitNsSum := hab.commitNsSum.trans hbc.commitNsSum
  commitNsMax := hab.commitNsMax.trans hbc.commitNsMax

/-! ## The batch size -/

theorem envInt_mem {dflt minv maxv : Int} (v : Option Bytes) (hmin : minv ≤ dflt)
    (hmax : dflt ≤ maxv) : minv ≤ envInt v dflt minv maxv ∧ envInt v dflt minv maxv ≤ maxv := by
  cases v with
  | none => exact ⟨hmin, hmax⟩
  | some v =>
    by_cases hv : v = []
    · rw [envInt, if_pos hv]
      exact ⟨hmin, hmax⟩
    · simp only [envInt, if_neg hv]
      split_ifs <;> omega

theorem batchSize_mem (gwBatch : Option Bytes) :
    1 ≤ batchSize gwBatch ∧ batchSize gwBatch ≤ 4096 :=
  envInt_mem gwBatch (by decide) (by decide)

/-! ## The doubles of a round -/

theorem positive_dtDouble (last now : StatsSnapshot) : (dtDouble last now).Positive := by
  have hone : (Double.ofNat 1).Positive := Double.positive_ofNat Nat.one_pos
  have hguard : ∀ {x : Double}, x.Unsigned →
      (if x.leZero then .ofNat 1 else x : Double).Positive := by
    intro x hx
    cases hzero : x.leZero with
    | true => exact hone
    | false => exact hx.positive hzero
  apply hguard
  split
  next h =>
    have hdiff : 0 ≤ now.monoNs - last.monoNs := by omega
    exact (Double.unsigned_ofInt hdiff).div (Double.positive_ofNat (by decide))
  next => exact hone.unsigned

/-- A round whose numbers are printed without a sign. -/
structure StatsValues.Printable (v : StatsValues) : Prop where
  upS : v.upS.Unsigned
  rxRate : v.rxRate.Unsigned
  dbRate : v.dbRate.Unsigned
  kbps : v.kbps.Unsigned
  avgPayload : v.avgPayload.Unsigned
  avgCommitMs : v.avgCommitMs.Unsigned
  maxCommitMs : v.maxCommitMs.Unsigned
  batchSize : 0 ≤ v.batchSize

theorem printable_statsValues {startMonoNs : Int} (gwBatch : Option Bytes)
    {last now : StatsSnapshot} (hlast : (StatsSnapshot.start startMonoNs).Before last)
    (hnow : last.Before now) : (statsValues startMonoNs gwBatch last now).Printable := by
  have hdt := positive_dtDouble last now
  have hzero : (Double.ofNat 0).Unsigned := Double.unsigned_ofNat 0
  have hconst : ∀ n : Nat, 0 < n → (Double.ofNat n).Positive := fun n => Double.positive_ofNat
  constructor
  case upS =>
    have hup : 0 ≤ now.monoNs - startMonoNs := by
      have hstart : startMonoNs ≤ now.monoNs := (hlast.trans hnow).monoNs
      omega
    exact (Double.unsigned_ofInt hup).div (hconst _ (by decide))
  case rxRate => exact (Double.unsigned_ofNat _).div hdt
  case dbRate => exact (Double.unsigned_ofNat _).div hdt
  case kbps =>
    have hbits := (Double.unsigned_ofNat (now.rxBytes - last.rxBytes)).mul (Double.unsigned_ofNat 8)
    exact (hbits.div (hconst 1000 (by decide))).div hdt
  case avgPayload =>
    unfold statsValues
    dsimp only
    split
    next h => exact (Double.unsigned_ofNat _).div (hconst _ h)
    next => exact hzero
  case avgCommitMs =>
    unfold statsValues
    dsimp only
    split
    next h =>
      have hsum : 0 ≤ now.commitNsSum - last.commitNsSum := by
        have := hnow.commitNsSum
        omega
      exact ((Double.unsigned_ofInt hsum).div (hconst _ (by decide))).div (hconst _ h)
    next => exact hzero
  case maxCommitMs =>
    exact (Double.unsigned_ofInt (hlast.trans hnow).commitNsMax).div (hconst _ (by decide))
  case batchSize => exact (Int.zero_le_ofNat 1).trans (batchSize_mem gwBatch).1

end TelemetryTestbed.Gateway
