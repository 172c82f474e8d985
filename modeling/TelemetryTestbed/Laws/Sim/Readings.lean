import Mathlib.Tactic.Linarith
import TelemetryTestbed.Laws.Sim.Ticks
import TelemetryTestbed.Lib.LittleEndian
import TelemetryTestbed.Sim.Sensors

/-!
# What the sensors publish

Beside what an iteration sets in the cache it publishes its values in packed integers.
None of them is clipped, so what is unpacked of a payload is the value in the cache: to
half a unit where the cache has a `float` (`ImuShown`, `TiltShown`), and exactly where it
has an integer (`MotorShown`). The motors stay in their ranges, and no conversion of
theirs is undefined, from the first iteration on.

The bounds come from the formulas: a wave is not higher than its factor, and a draw not larger
than its noise. Half a unit is what `lround` may be off by, and no value comes near the ends
of its 16 or 32 bits, so the clamps in the source never act.
-/

namespace TelemetryTestbed.Sim

open TelemetryTestbed.Lib TelemetryTestbed.Telemetry

/-! ## Rounding -/

/-- Rounding misses by half a unit at most. -/
theorem abs_lround_sub_le (x : ℚ) : |(lround x : ℚ) - x| ≤ 1 / 2 := by
  unfold lround
  split
  · have hle := Int.floor_le (x + 1 / 2)
    have hlt := Int.lt_floor_add_one (x + 1 / 2)
    rw [abs_le]
    constructor <;> linarith
  · have hle := Int.le_ceil (x - 1 / 2)
    have hlt := Int.ceil_lt_add_one (x - 1 / 2)
    rw [abs_le]
    constructor <;> linarith

/-- What lies between two integers is rounded to one between them. -/
theorem lround_mem {x : ℚ} {lo hi : Int} (hlo : (lo : ℚ) ≤ x) (hhi : x ≤ hi) :
    lo ≤ lround x ∧ lround x ≤ hi := by
  unfold lround
  split
  · constructor
    · exact Int.le_floor.mpr (by linarith)
    · refine Int.lt_add_one_iff.mp (Int.floor_lt.mpr ?_)
      push_cast
      linarith
  · constructor
    · refine Int.sub_one_lt_iff.mp (Int.lt_ceil.mpr ?_)
      push_cast
      linarith
    · exact Int.ceil_le.mpr (by linarith)

theorem toInt_clampI16 {v : Int} (hlo : -32768 ≤ v) (hhi : v ≤ 32767) :
    (clampI16 v).toInt = v := by
  rw [clampI16, if_neg (by omega), if_neg (by omega)]
  exact Int16.toInt_ofInt_of_le hlo (by omega)

theorem toInt_clampI32Ll {v : Int} (hlo : -2147483648 ≤ v) (hhi : v ≤ 2147483647) :
    (clampI32Ll v).toInt = v := by
  rw [clampI32Ll, if_neg (by omega), if_neg (by omega)]
  exact Int32.toInt_ofInt_of_le hlo (by omega)

/-! ## Packing -/

theorem packU16Le_eq (v : UInt16) : packU16Le v = littleEndian 2 v.toNat := by
  have hhigh : (v >>> 8).toUInt8 = UInt8.ofNat (v.toNat / 256) := by
    apply UInt8.toNat_inj.mp
    simp [Nat.shiftRight_eq_div_pow]
  rw [packU16Le, hhigh]
  simp [littleEndian]

theorem packU32Le_eq (v : UInt32) : packU32Le v = littleEndian 4 v.toNat := by
  have hbyte : ∀ k : UInt32, k.toNat < 32 →
      (v >>> k).toUInt8 = UInt8.ofNat (v.toNat / 2 ^ k.toNat) := by
    intro k hk
    apply UInt8.toNat_inj.mp
    simp [Nat.shiftRight_eq_div_pow, Nat.mod_eq_of_lt hk]
  rw [packU32Le, hbyte 8 (by decide), hbyte 16 (by decide), hbyte 24 (by decide)]
  simp [littleEndian, Nat.div_div_eq_div_mul]

theorem from_packU32Le (v : UInt32) : fromLittleEndian (packU32Le v) = v.toNat := by
  rw [packU32Le_eq, fromLittleEndian_littleEndian]
  exact Nat.mod_eq_of_lt v.toNat_lt

theorem signed_packI16Le (v : Int16) : signedLittleEndian (packI16Le v) = v.toInt := by
  rw [packI16Le, packU16Le_eq]
  refine signedLittleEndian_of_fits ?_ ?_ ?_
  · have hbits : v.toInt = (v.toUInt16.toNat : Int).bmod 65536 :=
      BitVec.toInt_eq_toNat_bmod v.toBitVec
    rw [hbits]
    exact (Int.bmod_emod).symm
  · have := v.le_toInt
    omega
  · have := v.toInt_lt
    omega

theorem signed_packI32Le (v : Int32) : signedLittleEndian (packI32Le v) = v.toInt := by
  rw [packI32Le, packU32Le_eq]
  refine signedLittleEndian_of_fits ?_ ?_ ?_
  · have hbits : v.toInt = (v.toUInt32.toNat : Int).bmod 4294967296 :=
      BitVec.toInt_eq_toNat_bmod v.toBitVec
    rw [hbits]
    exact (Int.bmod_emod).symm
  · have := v.le_toInt
    omega
  · have := v.toInt_lt
    omega

@[simp] theorem length_packI16Le (v : Int16) : (packI16Le v).length = 2 := rfl

/-! ## What a topic says -/

/-- The values of three axes in a payload, in units of `1 / lsb`, to half a unit. -/
structure PackedAxes (lsb : ℚ) (payload : Bytes) (v : Axes) : Prop where
  x : |(signedLittleEndian (payload.take 2) : ℚ) - v.x * lsb| ≤ 1 / 2
  y : |(signedLittleEndian ((payload.drop 2).take 2) : ℚ) - v.y * lsb| ≤ 1 / 2
  z : |(signedLittleEndian ((payload.drop 4).take 2) : ℚ) - v.z * lsb| ≤ 1 / 2

/-- No axis goes beyond `limit`. -/
structure Axes.Within (v : Axes) (limit : ℚ) : Prop where
  x : |v.x| ≤ limit
  y : |v.y| ≤ limit
  z : |v.z| ≤ limit

/-- A value that is not clipped is there to half a unit. -/
theorem abs_clampI16_sub_le {lsb limit v : ℚ} (hv : |v| ≤ limit) (hlsb : 0 ≤ lsb)
    (hfits : limit * lsb ≤ 32767) :
    |((clampI16 (lround (v * lsb))).toInt : ℚ) - v * lsb| ≤ 1 / 2 := by
  have habs : |v * lsb| ≤ 32767 := by
    rw [abs_mul, abs_of_nonneg hlsb]
    exact (mul_le_mul_of_nonneg_right hv hlsb).trans hfits
  obtain ⟨hlow, hhigh⟩ := abs_le.mp habs
  have hbounds : ((-32767 : ℤ) : ℚ) ≤ v * lsb ∧ v * lsb ≤ (32767 : ℤ) := by
    push_cast
    exact ⟨hlow, hhigh⟩
  obtain ⟨hlo, hhi⟩ := lround_mem hbounds.1 hbounds.2
  rw [toInt_clampI16 (by omega) hhi]
  exact abs_lround_sub_le _

theorem packedAxes_packAxes {lsb limit : ℚ} {v : Axes} (hv : v.Within limit) (hlsb : 0 ≤ lsb)
    (hfits : limit * lsb ≤ 32767) (rest : Bytes) :
    PackedAxes lsb (packAxes lsb v ++ rest) v where
  x := by
    rw [show (packAxes lsb v ++ rest).take 2 = packI16Le (clampI16 (lround (v.x * lsb))) from rfl,
      signed_packI16Le]
    exact abs_clampI16_sub_le hv.x hlsb hfits
  y := by
    rw [show ((packAxes lsb v ++ rest).drop 2).take 2 =
      packI16Le (clampI16 (lround (v.y * lsb))) from rfl, signed_packI16Le]
    exact abs_clampI16_sub_le hv.y hlsb hfits
  z := by
    rw [show ((packAxes lsb v ++ rest).drop 4).take 2 =
      packI16Le (clampI16 (lround (v.z * lsb))) from rfl, signed_packI16Le]
    exact abs_clampI16_sub_le hv.z hlsb hfits

/-! ## The values of an iteration -/

/-- What `frand_unit` can answer. -/
def InUnit (u : ℚ) : Prop := 0 ≤ u ∧ u < 1

theorem abs_noise_le {u amp : ℚ} (hu : InUnit u) (hamp : 0 ≤ amp) : |noise u amp| ≤ amp := by
  have hhalf : |(u - 1 / 2) * 2| ≤ 1 := by
    rw [abs_le]
    constructor <;> linarith [hu.1, hu.2]
  rw [noise, abs_mul, abs_of_nonneg hamp]
  exact mul_le_of_le_one_left hamp hhalf

theorem abs_wave_le {s amp : ℚ} (hs : |s| ≤ 1) (hamp : 0 ≤ amp) : |amp * s| ≤ amp := by
  rw [abs_mul, abs_of_nonneg hamp]
  exact mul_le_of_le_one_right hamp hs

/-- A wave and a noise. -/
theorem abs_swing_le {s u amp sigma limit : ℚ} (hs : |s| ≤ 1) (hu : InUnit u) (hamp : 0 ≤ amp)
    (hsigma : 0 ≤ sigma) (hlimit : amp + sigma ≤ limit) : |amp * s + noise u sigma| ≤ limit :=
  calc |amp * s + noise u sigma|
    _ ≤ |amp * s| + |noise u sigma| := abs_add_le _ _
    _ ≤ amp + sigma := add_le_add (abs_wave_le hs hamp) (abs_noise_le hu hsigma)
    _ ≤ limit := hlimit

/-- Every random number of an iteration of `imu_thread` is at least 0 and less than 1. -/
structure ImuDraws.AllInUnit (d : ImuDraws) : Prop where
  ax : InUnit d.ax
  ay : InUnit d.ay
  az : InUnit d.az
  gx : InUnit d.gx
  gy : InUnit d.gy
  gz : InUnit d.gz

/-- Every random number of an iteration of `tilt_thread` is at least 0 and less than 1. -/
structure TiltDraws.AllInUnit (d : TiltDraws) : Prop where
  tx : InUnit d.tx
  ty : InUnit d.ty
  tz : InUnit d.tz

/-- Every random number of an iteration of a motor thread is at least 0 and less than 1. -/
structure Draws.AllInUnit (d : Draws) : Prop where
  drive : InUnit d.drive
  rpm : InUnit d.rpm
  vPs : InUnit d.vPs
  iPs : InUnit d.iPs
  temp : InUnit d.temp

/-- Waves are not higher than one. -/
structure Libm.Bounded (lib : Libm) : Prop where
  sin : ∀ x, |lib.sin x| ≤ 1
  cos : ∀ x, |lib.cos x| ≤ 1

variable {lib : Libm} {a : SensorArgs}

theorem within_imuAcc (hlib : lib.Bounded) {d : ImuDraws} (hd : d.AllInUnit) (t : ℚ) :
    (imuAcc lib t d).Within 1.07 where
  x := abs_swing_le (hlib.sin _) hd.ax (by norm_num) (by norm_num) (by norm_num)
  y := abs_swing_le (hlib.cos _) hd.ay (by norm_num) (by norm_num) (by norm_num)
  z := by
    have hswing : |0.05 * lib.sin (2 * mPi * 0.20 * t) + noise d.az 0.02| ≤ 0.07 :=
      abs_swing_le (hlib.sin _) hd.az (by norm_num) (by norm_num) (by norm_num)
    calc |(imuAcc lib t d).z|
      _ = |1 + (0.05 * lib.sin (2 * mPi * 0.20 * t) + noise d.az 0.02)| := by
        rw [imuAcc, add_assoc]
      _ ≤ |1| + 0.07 := (abs_add_le _ _).trans (add_le_add le_rfl hswing)
      _ = 1.07 := by norm_num

theorem within_imuGyro (hlib : lib.Bounded) {d : ImuDraws} (hd : d.AllInUnit) (t : ℚ) :
    (imuGyro lib t d).Within 10.5 where
  x := abs_swing_le (hlib.sin _) hd.gx (by norm_num) (by norm_num) (by norm_num)
  y := abs_swing_le (hlib.cos _) hd.gy (by norm_num) (by norm_num) (by norm_num)
  z := abs_swing_le (hlib.sin _) hd.gz (by norm_num) (by norm_num) (by norm_num)

theorem within_tiltDeg (hlib : lib.Bounded) {d : TiltDraws} (hd : d.AllInUnit) (t : ℚ) :
    (tiltDeg lib t d).Within 20.2 where
  x := abs_swing_le (hlib.sin _) hd.tx (by norm_num) (by norm_num) (by norm_num)
  y := abs_swing_le (hlib.cos _) hd.ty (by norm_num) (by norm_num) (by norm_num)
  z := abs_swing_le (hlib.sin _) hd.tz (by norm_num) (by norm_num) (by norm_num)

/-- What an iteration of the IMU has published, beside what it has set in the cache. -/
structure ImuShown (lib : Libm) (out : SensorOutput) (accG gyroDps : Vec3) : Prop where
  values : ∃ acc gyro : Axes, accG = acc.toVec3 lib ∧ gyroDps = gyro.toVec3 lib ∧
    acc.Within 1.07 ∧ gyro.Within 10.5 ∧
    ∃ payloadAcc payloadGyro, out.published = [(topicImuAcc, payloadAcc),
      (topicImuGyro, payloadGyro)] ∧
      PackedAxes accLsbPerG payloadAcc acc ∧ PackedAxes gyroLsbPerDps payloadGyro gyro

theorem imuIteration_shown (hlib : lib.Bounded) (hcache : a.cache = true) {d : ImuDraws}
    (hd : d.AllInUnit) (t : ℚ) :
    ∃ ax ay az gx gy gz, (imuIteration lib a d t).2.cacheCall = some (.setImu ax ay az gx gy gz) ∧
      ImuShown lib (imuIteration lib a d t).2 ⟨ax, ay, az⟩ ⟨gx, gy, gz⟩ := by
  refine ⟨_, _, _, _, _, _, if_pos hcache, ⟨imuAcc lib t d, imuGyro lib t d, rfl, rfl,
    within_imuAcc hlib hd t, within_imuGyro hlib hd t, _, _, rfl, ?_, ?_⟩⟩
  · have h := packedAxes_packAxes (within_imuAcc hlib hd t)
      (by norm_num [accLsbPerG] : 0 ≤ accLsbPerG) (by norm_num [accLsbPerG]) []
    rwa [List.append_nil] at h
  · have h := packedAxes_packAxes (within_imuGyro hlib hd t)
      (by norm_num [gyroLsbPerDps] : 0 ≤ gyroLsbPerDps) (by norm_num [gyroLsbPerDps]) []
    rwa [List.append_nil] at h

/-- The message shows the iteration `out` of `tilt_thread`: the same angles within their limit,
packed into its payload, and the same status. -/
structure TiltShown (lib : Libm) (out : SensorOutput) (tiltDeg : Vec3) (status : UInt32) :
    Prop where
  values : ∃ deg : Axes, tiltDeg = deg.toVec3 lib ∧ deg.Within 20.2 ∧
    ∃ payload, out.published = [(topicTilt, payload)] ∧ PackedAxes tiltLsbPerDeg payload deg ∧
      fromLittleEndian (payload.drop 6) = status.toNat

theorem tiltIteration_shown (hlib : lib.Bounded) (hcache : a.cache = true) {d : TiltDraws}
    (hd : d.AllInUnit) (t : ℚ) :
    ∃ tx ty tz status, (tiltIteration lib a d t).2.cacheCall = some (.setTilt tx ty tz status) ∧
      TiltShown lib (tiltIteration lib a d t).2 ⟨tx, ty, tz⟩ status := by
  refine ⟨_, _, _, _, if_pos hcache, ⟨tiltDeg lib t d, rfl, within_tiltDeg hlib hd t, _, rfl, ?_,
    rfl⟩⟩
  exact packedAxes_packAxes (within_tiltDeg hlib hd t)
    (by norm_num [tiltLsbPerDeg] : 0 ≤ tiltLsbPerDeg) (by norm_num [tiltLsbPerDeg]) _

/-! ## The motors -/

/-- The ends of the ranges of a motor: its highest speed, temperature and current, and its
lowest voltage. -/
structure MotorLimits where
  rpm : ℤ
  temp : ℤ
  mVLow : ℤ
  mA : ℤ

def motor1Limits : MotorLimits := ⟨2468, 95, 21000, 6660⟩

def motor2Limits : MotorLimits := ⟨2622, 98, 20800, 7125⟩

/-- The formulas of a motor stay within these limits, and the limits within the types of the
values. -/
structure MotorModel.Bounded (m : MotorModel) (sin : ℚ → ℚ) (lim : MotorLimits) : Prop where
  window_nonneg : 0 ≤ m.windowRpm
  rpm_le : ∀ t d, d.AllInUnit → m.rpm sin t d ≤ lim.rpm
  iPs_le : ∀ t d, d.AllInUnit → m.iPsMa sin t (m.drive sin t d) + noise d.iPs m.iPsNoise +
    (if m.window t then m.windowMa else 0) ≤ lim.mA
  temp_eq : m.tempMax = lim.temp
  mV_eq : m.vPsMin = lim.mVLow
  rpm_fits : lim.rpm ≤ 2622
  temp_fits : 20 ≤ lim.temp ∧ lim.temp ≤ 32767
  mV_fits : 0 ≤ lim.mVLow ∧ lim.mVLow ≤ 26000
  mA_fits : 0 ≤ lim.mA ∧ lim.mA ≤ 2147483647

theorem clamp_mem {lo hi : ℚ} (h : lo ≤ hi) (v : ℚ) : lo ≤ clamp lo hi v ∧ clamp lo hi v ≤ hi := by
  unfold clamp
  dsimp only
  split
  next hlow =>
    rw [if_neg (not_lt.mpr h)]
    exact ⟨le_rfl, h⟩
  next hlow =>
    split
    next => exact ⟨h, le_rfl⟩
    next hhigh => exact ⟨not_lt.mp hlow, not_lt.mp hhigh⟩

/-- What is cut off below zero and factored down stays below a bound. -/
theorem MotorModel.rpm_le_of {m : MotorModel} {sin : ℚ → ℚ} {t limit : ℚ} {d : Draws}
    (hwindow : 0 ≤ m.windowRpm ∧ m.windowRpm ≤ 1) (hlimit : 0 ≤ limit)
    (h : m.rpmMotor sin t (m.drive sin t d) + noise d.rpm m.rpmNoise ≤ limit) :
    m.rpm sin t d ≤ limit := by
  unfold MotorModel.rpm
  dsimp only
  generalize m.rpmMotor sin t (m.drive sin t d) + noise d.rpm m.rpmNoise = raw at h
  have hcut : 0 ≤ (if raw < 0 then 0 else raw) ∧ (if raw < 0 then 0 else raw) ≤ limit := by
    split
    next => exact ⟨le_rfl, hlimit⟩
    next hraw => exact ⟨not_lt.mp hraw, h⟩
  split
  · exact (mul_le_of_le_one_right hcut.1 hwindow.2).trans hcut.2
  · exact hcut.2

theorem motor1_drive_mem (sin : ℚ → ℚ) (t : ℚ) (d : Draws) :
    0.05 ≤ motor1.drive sin t d ∧ motor1.drive sin t d ≤ 1 :=
  clamp_mem (by norm_num [motor1] : motor1.driveMin ≤ 1) _

theorem motor2_drive_mem (sin : ℚ → ℚ) (t : ℚ) (d : Draws) :
    0.03 ≤ motor2.drive sin t d ∧ motor2.drive sin t d ≤ 1 :=
  clamp_mem (by norm_num [motor2] : motor2.driveMin ≤ 1) _

theorem noise_le {u amp : ℚ} (hu : InUnit u) (hamp : 0 ≤ amp) : noise u amp ≤ amp :=
  (le_abs_self _).trans (abs_noise_le hu hamp)

theorem Libm.Bounded.sin_le (hlib : lib.Bounded) (x : ℚ) : lib.sin x ≤ 1 :=
  (le_abs_self _).trans (hlib.sin x)

theorem bounded_motor1 (hlib : lib.Bounded) : motor1.Bounded lib.sin motor1Limits where
  window_nonneg := by norm_num [motor1]
  rpm_le t d hd := by
    refine MotorModel.rpm_le_of (by norm_num [motor1]) (by norm_num [motor1Limits]) ?_
    have hdrive := (motor1_drive_mem lib.sin t d).2
    have hwave := hlib.sin_le (2 * mPi * 0.7 * t)
    have hnoise := noise_le hd.rpm (by norm_num : (0 : ℚ) ≤ 8)
    show 700 + 1700 * motor1.drive lib.sin t d + 60 * lib.sin (2 * mPi * 0.7 * t) +
      noise d.rpm 8 ≤ ((2468 : ℤ) : ℚ)
    push_cast
    linarith
  iPs_le t d hd := by
    have hdrive := (motor1_drive_mem lib.sin t d).2
    have hwave := hlib.sin_le (2 * mPi * 0.35 * t + 0.2)
    have hnoise := noise_le hd.iPs (by norm_num : (0 : ℚ) ≤ 60)
    have hbrake : (if motor1.window t then motor1.windowMa else 0) ≤ 900 := by
      split <;> norm_num [motor1]
    show 1200 + 4200 * motor1.drive lib.sin t d + 300 * lib.sin (2 * mPi * 0.35 * t + 0.2) +
      noise d.iPs 60 + (if motor1.window t then motor1.windowMa else 0) ≤ ((6660 : ℤ) : ℚ)
    push_cast
    linarith
  temp_eq := by norm_num [motor1, motor1Limits]
  mV_eq := by norm_num [motor1, motor1Limits]
  rpm_fits := by decide
  temp_fits := by decide
  mV_fits := by decide
  mA_fits := by decide

theorem bounded_motor2 (hlib : lib.Bounded) : motor2.Bounded lib.sin motor2Limits where
  window_nonneg := by norm_num [motor2]
  rpm_le t d hd := by
    refine MotorModel.rpm_le_of (by norm_num [motor2]) (by norm_num [motor2Limits]) ?_
    obtain ⟨hlow, hhigh⟩ := motor2_drive_mem lib.sin t d
    have hwave := hlib.sin_le (2 * mPi * 0.6 * t + 1.3)
    have hnoise := noise_le hd.rpm (by norm_num : (0 : ℚ) ≤ 9)
    have hbias := hlib.sin_le (2 * mPi * 0.05 * t + 0.4)
    have hspeed : (650 + 1750 * motor2.drive lib.sin t d) *
        (1 + 0.07 * lib.sin (2 * mPi * 0.05 * t + 0.4)) ≤ 2400 * 1.07 := by
      calc (650 + 1750 * motor2.drive lib.sin t d) *
            (1 + 0.07 * lib.sin (2 * mPi * 0.05 * t + 0.4))
        _ ≤ (650 + 1750 * motor2.drive lib.sin t d) * 1.07 := by
          gcongr
          linarith
        _ ≤ 2400 * 1.07 := by
          gcongr
          linarith
    show (650 + 1750 * motor2.drive lib.sin t d) *
        (1 + 0.07 * lib.sin (2 * mPi * 0.05 * t + 0.4)) +
      45 * lib.sin (2 * mPi * 0.6 * t + 1.3) + noise d.rpm 9 ≤ ((2622 : ℤ) : ℚ)
    push_cast
    linarith
  iPs_le t d hd := by
    have hdrive := (motor2_drive_mem lib.sin t d).2
    have hwave := hlib.sin (2 * mPi * 0.21 * t + 0.1)
    have hnoise := noise_le hd.iPs (by norm_num : (0 : ℚ) ≤ 75)
    have hload : (if motor2.window t then motor2.windowMa else 0) ≤ 1400 := by
      split <;> norm_num [motor2]
    show 1300 + 3900 * motor2.drive lib.sin t d + 450 * |lib.sin (2 * mPi * 0.21 * t + 0.1)| +
      noise d.iPs 75 + (if motor2.window t then motor2.windowMa else 0) ≤ ((7125 : ℤ) : ℚ)
    push_cast
    linarith
  temp_eq := by norm_num [motor2, motor2Limits]
  mV_eq := by norm_num [motor2, motor2Limits]
  rpm_fits := by decide
  temp_fits := by decide
  mV_fits := by decide
  mA_fits := by decide

/-- A value that is not clipped, as it is set in the cache and as it is packed. -/
theorem rounded_i16 {x : ℚ} {lo hi : ℤ} (hlo : (lo : ℚ) ≤ x) (hhi : x ≤ hi) (hlow : -32768 ≤ lo)
    (hhigh : hi ≤ 32767) :
    (lo ≤ (clampI16 (lround x)).toInt32.toInt ∧ (clampI16 (lround x)).toInt32.toInt ≤ hi) ∧
      signedLittleEndian (packI16Le (clampI16 (lround x))) =
        (clampI16 (lround x)).toInt32.toInt := by
  obtain ⟨hge, hle⟩ := lround_mem hlo hhi
  rw [signed_packI16Le, Int16.toInt_toInt32, toInt_clampI16 (hlow.trans hge) (hle.trans hhigh)]
  exact ⟨⟨hge, hle⟩, rfl⟩

theorem rounded_i32 {x : ℚ} {lo hi : ℤ} (hlo : (lo : ℚ) ≤ x) (hhi : x ≤ hi)
    (hlow : -2147483648 ≤ lo) (hhigh : hi ≤ 2147483647) :
    (lo ≤ (clampI32Ll (lround x)).toInt ∧ (clampI32Ll (lround x)).toInt ≤ hi) ∧
      signedLittleEndian (packI32Le (clampI32Ll (lround x))) = (clampI32Ll (lround x)).toInt := by
  obtain ⟨hge, hle⟩ := lround_mem hlo hhi
  rw [signed_packI32Le, toInt_clampI32Ll (hlow.trans hge) (hle.trans hhigh)]
  exact ⟨⟨hge, hle⟩, rfl⟩

/-- What an iteration of a motor has published, beside what it has set in the cache: every
payload has the same value as the cache, and the values are in their ranges. -/
structure MotorShown (m : MotorModel) (lim : MotorLimits) (out : SensorOutput)
    (tics : UInt32) (rpm temp mV mA : Int32) : Prop where
  published : ∃ payloadTics payloadRpm payloadTemp payloadVps payloadCps,
    out.published = [(m.topics.tics, payloadTics), (m.topics.rpm, payloadRpm),
      (m.topics.temp, payloadTemp), (m.topics.vps, payloadVps), (m.topics.cps, payloadCps)] ∧
    fromLittleEndian payloadTics = tics.toNat ∧ signedLittleEndian payloadRpm = rpm.toInt ∧
    signedLittleEndian payloadTemp = temp.toInt ∧ signedLittleEndian payloadVps = mV.toInt ∧
    signedLittleEndian payloadCps = mA.toInt
  rpm : 0 ≤ rpm.toInt ∧ rpm.toInt ≤ lim.rpm
  temp : 20 ≤ temp.toInt ∧ temp.toInt ≤ lim.temp
  mV : lim.mVLow ≤ mV.toInt ∧ mV.toInt ≤ 26000
  mA : 0 ≤ mA.toInt ∧ mA.toInt ≤ lim.mA

/-- The fraction of a tick that is kept between iterations. -/
def MotorState.Fraction (s : MotorState) : Prop := 0 ≤ s.tickFrac ∧ s.tickFrac < 1

/-- At a thousandth of a hertz the counter of the encoder can still take what one iteration
adds. -/
theorem MotorModel.Bounded.ticks_lt {m : MotorModel} {lim : MotorLimits}
    (hm : m.Bounded lib.sin lim) (hrate : 1 / 1000 ≤ a.rate) {d : Draws} (hd : d.AllInUnit)
    (t : ℚ) : m.ticksIncReal lib.sin a t d < 2 ^ 32 - 1 := by
  have hrpm : m.rpm lib.sin t d ≤ 2622 :=
    (hm.rpm_le t d hd).trans (by exact_mod_cast hm.rpm_fits)
  have hdt : 1 / a.rate ≤ 1000 := by
    rw [div_le_iff₀ a.rate_pos]
    linarith
  have hpos : 0 ≤ 1 / a.rate := one_div_nonneg.mpr a.rate_pos.le
  unfold MotorModel.ticksIncReal encTicksPerRevMotor
  dsimp only
  calc m.rpm lib.sin t d / 60 * 16384 * (1 / a.rate)
    _ ≤ 2622 / 60 * 16384 * 1000 := by gcongr
    _ < 2 ^ 32 - 1 := by norm_num

theorem MotorModel.Bounded.rounded_temp {m : MotorModel} {sin : ℚ → ℚ} {lim : MotorLimits}
    (hm : m.Bounded sin lim) (v : ℚ) :
    let temp := clampI16 (lround (clamp 20 m.tempMax v))
    (20 ≤ temp.toInt32.toInt ∧ temp.toInt32.toInt ≤ lim.temp) ∧
      signedLittleEndian (packI16Le temp) = temp.toInt32.toInt := by
  have hrange : ((20 : ℤ) : ℚ) ≤ m.tempMax := by
    rw [hm.temp_eq]
    exact_mod_cast hm.temp_fits.1
  obtain ⟨hlow, hhigh⟩ := clamp_mem hrange v
  rw [hm.temp_eq] at hlow hhigh ⊢
  exact rounded_i16 hlow hhigh (by norm_num) hm.temp_fits.2

theorem MotorModel.Bounded.rounded_mV {m : MotorModel} {sin : ℚ → ℚ} {lim : MotorLimits}
    (hm : m.Bounded sin lim) (v : ℚ) :
    let mV := clampI32Ll (lround (clamp m.vPsMin 26000 v))
    (lim.mVLow ≤ mV.toInt ∧ mV.toInt ≤ 26000) ∧
      signedLittleEndian (packI32Le mV) = mV.toInt := by
  have hrange : m.vPsMin ≤ ((26000 : ℤ) : ℚ) := by
    rw [hm.mV_eq]
    exact_mod_cast hm.mV_fits.2
  obtain ⟨hlow, hhigh⟩ := clamp_mem hrange v
  rw [hm.mV_eq] at hlow hhigh ⊢
  exact rounded_i32 hlow hhigh (by linarith [hm.mV_fits.1]) (by norm_num)

theorem MotorModel.Bounded.rounded_mA {m : MotorModel} {sin : ℚ → ℚ} {lim : MotorLimits}
    (hm : m.Bounded sin lim) (t : ℚ) {d : Draws} (hd : d.AllInUnit) :
    let iPsMa := m.iPsMa sin t (m.drive sin t d) + noise d.iPs m.iPsNoise
    let iPsMa := if m.window t then iPsMa + m.windowMa else iPsMa
    let mA := clampI32Ll (lround (if iPsMa < 0 then 0 else iPsMa))
    (0 ≤ mA.toInt ∧ mA.toInt ≤ lim.mA) ∧ signedLittleEndian (packI32Le mA) = mA.toInt := by
  have hle := hm.iPs_le t d hd
  intro iPsMa iPsMa' mA
  have hraised : iPsMa' ≤ lim.mA := by
    refine le_trans (le_of_eq ?_) hle
    dsimp only [iPsMa', iPsMa]
    split
    next => rfl
    next => rw [add_zero]
  have hcut : ((0 : ℤ) : ℚ) ≤ (if iPsMa' < 0 then 0 else iPsMa') ∧
      (if iPsMa' < 0 then 0 else iPsMa') ≤ (lim.mA : ℚ) := by
    rw [Int.cast_zero]
    split
    next => exact ⟨le_rfl, by exact_mod_cast hm.mA_fits.1⟩
    next h => exact ⟨not_lt.mp h, hraised⟩
  exact rounded_i32 hcut.1 hcut.2 (by norm_num) hm.mA_fits.2

theorem motorIteration_shown {m : MotorModel} {lim : MotorLimits} (hm : m.Bounded lib.sin lim)
    (hcache : a.cache = true) (hrate : 1 / 1000 ≤ a.rate) {s : MotorState} (hs : s.Fraction)
    {d : Draws} (hd : d.AllInUnit) :
    ∃ s' out tics rpm temp mV mA, motorIteration m lib.sin a d s = some (s', out) ∧
      s'.Fraction ∧ out.cacheCall = some (.setMotor m.motorIndex tics rpm temp mV mA) ∧
      MotorShown m lim out tics rpm temp mV mA := by
  have hnonneg : 0 ≤ m.ticksIncReal lib.sin a s.t d :=
    MotorModel.ticksIncReal_nonneg hm.window_nonneg s.t d
  have hlt := hm.ticks_lt hrate hd s.t
  have hfloor : 0 ≤ ⌊s.tickFrac + m.ticksIncReal lib.sin a s.t d⌋ :=
    Int.floor_nonneg.mpr (add_nonneg hs.1 hnonneg)
  have hfits : ⌊s.tickFrac + m.ticksIncReal lib.sin a s.t d⌋ < 2 ^ 32 := by
    rw [Int.floor_lt]
    push_cast
    linarith [hs.2]
  obtain ⟨inc, hinc, htoNat⟩ := toUint32_eq hfloor hfits
  have hcast : (inc.toNat : ℚ) = ⌊s.tickFrac + m.ticksIncReal lib.sin a s.t d⌋ := by
    rw [← htoNat, Int.cast_natCast]
  refine ⟨_, _, _, _, _, _, _, by simp only [motorIteration, hinc, Option.map_some]; rfl, ⟨?_, ?_⟩,
    if_pos hcache, ?_⟩
  · dsimp only
    rw [hcast]
    exact Int.fract_nonneg _
  · dsimp only
    rw [hcast]
    exact Int.fract_lt_one _
  · -- every value is rounded within its range
    have hzero : ((0 : ℤ) : ℚ) ≤ m.rpm lib.sin s.t d := by
      rw [Int.cast_zero]
      exact MotorModel.rpm_nonneg hm.window_nonneg s.t d
    obtain ⟨hrpm, hrpmSigned⟩ := rounded_i16 hzero (hm.rpm_le s.t d hd) (by norm_num)
      (hm.rpm_fits.trans (by norm_num))
    obtain ⟨hmA, hmASigned⟩ := hm.rounded_mA s.t hd
    exact ⟨⟨_, _, _, _, _, rfl, from_packU32Le _, hrpmSigned, (hm.rounded_temp _).2,
      (hm.rounded_mV _).2, hmASigned⟩, hrpm, (hm.rounded_temp _).1, (hm.rounded_mV _).1, hmA⟩

end TelemetryTestbed.Sim
