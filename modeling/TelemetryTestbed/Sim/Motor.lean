import Mathlib.Data.Rat.Floor
import TelemetryTestbed.Sim.Cache

/-!
# The motor sensors

`motor1_thread` and `motor2_thread` over exact rational arithmetic, one iteration of
the loop at a time. The sine is a parameter, and what `frand_unit` answers is given
for every iteration, so any trace of speeds is the trace of some run. The conversion
of a number that `uint32_t` does not have is undefined, and the run ends there.

The two threads are one model with the numbers and formulas of each as its fields, since the
source has the code twice with other constants. What a conversion to a fixed-width integer
does out of range is undefined for `uint32_t` from a double, and saturated by the source's own
clamps elsewhere.
-/

namespace TelemetryTestbed.Sim

open TelemetryTestbed.Lib TelemetryTestbed.Telemetry

def mPi : ℚ := 3.14159265358979323846

def encTicksPerRevMotor : ℚ := 16384

/-- `noise(&seed, amp)`, where `frand_unit` answers `u`. -/
def noise (u amp : ℚ) : ℚ := (u - 1 / 2) * 2 * amp

/-- `fmod`, whose quotient is rounded towards zero. -/
def fmod (x y : ℚ) : ℚ := x - y * (if 0 ≤ x / y then ⌊x / y⌋ else ⌈x / y⌉)

/-- `lround` and `llround`: halves away from zero. -/
def lround (x : ℚ) : Int := if 0 ≤ x then ⌊x + 1 / 2⌋ else ⌈x - 1 / 2⌉

def clampI16 (v : Int) : Int16 :=
  if v > 32767 then 32767 else if v < -32768 then -32768 else .ofInt v

def clampI32Ll (v : Int) : Int32 :=
  if v > 2147483647 then 2147483647
  else if v < -2147483648 then -2147483647 - 1
  else .ofInt v

def packU16Le (v : UInt16) : Bytes := [v.toUInt8, (v >>> 8).toUInt8]

def packI16Le (v : Int16) : Bytes := packU16Le v.toUInt16

def packU32Le (v : UInt32) : Bytes :=
  [v.toUInt8, (v >>> 8).toUInt8, (v >>> 16).toUInt8, (v >>> 24).toUInt8]

def packI32Le (v : Int32) : Bytes := packU32Le v.toUInt32

/-- `(uint32_t)v`, where it is defined. -/
def toUint32 (v : Int) : Option UInt32 :=
  if 0 ≤ v ∧ v < 2 ^ 32 then some (.ofNat v.toNat) else none

/-- `if (v < lo) v = lo; if (v > hi) v = hi;` -/
def clamp (lo hi v : ℚ) : ℚ :=
  let v := if v < lo then lo else v
  if v > hi then hi else v

/-- What `frand_unit` answers in an iteration, in the order of the calls. -/
structure Draws where
  drive : ℚ
  rpm : ℚ
  vPs : ℚ
  iPs : ℚ
  temp : ℚ

/-- The topics of one motor, one for each of its values. -/
structure MotorTopics where
  tics : Bytes
  rpm : Bytes
  temp : Bytes
  vps : Bytes
  cps : Bytes

/-- What the two threads compute each in its own way. The functions are of the sine, of
`t`, of `drive_cmd` and of `rpm_motor` as far as they need them. -/
structure MotorModel where
  motorIndex : Int32
  topics : MotorTopics
  tempInit : ℚ
  driveCmd : (ℚ → ℚ) → ℚ → ℚ
  driveMin : ℚ
  rpmMotor : (ℚ → ℚ) → ℚ → ℚ → ℚ
  rpmNoise : ℚ
  /-- The motor brakes, or carries a load. -/
  window : ℚ → Bool
  windowRpm : ℚ
  windowMa : ℚ
  vPsMv : (ℚ → ℚ) → ℚ → ℚ → ℚ
  vPsNoise : ℚ
  vPsMin : ℚ
  iPsMa : (ℚ → ℚ) → ℚ → ℚ → ℚ
  iPsNoise : ℚ
  tempTarget : ℚ → ℚ → ℚ
  tempGain : ℚ
  tempNoise : ℚ
  tempMax : ℚ

def motor1 : MotorModel where
  motorIndex := 1
  topics := ⟨ascii "/robot/sensors/motor1/tics", ascii "/robot/sensors/motor1/rpm",
    ascii "/robot/sensors/motor1/temperature",
    ascii "/robot/sensors/motor1/voltage_power_stage",
    ascii "/robot/sensors/motor1/current_power_stage"⟩
  tempInit := 32
  driveCmd sin t := 0.70 + 0.20 * sin (2 * mPi * 0.09 * t) + 0.10 * sin (2 * mPi * 0.23 * t + 0.8)
  driveMin := 0.05
  rpmMotor sin t driveCmd := 700 + 1700 * driveCmd + 60 * sin (2 * mPi * 0.7 * t)
  rpmNoise := 8
  window t :=
    let brakeWindow := fmod t 17
    brakeWindow > 14.5 && brakeWindow < 15.2
  windowRpm := 0.55
  windowMa := 900
  vPsMv sin t driveCmd := 24000 + 350 * sin (2 * mPi * 0.18 * t) - 180 * driveCmd
  vPsNoise := 25
  vPsMin := 21000
  iPsMa sin t driveCmd := 1200 + 4200 * driveCmd + 300 * sin (2 * mPi * 0.35 * t + 0.2)
  iPsNoise := 60
  tempTarget iPsMa rpmMotor := 28 + 0.0065 * iPsMa + 0.0030 * |rpmMotor - 1200|
  tempGain := 0.03
  tempNoise := 0.05
  tempMax := 95

def motor2 : MotorModel where
  motorIndex := 2
  topics := ⟨ascii "/robot/sensors/motor2/tics", ascii "/robot/sensors/motor2/rpm",
    ascii "/robot/sensors/motor2/temperature",
    ascii "/robot/sensors/motor2/voltage_power_stage",
    ascii "/robot/sensors/motor2/current_power_stage"⟩
  tempInit := 31
  driveCmd sin t :=
    0.66 + 0.22 * sin (2 * mPi * 0.10 * t + 1) + 0.08 * sin (2 * mPi * 0.29 * t + 2.1)
  driveMin := 0.03
  rpmMotor sin t driveCmd :=
    let steeringBias := 1 + 0.07 * sin (2 * mPi * 0.05 * t + 0.4)
    (650 + 1750 * driveCmd) * steeringBias + 45 * sin (2 * mPi * 0.6 * t + 1.3)
  rpmNoise := 9
  window t :=
    let loadWindow := fmod (t + 4) 19
    loadWindow > 9.2 && loadWindow < 10.1
  windowRpm := 0.70
  windowMa := 1400
  vPsMv sin t driveCmd := 23900 + 300 * sin (2 * mPi * 0.16 * t + 0.9) - 220 * driveCmd
  vPsNoise := 30
  vPsMin := 20800
  iPsMa sin t driveCmd := 1300 + 3900 * driveCmd + 450 * |sin (2 * mPi * 0.21 * t + 0.1)|
  iPsNoise := 75
  tempTarget iPsMa rpmMotor := 27 + 0.0070 * iPsMa + 0.0025 * rpmMotor
  tempGain := 0.028
  tempNoise := 0.06
  tempMax := 98

/-- The arguments of a thread that its loop reads. -/
structure MotorArgs where
  rateHz : ℚ
  /-- `a->cache` is not NULL. -/
  cache : Bool

/-- `const double rate_hz`. -/
def MotorArgs.rate (a : MotorArgs) : ℚ := if a.rateHz > 0 then a.rateHz else 50

/-- The variables a thread keeps from one iteration to the next. -/
structure MotorState where
  t : ℚ
  tickFrac : ℚ
  tickCount : UInt32
  tempCState : ℚ

/-- What an iteration hands on: the call of `telemetry_cache_set_motor` and what is published. -/
structure MotorOutput where
  cacheCall : Option CacheCall
  published : List (Bytes × Bytes)

variable (m : MotorModel) (sin : ℚ → ℚ) (a : MotorArgs)

def MotorModel.init : MotorState := ⟨0, 0, 0, m.tempInit⟩

/-- `drive_cmd` at the time `t`. -/
def MotorModel.drive (t : ℚ) (d : Draws) : ℚ :=
  clamp m.driveMin 1 (m.driveCmd sin t + noise d.drive 0.02)

/-- `rpm_motor` at the time `t`. -/
def MotorModel.rpm (t : ℚ) (d : Draws) : ℚ :=
  let rpmMotor := m.rpmMotor sin t (m.drive sin t d) + noise d.rpm m.rpmNoise
  let rpmMotor := if rpmMotor < 0 then 0 else rpmMotor
  if m.window t then rpmMotor * m.windowRpm else rpmMotor

/-- `ticks_inc_real` at the time `t`. -/
def MotorModel.ticksIncReal (t : ℚ) (d : Draws) : ℚ :=
  let dt := 1 / a.rate
  m.rpm sin t d / 60 * encTicksPerRevMotor * dt

/-- The increments of the iterations from the time `t` on. -/
def MotorModel.increments : ℚ → List Draws → List ℚ
  | _, [] => []
  | t, d :: ds => m.ticksIncReal sin a t d :: increments (t + 1 / a.rate) ds

/-- One iteration of the loop. -/
def motorIteration (d : Draws) (s : MotorState) : Option (MotorState × MotorOutput) :=
  let driveCmd := m.drive sin s.t d
  let rpmMotor := m.rpm sin s.t d
  let dt := 1 / a.rate
  let tickFrac := s.tickFrac + m.ticksIncReal sin a s.t d
  (toUint32 ⌊tickFrac⌋).map fun ticksInc =>
    let tickFrac := tickFrac - ticksInc.toNat
    let tickCount := s.tickCount + ticksInc
    let vPsMv := clamp m.vPsMin 26000 (m.vPsMv sin s.t driveCmd + noise d.vPs m.vPsNoise)
    let iPsMa := m.iPsMa sin s.t driveCmd + noise d.iPs m.iPsNoise
    let iPsMa := if m.window s.t then iPsMa + m.windowMa else iPsMa
    let iPsMa := if iPsMa < 0 then 0 else iPsMa
    let tempTarget := m.tempTarget iPsMa rpmMotor
    let tempCState := clamp 20 m.tempMax
      (s.tempCState + ((tempTarget - s.tempCState) * m.tempGain + noise d.temp m.tempNoise))
    let rpmI16 := clampI16 (lround rpmMotor)
    let tempI16 := clampI16 (lround tempCState)
    let vI32 := clampI32Ll (lround vPsMv)
    let iI32 := clampI32Ll (lround iPsMa)
    ({ t := s.t + dt, tickFrac, tickCount, tempCState },
      { cacheCall := if a.cache then
          some (.setMotor m.motorIndex tickCount rpmI16.toInt32 tempI16.toInt32 vI32 iI32)
        else none
        published := [(m.topics.tics, packU32Le tickCount), (m.topics.rpm, packI16Le rpmI16),
          (m.topics.temp, packI16Le tempI16), (m.topics.vps, packI32Le vI32),
          (m.topics.cps, packI32Le iI32)] })

/-- The loop from a state on, for the iterations whose draws are given. -/
def motorLoop : List Draws → MotorState → Option (MotorState × List MotorOutput)
  | [], s => some (s, [])
  | d :: ds, s => do
    let (s, out) ← motorIteration m sin a d s
    let (s, outs) ← motorLoop ds s
    return (s, out :: outs)

/-- `motor1_thread` up to the head of an iteration: the draws of those before it are given. -/
def motor1Thread (ds : List Draws) : Option (MotorState × List MotorOutput) :=
  motorLoop motor1 sin a ds motor1.init

/-- `motor2_thread` up to the head of an iteration. -/
def motor2Thread (ds : List Draws) : Option (MotorState × List MotorOutput) :=
  motorLoop motor2 sin a ds motor2.init

end TelemetryTestbed.Sim
