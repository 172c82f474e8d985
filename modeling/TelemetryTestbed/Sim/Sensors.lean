import TelemetryTestbed.Sim.Motor
import TelemetryTestbed.Sim.Publisher

/-!
# The sensor threads at work

`imu_thread` and `tilt_thread` over exact rational arithmetic like the motors, and the
four sensors beside the publisher: an iteration computes its values, sets them in the
cache and publishes them on topics of its own. The machine runs the iterations of each
thread one after another, interleaved with the statements inside the cache.

An iteration is computed as a whole when it begins, and what it publishes on its topics is
recorded then; its call of the setter goes on from there, one statement at a time. The draws
of the noise are given by the actions, for every iteration anew.
-/

namespace TelemetryTestbed.Sim

open TelemetryTestbed.Lib TelemetryTestbed.Telemetry

/-- What the threads use of the C library: the functions, and the conversion to `float`. -/
structure Libm where
  sin : ℚ → ℚ
  cos : ℚ → ℚ
  toFloat : ℚ → CFloat

abbrev SensorArgs := MotorArgs

abbrev SensorOutput := MotorOutput

/-- What `frand_unit` answers in an iteration of `imu_thread`, in the order of the calls. -/
structure ImuDraws where
  ax : ℚ
  ay : ℚ
  az : ℚ
  gx : ℚ
  gy : ℚ
  gz : ℚ

/-- What `frand_unit` answers in an iteration of `tilt_thread`, in the order of the calls. -/
structure TiltDraws where
  tx : ℚ
  ty : ℚ
  tz : ℚ

def accLsbPerG : ℚ := 5461

def gyroLsbPerDps : ℚ := 262.4

def tiltLsbPerDeg : ℚ := 182

def topicImuAcc : Bytes := ascii "/robot/sensors/imu0/acc"

def topicImuGyro : Bytes := ascii "/robot/sensors/imu0/gyro"

def topicTilt : Bytes := ascii "/robot/sensors/tilt0/tilt"

/-- Three values, as the IMU and the tilt sensor have them. -/
structure Axes where
  x : ℚ
  y : ℚ
  z : ℚ

def Axes.toVec3 (lib : Libm) (v : Axes) : Vec3 :=
  ⟨lib.toFloat v.x, lib.toFloat v.y, lib.toFloat v.z⟩

/-- `clamp_i16(lround(v * lsb))` of each axis, packed. -/
def packAxes (lsb : ℚ) (v : Axes) : Bytes :=
  packI16Le (clampI16 (lround (v.x * lsb))) ++ packI16Le (clampI16 (lround (v.y * lsb))) ++
    packI16Le (clampI16 (lround (v.z * lsb)))

section

variable (lib : Libm) (a : SensorArgs)

/-- `ax_g`, `ay_g` and `az_g` at the time `t`. -/
def imuAcc (t : ℚ) (d : ImuDraws) : Axes where
  x := 0.2 * lib.sin (2 * mPi * 0.50 * t) + noise d.ax 0.02
  y := 0.2 * lib.cos (2 * mPi * 0.40 * t) + noise d.ay 0.02
  z := 1 + 0.05 * lib.sin (2 * mPi * 0.20 * t) + noise d.az 0.02

/-- `gx_dps`, `gy_dps` and `gz_dps` at the time `t`. -/
def imuGyro (t : ℚ) (d : ImuDraws) : Axes where
  x := 10 * lib.sin (2 * mPi * 0.30 * t) + noise d.gx 0.5
  y := 8 * lib.cos (2 * mPi * 0.22 * t) + noise d.gy 0.5
  z := 5 * lib.sin (2 * mPi * 0.15 * t) + noise d.gz 0.5

/-- One iteration of `imu_thread`, from the time `t`: the next time, and what is handed on. -/
def imuIteration (d : ImuDraws) (t : ℚ) : ℚ × SensorOutput :=
  let acc := imuAcc lib t d
  let gyro := imuGyro lib t d
  (t + 1 / a.rateHz,
    { cacheCall := if a.cache then
        some (.setImu (lib.toFloat acc.x) (lib.toFloat acc.y) (lib.toFloat acc.z)
          (lib.toFloat gyro.x) (lib.toFloat gyro.y) (lib.toFloat gyro.z))
      else none
      published := [(topicImuAcc, packAxes accLsbPerG acc),
        (topicImuGyro, packAxes gyroLsbPerDps gyro)] })

/-- `tx_deg`, `ty_deg` and `tz_deg` at the time `t`. -/
def tiltDeg (t : ℚ) (d : TiltDraws) : Axes where
  x := 20 * lib.sin (2 * mPi * 0.10 * t) + noise d.tx 0.2
  y := 15 * lib.cos (2 * mPi * 0.08 * t) + noise d.ty 0.2
  z := 5 * lib.sin (2 * mPi * 0.05 * t) + noise d.tz 0.2

/-- One iteration of `tilt_thread`. -/
def tiltIteration (d : TiltDraws) (t : ℚ) : ℚ × SensorOutput :=
  let deg := tiltDeg lib t d
  let status : UInt16 := 0
  (t + 1 / a.rateHz,
    { cacheCall := if a.cache then
        some (.setTilt (lib.toFloat deg.x) (lib.toFloat deg.y) (lib.toFloat deg.z)
          status.toUInt32)
      else none
      published := [(topicTilt, packAxes tiltLsbPerDeg deg ++ packU16Le status)] })

end

/-! ## The threads beside the publisher -/

/-- The four threads that write to the cache. -/
inductive Sensor
  | imu
  | tilt
  | motor1
  | motor2
  deriving DecidableEq

/-- The simulation with the loops of its sensor threads: the phase of each, and what its
iterations have handed on. -/
structure Sensors where
  sim : Simulation Sensor
  imuT : ℚ
  tiltT : ℚ
  motor1 : MotorState
  motor2 : MotorState
  /-- What the iterations of each thread have handed on. -/
  outputs : Sensor → List SensorOutput

/-- A thread begins an iteration, or a step of the cache or of the publisher is taken. -/
inductive SensorsAction
  /-- A thread begins an iteration: it is with its values at the lock of the cache. -/
  | imu (d : ImuDraws)
  | tilt (d : TiltDraws)
  | motor1 (d : Draws)
  | motor2 (d : Draws)
  /-- A statement inside the cache. -/
  | statement (t : Thread Sensor)
  /-- A sensor thread is back from the cache. -/
  | ret (i : Sensor)
  | pubGet
  | pubGot
  | publish (timestampNs : UInt64) (allocated sent : Bool)

namespace Sensors

def init : Sensors := ⟨.init, 0, 0, Sim.motor1.init, Sim.motor2.init, fun _ => []⟩

/-- The thread calls the setter with what its iteration hands on. -/
def handOn (s : Sensors) (i : Sensor) (out : SensorOutput) : Option Sensors := do
  let sim ← match out.cacheCall with
    | some call => s.sim.step (.call i call)
    | none => if (s.sim.lock.inside (.sensor i)).isNone then some s.sim else none
  return { s with sim, outputs := Function.update s.outputs i (s.outputs i ++ [out]) }

variable (lib : Libm) (a : SensorArgs)

def step (s : Sensors) : SensorsAction → Option Sensors
  | .imu d =>
    let (t, out) := imuIteration lib a d s.imuT
    (s.handOn .imu out).map fun s => { s with imuT := t }
  | .tilt d =>
    let (t, out) := tiltIteration lib a d s.tiltT
    (s.handOn .tilt out).map fun s => { s with tiltT := t }
  | .motor1 d => do
    let (motor1, out) ← motorIteration Sim.motor1 lib.sin a d s.motor1
    let s ← s.handOn .motor1 out
    return { s with motor1 }
  | .motor2 d => do
    let (motor2, out) ← motorIteration Sim.motor2 lib.sin a d s.motor2
    let s ← s.handOn .motor2 out
    return { s with motor2 }
  | .statement t => (s.sim.step (.statement t)).map fun sim => { s with sim }
  | .ret i => (s.sim.step (.ret i)).map fun sim => { s with sim }
  | .pubGet => (s.sim.step .pubGet).map fun sim => { s with sim }
  | .pubGot => (s.sim.step .pubGot).map fun sim => { s with sim }
  | .publish timestampNs allocated sent =>
    (s.sim.step (.publish timestampNs allocated sent)).map fun sim => { s with sim }

end Sensors

end TelemetryTestbed.Sim
