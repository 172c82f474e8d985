import TelemetryTestbed.Sim.Cache

/-!
# The publisher among the sensor threads

`telemetry_pub_thread` reads the cache, builds a message of what it read and
publishes it, while any number of other threads call the setters. A step of the
machine is one statement between lock and unlock, or what a thread does between two
calls. Two ghost fields record the calls that have returned and, with every published
message, those that had returned when the cache was read.

The message is built and published in one step, of the variables that the publisher has
filled; the setters may go on between the unlock and that step. A message for which there is
no buffer, or which the MQTT library refuses, is not published, and the publisher goes on.
-/

namespace TelemetryTestbed.Sim

open TelemetryTestbed.Lib TelemetryTestbed.Telemetry

/-- The ids of `telemetry_pub_args_t`. -/
structure PubArgs where
  robotId : Bytes
  imuId : Bytes
  tiltId : Bytes
  motor1Id : Bytes
  motor2Id : Bytes

/-- The ids `telemetry_state_pub_start` sets. -/
def telemetryStatePubStart : PubArgs :=
  ⟨ascii "robot_sim", ascii "imu0", ascii "tilt0", ascii "motor1", ascii "motor2"⟩

/-- The message built of what was read. -/
def stateMessage (a : PubArgs) (r : TelemetryCache) (timestampNs : UInt64) : PbTelemetryState where
  header := some ⟨some a.robotId, timestampNs, r.seq⟩
  imuId := some a.imuId
  accG := some ⟨r.accG 0, r.accG 1, r.accG 2⟩
  gyroDps := some ⟨r.gyroDps 0, r.gyroDps 1, r.gyroDps 2⟩
  tiltId := some a.tiltId
  tiltDeg := some ⟨r.tiltDeg 0, r.tiltDeg 1, r.tiltDeg 2⟩
  tiltStatus := r.tiltStatus
  motor1 := some ⟨some a.motor1Id, r.motorTics 0, r.motorRpm 0, r.motorTempC 0,
    r.motorVoltageMv 0, r.motorCurrentMa 0⟩
  motor2 := some ⟨some a.motor2Id, r.motorTics 1, r.motorRpm 1, r.motorTempC 1,
    r.motorVoltageMv 1, r.motorCurrentMa 1⟩

/-- The sensor threads, and the publisher. -/
inductive Thread (ι : Type)
  | sensor (i : ι)
  | publisher
  deriving DecidableEq

/-- Where `telemetry_pub_thread` is in its loop. -/
inductive PubPc
  | head
  | reading
  /-- The cache has been read, after these calls. -/
  | filled (r : TelemetryCache) (before : List CacheCall)

/-- A published message, with the calls of the cache that came before the reading it shows. -/
structure Published where
  message : PbTelemetryState
  before : List CacheCall

/-- The cache under its lock, the publisher, and two ghosts: the calls in the order of their
sections, and the messages published. -/
structure Simulation (ι : Type) where
  lock : Locked (Thread ι) CacheCall TelemetryCache TelemetryCache
  pub : PubPc
  calls : List CacheCall
  published : List Published

/-- What a sensor thread or the publisher does next, one statement at a time inside the lock. -/
inductive SimAction (ι : Type)
  /-- A sensor thread calls a setter. -/
  | call (i : ι) (call : CacheCall)
  /-- A thread that has the lock runs a statement. -/
  | statement (t : Thread ι)
  /-- The call of a sensor thread returns. -/
  | ret (i : ι)
  | pubGet
  | pubGot
  /-- The message is built and published, if its buffer is allocated; `sent` is the result. -/
  | publish (timestampNs : UInt64) (allocated sent : Bool)

namespace Simulation

variable {ι : Type}

def init : Simulation ι := ⟨.init telemetryCacheInit, .head, [], []⟩

variable [DecidableEq ι]

def step (s : Simulation ι) : SimAction ι → Option (Simulation ι)
  | .call i call =>
    if call.ignored then
      match s.lock.inside (.sensor i) with
      | none => some { s with calls := s.calls ++ [call] }
      | some _ => none
    else (s.lock.enter CacheCall.code (.sensor i) call).map fun lock => { s with lock }
  | .statement t => (s.lock.statement t).map fun lock => { s with lock }
  | .ret i => (s.lock.leave (.sensor i)).map fun (lock, call, _) =>
    { s with lock, calls := s.calls ++ [call] }
  | .pubGet =>
    match s.pub with
    | .head => (s.lock.enter CacheCall.code .publisher .get).map fun lock =>
      { s with lock, pub := .reading }
    | _ => none
  | .pubGot => (s.lock.leave .publisher).map fun (lock, _, r) =>
    { s with lock, pub := .filled r s.calls }
  | .publish timestampNs allocated sent =>
    match s.pub with
    | .filled r before =>
      if allocated && sent then
        some { s with
          pub := .head
          published := s.published ++
            [⟨stateMessage telemetryStatePubStart r timestampNs, before⟩] }
      else some { s with pub := .head }
    | _ => none

end Simulation

end TelemetryTestbed.Sim
