import TelemetryTestbed.Lib.Bytes

/-!
# The telemetry state

`telemetry_state_t`, and how `on_message` fills it from a decoded message. A
`char[cap]` that holds a string is a `CharArray cap`: what stands before the NUL,
with the bound and the absence of NUL bytes as part of the value. The two entries
of the motor arrays are `motor1` and `motor2`.

Nothing is checked on the way: a message without a header, or without one of its sections,
gives the defaults of the source, and an id that is too long is cut to its array. The decoded
message is the record that the Protobuf library hands over; how it decodes is not modelled.
-/

namespace TelemetryTestbed.Telemetry

open TelemetryTestbed.Lib

/-- A string in a `char[cap]`: its bytes up to the NUL, which leave room for it and have none
among them. -/
structure CharArray (cap : Nat) where
  bytes : Bytes
  fits : bytes.length ≤ cap - 1
  noNul : (0 : UInt8) ∉ bytes
  deriving DecidableEq

/-- `safe_copy(dst, cap, src, fallback)`; `none` stands for a null pointer. -/
def safeCopy (cap : Nat) (src : Option Bytes) (fallback : Bytes) : CharArray cap :=
  let s := match src with
    | some s => if cstr s = [] then fallback else s
    | none => fallback
  { bytes := snprintf cap (cstr s)
    fits := List.length_take_le _ _
    noNul := fun h => zero_notMem_cstr s (List.mem_of_mem_take h) }

/-- A `float`, as its IEEE 754 bits. -/
structure CFloat where
  bits : UInt32
  deriving DecidableEq

/-- Three `float`s of a vector. -/
structure Vec3 where
  x : CFloat
  y : CFloat
  z : CFloat
  deriving DecidableEq

/-- The fields of `telemetry_state_t` that exist once for each of the two motors. -/
structure MotorFields where
  id : CharArray 32
  tics : UInt32
  rpm : Int32
  temperatureC : Int32
  voltagePowerStageMv : Int32
  currentPowerStageMa : Int32
  deriving DecidableEq

/-- `telemetry_state_t`: one decoded message, with the time and the topic it was received at. -/
structure TelemetryState where
  receivedAtNs : Int64
  msgTimestampNs : UInt64
  seq : UInt32
  robotId : CharArray 64
  imuId : CharArray 32
  tiltId : CharArray 32
  accG : Vec3
  gyroDps : Vec3
  tiltDeg : Vec3
  tiltStatus : UInt32
  motor1 : MotorFields
  motor2 : MotorFields
  topic : Bytes
  raw : Option Bytes
  deriving DecidableEq

/-! ## Decoded messages -/

/-- The header of the message, as the decoder hands it over: a text is NULL where the message
has none. -/
structure PbHeader where
  robotId : Option Bytes
  timestampNs : UInt64
  seq : UInt32

/-- One motor of the message, as the decoder hands it over. -/
structure PbMotorState where
  motorId : Option Bytes
  tics : UInt32
  rpm : Int32
  temperatureC : Int32
  voltagePowerStageMv : Int32
  currentPowerStageMa : Int32

/-- What the Protobuf decoder answers; absent submessages are null pointers. -/
structure PbTelemetryState where
  header : Option PbHeader
  imuId : Option Bytes
  accG : Option Vec3
  gyroDps : Option Vec3
  tiltId : Option Bytes
  tiltDeg : Option Vec3
  tiltStatus : UInt32
  motor1 : Option PbMotorState
  motor2 : Option PbMotorState

/-- The message of an empty payload. -/
def PbTelemetryState.empty : PbTelemetryState :=
  ⟨none, none, none, none, none, none, 0, none, none⟩

/-- `TELEMETRY_TOPIC_STATE`. -/
def telemetryTopicState : Bytes := ascii "/robot/v1/telemetry/state"

/-- The vector fields before a message is read into them. -/
def Vec3.zero : Vec3 := ⟨⟨0⟩, ⟨0⟩, ⟨0⟩⟩

/-- One motor of the state: the decoded one, or the default id and zeros. -/
def motorOf (st : Option PbMotorState) (fallback : Bytes) : MotorFields :=
  match st with
  | some m =>
    { id := safeCopy 32 m.motorId fallback, tics := m.tics, rpm := m.rpm
      temperatureC := m.temperatureC, voltagePowerStageMv := m.voltagePowerStageMv
      currentPowerStageMa := m.currentPowerStageMa }
  | none =>
    { id := safeCopy 32 none fallback, tics := 0, rpm := 0, temperatureC := 0
      voltagePowerStageMv := 0, currentPowerStageMa := 0 }

/-- The state `on_message` builds of a decoded message; `raw` is its copy of the
payload, where it could allocate one. -/
def telemetryStateOf (st : PbTelemetryState) (receivedAtNs : Int64) (raw : Option Bytes) :
    TelemetryState where
  receivedAtNs
  topic := telemetryTopicState
  seq := match st.header with
    | some h => h.seq
    | none => 0
  msgTimestampNs := match st.header with
    | some h => h.timestampNs
    | none => 0
  robotId := match st.header with
    | some h => safeCopy 64 h.robotId (ascii "robot")
    | none => safeCopy 64 none (ascii "robot")
  imuId := safeCopy 32 st.imuId (ascii "imu0")
  tiltId := safeCopy 32 st.tiltId (ascii "tilt0")
  accG := st.accG.getD Vec3.zero
  gyroDps := st.gyroDps.getD Vec3.zero
  tiltDeg := st.tiltDeg.getD Vec3.zero
  tiltStatus := st.tiltStatus
  motor1 := motorOf st.motor1 (ascii "motor1")
  motor2 := motorOf st.motor2 (ascii "motor2")
  raw

end TelemetryTestbed.Telemetry
