import Mathlib.Data.Rat.Defs
import TelemetryTestbed.Lib.Json
import TelemetryTestbed.Lib.Run

/-!
# The page

`app.js` with its connections: what the user does and what the browser reports of a
socket are the events, and a page runs the handler of each. A socket that is closing gives
no more messages and does not open any more; its close event comes later, also when the
page has another socket by then. What the table and the labels show are the samples they
are made of.

What an element of the document shows is part of the state only where a handler reads it or
the laws speak of it. The drawing of the sparklines and the formatting of numbers are left
out: a sparkline is the values it is drawn from.
-/

namespace TelemetryTestbed.Ui

open TelemetryTestbed.Lib

/-! ## Values of a message -/

/-- `v.k`, where the last member of a name counts; `none` is `undefined`. -/
def property (v : Option Json) (k : String) : Option Json :=
  v.bind fun v => (v.entries.reverse.find? fun m => m.1 = ascii k).map Prod.snd

/-- `v.type === name` -/
def hasType (v : Json) (name : String) : Bool :=
  match property (some v) "type" with
  | some (.str s) => s = ascii name
  | _ => false

/-- What the page needs of the numbers of JavaScript. The conversions are total here: a
message in which a field is an object with a `toString` that is no function makes `Number`
throw in the browser, and the gateway sends none. -/
structure Numbers (ν : Type) where
  /-- `Number(v)` -/
  number : Option Json → ν
  isFinite : ν → Bool
  nan : ν
  /-- `Math.sqrt(x*x + y*y + z*z)` -/
  magnitude : ν → ν → ν → ν

/-! ## The state -/

/-- `readyState` of a socket. -/
inductive ReadyState
  | connecting
  | opened
  | closing
  | closed
  deriving DecidableEq

/-- The texts of `setConnStatus`: `desconectado`, `conectando...`, `conectado`, and `falha ao
criar WebSocket`. The text `erro` is replaced at once by that of the close event. -/
inductive ConnStatus
  | disconnected
  | connecting
  | connected
  | failed
  | error
  deriving DecidableEq

/-- Which of the buttons are disabled. -/
structure Disabled where
  connect : Bool
  disconnect : Bool
  pause : Bool
  history : Bool
  deriving DecidableEq

/-- The points of the five sparklines, the oldest first. -/
structure Sparks (ν : Type) where
  accelMag : List ν
  gyroMag : List ν
  tiltX : List ν
  m1Rpm : List ν
  m2Rpm : List ν

def Sparks.empty {ν : Type} : Sparks ν := ⟨[], [], [], [], []⟩

/-- The page with its sockets: `state`, the buttons, and what the elements show. -/
structure Page (ν : Type) where
  /-- Every socket that was made, in order. -/
  sockets : List ReadyState
  /-- `state.ws` -/
  ws : Option Nat
  paused : Bool
  samples : List Json
  sparks : Sparks ν
  status : ConnStatus
  disabled : Disabled
  /-- The sample in the fields; `none` where they are dashes. -/
  latest : Option Json
  /-- The samples in the rows of the table. -/
  tbody : List Json
  /-- The requests that were sent, each with its socket and its `last`. -/
  requests : List (Nat × ℚ)

def maxSpark : Nat := 240

/-- `take` of `renderTable`. -/
def tableRows : Nat := 40

/-- The page as it is loaded. -/
def Page.init {ν : Type} : Page ν where
  sockets := []
  ws := none
  paused := false
  samples := []
  sparks := .empty
  status := .disconnected
  disabled := ⟨false, true, true, true⟩
  latest := none
  tbody := []
  requests := []

/-- `arr.push(v)`, and what is too much at the front is spliced out. -/
def pushCapped {α : Type} (max : Nat) (arr : List α) (v : α) : List α :=
  let arr := arr ++ [v]
  if max < arr.length then arr.drop (arr.length - max) else arr

namespace Page

variable {ν : Type}

/-! ## Samples -/

section Samples

variable (N : Numbers ν)

/-- The values `renderLatest` appends to the sparklines. -/
def accMag (s : Json) : ν :=
  let acc := property (some s) "accel"
  let ax := N.number (property acc "x")
  let ay := N.number (property acc "y")
  let az := N.number (property acc "z")
  if N.isFinite ax && N.isFinite ay && N.isFinite az then N.magnitude ax ay az else N.nan

def gyrMag (s : Json) : ν :=
  let gyr := property (some s) "gyro"
  let gx := N.number (property gyr "x")
  let gy := N.number (property gyr "y")
  let gz := N.number (property gyr "z")
  if N.isFinite gx && N.isFinite gy && N.isFinite gz then N.magnitude gx gy gz else N.nan

def tx (s : Json) : ν := N.number (property (property (some s) "tilt") "x")

/-- `rpm` of `motor1` or `motor2`. -/
def motorRpm (motor : String) (s : Json) : ν :=
  let rpm := N.number (property (property (property (some s) "motors") motor) "rpm")
  if N.isFinite rpm then rpm else N.nan

def renderLatest (p : Page ν) (s : Json) : Page ν :=
  { p with
    latest := some s
    sparks := {
      accelMag := pushCapped maxSpark p.sparks.accelMag (accMag N s)
      gyroMag := pushCapped maxSpark p.sparks.gyroMag (gyrMag N s)
      tiltX := pushCapped maxSpark p.sparks.tiltX (tx N s)
      m1Rpm := pushCapped maxSpark p.sparks.m1Rpm (motorRpm N "motor1" s)
      m2Rpm := pushCapped maxSpark p.sparks.m2Rpm (motorRpm N "motor2" s) } }

/-- `state.maxSamples` is 500. -/
def pushSample (p : Page ν) (s : Json) : Page ν :=
  { p with samples := pushCapped 500 p.samples s }

def renderTable (p : Page ν) : Page ν :=
  { p with tbody := p.samples.drop (p.samples.length - tableRows) }

def handleTelemetry (p : Page ν) (msg : Json) : Page ν :=
  if p.paused then p else ((p.pushSample msg).renderLatest N msg).renderTable

def handleHistory (p : Page ν) (msg : Json) : Page ν :=
  match property (some msg) "items" with
  | some (.arr items) =>
    let p := items.foldl (fun p item =>
      if hasType item "telemetry" then p.pushSample item else p) p
    let p := match p.samples.getLast? with
      | none => p
      | some s => if p.paused then p else p.renderLatest N s
    p.renderTable
  | _ => p

/-- `ws.onmessage`; `none` is data that is no string. -/
def onmessage (p : Page ν) (data : Option Bytes) : Page ν :=
  match Json.parse (data.getD []) with
  | none => p
  | some msg =>
    if hasType msg "status" then
      match property (some msg) "status" with
      | some (.str s) => if s = ascii "online" then { p with status := .connected } else p
      | _ => p
    else if hasType msg "telemetry" then p.handleTelemetry N msg
    else if hasType msg "history" then p.handleHistory N msg
    else p

end Samples

/-! ## The connection -/

/-- `disconnect`; `close()` does nothing to a socket that is closed. -/
def disconnect (p : Page ν) : Page ν :=
  match p.ws with
  | none => p
  | some i =>
    { p with
      sockets := p.sockets.modify i fun state => if state = .closed then .closed else .closing
      ws := none }

/-- `connect`; `constructed` is false where `new WebSocket` throws. -/
def connect (p : Page ν) (constructed : Bool) : Page ν :=
  let p := { p.disconnect with status := .connecting }
  if constructed then
    { p with sockets := p.sockets ++ [.connecting], ws := some p.sockets.length }
  else { p with status := .failed }

/-- The `n` of a request; `none` is an empty input. -/
def requestLast (value : Option ℚ) : ℚ := max 1 (min 5000 (value.getD 300))

def requestHistory (p : Page ν) (value : Option ℚ) : Page ν :=
  match p.ws with
  | none => p
  | some i =>
    if p.sockets[i]? = some .opened then
      { p with requests := p.requests ++ [(i, requestLast value)] }
    else p

/-- `ws.onopen` -/
def onopen (p : Page ν) (value : Option ℚ) : Page ν :=
  let p := { p with status := .connected, disabled := ⟨true, false, false, false⟩ }
  p.requestHistory value

/-- `ws.onclose`, behind `ws.onerror` if the connection failed. -/
def onclose (p : Page ν) (failed : Bool) : Page ν :=
  let p := if failed then { p with status := .error } else p
  { p with status := .disconnected, disabled := ⟨false, true, true, true⟩ }

def clearAll (p : Page ν) : Page ν :=
  { p with samples := [], sparks := .empty, tbody := [], latest := none }

def togglePause (p : Page ν) : Page ν := { p with paused := !p.paused }

/-- What the user does, with what stands in the input of the history, and what the browser
reports of a socket. -/
inductive Event
  | connect (constructed : Bool)
  | disconnect
  | requestHistory (value : Option ℚ)
  | clearAll
  | togglePause
  | onopen (i : Nat) (value : Option ℚ)
  | onmessage (i : Nat) (data : Option Bytes)
  /-- The other side begins to close. -/
  | closing (i : Nat)
  | onclose (i : Nat) (failed : Bool)

/-- A button that is disabled gives no click. -/
def step (N : Numbers ν) (p : Page ν) : Event → Option (Page ν)
  | .connect constructed => if p.disabled.connect then none else some (p.connect constructed)
  | .disconnect => if p.disabled.disconnect then none else some p.disconnect
  | .requestHistory value =>
    if p.disabled.history then none else some (p.requestHistory value)
  | .clearAll => some p.clearAll
  | .togglePause => if p.disabled.pause then none else some p.togglePause
  | .onopen i value =>
    if p.sockets[i]? = some .connecting then
      some ({ p with sockets := p.sockets.set i .opened }.onopen value)
    else none
  | .onmessage i data =>
    if p.sockets[i]? = some .opened then some (p.onmessage N data) else none
  | .closing i =>
    if p.sockets[i]? = some .opened then some { p with sockets := p.sockets.set i .closing }
    else none
  | .onclose i failed =>
    match p.sockets[i]? with
    | none | some .closed => none
    | some _ => some ({ p with sockets := p.sockets.set i .closed }.onclose failed)

end Page

end TelemetryTestbed.Ui
