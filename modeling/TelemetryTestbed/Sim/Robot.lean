import TelemetryTestbed.Mqtt.Client

/-!
# The simulator from start to stop

`main` of `robot_main.c` with the five threads it starts. A thread works on the block of
arguments it was given, on an MQTT client of its own and on the cache, which is a variable
of `main`. The steps of `main` and of the threads interleave, and a signal may come at any
time; which calls fail is said by the actions.

An iteration is the list of what it does to its resources, one step each (`ops`); what it
computes does not matter here. A thread looks at `running` between two iterations, and a
connection that fails ends it before its first one.
-/

namespace TelemetryTestbed.Sim

open TelemetryTestbed.Lib TelemetryTestbed.Mqtt

/-- The five threads that `main` starts. -/
inductive Worker
  | imu
  | tilt
  | motor1
  | motor2
  /-- `telemetry_pub_thread` -/
  | state
  deriving DecidableEq

/-- In the order they are started and joined. -/
def workers : List Worker := [.imu, .tilt, .motor1, .motor2, .state]

/-- What the process takes: the MQTT library, the memory of the threads, their clients and
network loops, and the packed message. -/
inductive SimResource
  /-- `mosquitto_lib_init` -/
  | library
  /-- The variables of `main` that the threads have pointers to. -/
  | cache
  | args (w : Worker)
  | thread (w : Worker)
  | mosq (w : Worker)
  | loop (w : Worker)
  /-- The packed message. -/
  | buf
  deriving DecidableEq

/-- What must be there as long as a resource is. -/
def SimResource.uses : SimResource → List SimResource
  | .library | .cache | .args _ | .buf => []
  | .thread _ => [.library, .cache]
  | .mosq w => [.library, .thread w]
  | .loop w => [.mosq w]

abbrev SimEvents := List (Event SimResource)

/-! ## The threads -/

/-- What a thread does in an iteration besides arithmetic. -/
inductive Op
  | cache
  | publish
  /-- The message is packed into a buffer and published. -/
  | pack
  deriving DecidableEq

/-- The body of the loop. -/
def Worker.ops : Worker → List Op
  | .imu => [.publish, .cache, .publish]
  | .tilt => [.cache, .publish]
  | .motor1 | .motor2 => [.cache, .publish, .publish, .publish, .publish, .publish]
  | .state => [.cache, .pack]

/-- `allocated` is the answer of the `malloc` for the packed message. -/
def Op.events (w : Worker) (allocated : Bool) : Op → SimEvents
  | .cache => [.touch .cache]
  | .publish => [.touch (.mosq w)]
  | .pack => if allocated then [.acquire .buf, .touch (.mosq w), .release .buf] else []

/-- Where a thread is, from before its start to behind its return. -/
inductive WorkerPc
  /-- not started -/
  | absent
  | created
  /-- `while(*(a->rt.running))` -/
  | head
  | body (ops : List Op)
  /-- behind the loop -/
  | leaving
  | finished

/-! ## `main` -/

/-- Where `main` is: it starts the threads in one order, then joins those in its list. -/
inductive MainPc
  | init
  /-- These are started, and those are to be. -/
  | start (started next : List Worker)
  /-- These are to be joined, before `main` returns `rc`. -/
  | join (rest : List Worker) (rc : Nat)
  | returned (rc : Nat)

/-- The whole process: `main`, the flag that the signal clears, the threads, and the trace of
what was done to each resource. -/
structure Robot where
  main : MainPc
  /-- `g_running` -/
  running : Bool
  pc : Worker → WorkerPc
  /-- Everything that was done to a resource. -/
  trace : SimEvents

def Robot.init : Robot := ⟨.init, true, fun _ => .absent, []⟩

/-- A start that fails: the ones that run already are told to stop. -/
def Robot.fail (s : Robot) (started : List Worker) (es : SimEvents) : Robot :=
  { s with
    main := .join started 1
    running := if started = [] then s.running else false
    trace := s.trace ++ es }

/-- `main`, the signal or a thread takes a step, with the answers to what it calls. -/
inductive RobotAction
  /-- `mosquitto_lib_init` and `telemetry_cache_init` -/
  | mainInit
  /-- The next of the `..._start` functions. -/
  | mainStart (calloc create : Bool)
  | mainStarted
  | mainJoin
  | mainReturn
  /-- `on_sigint` -/
  | signal
  | connect (w : Worker) (a : ConnectAnswers)
  | head (w : Worker)
  | op (w : Worker) (allocated : Bool)
  | leave (w : Worker)

namespace Robot

def step (s : Robot) : RobotAction → Option Robot
  | .mainInit =>
    match s.main with
    | .init => some { s with
        main := .start [] workers
        trace := s.trace ++ [.acquire .library, .acquire .cache] }
    | _ => none
  | .mainStart calloc create =>
    match s.main with
    | .start started (w :: next) =>
      if !calloc then some (s.fail started [])
      else if !create then some (s.fail started [.acquire (.args w), .release (.args w)])
      else some { s with
        main := .start (started ++ [w]) next
        pc := Function.update s.pc w .created
        trace := s.trace ++ [.acquire (.args w), .acquire (.thread w)] }
    | _ => none
  | .mainStarted =>
    match s.main with
    | .start started [] => some { s with main := .join started 0 }
    | _ => none
  | .mainJoin =>
    match s.main with
    | .join (w :: rest) rc =>
      match s.pc w with
      | .finished => some { s with
          main := .join rest rc
          trace := s.trace ++ [.release (.thread w)] }
      | _ => none
    | _ => none
  | .mainReturn =>
    match s.main with
    | .join [] rc => some { s with
        main := .returned rc
        trace := s.trace ++ [.release .library, .release .cache] }
    | _ => none
  | .signal => some { s with running := false }
  | .connect w a =>
    match s.pc w with
    | .created =>
      let (rc, _, es) := mqttClientConnect (.mosq w) (.loop w) a
      if rc ≠ 0 then some { s with
        pc := Function.update s.pc w .finished
        trace := s.trace ++ (es ++ [.release (.args w)]) }
      else some { s with pc := Function.update s.pc w .head, trace := s.trace ++ es }
    | _ => none
  | .head w =>
    match s.pc w with
    | .head => some { s with
        pc := Function.update s.pc w (if s.running then .body w.ops else .leaving)
        trace := s.trace ++ [.touch (.args w)] }
    | _ => none
  | .op w allocated =>
    match s.pc w with
    | .body (op :: ops) => some { s with
        pc := Function.update s.pc w (.body ops)
        trace := s.trace ++ op.events w allocated }
    | .body [] => some { s with pc := Function.update s.pc w .head }
    | _ => none
  | .leave w =>
    match s.pc w with
    | .leaving => some { s with
        pc := Function.update s.pc w .finished
        trace := s.trace ++
          (mqttClientClose (.mosq w) (.loop w) true ++ [.release (.args w)]) }
    | _ => none

end Robot

end TelemetryTestbed.Sim
