import Mathlib.Logic.Function.Basic
import TelemetryTestbed.Lib.Csv
import TelemetryTestbed.Lib.Decimal

/-!
# The experiment runner

`run_repeated_experiment.sh` on a table of files: which runs it makes in which order,
the names it gives them, the files it removes and fills, and the row of its manifest.
What the programs it starts answer and write is taken from the environment.

The table of files maps a name to its bytes, and the programs that a run starts are what they
leave there: the answers of the environment have the contents of the log and of the three
files of the database, and the exit code. `rm -f` and the redirections are updates of the
table.
-/

namespace TelemetryTestbed.Experiments

open Lib

/-- The settings, as `main` finds them. The lists are those `read -r -a` makes. -/
structure Settings where
  outRoot : Bytes
  reps : Nat
  dur : Bytes
  runLong : Bool
  longDur : Bytes
  rates : List Bytes
  batches : List Bytes
  longRates : List Bytes
  longBatches : List Bytes
  sensorRate : Bytes
  mqttHost : Bytes
  mqttPort : Bytes
  wsPort : Bytes
  usePrivateBroker : Bool
  cleanOutput : Bool

/-- The arguments of `run_one`, as the words of the script they are. -/
structure Call where
  kind : Bytes
  rep : Bytes
  rate : Bytes
  batch : Bytes
  duration : Bytes
  deriving DecidableEq

/-! ## Names -/

/-- `${kind}_rep${rep}_r${rate}_b${batch}` -/
def Call.runId (c : Call) : Bytes :=
  c.kind ++ ascii "_rep" ++ c.rep ++ ascii "_r" ++ c.rate ++ ascii "_b" ++ c.batch

namespace Settings

variable (s : Settings)

def logDir : Bytes := s.outRoot ++ ascii "/logs"

def dbDir : Bytes := s.outRoot ++ ascii "/db"

def manifest : Bytes := s.outRoot ++ ascii "/run_manifest.csv"

def brokerLog : Bytes := s.logDir ++ ascii "/mosquitto_" ++ s.mqttPort ++ ascii ".log"

def db (c : Call) : Bytes := s.dbDir ++ ascii "/" ++ c.runId ++ ascii ".db"

def gwLog (c : Call) : Bytes := s.logDir ++ ascii "/gw_" ++ c.runId ++ ascii ".log"

def simLog (c : Call) : Bytes := s.logDir ++ ascii "/sim_" ++ c.runId ++ ascii ".log"

/-- The calls of `run_one` in `main`. -/
def calls : List Call :=
  ((List.range s.reps).flatMap fun i => s.batches.flatMap fun batch => s.rates.map fun rate =>
    ⟨ascii "short", decimalNat (i + 1), rate, batch, s.dur⟩) ++
  if s.runLong then
    s.longBatches.flatMap fun batch => s.longRates.map fun rate =>
      ⟨ascii "long", ascii "1", rate, batch, s.longDur⟩
  else []

end Settings

/-! ## Files -/

/-- The contents of the files there are. -/
abbrev Files := Bytes → Option Bytes

/-- `rm -f` -/
def Files.rm (files : Files) (paths : List Bytes) : Files :=
  paths.foldl (fun files path => Function.update files path none) files

/-- What is appended creates the file where there is none. -/
def Files.append (files : Files) (path text : Bytes) : Files :=
  Function.update files path (some ((files path).getD [] ++ text))

/-- `csv_escape` -/
def csvEscape (s : Bytes) : Bytes :=
  34 :: (s.flatMap fun b => if b = 34 then [34, 34] else [b]) ++ [34]

/-- What happens in a run that the script does not decide: the clock, the simulator, and what
the programs write to their files. -/
structure Answers where
  /-- `date +%s` -/
  startEpoch : Nat
  endEpoch : Nat
  /-- The gateway is there after a second. -/
  gatewayUp : Bool
  /-- `sim_rc` -/
  simRc : Nat
  /-- What the programs write. -/
  gwLog : Bytes
  simLog : Bytes
  db : Option Bytes
  wal : Option Bytes
  shm : Option Bytes

def Answers.exitCode (a : Answers) : Nat :=
  if a.gatewayUp then if a.simRc = 0 ∨ a.simRc = 124 ∨ a.simRc = 143 then 0 else a.simRc
  else 20

namespace Settings

variable (s : Settings)

/-- The row of a run. -/
def manifestRow (c : Call) (a : Answers) : Bytes :=
  c.runId ++ ascii "," ++ c.kind ++ ascii "," ++ c.rep ++ ascii "," ++ c.rate ++ ascii "," ++
    c.batch ++ ascii "," ++ c.duration ++ ascii "," ++ s.sensorRate ++ ascii "," ++
    s.mqttHost ++ ascii "," ++ s.mqttPort ++ ascii "," ++ s.wsPort ++ ascii "," ++
    csvEscape (s.db c) ++ ascii "," ++ csvEscape (s.gwLog c) ++ ascii "," ++
    csvEscape (s.simLog c) ++ ascii "," ++ decimalNat a.startEpoch ++ ascii "," ++
    decimalNat a.endEpoch ++ ascii "," ++ decimalNat a.exitCode ++ [10]

def runOne (files : Files) (c : Call) (a : Answers) : Files :=
  let db := s.db c
  let files := files.rm
    [db, db ++ ascii "-wal", db ++ ascii "-shm", s.gwLog c, s.simLog c]
  let files := Function.update files (s.gwLog c) (some a.gwLog)
  let files := Function.update files db a.db
  let files := Function.update files (db ++ ascii "-wal") a.wal
  let files := Function.update files (db ++ ascii "-shm") a.shm
  let files := if a.gatewayUp then Function.update files (s.simLog c) (some a.simLog) else files
  Files.append files s.manifest (s.manifestRow c a)

def manifestHeader : Bytes :=
  ascii "run_id,kind,rep,rate_hz,batch,duration_s,sensor_rate_hz,mqtt_host,mqtt_port,ws_port," ++
    ascii "db_path,gw_log,sim_log,start_epoch,end_epoch,exit_code" ++ [10]

def initOutput (files : Files) : Files :=
  let files := if s.cleanOutput then
      fun path => if (s.outRoot ++ ascii "/").isPrefixOf path then none else files path
    else files
  if files s.manifest = none then Function.update files s.manifest (some manifestHeader)
  else files

def startBroker (files : Files) (log : Bytes) : Files :=
  if s.usePrivateBroker then Function.update files s.brokerLog (some log) else files

/-- `main` up to the run for which there is no answer any more: there the script has been
stopped, or is through. -/
def main (files : Files) (broker : Bytes) (answers : List Answers) : Files :=
  (s.calls.zip answers).foldl (fun files run => s.runOne files run.1 run.2)
    (s.startBroker (s.initOutput files) broker)

end Settings

end TelemetryTestbed.Experiments
