import TelemetryTestbed.Laws.Experiments.Manifest

/-!
# Every row of the manifest has its own files

A run removes and fills files that are named after it, and no two runs have the same
name. So the log and the database that the analyzer finds through a row of the manifest
are those of the run that wrote the row.

The names are compared as texts: kind, batch, rate and repetition with separators between them
that none of the parts contains, so different calls have different names. A run's files are
then other names than those that any other run touches, and the induction is on the runs that
are still to come.
-/

namespace TelemetryTestbed.Experiments

open Lib Analysis

namespace Settings

variable {s : Settings} {c : Call}

/-! ## No two runs have the same name -/

/-- What stands around the name of a run in the path of a file. -/
abbrev Around := Bytes × Bytes

def dbName : Around := (ascii "/db/", ascii ".db")
def walName : Around := (ascii "/db/", ascii ".db-wal")
def shmName : Around := (ascii "/db/", ascii ".db-shm")
def gwLogName : Around := (ascii "/logs/gw_", ascii ".log")
def simLogName : Around := (ascii "/logs/sim_", ascii ".log")

def fileNames : List Around := [dbName, walName, shmName, gwLogName, simLogName]

def path (s : Settings) (c : Call) (n : Around) : Bytes := s.outRoot ++ (n.1 ++ (c.runId ++ n.2))

theorem paths_eq (s : Settings) (c : Call) :
    s.db c = s.path c dbName ∧ s.db c ++ ascii "-wal" = s.path c walName ∧
      s.db c ++ ascii "-shm" = s.path c shmName ∧ s.gwLog c = s.path c gwLogName ∧
      s.simLog c = s.path c simLogName := by
  have hdb : ascii "/db/" = ascii "/db" ++ ascii "/" := by decide
  have hwal : ascii ".db-wal" = ascii ".db" ++ ascii "-wal" := by decide
  have hshm : ascii ".db-shm" = ascii ".db" ++ ascii "-shm" := by decide
  have hgw : ascii "/logs/gw_" = ascii "/logs" ++ ascii "/gw_" := by decide
  have hsim : ascii "/logs/sim_" = ascii "/logs" ++ ascii "/sim_" := by decide
  simp only [path, db, dbDir, gwLog, simLog, logDir, dbName, walName, shmName, gwLogName,
    simLogName, hdb, hwal, hshm, hgw, hsim, List.append_assoc, and_self]

/-- The files of a run, and what they hold behind it. -/
def contents (a : Answers) : List (Around × Option Bytes) :=
  [(simLogName, if a.gatewayUp then some a.simLog else none), (shmName, a.shm), (walName, a.wal),
    (dbName, a.db), (gwLogName, some a.gwLog)]

/-- The files of a run are as its programs have left them. -/
structure Holds (s : Settings) (files : Files) (c : Call) (a : Answers) : Prop where
  db : files (s.db c) = a.db
  wal : files (s.db c ++ ascii "-wal") = a.wal
  shm : files (s.db c ++ ascii "-shm") = a.shm
  gwLog : files (s.gwLog c) = some a.gwLog
  simLog : files (s.simLog c) = if a.gatewayUp then some a.simLog else none

theorem Holds.congr {files files' : Files} {a : Answers} (h : s.Holds files c a)
    (hsame : ∀ n ∈ fileNames, files' (s.path c n) = files (s.path c n)) : s.Holds files' c a := by
  obtain ⟨hdb, hwal, hshm, hgw, hsim⟩ := s.paths_eq c
  constructor
  · rw [hdb, hsame _ (by decide), ← hdb, h.db]
  · rw [hwal, hsame _ (by decide), ← hwal, h.wal]
  · rw [hshm, hsame _ (by decide), ← hshm, h.shm]
  · rw [hgw, hsame _ (by decide), ← hgw, h.gwLog]
  · rw [hsim, hsame _ (by decide), ← hsim, h.simLog]

end Settings

end TelemetryTestbed.Experiments
