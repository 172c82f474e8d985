import TelemetryTestbed.Lib.Run
import Mathlib.Data.List.DropRight

/-!
# The viewer and its gateway

The buffer of `app.js` with the two handlers that fill it, and the gateway as the
browser sees it: the writer thread broadcasts every sample behind its commit, the client
thread queries the newest samples and sends them later. Both write to one connection.
A sample is its number in the order of reception.

It has the handlers with the samples alone, in the order of reception, so that live frames and
replies can be compared; what the page shows of a sample, its buttons and its sockets are in
`Page`. A connection that ends takes the messages on the wire with it.
-/

namespace TelemetryTestbed.Ui

open TelemetryTestbed.Lib

/-! ## `app.js` -/

/-- What `app.js` keeps of the samples, each of them by its number: `state`, and what
`renderLatest` has shown since the last `clearAll`. -/
structure App where
  paused : Bool
  samples : List Nat
  shown : List Nat

def maxSamples : Nat := 500

def App.pushSample (app : App) (s : Nat) : App :=
  let samples := app.samples ++ [s]
  { app with
    samples :=
      if maxSamples < samples.length then samples.drop (samples.length - maxSamples) else samples }

def App.renderLatest (app : App) (s : Nat) : App := { app with shown := app.shown ++ [s] }

def App.handleTelemetry (app : App) (msg : Nat) : App :=
  if app.paused then app else (app.pushSample msg).renderLatest msg

/-- Every item of a reply is a sample. -/
def App.handleHistory (app : App) (items : List Nat) : App :=
  let app := items.foldl App.pushSample app
  match app.samples.getLast? with
  | none => app
  | some s => if app.paused then app else app.renderLatest s

def App.clearAll (app : App) : App := { app with samples := [], shown := [] }

def App.togglePause (app : App) : App := { app with paused := !app.paused }

/-- The `last` of a request, from the number typed in. -/
def requestedLast (value : Option Nat) : Nat := max 1 (min 5000 (value.getD 300))

/-! ## The connection -/

/-- A message of the gateway to the browser. A sample is its place in the database. -/
inductive Message
  | telemetry (s : Nat)
  | history (items : List Nat)
  | error

/-- An open or opening connection, as both ends have it. -/
structure Link where
  /-- `readyState` is `OPEN`. -/
  opened : Bool
  /-- Requests on their way, each with its `last`. -/
  asked : List Nat
  /-- The answer of a query that is not sent yet. -/
  answer : Option (List Nat)
  /-- What was sent to the browser and not handled there. -/
  wire : List Message

def Link.connecting : Link := ⟨false, [], none, []⟩

/-- The rows a query gives: at most 5000, the newest ones, oldest first. -/
def queryHistory (committed limit : Nat) : List Nat :=
  (List.range committed).rtake (if limit = 0 then 300 else min 5000 limit)

/-- The gateway and one browser: how far the writer is, the connection if there is one, and the
page. -/
structure Viewer where
  /-- The samples in the database. -/
  committed : Nat
  /-- The samples that were broadcast. -/
  announced : Nat
  link : Option Link
  app : App

def Viewer.init : Viewer := ⟨0, 0, none, ⟨false, [], []⟩⟩

/-- The writer, the client thread, the browser or its user takes a step. -/
inductive Action
  /-- The writer thread commits a batch. -/
  | commit (n : Nat)
  /-- The writer thread broadcasts the next committed sample. -/
  | broadcast
  /-- The client thread takes a request in and queries the database. -/
  | query
  /-- The query failed. -/
  | queryFailed
  /-- The client thread sends the answer. -/
  | reply
  /-- The browser handles the next message. -/
  | handle
  /-- The user connects, which closes the old connection. -/
  | connect
  /-- `ws.onopen` -/
  | onopen (value : Option Nat)
  /-- Either side closes the connection. -/
  | disconnect
  /-- The user asks for the history. -/
  | requestHistory (value : Option Nat)
  | clearAll
  | togglePause

def App.handle (app : App) : Message → App
  | .telemetry s => app.handleTelemetry s
  | .history items => app.handleHistory items
  | .error => app

def Viewer.step (v : Viewer) : Action → Option Viewer
  | .commit n => some { v with committed := v.committed + n }
  | .broadcast =>
    if v.announced < v.committed then
      some { v with
        announced := v.announced + 1
        link := v.link.map fun l => { l with wire := l.wire ++ [.telemetry v.announced] } }
    else none
  | .query => do
    let l ← v.link
    match l.asked, l.answer with
    | last :: asked, none =>
      some { v with link := some { l with
        asked := asked
        answer := some (queryHistory v.committed last) } }
    | _, _ => none
  | .queryFailed => do
    let l ← v.link
    match l.asked, l.answer with
    | _ :: asked, none =>
      some { v with link := some { l with asked := asked, wire := l.wire ++ [.error] } }
    | _, _ => none
  | .reply => do
    let l ← v.link
    let items ← l.answer
    some { v with link := some { l with answer := none, wire := l.wire ++ [.history items] } }
  | .handle => do
    let l ← v.link
    match l.opened, l.wire with
    | true, msg :: wire =>
      some { v with link := some { l with wire := wire }, app := v.app.handle msg }
    | _, _ => none
  | .connect => some { v with link := some .connecting }
  | .onopen value => do
    let l ← v.link
    if l.opened then none
    else some { v with link := some { l with
      opened := true
      asked := l.asked ++ [requestedLast value] } }
  | .disconnect => some { v with link := none }
  | .requestHistory value =>
    some { v with link := v.link.map fun l =>
      if l.opened then { l with asked := l.asked ++ [requestedLast value] } else l }
  | .clearAll => some { v with app := v.app.clearAll }
  | .togglePause => some { v with app := v.app.togglePause }

end TelemetryTestbed.Ui
