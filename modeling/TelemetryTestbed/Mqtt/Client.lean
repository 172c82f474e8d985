import TelemetryTestbed.Lib.Resources

/-!
# The MQTT client

`mqtt_client_connect` and `mqtt_client_close`, with what each does to the client and
to its network thread. The flag stands for the field `mosq`, which is NULL where
there is no client.

Whether the library answers, and with what, is part of the arguments. The events are those of
the resources that the two functions take and give back, so that the process can be checked as
a whole.
-/

namespace TelemetryTestbed.Mqtt

open TelemetryTestbed.Lib

/-- What libmosquitto answers to the calls of `mqtt_client_connect`. -/
structure ConnectAnswers where
  new : Bool
  connect : Bool
  loopStart : Bool

variable {ρ : Type*}

/-- The result, `c->mosq`, and the events; `mosq` and `loop` name the client and its
network thread. -/
def mqttClientConnect (mosq loop : ρ) (a : ConnectAnswers) : Int × Bool × List (Event ρ) :=
  if !a.new then (-1, false, [])
  else if !a.connect then (-2, false, [.acquire mosq, .release mosq])
  else if !a.loopStart then (-3, false, [.acquire mosq, .touch mosq, .release mosq])
  else (0, true, [.acquire mosq, .acquire loop])

def mqttClientClose (mosq loop : ρ) (c : Bool) : List (Event ρ) :=
  if !c then [] else [.release loop, .touch mosq, .release mosq]

end TelemetryTestbed.Mqtt
