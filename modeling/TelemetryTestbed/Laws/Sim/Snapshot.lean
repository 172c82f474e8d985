import Mathlib.Data.List.Induction
import TelemetryTestbed.Sim.Publisher

/-!
# Snapshots of the cache

Under the mutex every call is atomic, so the cache is what the calls that have
returned make of it (`cacheAfter`), and what the publisher reads is what they made
of it at that moment (`Faithful`). From there the values go through the message to
the state of the gateway without a change (`snapshot_fidelity`).

The invariant has the library's representation of the cache by the calls that have returned,
and for each message the prefix of those calls that it was read from; that prefixes grow from
message to message is all that is needed for pairs of them. Packing is not modelled: the law
asks that what is unpacked of the messages of the run is the messages.
-/

namespace TelemetryTestbed.Sim

open TelemetryTestbed.Lib TelemetryTestbed.Telemetry

/-! ## What a call does -/

/-- The effect of a call on the cache. -/
def CacheCall.effect (call : CacheCall) (c : TelemetryCache) : TelemetryCache :=
  if call.ignored then c else (call.code.atomic c).1

/-- The cache after calls, one after another. -/
def cacheAfter (calls : List CacheCall) : TelemetryCache :=
  calls.foldl (fun c call => call.effect c) telemetryCacheInit

theorem cacheAfter_concat (calls : List CacheCall) (call : CacheCall) :
    cacheAfter (calls ++ [call]) = call.effect (cacheAfter calls) := by
  rw [cacheAfter, List.foldl_append]
  rfl

theorem update_three {α : Type} (f : Fin 3 → α) (x y z : α) :
    Function.update (Function.update (Function.update f 0 x) 1 y) 2 z = ![x, y, z] := by
  funext i
  match i with
  | 0 => rfl
  | 1 => rfl
  | 2 => rfl

theorem effect_setImu (ax ay az gx gy gz : CFloat) (c : TelemetryCache) :
    (CacheCall.setImu ax ay az gx gy gz).effect c =
      { c with accG := ![ax, ay, az], gyroDps := ![gx, gy, gz], seq := c.seq + 1 } := by
  simp only [CacheCall.effect, CacheCall.ignored, Bool.false_eq_true, if_false,
    CriticalSection.atomic, CacheCall.code, telemetryCacheSetImu, runStatements,
    List.foldl_cons, List.foldl_nil, write, update_three]

theorem effect_setTilt (tx ty tz : CFloat) (status : UInt32) (c : TelemetryCache) :
    (CacheCall.setTilt tx ty tz status).effect c =
      { c with tiltDeg := ![tx, ty, tz], tiltStatus := status, seq := c.seq + 1 } := by
  simp only [CacheCall.effect, CacheCall.ignored, Bool.false_eq_true, if_false,
    CriticalSection.atomic, CacheCall.code, telemetryCacheSetTilt, runStatements,
    List.foldl_cons, List.foldl_nil, write, update_three]

/-- For index 1 or 2, the entry that is set. -/
def motorIdx (motorIndex : Int32) : Fin 2 := Fin.ofNat 2 (motorIndex - 1).toInt.toNat

theorem effect_setMotor {motorIndex : Int32} (h : motorIndex = 1 ∨ motorIndex = 2) (tics : UInt32)
    (rpm temperatureC voltage current : Int32) (c : TelemetryCache) :
    (CacheCall.setMotor motorIndex tics rpm temperatureC voltage current).effect c =
      { c with
        motorTics := Function.update c.motorTics (motorIdx motorIndex) tics
        motorRpm := Function.update c.motorRpm (motorIdx motorIndex) rpm
        motorTempC := Function.update c.motorTempC (motorIdx motorIndex) temperatureC
        motorVoltageMv := Function.update c.motorVoltageMv (motorIdx motorIndex) voltage
        motorCurrentMa := Function.update c.motorCurrentMa (motorIdx motorIndex) current
        seq := c.seq + 1 } := by
  have hset : (CacheCall.setMotor motorIndex tics rpm temperatureC voltage current).ignored =
      false := by
    rcases h with rfl | rfl <;> rfl
  simp only [CacheCall.effect, hset, Bool.false_eq_true, if_false, CriticalSection.atomic,
    CacheCall.code, telemetryCacheSetMotor, runStatements, List.foldl_cons, List.foldl_nil, write,
    motorIdx]

theorem effect_ignored {call : CacheCall} (h : call.ignored = true) (c : TelemetryCache) :
    call.effect c = c := if_pos h

/-- Reading changes nothing and reads everything. -/
theorem atomic_get (c : TelemetryCache) : CacheCall.get.code.atomic c = (c, c) := by
  simp only [CriticalSection.atomic, CacheCall.code, telemetryCacheGet, runStatements,
    List.foldl_cons, List.foldl_nil, read]

/-! ## The latest values -/

/-- Where a call sets the values of motor 1 or 2. -/
def CacheCall.motor? (motorIndex : Int32) : CacheCall → Option (UInt32 × Int32 × Int32 × Int32 × Int32)
  | .setMotor k tics rpm temperatureC voltage current =>
    if k = motorIndex then some (tics, rpm, temperatureC, voltage, current) else none
  | _ => none

def CacheCall.imu? : CacheCall → Option (Vec3 × Vec3)
  | .setImu ax ay az gx gy gz => some (⟨ax, ay, az⟩, ⟨gx, gy, gz⟩)
  | _ => none

def CacheCall.tilt? : CacheCall → Option (Vec3 × UInt32)
  | .setTilt tx ty tz status => some (⟨tx, ty, tz⟩, status)
  | _ => none

/-- What the last call that sets a group has set, or else the zeros. -/
def latest {α : Type} (set? : CacheCall → Option α) (zeros : α) (calls : List CacheCall) : α :=
  (calls.filterMap set?).getLast?.getD zeros

theorem latest_concat {α : Type} (set? : CacheCall → Option α) (zeros : α)
    (calls : List CacheCall) (call : CacheCall) :
    latest set? zeros (calls ++ [call]) = (set? call).getD (latest set? zeros calls) := by
  rw [latest, List.filterMap_append]
  cases h : set? call with
  | none => simp [latest, h]
  | some v => simp [h]

/-- The calls that set something. -/
def CacheCall.effective : CacheCall → Bool
  | .get => false
  | call => !call.ignored

def effectiveCalls (calls : List CacheCall) : Nat := calls.countP CacheCall.effective

/-- The values of a motor in the state. -/
def motorValues (m : MotorFields) : UInt32 × Int32 × Int32 × Int32 × Int32 :=
  (m.tics, m.rpm, m.temperatureC, m.voltagePowerStageMv, m.currentPowerStageMa)

/-- The values of a motor in the cache. -/
def TelemetryCache.motor (c : TelemetryCache) (idx : Fin 2) : UInt32 × Int32 × Int32 × Int32 × Int32 :=
  (c.motorTics idx, c.motorRpm idx, c.motorTempC idx, c.motorVoltageMv idx, c.motorCurrentMa idx)

def TelemetryCache.imu (c : TelemetryCache) : Vec3 × Vec3 :=
  (⟨c.accG 0, c.accG 1, c.accG 2⟩, ⟨c.gyroDps 0, c.gyroDps 1, c.gyroDps 2⟩)

def TelemetryCache.tilt (c : TelemetryCache) : Vec3 × UInt32 :=
  (⟨c.tiltDeg 0, c.tiltDeg 1, c.tiltDeg 2⟩, c.tiltStatus)

/-- The cache holds the latest values of every group, and counts the calls that set one. -/
structure TelemetryCache.Holds (c : TelemetryCache) (calls : List CacheCall) : Prop where
  imu : c.imu = latest CacheCall.imu? (.zero, .zero) calls
  tilt : c.tilt = latest CacheCall.tilt? (.zero, 0) calls
  motor1 : c.motor 0 = latest (CacheCall.motor? 1) (0, 0, 0, 0, 0) calls
  motor2 : c.motor 1 = latest (CacheCall.motor? 2) (0, 0, 0, 0, 0) calls
  seq : c.seq = UInt32.ofNat (effectiveCalls calls)

theorem effectiveCalls_concat (calls : List CacheCall) (call : CacheCall) :
    effectiveCalls (calls ++ [call]) =
      effectiveCalls calls + if call.effective then 1 else 0 := by
  rw [effectiveCalls, List.countP_append, List.countP_singleton]
  rfl

/-- One more call, where its effect on each group is to set its own values or none. -/
theorem TelemetryCache.Holds.concat {c c' : TelemetryCache} {calls : List CacheCall}
    (h : c.Holds calls) (call : CacheCall)
    (himu : c'.imu = (call.imu?).getD c.imu) (htilt : c'.tilt = (call.tilt?).getD c.tilt)
    (hmotor1 : c'.motor 0 = (call.motor? 1).getD (c.motor 0))
    (hmotor2 : c'.motor 1 = (call.motor? 2).getD (c.motor 1))
    (hseq : c'.seq = if call.effective then c.seq + 1 else c.seq) :
    c'.Holds (calls ++ [call]) where
  imu := by rw [himu, latest_concat, h.imu]
  tilt := by rw [htilt, latest_concat, h.tilt]
  motor1 := by rw [hmotor1, latest_concat, h.motor1]
  motor2 := by rw [hmotor2, latest_concat, h.motor2]
  seq := by
    rw [hseq, effectiveCalls_concat, h.seq]
    cases call.effective with
    | true => exact (UInt32.ofNat_add _ 1).symm
    | false => rfl

theorem holds_cacheAfter (calls : List CacheCall) : (cacheAfter calls).Holds calls := by
  induction calls using List.reverseRecOn with
  | nil => exact ⟨rfl, rfl, rfl, rfl, rfl⟩
  | append_singleton calls call ih =>
    rw [cacheAfter_concat]
    cases call with
    | setImu ax ay az gx gy gz =>
      rw [effect_setImu]
      exact ih.concat _ rfl rfl rfl rfl rfl
    | setTilt tx ty tz status =>
      rw [effect_setTilt]
      exact ih.concat _ rfl rfl rfl rfl rfl
    | setMotor motorIndex tics rpm temperatureC voltage current =>
      by_cases h1 : motorIndex = 1
      · subst h1
        rw [effect_setMotor (.inl rfl)]
        exact ih.concat _ rfl rfl rfl rfl rfl
      · by_cases h2 : motorIndex = 2
        · subst h2
          rw [effect_setMotor (.inr rfl)]
          exact ih.concat _ rfl rfl rfl rfl rfl
        · -- another index sets nothing
          have hignored : (CacheCall.setMotor motorIndex tics rpm temperatureC voltage
              current).ignored = true := by
            simp [CacheCall.ignored, h1, h2]
          have hmotor : ∀ k, k = 1 ∨ k = 2 → (CacheCall.setMotor motorIndex tics rpm temperatureC
              voltage current).motor? k = none := by
            intro k hk
            refine if_neg fun heq => ?_
            rcases hk with rfl | rfl
            · exact h1 heq
            · exact h2 heq
          rw [effect_ignored hignored]
          refine ih.concat _ rfl rfl ?_ ?_ ?_
          · rw [hmotor 1 (.inl rfl)]
            rfl
          · rw [hmotor 2 (.inr rfl)]
            rfl
          · have hnone : (CacheCall.setMotor motorIndex tics rpm temperatureC voltage
                current).effective = false := by
              simp [CacheCall.effective, hignored]
            rw [hnone]
            rfl
    | get =>
      have hsame : CacheCall.get.effect (cacheAfter calls) = cacheAfter calls :=
        congrArg Prod.fst (atomic_get _)
      rw [hsame]
      exact ih.concat _ rfl rfl rfl rfl rfl

/-! ## The runs -/

variable {ι : Type}

/-- The invariant of the snapshots: the cache is what the calls leave, and each message shows
the cache after a prefix of them, never a shorter one than the message before it. -/
structure Faithful (s : Simulation ι) : Prop where
  cache : Represents CacheCall.code s.lock (cacheAfter s.calls)
  entered : ∀ t x, s.lock.inside t = some x →
    x.call.ignored = false ∧ (t = .publisher → x.call = .get)
  filled : ∀ r before, s.pub = .filled r before → r = cacheAfter before ∧ before <+: s.calls ∧
    ∀ p ∈ s.published, p.before <+: before
  published : ∀ p ∈ s.published, p.before <+: s.calls ∧ ∃ timestampNs,
    p.message = stateMessage telemetryStatePubStart (cacheAfter p.before) timestampNs
  ordered : s.published.Pairwise fun p q => p.before <+: q.before

namespace Faithful

variable {s s' : Simulation ι}

theorem init : Faithful (.init : Simulation ι) where
  cache := represents_init telemetryCacheInit
  entered t x h := by cases h
  filled r before h := by cases h
  published p h := absurd h List.not_mem_nil
  ordered := List.Pairwise.nil

/-- A call more that has returned, and a lock that represents what it leaves. -/
theorem called {lock : Locked (Thread ι) CacheCall TelemetryCache TelemetryCache}
    {call : CacheCall} (h : Faithful s)
    (hcache : Represents CacheCall.code lock (cacheAfter (s.calls ++ [call])))
    (hentered : ∀ t x, lock.inside t = some x → s.lock.inside t = some x) :
    Faithful { s with lock, calls := s.calls ++ [call] } where
  cache := hcache
  entered t x hx := h.entered t x (hentered t x hx)
  filled r before hpub := by
    obtain ⟨hr, hbefore, hall⟩ := h.filled r before hpub
    exact ⟨hr, hbefore.trans (List.prefix_append _ _), hall⟩
  published p hp := by
    obtain ⟨hbefore, hmsg⟩ := h.published p hp
    exact ⟨hbefore.trans (List.prefix_append _ _), hmsg⟩
  ordered := h.ordered

variable [DecidableEq ι]

theorem enter {t : Thread ι} {call : CacheCall} {lock : _} {pub : PubPc} (h : Faithful s)
    (hpub : pub = s.pub ∨ pub = .reading) (hset : call.ignored = false)
    (hget : t = .publisher → call = .get) (hlock : s.lock.enter CacheCall.code t call = some lock) :
    Faithful { s with lock, pub } where
  cache := h.cache.enter hlock
  entered t' x hx := by
    rcases Locked.enter_inside hlock hx with ⟨rfl, hcall⟩ | hx
    · rw [hcall]
      exact ⟨hset, hget⟩
    · exact h.entered t' x hx
  filled r before hfilled := by
    rcases hpub with hpub | hpub
    · exact h.filled r before (hpub.symm.trans hfilled)
    · cases hpub.symm.trans hfilled
  published := h.published
  ordered := h.ordered

theorem step {a : SimAction ι} (h : Faithful s) (hstep : s.step a = some s') : Faithful s' := by
  cases a with
  | call i call =>
    simp only [Simulation.step] at hstep
    split at hstep
    · next hignored =>
      split at hstep
      · cases hstep
        refine h.called ?_ fun _ _ hx => hx
        rw [cacheAfter_concat, effect_ignored hignored]
        exact h.cache
      · cases hstep
    · next hset =>
      obtain ⟨lock, hlock, rfl⟩ := Option.map_eq_some_iff.mp hstep
      exact h.enter (.inl rfl) (Bool.not_eq_true _ ▸ hset) (fun ht => by cases ht) hlock
  | statement t =>
    obtain ⟨lock, hlock, rfl⟩ := Option.map_eq_some_iff.mp hstep
    refine ⟨h.cache.statement hlock, ?_, h.filled, h.published, h.ordered⟩
    intro t' x hx
    obtain ⟨y, hy, hcall⟩ := Locked.statement_inside hlock hx
    rw [← hcall]
    exact h.entered t' y hy
  | ret i =>
    obtain ⟨⟨lock, call, r⟩, hlock, rfl⟩ := Option.map_eq_some_iff.mp hstep
    obtain ⟨⟨rest, hinside⟩, -, hcache⟩ := h.cache.leave hlock
    refine h.called ?_ fun _ _ hx => Locked.leave_inside hlock hx
    have hset := (h.entered _ _ hinside).1
    rw [cacheAfter_concat, CacheCall.effect, if_neg (by rw [hset]; exact Bool.false_ne_true)]
    exact hcache
  | pubGet =>
    simp only [Simulation.step] at hstep
    split at hstep
    · obtain ⟨lock, hlock, rfl⟩ := Option.map_eq_some_iff.mp hstep
      exact h.enter (.inr rfl) rfl (fun _ => rfl) hlock
    · cases hstep
  | pubGot =>
    obtain ⟨⟨lock, call, r⟩, hlock, rfl⟩ := Option.map_eq_some_iff.mp hstep
    obtain ⟨⟨rest, hinside⟩, hread, hcache⟩ := h.cache.leave hlock
    have hget : call = .get := (h.entered _ _ hinside).2 rfl
    subst hget
    rw [atomic_get] at hread hcache
    refine ⟨hcache, ?_, ?_, h.published, h.ordered⟩
    · intro t x hx
      exact h.entered t x (Locked.leave_inside hlock hx)
    · intro r' before hpub
      cases hpub
      exact ⟨hread.symm, List.prefix_rfl, fun p hp => (h.published p hp).1⟩
  | publish timestampNs allocated sent =>
    simp only [Simulation.step] at hstep
    split at hstep
    · next r before hpub =>
      obtain ⟨hr, hbefore, hall⟩ := h.filled r before hpub
      split at hstep
      · cases hstep
        refine ⟨h.cache, h.entered, fun _ _ hhead => (by cases hhead), ?_, ?_⟩
        · intro p hp
          rcases List.mem_append.mp hp with hp | hp
          · exact h.published p hp
          · rw [List.mem_singleton.mp hp, hr]
            exact ⟨hbefore, timestampNs, rfl⟩
        · rw [List.pairwise_append]
          refine ⟨h.ordered, List.pairwise_singleton _ _, ?_⟩
          intro p hp q hq
          rw [List.mem_singleton.mp hq]
          exact hall p hp
      · cases hstep
        exact ⟨h.cache, h.entered, fun _ _ hhead => (by cases hhead), h.published, h.ordered⟩
    · cases hstep

theorem of_run {as : List (SimAction ι)} (h : exec Simulation.step .init as = some s) :
    Faithful s :=
  exec_preserves (fun _ _ _ hI hstep => hI.step hstep) init h

end Faithful

/-! ## The state of the gateway -/

/-- The state has for each group the values of its latest call, and counts the calls. -/
structure Carries (calls : List CacheCall) (s : TelemetryState) : Prop where
  imu : (s.accG, s.gyroDps) = latest CacheCall.imu? (.zero, .zero) calls
  tilt : (s.tiltDeg, s.tiltStatus) = latest CacheCall.tilt? (.zero, 0) calls
  motor1 : motorValues s.motor1 = latest (CacheCall.motor? 1) (0, 0, 0, 0, 0) calls
  motor2 : motorValues s.motor2 = latest (CacheCall.motor? 2) (0, 0, 0, 0, 0) calls
  seq : s.seq = UInt32.ofNat (effectiveCalls calls)

theorem TelemetryCache.Holds.carries {r : TelemetryCache} {calls : List CacheCall}
    (h : r.Holds calls) (a : PubArgs) (timestampNs : UInt64) (receivedAtNs : Int64)
    (raw : Option Bytes) :
    Carries calls (telemetryStateOf (stateMessage a r timestampNs) receivedAtNs raw) :=
  ⟨h.imu, h.tilt, h.motor1, h.motor2, h.seq⟩

/-- The values that come from the sensors. -/
def SameSensors (s t : TelemetryState) : Prop :=
  s.accG = t.accG ∧ s.gyroDps = t.gyroDps ∧ s.tiltDeg = t.tiltDeg ∧ s.tiltStatus = t.tiltStatus ∧
    motorValues s.motor1 = motorValues t.motor1 ∧ motorValues s.motor2 = motorValues t.motor2

/-- Calls that set nothing leave the cache as it is. -/
theorem cacheAfter_append_of_ineffective {calls more : List CacheCall}
    (h : ∀ call ∈ more, call.effective = false) :
    cacheAfter (calls ++ more) = cacheAfter calls := by
  have heffect : ∀ call : CacheCall, call.effective = false → ∀ c, call.effect c = c := by
    intro call hcall c
    cases call with
    | get => exact congrArg Prod.fst (atomic_get c)
    | setImu | setTilt => cases hcall
    | setMotor motorIndex tics rpm temperatureC voltage current =>
      apply effect_ignored
      simpa [CacheCall.effective] using hcall
  induction more using List.reverseRecOn with
  | nil => rw [List.append_nil]
  | append_singleton more call ih =>
    rw [← List.append_assoc, cacheAfter_concat, ih fun c hc => h c (List.mem_append_left _ hc)]
    exact heffect call (h call (List.mem_append_right _ List.mem_cons_self)) _

/-- As many calls that set something mean the same cache. -/
theorem cacheAfter_eq_of_count {calls calls' : List CacheCall} (hpre : calls <+: calls')
    (hcount : effectiveCalls calls = effectiveCalls calls') :
    cacheAfter calls = cacheAfter calls' := by
  obtain ⟨more, rfl⟩ := hpre
  rw [effectiveCalls, effectiveCalls, List.countP_append] at hcount
  have hnone : List.countP CacheCall.effective more = 0 := by omega
  rw [cacheAfter_append_of_ineffective]
  intro call hcall
  exact Bool.eq_false_of_not_eq_true (List.countP_eq_zero.mp hnone call hcall)

/-- **A snapshot is a moment of the cache.** Any number of threads call the setters, one
statement at a time, while the publisher reads the cache and publishes. `transported` is what is
unpacked of a packed message, which for the messages of the run is the message (`hinverts`). For
every published message the state that the gateway builds of it carries, for each group of
values, those of the latest call that had returned when the snapshot was taken, and in `seq` the
number of effective calls by then, modulo 2^32. Of two messages the later one counts no fewer
calls, and if both count the same they show the same values. -/
theorem snapshot_fidelity [DecidableEq ι] {as : List (SimAction ι)} {s : Simulation ι}
    (h : exec Simulation.step .init as = some s)
    (transported : PbTelemetryState → Option PbTelemetryState)
    (hinverts : ∀ p ∈ s.published, transported p.message = some p.message) :
    (∀ p ∈ s.published, ∃ st, transported p.message = some st ∧
      ∀ receivedAtNs raw, Carries p.before (telemetryStateOf st receivedAtNs raw)) ∧
    s.published.Pairwise fun p q => effectiveCalls p.before ≤ effectiveCalls q.before ∧
      (effectiveCalls p.before = effectiveCalls q.before → ∀ st st' t t' raw raw',
        transported p.message = some st → transported q.message = some st' →
          SameSensors (telemetryStateOf st t raw) (telemetryStateOf st' t' raw')) := by
  have hI := Faithful.of_run h
  constructor
  · intro p hp
    obtain ⟨-, timestampNs, hmsg⟩ := hI.published p hp
    refine ⟨p.message, hinverts p hp, ?_⟩
    intro receivedAtNs raw
    rw [hmsg]
    exact (holds_cacheAfter p.before).carries _ _ _ _
  · refine List.Pairwise.imp_of_mem ?_ hI.ordered
    intro p q hp hq hpre
    obtain ⟨-, ts, hmsg⟩ := hI.published p hp
    obtain ⟨-, ts', hmsg'⟩ := hI.published q hq
    refine ⟨hpre.sublist.countP_le, ?_⟩
    intro hcount st st' t t' raw raw' hst hst'
    have hsame := cacheAfter_eq_of_count hpre hcount
    rw [hinverts p hp] at hst
    rw [hinverts q hq] at hst'
    cases hst
    cases hst'
    rw [hmsg, hmsg', ← hsame]
    exact ⟨rfl, rfl, rfl, rfl, rfl, rfl⟩

/-- A call of `telemetry_cache_set_motor` for motor 2. -/
def setMotorTwo (tics : UInt32) (rpm : Int32) : List (SimAction Unit) :=
  [.call () (.setMotor 2 tics rpm 41 23800 350)] ++ List.replicate 6 (.statement (.sensor ())) ++
    [.ret ()]

/-- A round of the publisher. -/
def publishRound (timestampNs : UInt64) : List (SimAction Unit) :=
  [.pubGet] ++ List.replicate 10 (.statement .publisher) ++
    [.pubGot, .publish timestampNs true true]

/-- Two rounds of the publisher behind a call for motor 2, the second behind a call for a motor
that does not exist, and a third one behind another call for motor 2. -/
def threeRounds : List (SimAction Unit) :=
  setMotorTwo 900 120 ++ publishRound 5 ++ [.call () (.setMotor 3 1 1 1 1 1)] ++
    publishRound 6 ++ setMotorTwo 950 121 ++ publishRound 7

/-- The first two messages are of one cache, and the third is of a later one. -/
theorem threeRounds_fidelity : ∃ s p q r, exec Simulation.step .init threeRounds = some s ∧
    s.published = [p, q, r] ∧ effectiveCalls p.before = 1 ∧ effectiveCalls r.before = 2 ∧
    (∀ t raw, Carries p.before (telemetryStateOf p.message t raw)) ∧
    (∀ t raw, Carries r.before (telemetryStateOf r.message t raw)) ∧
    ∀ t t' raw raw', SameSensors (telemetryStateOf p.message t raw)
      (telemetryStateOf q.message t' raw') := by
  have hrun : ∃ s p q r, exec Simulation.step .init threeRounds = some s ∧
      s.published = [p, q, r] ∧ effectiveCalls p.before = 1 ∧ effectiveCalls q.before = 1 ∧
        effectiveCalls r.before = 2 := ⟨_, _, _, _, rfl, rfl, rfl, rfl, rfl⟩
  obtain ⟨s, p, q, r, hs, hpublished, hp, hq, hr⟩ := hrun
  obtain ⟨hall, hpairs⟩ := snapshot_fidelity hs some fun _ _ => rfl
  simp only [hpublished, List.forall_mem_cons] at hall
  obtain ⟨⟨st, hst, hcarries⟩, -, ⟨st', hst', hcarries'⟩, -⟩ := hall
  cases hst
  cases hst'
  rw [hpublished, List.pairwise_cons] at hpairs
  have hpq := hpairs.1 q List.mem_cons_self
  refine ⟨s, p, q, r, hs, hpublished, hp, hr, fun t raw => hcarries t raw,
    fun t raw => hcarries' t raw, fun t t' raw raw' => ?_⟩
  exact hpq.2 (hp.trans hq.symm) _ _ t t' raw raw' rfl rfl

end TelemetryTestbed.Sim
