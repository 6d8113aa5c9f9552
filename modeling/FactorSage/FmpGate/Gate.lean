import FactorSage.Library.ExpiringMap
import FactorSage.Library.RateWindow
import FactorSage.Library.ScoredSet
import FactorSage.Library.StepSystem
import Mathlib.Data.PNat.Basic

/-!
# The shared provider gate

Every process that calls the provider passes through three keys of one namespace: the leases of the
requests under way, the counter of the current rate window, and the latest cooldown deadline. Two
scripts read and update them, a finished request gives its lease back, and time does the rest.

Milliseconds are natural numbers; the scripts write every digit of one below `10 ^ 14`. How long a
refused request sleeps before it asks again, and when it gives up, decide which attempts are made and
not what they may do, so they are left to the interleaving: any waiting request may ask at any time.
-/

namespace FactorSage.FmpGate

/-- The limits every process shares; the constructor refuses any that is not a positive integer. -/
structure GateOptions where
  maxConcurrentRequests : ℕ+
  rateLimitPerWindow : ℕ+
  rateWindowMs : ℕ+
  requestLeaseMs : ℕ+

variable {Token : Type} [LinearOrder Token]

/-- What Redis holds for one namespace. -/
structure GateStore (Token : Type) [LinearOrder Token] where
  now : ℕ
  /-- `concurrentKey`: every lease and the instant it ends at. -/
  concurrent : ScoredSet Token
  /-- `rateKey`. -/
  rateWindow : Option (Expiring ℕ)
  /-- `cooldownKey`. -/
  cooldownUntil : Option (Expiring ℕ)

/-- `PTTL`: `-2` for a key that is not there, `-1` for one that does not expire. -/
def pttl {α : Type} (now : ℕ) : Option (Expiring α) → ℤ
  | none => -2
  | some ⟨_, none⟩ => -1
  | some ⟨_, some deadline⟩ => deadline - now

/-- `tonumber(redis.call('GET', key) or '0')`. -/
def numberOf (entry : Option (Expiring ℕ)) : ℕ := (entry.map Expiring.value).getD 0

/-- `INCR`: a new counter starts at one, without a deadline. -/
def incr (entry : Option (Expiring ℕ)) : Expiring ℕ where
  value := numberOf entry + 1
  expiresAt := entry.bind Expiring.expiresAt

/-- What an admission attempt answers: whether it was admitted, how long to wait and why. -/
structure Admission where
  admitted : Bool
  delayMs : ℤ
  /-- `1` for the cooldown, `2` for concurrency, `3` for the rate, `0` when admitted. -/
  reason : ℕ
  deriving DecidableEq

/-- `INCR` of the window's counter; its first increment sets its deadline. -/
def countWindow (options : GateOptions) (st : GateStore Token) : Expiring ℕ :=
  let counted := incr st.rateWindow
  if counted.value = 1 then { counted with expiresAt := some (st.now + options.rateWindowMs) }
  else counted

/-- The attempt after the leases that have ended are gone. -/
def admitToken (options : GateOptions) (token : Token) (st : GateStore Token) :
    GateStore Token × Admission :=
  if st.concurrent.card ≥ options.maxConcurrentRequests then
    let first := (st.concurrent.entries.head?.map Prod.snd).getD 0
    (st, ⟨false, max 1 ((first : ℤ) - st.now), 2⟩)
  else if numberOf st.rateWindow ≥ options.rateLimitPerWindow then
    (st, ⟨false, max 1 (pttl st.now st.rateWindow), 3⟩)
  else
    ({ st with
        concurrent := st.concurrent.add token (st.now + options.requestLeaseMs)
        rateWindow := some (countWindow options st) },
      ⟨true, 0, 0⟩)

/-- `ACQUIRE_START`. -/
def acquireStart (options : GateOptions) (token : Token) (st : GateStore Token) :
    GateStore Token × Admission :=
  let cooldown := pttl st.now st.cooldownUntil
  if cooldown > 0 then (st, ⟨false, cooldown, 1⟩)
  else admitToken options token { st with concurrent := st.concurrent.above st.now }

/-- `PUBLISH_COOLDOWN`: a later deadline replaces an earlier one, and lasts until it has passed. -/
def publishCooldown (delayMs : ℕ+) (st : GateStore Token) : GateStore Token :=
  let proposed := st.now + delayMs
  if proposed > numberOf st.cooldownUntil then
    { st with cooldownUntil := some ⟨proposed, some proposed⟩ }
  else st

/-- `ZREM` of a finished request. -/
def release (token : Token) (st : GateStore Token) : GateStore Token :=
  { st with concurrent := st.concurrent.remove token }

/-- Time passes; a key is gone once the clock is past its deadline. -/
def GateStore.advance (now : ℕ) (st : GateStore Token) : GateStore Token :=
  { st with
    now
    rateWindow := st.rateWindow.filter (Expiring.live now)
    cooldownUntil := st.cooldownUntil.filter (Expiring.live now) }

/-! ### Processes -/

/-- How far a call of `run` has come. Its token is its own. -/
inductive RequestPhase where
  | waiting
  | admitted
  | finished
  deriving DecidableEq

/-- What has happened at the gate. -/
inductive GateEvent (Token : Type) where
  /-- Admitted at an instant, with the end of its lease and of the window that counts it. -/
  | admitted (token : Token) (instant leaseEnd windowEnd : ℕ)
  | released (token : Token)
  | published (deadline : ℕ)
  deriving DecidableEq

/-- The store, the calls in progress, and the record of what has happened. -/
structure Gate (Token : Type) [LinearOrder Token] where
  store : GateStore Token
  phase : Token → RequestPhase
  history : List (GateEvent Token)

inductive GateAction (Token : Type) where
  /-- The clock moves on to an instant. -/
  | advance (now : ℕ)
  /-- A waiting request asks for a start. -/
  | attempt (token : Token)
  /-- An admitted request is done, or failed, and gives its lease back. -/
  | finish (token : Token)
  /-- A process crashes or gives up, and leaves its lease. -/
  | stop (token : Token)
  | cooldown (delayMs : ℕ+)

/-- The end of the window that is open. -/
def GateStore.windowEnd (st : GateStore Token) : ℕ :=
  (st.rateWindow.bind Expiring.expiresAt).getD 0

/-- The gate after an attempt. -/
def Gate.attempt (options : GateOptions) (token : Token) (gate : Gate Token) : Gate Token :=
  let (store, answer) := acquireStart options token gate.store
  if answer.admitted then
    { store
      phase := Function.update gate.phase token .admitted
      history := gate.history ++
        [.admitted token store.now (store.now + options.requestLeaseMs) store.windowEnd] }
  else { gate with store }

/-- The steps of any number of processes, in any order. -/
def Gate.Step (options : GateOptions) (gate : Gate Token) (action : GateAction Token)
    (next : Gate Token) : Prop :=
  match action with
  | .advance now => gate.store.now ≤ now ∧ next = { gate with store := gate.store.advance now }
  | .attempt token => gate.phase token = .waiting ∧ next = gate.attempt options token
  | .finish token =>
    gate.phase token = .admitted
      ∧ next =
        { store := release token gate.store
          phase := Function.update gate.phase token .finished
          history := gate.history ++ [.released token] }
  | .stop token => next = { gate with phase := Function.update gate.phase token .finished }
  | .cooldown delayMs =>
    next =
      { gate with
        store := publishCooldown delayMs gate.store
        history := gate.history ++ [.published (gate.store.now + delayMs)] }

/-- An empty namespace, before any request. -/
def Gate.initial (now : ℕ) : Gate Token where
  store := ⟨now, .empty, none, none⟩
  phase _ := .waiting
  history := []

/-- The gate from an empty namespace. -/
def gateSystem (Token : Type) [LinearOrder Token] (options : GateOptions) :
    StepSystem (Gate Token) (GateAction Token) where
  start gate := ∃ now, gate = Gate.initial now
  step := Gate.Step options

end FactorSage.FmpGate
