import Es3Recomp.Source.Jvs.Runs

/-!
# A coin on its way from the button to whoever spends it

Source: src/src/runtime/jvs.c:638-643 (`g_coins_pending`, `es3_coin_take`), 645-648 and
757-766 (`input_poll`, from where it has read the buttons). Threads interleave between the
operations of `input_poll`; what another thread does with the port happens with the lock
held, so not between entering and leaving.
-/
namespace Es3Recomp.Source.Jvs
open Library

/-- Where the polling thread is in `input_poll`: what it does next. -/
inductive Place where
  /-- not in it -/
  | outside
  /-- `EnterCriticalSection` -/
  | enter
  /-- `g_port.coin[0]++` -/
  | insert
  /-- `InterlockedIncrement` -/
  | offer
  /-- `LeaveCriticalSection` -/
  | leave
  /-- `had_coin = coin` -/
  | remember
  deriving DecidableEq

structure Coins where
  port : JvsPort
  /-- `g_coins_pending` -/
  pending : UInt32
  hadCoin : Bool
  place : Place
  /-- of the pass that is under way -/
  coin : Bool

def Coins.initial : Coins := ⟨JvsPort.initial, 0, false, .outside, false⟩

def Coins.locked (s : Coins) : Bool := s.place = .insert ∨ s.place = .offer ∨ s.place = .leave

inductive CoinAct (κ : Type) where
  /-- The polling thread reads the buttons and tests `coin && !had_coin`. -/
  | poll (coin : Bool)
  /-- The next operation of the polling thread. -/
  | turn
  /-- `es3_coin_take` -/
  | take (caller : κ)
  /-- Something another thread does to the port under the lock. -/
  | hold (change : JvsPort → JvsPort)

inductive CoinEvent (κ : Type) where
  | polled (coin : Bool)
  | inserted
  | offered
  | taken (caller : κ) (coins : UInt32)

section Steps
variable {κ : Type}

/-- `es3_coin_take`: what it returns, and what it leaves. -/
def es3CoinTake (s : Coins) : UInt32 × Coins := (s.pending, { s with pending := 0 })

def turn (s : Coins) : Coins × List (CoinEvent κ) :=
  match s.place with
  | .outside => (s, [])
  | .enter => ({ s with place := .insert }, [])
  | .insert => ({ s with port := insertCoin s.port, place := .offer }, [.inserted])
  | .offer => ({ s with pending := s.pending + 1, place := .leave }, [.offered])
  | .leave => ({ s with place := .remember }, [])
  | .remember => ({ s with hadCoin := s.coin, place := .outside }, [])

/-- A thread that cannot go on stays where it is: a pass begins when the one before is over,
and the port waits for its lock. -/
def coinStep (s : Coins) : CoinAct κ → Coins × List (CoinEvent κ)
  | .poll coin =>
    if s.place = .outside then
      ({ s with coin, place := if coin && !s.hadCoin then .enter else .remember }, [.polled coin])
    else (s, [])
  | .turn => turn s
  | .take caller =>
    let (coins, s) := es3CoinTake s
    (s, [.taken caller coins])
  | .hold change => if s.locked then (s, []) else ({ s with port := change s.port }, [])

def coinMachine : Transducer Coins (CoinAct κ) (CoinEvent κ) := ⟨coinStep⟩

end Steps
end Es3Recomp.Source.Jvs
