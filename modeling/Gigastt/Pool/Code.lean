import Gigastt.Lib.Steps

/-!
# The session pool of `inference/mod.rs`

One definition per lock-protected section of `Pool<T>`, then the step system in which
any number of calls run these sections in any order. Two locks guard the pool, so a
call can be overtaken between two of its sections. Sends, and reads and writes of the
`closed` flag outside a lock, are steps of their own.
-/

namespace Gigastt.Pool

inductive PoolError where
  | Closed
deriving DecidableEq, Repr

/-- The sender of a parked caller. Its channel goes by the number of the call that made it. -/
inductive Waiter where
  | Async (tx : Nat)
  | Blocking (tx : Nat)
deriving DecidableEq, Repr

def Waiter.tx : Waiter → Nat
  | .Async tx => tx
  | .Blocking tx => tx

structure PoolInner (T : Type) where
  items : List T
  waiters : List Waiter
  closed : Bool
  total : Nat
deriving DecidableEq, Repr

variable {T : Type}

/-! ## The sections -/

def PoolInner.new (items : List T) : PoolInner T :=
  { items, waiters := [], closed := false, total := items.length }

/-- Fast path of both checkouts, under the `items` lock. -/
def PoolInner.fast_path (p : PoolInner T) : Except PoolError (Option T) × PoolInner T :=
  if p.closed then (.error .Closed, p)
  else
    match p.items with
    | item :: items => (.ok (some item), { p with items })
    | [] => (.ok none, p)

/-- Slow path of both checkouts, under the `waiters` lock. -/
def PoolInner.slow_path (p : PoolInner T) (waiter : Waiter) : Except PoolError Unit × PoolInner T :=
  if p.closed then (.error .Closed, p)
  else (.ok (), { p with waiters := p.waiters ++ [waiter] })

/-- `checkin`, the section under the `waiters` lock. -/
def PoolInner.pop_waiter (p : PoolInner T) : Option Waiter × PoolInner T :=
  match p.waiters with
  | waiter :: waiters => (some waiter, { p with waiters })
  | [] => (none, p)

/-- `checkin`, the section under the `items` lock. -/
def PoolInner.push_item (p : PoolInner T) (item : T) : PoolInner T :=
  { p with items := p.items ++ [item] }

/-- `close`, the store. -/
def PoolInner.store_closed (p : PoolInner T) : PoolInner T := { p with closed := true }

/-- `close`, the section under the `waiters` lock. -/
def PoolInner.clear_waiters (p : PoolInner T) : PoolInner T := { p with waiters := [] }

def PoolInner.available (p : PoolInner T) : Nat := p.items.length

/-! ## The calls -/

/-- `checkout` parks on a tokio oneshot, `checkout_blocking` on a std mpsc channel. -/
inductive Kind where
  | Async
  | Blocking
deriving DecidableEq, Repr

def Kind.waiter : Kind → Nat → Waiter
  | .Async, tx => .Async tx
  | .Blocking, tx => .Blocking tx

inductive Slot (T : Type) where
  | empty
  | item (x : T)
  | hung_up
deriving DecidableEq, Repr

/-- How far one call has come, and the item it has in hand. A call that checks an item
out goes on to hold it and to check it in. -/
inductive Call (T : Type) where
  -- Before the fast path.
  | fast_path (kind : Kind)
  -- The fast path found no item.
  | slow_path (kind : Kind)
  -- Registered, on `rx.await` or `rx.recv()`.
  | parked (kind : Kind) (rx : Slot T)
  -- The parked future and its receiver were dropped.
  | cancelled
  -- Returned `Err(PoolError::Closed)`.
  | failed
  -- Returned a `PoolGuard`.
  | guard (item : T)
  -- The guard went through `into_owned`.
  | owned (item : T)
  -- In `PoolInner::checkin`, before it reads `closed`.
  | checkin (item : T)
  -- In `checkin`, after it read `closed = false`.
  | giving (item : T)
  -- In `checkin`, with a waiter popped.
  | sending (waiter : Waiter) (item : T)
  -- In `checkin`, after it found no waiter.
  | pushing (item : T)
  -- In `close`, before the store and after it.
  | closing
  | clearing
  | returned
deriving DecidableEq, Repr

structure Sys (T : Type) where
  pool : PoolInner T
  calls : List (Call T)
deriving DecidableEq, Repr

def Sys.new (items : List T) : Sys T := { pool := PoolInner.new items, calls := [] }

/-- `tx.send(item)`: a receiver that is gone makes the send fail, which drops the item. -/
def send (calls : List (Call T)) (tx : Nat) (item : T) : List (Call T) :=
  match calls[tx]? with
  | some (.parked kind .empty) => calls.set tx (.parked kind (.item item))
  | _ => calls

/-- What a call sees when its sender is dropped. -/
def Call.hang_up : Call T → Call T
  | .parked kind .empty => .parked kind .hung_up
  | call => call

def hang_up_all (calls : List (Call T)) (waiters : List Waiter) : List (Call T) :=
  calls.mapIdx fun i call => if i ∈ waiters.map Waiter.tx then call.hang_up else call

/-! ## The step system -/

inductive Action where
  | checkout (kind : Kind)
  | close
  | next (i : Nat)
  -- The future of a parked async checkout is dropped.
  | cancel (i : Nat)
  -- `PoolGuard::into_owned`, `PoolGuard::drop` and `OwnedReservation::checkin`.
  | into_owned (i : Nat)
  | drop (i : Nat)
  | give_back (i : Nat)
deriving DecidableEq, Repr

def Sys.put (s : Sys T) (i : Nat) (call : Call T) : Sys T := { s with calls := s.calls.set i call }

/-- The next section of call `i`, or `none` when the call has returned or must wait. -/
def Sys.next (s : Sys T) (i : Nat) : Option (Sys T) :=
  match s.calls[i]? with
  | some (.fast_path kind) =>
    match s.pool.fast_path with
    | (.error _, pool) => some ({ s with pool }.put i .failed)
    | (.ok (some item), pool) => some ({ s with pool }.put i (.guard item))
    | (.ok none, pool) => some ({ s with pool }.put i (.slow_path kind))
  | some (.slow_path kind) =>
    match s.pool.slow_path (kind.waiter i) with
    | (.error _, pool) => some ({ s with pool }.put i .failed)
    | (.ok _, pool) => some ({ s with pool }.put i (.parked kind .empty))
  | some (.parked _ (.item item)) => some (s.put i (.guard item))
  | some (.parked _ .hung_up) => some (s.put i .failed)
  | some (.checkin item) =>
    if s.pool.closed then some (s.put i .returned) else some (s.put i (.giving item))
  | some (.giving item) =>
    match s.pool.pop_waiter with
    | (some waiter, pool) => some ({ s with pool }.put i (.sending waiter item))
    | (none, pool) => some ({ s with pool }.put i (.pushing item))
  | some (.sending waiter item) =>
    some ({ s with calls := send s.calls waiter.tx item }.put i .returned)
  | some (.pushing item) => some ({ s with pool := s.pool.push_item item }.put i .returned)
  | some .closing => some ({ s with pool := s.pool.store_closed }.put i .clearing)
  | some .clearing =>
    some ({ pool := s.pool.clear_waiters,
            calls := hang_up_all s.calls s.pool.waiters : Sys T }.put i .returned)
  | _ => none

def Sys.step (s : Sys T) : Action → Option (Sys T)
  | .checkout kind => some { s with calls := s.calls ++ [.fast_path kind] }
  | .close => some { s with calls := s.calls ++ [.closing] }
  | .next i => s.next i
  | .cancel i =>
    match s.calls[i]? with
    | some (.parked .Async _) => some (s.put i .cancelled)
    | _ => none
  | .into_owned i =>
    match s.calls[i]? with
    | some (.guard item) => some (s.put i (.owned item))
    | _ => none
  | .drop i =>
    match s.calls[i]? with
    | some (.guard item) => some (s.put i (.checkin item))
    | _ => none
  | .give_back i =>
    match s.calls[i]? with
    | some (.owned item) => some (s.put i (.checkin item))
    | _ => none

abbrev Sys.run (items : List T) (as : List Action) : Option (Sys T) :=
  Steps.run Sys.step (Sys.new items) as

end Gigastt.Pool
