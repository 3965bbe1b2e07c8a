import Mathlib.Data.List.Sort
import TappsBrain.Lib.Run
import TappsBrain.Lib.Table

namespace TappsBrain
open Lib
set_option autoImplicit true
set_option relaxedAutoImplicit false

/-- What the caller of `_ensure_entry_cached` goes on to do. -/
inductive AfterLookup where
  | returns | deletes | saves
deriving DecidableEq

/-- Who fills the cache from `load_all`: `_merge_durable_entries`, or the group count of the save of
a key, which knows whether the key was cached. -/
inductive Filler where
  | merge (allowOverCap : Bool)
  | count (key : String) (existed : Bool)
deriving DecidableEq

/-- Who removes a row: `delete`, or an eviction in the save of a key. -/
inductive Remover where
  | delete
  | evict (key : String) (existed : Bool)
deriving DecidableEq

/-- Where a call stands. What it does next is one section under the store lock, or one statement of
the backend. -/
inductive CallStage where
  /-- The three parts of `_ensure_entry_cached`. -/
  | lookup (key : String) (after : AfterLookup)
  | loadOne (key : String) (snapshotEpoch : Nat) (after : AfterLookup)
  | insertOne (key : String) (snapshotEpoch : Nat) (after : AfterLookup)
  /-- The three parts of `_merge_durable_entries`; a group count begins at the second. -/
  | snapshot (limit : Option Nat) (allowOverCap : Bool)
  | loadAll (snapshotEpoch : Nat) (limit : Option Nat) (filler : Filler)
  | fill (snapshotEpoch : Nat) (rows : List String) (filler : Filler)
  /-- The parts of `delete`, and from the second on of `_evict_entry_key`. -/
  | pop (key : String)
  | removeRow (key : String) (remover : Remover)
  | removeRelations (key : String) (remover : Remover)
  | note (key : String) (remover : Remover)
  /-- The `except` branches of the two deletes, the second of which also writes the row back. -/
  | putBack (key : String) (rowGone : Bool)
  | saveBack (key : String)
  /-- The parts of a save: the lock, the caps and the assignment, the write, the check behind it. -/
  | acquire (key : String)
  | caps (key : String) (existed : Bool)
  | persist (key : String) (existed : Bool)
  | dropCheck (key : String)
  | rollback (key : String) (existed : Bool)
deriving DecidableEq

structure OpenCall where
  id : Nat
  stage : CallStage
deriving DecidableEq

/-- What the calls share. Of the entries only the keys matter; durable rows are newest first. -/
structure Shared where
  cache : List String := []
  durable : List String := []
  removalEpoch : Nat := 0
  removedAt : List (String × Nat) := []
  lock : Option Nat := none
deriving DecidableEq

structure Hydration where
  shared : Shared
  calls : Table OpenCall.id := Table.empty
deriving DecidableEq

/-- What a call is asked to do: its next part, or to fail in it. In a save the caps decide what is
counted and what is evicted; here the run says it. -/
inductive Choice where
  | go | fail | count
  | evict (victim : String)
deriving DecidableEq

namespace Shared

def cached (m : Shared) (key : String) : Shared := { m with cache := m.cache.insert key }

def popped (m : Shared) (key : String) : Shared := { m with cache := m.cache.filter (· ≠ key) }

def saved (m : Shared) (key : String) : Shared :=
  { m with durable := key :: m.durable.filter (· ≠ key) }

def deleted (m : Shared) (key : String) : Shared := { m with durable := m.durable.filter (· ≠ key) }

/-- `_removed_at.get(key, 0)`. -/
def tombstone (m : Shared) (key : String) : Nat := (m.removedAt.lookup key).getD 0

/-- The tombstones once a key is noted, before they are pruned. -/
def notedAt (m : Shared) (key : String) : List (String × Nat) :=
  (key, m.removalEpoch + 1) :: m.removedAt.filter (fun t => t.1 ≠ key)

/-- What `_note_removed_locked` prunes up to. -/
def cutoff (removedAt : List (String × Nat)) : Nat :=
  ((removedAt.map Prod.snd).insertionSort (· ≤ ·)).getD (removedAt.length / 2) 0

/-- `_note_removed_locked`. -/
def noteRemoved (m : Shared) (key : String) : Shared :=
  let noted := m.notedAt key
  { m with
    removalEpoch := m.removalEpoch + 1
    removedAt :=
      if 4096 < noted.length then noted.filter (fun t => cutoff noted < t.2) else noted }

def loadAll (m : Shared) (limit : Option Nat) : List String :=
  match limit with
  | none => m.durable
  | some n => m.durable.take n

/-- A loaded row may enter the cache. -/
def mayEnter (m : Shared) (snapshotEpoch : Nat) (key : String) : Bool :=
  !m.cache.contains key && m.tombstone key ≤ snapshotEpoch

/-- The loop of a fill, with the room that is left, if it is bounded. -/
def fillRows (snapshotEpoch : Nat) : List String → Option Nat → Shared → Shared
  | [], _, m => m
  | key :: rest, room, m =>
    if m.mayEnter snapshotEpoch key then
      match room with
      | none => fillRows snapshotEpoch rest none (m.cached key)
      | some 0 => fillRows snapshotEpoch rest (some 0) m
      | some (n + 1) => fillRows snapshotEpoch rest (some n) (m.cached key)
    else fillRows snapshotEpoch rest room m

end Shared

def AfterLookup.found (key : String) : AfterLookup → Option CallStage
  | .returns => none
  | .deletes => some (.pop key)
  | .saves => some (.acquire key)

def AfterLookup.missing (key : String) : AfterLookup → Option CallStage
  | .returns => none
  | .deletes => none
  | .saves => some (.acquire key)

/-- The limit `_merge_durable_entries` loads with. -/
def effectiveLimit (cap : Nat) (limit : Option Nat) (allowOverCap : Bool) : Option Nat :=
  if allowOverCap then limit
  else
    match limit with
    | none => some cap
    | some n => some (min n cap)

def Filler.room (cap : Nat) (m : Shared) : Filler → Option Nat
  | .merge false => some (cap - m.cache.length)
  | .merge true => none
  | .count _ _ => none

def Filler.next : Filler → Option CallStage
  | .merge _ => none
  | .count key existed => some (.caps key existed)

def Remover.next : Remover → Option CallStage
  | .delete => none
  | .evict key existed => some (.caps key existed)

/-- The stages whose next part is a section under the lock. -/
def CallStage.locked : CallStage → Bool
  | .lookup _ _ => true
  | .insertOne _ _ _ => true
  | .snapshot _ _ => true
  | .fill _ _ _ => true
  | .pop _ => true
  | .note _ _ => true
  | .putBack _ _ => true
  | .acquire _ => true
  | .dropCheck _ => true
  | .rollback _ _ => true
  | _ => false

/-- One part of a call: where it stands afterwards, if it has not returned, and what it leaves. -/
def CallStage.advance (cap id : Nat) (choice : Choice) (stage : CallStage) (m : Shared) :
    Option CallStage × Shared :=
  match stage, choice with
  | .lookup key after, .go =>
    if m.cache.contains key then (after.found key, m)
    else (some (.loadOne key m.removalEpoch after), m)
  | .loadOne key epoch after, .go =>
    if m.durable.contains key then (some (.insertOne key epoch after), m)
    else (after.missing key, m)
  | .loadOne _ _ _, .fail => (none, m)
  | .insertOne key epoch after, .go =>
    if m.cache.contains key then (after.found key, m)
    else if m.mayEnter epoch key then (after.found key, m.cached key)
    else (after.missing key, m)
  | .snapshot limit allowOverCap, .go =>
    if !allowOverCap && cap ≤ m.cache.length then (none, m)
    else (some (.loadAll m.removalEpoch (effectiveLimit cap limit allowOverCap)
      (.merge allowOverCap)), m)
  | .loadAll epoch limit filler, .go => (some (.fill epoch (m.loadAll limit) filler), m)
  | .loadAll _ _ _, .fail => (none, m)
  | .fill epoch rows filler, .go => (filler.next, m.fillRows epoch rows (filler.room cap m))
  | .pop key, .go => (some (.removeRow key .delete), m.popped key)
  | .removeRow key remover, .go => (some (.removeRelations key remover), m.deleted key)
  | .removeRow key _, .fail => (some (.putBack key false), m)
  | .removeRelations key remover, .go => (some (.note key remover), m)
  | .removeRelations key _, .fail => (some (.putBack key true), m)
  | .note key remover, .go => (remover.next, m.noteRemoved key)
  | .putBack key rowGone, .go => (if rowGone then some (.saveBack key) else none, m.cached key)
  | .saveBack key, .go => (none, m.saved key)
  | .saveBack _, .fail => (none, m)
  | .acquire key, .go => (some (.caps key (m.cache.contains key)), { m with lock := some id })
  | .caps key existed, .count => (some (.loadAll m.removalEpoch none (.count key existed)), m)
  | .caps key existed, .evict victim =>
    if m.cache.contains victim then
      (some (.removeRow victim (.evict key existed)), m.popped victim)
    else (some stage, m)
  | .caps key existed, .go => (some (.persist key existed), { m.cached key with lock := none })
  | .caps _ _, .fail => (none, m)
  | .persist key _, .go => (some (.dropCheck key), m.saved key)
  | .persist key existed, .fail => (some (.rollback key existed), m)
  | .dropCheck key, .go => (none, if m.cache.contains key then m else m.deleted key)
  | .dropCheck _, .fail => (none, m)
  | .rollback key existed, .go => (none, if existed then m.cached key else m.popped key)
  | _, _ => (some stage, m)

namespace Hydration

/-- The call stands at its next stage, or is gone. -/
def restage (s : Hydration) (id : Nat) (next : Option CallStage) : Hydration :=
  { s with
    calls := match next with
      | none => s.calls.pop id
      | some stage => s.calls.set ⟨id, stage⟩ }

/-- A call that has returned holds no lock. -/
def released (m : Shared) (id : Nat) (next : Option CallStage) : Shared :=
  if next = none ∧ m.lock = some id then { m with lock := none } else m

/-- Another call is in a section under the lock. -/
def blocked (s : Hydration) (id : Nat) (stage : CallStage) : Bool :=
  stage.locked && s.shared.lock.any (· ≠ id)

end Hydration

/-- A new call, or the next part of one. -/
inductive HydrationEvent where
  | merge (id : Nat) (limit : Option Nat) (allowOverCap : Bool)
  | lookup (id : Nat) (key : String) (after : AfterLookup)
  | part (id : Nat) (choice : Choice)
deriving DecidableEq

def Hydration.start (s : Hydration) (id : Nat) (stage : CallStage) : Hydration :=
  if (s.calls.get? id).isSome then s else s.restage id (some stage)

/-- One step of a run; a call that has to wait for the lock leaves everything as it is. -/
def HydrationEvent.step (cap : Nat) : HydrationEvent → Hydration → Hydration
  | .merge id limit allowOverCap, s => s.start id (.snapshot limit allowOverCap)
  | .lookup id key after, s => s.start id (.lookup key after)
  | .part id choice, s =>
    match s.calls.get? id with
    | none => s
    | some call =>
      if s.blocked id call.stage then s
      else
        let (next, m) := call.stage.advance cap id choice s.shared
        { s with shared := Hydration.released m id next }.restage id next

end TappsBrain
