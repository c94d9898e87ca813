import AccessControl.Cache.Memory
import AccessControl.Text.Sorted

/-!
A cache in memory that fails on purpose, for trying out what depends on a cache. A call that fails
does nothing; every write and removal that succeeds is logged. Keys are listed in order.
-/

namespace AccessControl

inductive CacheWeakness where
  | none
  | everything
  | markerWrites
  | valueWrites
  | markerReads
  | deletes
  | listings
deriving DecidableEq, Repr, Inhabited

inductive CacheCall where
  | set (key : String) (ttl : Duration)
  | delete (key : String)
deriving DecidableEq, Repr

structure FaultyCache where
  weakness : CacheWeakness
  memory : MemoryCache
  log : List CacheCall

namespace FaultyCache

def refused : Fault := .cache "connection refused"

def isMarker (key : String) : Bool :=
  "role:".toList.isPrefixOf key.toList

def failsGet (w : CacheWeakness) (key : String) : Bool :=
  w == .everything || (w == .markerReads && isMarker key)

def failsSet (w : CacheWeakness) (key : String) : Bool :=
  w == .everything || (w == .markerWrites && isMarker key) || (w == .valueWrites && !isMarker key)

def failsDelete (w : CacheWeakness) : Bool := w == .everything || w == .deletes
def failsKeys (w : CacheWeakness) : Bool := w == .everything || w == .listings

instance : CacheService FaultyCache where
  get c key :=
    if failsGet c.weakness key then (.error refused, c)
    else
      let (value, m) := c.memory.get key
      (.ok value, { c with memory := m })
  set c key value ttl :=
    if failsSet c.weakness key then (.error refused, c)
    else
      (.ok (), { c with memory := c.memory.set key value ttl, log := .set key ttl :: c.log })
  delete c key :=
    if failsDelete c.weakness then (.error refused, c)
    else (.ok (), { c with memory := c.memory.erase key, log := .delete key :: c.log })
  keys c pattern :=
    if failsKeys c.weakness then (.error refused, c)
    else (.ok ((c.memory.keys pattern).mergeSort (· ≤ ·)), c)

end FaultyCache

end AccessControl
