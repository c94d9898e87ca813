import AccessControl.Cache.Service
import AccessControl.Glob

/-!
The cache in memory. An entry is live until its time is over; it is dropped when a read or a full
cache comes upon it after that. When the cache is full of live entries, a tenth of them make room
for a new key. The order of the entries decides which ones do, and nothing else.
-/

namespace AccessControl

structure CacheEntry where
  key : String
  value : String
  expiresAt : Nat
deriving DecidableEq, Repr, Inhabited

structure MemoryCache where
  capacity : Nat
  entries : List CacheEntry
  clock : Nat
  hits : Nat
  misses : Nat
  expirations : Nat
  evictions : Nat
deriving DecidableEq, Repr, Inhabited

namespace MemoryCache

def defaultCapacity : Nat := 10000

def ofCapacity (n : Nat) : MemoryCache := ⟨max n 1, [], 0, 0, 0, 0, 0⟩

def size (m : MemoryCache) : Nat := m.entries.length

def isLive (m : MemoryCache) (e : CacheEntry) : Bool := m.clock < e.expiresAt

def find? (m : MemoryCache) (key : String) : Option CacheEntry :=
  m.entries.find? (·.key == key)

def erase (m : MemoryCache) (key : String) : MemoryCache :=
  { m with entries := m.entries.filter fun e => !(e.key == key) }

def advance (m : MemoryCache) (d : Duration) : MemoryCache :=
  { m with clock := m.clock + d.nanos }

def get (m : MemoryCache) (key : String) : Option String × MemoryCache :=
  match m.find? key with
  | none => (none, { m with misses := m.misses + 1 })
  | some e =>
    if m.isLive e then (some e.value, { m with hits := m.hits + 1 })
    else (none, { m.erase key with misses := m.misses + 1, expirations := m.expirations + 1 })

/-- Drops what is no longer live, and a tenth of the capacity if that leaves no room. -/
def makeRoom (m : MemoryCache) : MemoryCache :=
  let live := m.entries.filter m.isLive
  if live.length < m.capacity then { m with entries := live }
  else
    let count := min (max (m.capacity / 10) 1) live.length
    { m with entries := live.drop count, evictions := m.evictions + count }

def put (e : CacheEntry) : List CacheEntry → List CacheEntry
  | [] => [e]
  | f :: rest => if f.key == e.key then e :: rest else f :: put e rest

def set (m : MemoryCache) (key value : String) (ttl : Duration) : MemoryCache :=
  let m := if (m.find? key).isNone && decide (m.capacity ≤ m.size) then m.makeRoom else m
  { m with entries := put ⟨key, value, m.clock + ttl.nanos⟩ m.entries }

def keys (m : MemoryCache) (pattern : String) : List String :=
  (m.entries.filter fun e => m.isLive e && globMatches pattern e.key).map (·.key)

def clear (m : MemoryCache) : MemoryCache :=
  { ofCapacity m.capacity with clock := m.clock }

def hitRate (m : MemoryCache) : Float :=
  let total := m.hits + m.misses
  if total = 0 then 0 else m.hits.toUInt64.toFloat / total.toUInt64.toFloat

instance : CacheService MemoryCache where
  get m key := let (value, m) := m.get key; (.ok value, m)
  set m key value ttl := (.ok (), m.set key value ttl)
  delete m key := (.ok (), m.erase key)
  keys m pattern := (.ok (m.keys pattern), m)

end MemoryCache

end AccessControl
