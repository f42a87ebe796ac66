import RichPresence.Types.Ids

namespace RichPresence.Detect

/-- A memoized SteamAppId with its invalidation sequence. -/
inductive AppIdMemo
  | absent (seq : UInt64)
  | present (seq : UInt64) (id : AppId)
  | stale (seq : UInt64)
  deriving DecidableEq, Repr

namespace AppIdMemo

def seq : AppIdMemo → UInt64
  | absent seq | present seq _ | stale seq => seq

def isResolved : AppIdMemo → Bool
  | stale _ => false
  | _ => true

/-- The sequence a lookup goes to the environ with; a resolved memo is returned. -/
def miss : Option AppIdMemo → Option UInt64
  | some (stale seq) => some seq
  | none => some 0
  | some _ => none

def fresh (seq0 : UInt64) : Option AppIdMemo → Bool
  | some (stale seq) => seq = seq0
  | none => seq0 = 0
  | some _ => false

def verified (seq0 : UInt64) : Option AppId → AppIdMemo
  | some id => present seq0 id
  | none => absent seq0

-- The sequence wraps around.
def dropped : Option AppIdMemo → AppIdMemo
  | some memo => stale (memo.seq + 1)
  | none => stale 1

end AppIdMemo

inductive Reader
  | scan
  | dispatch
  deriving DecidableEq, Repr

/-- A call of `cached_app_id` between its two lock sections: what the first one saw,
the start and the outcome of the environ read, and the drops of the pid so far. -/
structure CachedCall where
  pid : Nat
  seq0 : UInt64
  dropsSeen : Nat
  read : Option (Nat × Option AppId) := none

/-- The cache and the calls under way. The clock counts the steps; with it stand, for
each pid, its latest drop, the number of its drops, and the start of the environ read
behind its memo. -/
structure AppIdCache where
  cache : Nat → Option AppIdMemo := fun _ => none
  call : Reader → Option CachedCall := fun _ => none
  clock : Nat := 0
  lastDrop : Nat → Option Nat := fun _ => none
  drops : Nat → Nat := fun _ => 0
  readAt : Nat → Nat := fun _ => 0

inductive CacheStep
  | lookup (reader : Reader) (pid : Nat)
  | readEnviron (reader : Reader) (id : Option AppId)
  | settle (reader : Reader)
  | dropAppid (pid : Nat)
  | sweepDeadAppids (live : List Nat)

namespace AppIdCache

def lookup (s : AppIdCache) (reader : Reader) (pid : Nat) : AppIdCache :=
  match s.call reader, AppIdMemo.miss (s.cache pid) with
  | none, some seq0 => { s with call := Function.update s.call reader (some ⟨pid, seq0, s.drops pid, none⟩) }
  | _, _ => s

def readEnviron (s : AppIdCache) (reader : Reader) (id : Option AppId) : AppIdCache :=
  match s.call reader with
  | some ⟨pid, seq0, dropsSeen, none⟩ =>
      { s with call := Function.update s.call reader (some ⟨pid, seq0, dropsSeen, some (s.clock, id)⟩) }
  | _ => s

def settle (s : AppIdCache) (reader : Reader) : AppIdCache :=
  match s.call reader with
  | some ⟨pid, seq0, _, some (started, id)⟩ =>
      let s := { s with call := Function.update s.call reader none }
      if AppIdMemo.fresh seq0 (s.cache pid) then
        { s with
          cache := Function.update s.cache pid (some (.verified seq0 id))
          readAt := Function.update s.readAt pid started }
      else s
  | _ => s

/-- The dispatch thread drops between two of its calls. -/
def dropAppid (s : AppIdCache) (pid : Nat) : AppIdCache :=
  match s.call .dispatch with
  | some _ => s
  | none =>
      { s with
        cache := Function.update s.cache pid (some (.dropped (s.cache pid)))
        lastDrop := Function.update s.lastDrop pid (some s.clock)
        drops := Function.update s.drops pid (s.drops pid + 1) }

/-- The scan thread sweeps between two of its calls. -/
def sweepDeadAppids (s : AppIdCache) (live : List Nat) : AppIdCache :=
  match s.call .scan with
  | some _ => s
  | none => { s with cache := fun pid => if pid ∈ live then s.cache pid else none }

def act (s : AppIdCache) : CacheStep → AppIdCache
  | .lookup reader pid => s.lookup reader pid
  | .readEnviron reader id => s.readEnviron reader id
  | .settle reader => s.settle reader
  | .dropAppid pid => s.dropAppid pid
  | .sweepDeadAppids live => s.sweepDeadAppids live

def step (s : AppIdCache) (e : CacheStep) : AppIdCache := { s.act e with clock := s.clock + 1 }

end AppIdCache

end RichPresence.Detect
