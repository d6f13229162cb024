import CheckRounds.Pool.Basic
import CheckRounds.Settings.Basic
/-!
Pools made by settings.

The settings are checked first. A pool that they allow has their batch size, and the first
request made of it is to start as many workers as they ask for.
-/

namespace CheckRounds

/-- A pool for these settings and the request that it begins with, unless they are
refused. -/
def Pool.ofSettings {J : Type} (s : Settings) : Except PoolError (Pool J × Request) :=
  match s.validate with
  | .error e => .error e
  | .ok _ => .ok (.new s.batchSize.toNat, .start s.workerThreads.toNat)

end CheckRounds
