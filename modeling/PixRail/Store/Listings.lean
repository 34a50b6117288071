import PixRail.Store.Memory

/-!
# The listings of the store

`Outbox` of `internal/store/memory.go`.
-/

namespace PixRail.Store.MemoryStore

open Go Rail Events

/-- `Outbox`: a copy of all records. -/
def outbox (s : MemoryStore) (ctx : Ctx) : Except Err (List OutboxRecord) :=
  match ctx with
  | some err => .error err.err
  | none => .ok s.events

end PixRail.Store.MemoryStore
