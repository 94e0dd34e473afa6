import ReorgSync.Store.LogStore

namespace ReorgSync

/-! A store that keeps its entries in memory. -/

/-- Entries with their keys, in the order in which they were opened. -/
structure MemoryStore where
  entries : List (String × Entry) := []
deriving Repr

namespace MemoryStore

/-- The entry of a key; a key without one stands for an empty entry. -/
def entry (store : MemoryStore) (key : String) : Entry :=
  (store.entries.lookup key).getD {}

/-- Replace the entry of a key in a list of entries, or add it at the end. -/
def replace (key : String) (entry : Entry) : List (String × Entry) → List (String × Entry)
  | [] => [(key, entry)]
  | (other, held) :: rest =>
      if other = key then (key, entry) :: rest
      else (other, held) :: replace key entry rest

def setEntry (store : MemoryStore) (key : String) (entry : Entry) : MemoryStore where
  entries := replace key entry store.entries

end MemoryStore

instance : LogStore MemoryStore where
  count store := .ok store.entries.length
  openEntry store filter := .ok (store.setEntry filter.fingerprint (store.entry filter.fingerprint))
  lastIndex store key := EntryStore.lastIndex (store.entry key)
  log? store key := EntryStore.log? (store.entry key)
  logs store key := EntryStore.logs (store.entry key)
  lastBlock store key := EntryStore.lastBlock (store.entry key)
  identity store key := EntryStore.identity (store.entry key)
  tryApply store key event :=
    .atOnce store (((store.entry key).apply event).map (store.setEntry key))
  tryRecord store key identity :=
    .atOnce store (.ok (store.setEntry key { store.entry key with identity := some identity }))
  isWhole_tryApply store _ _ := Change.isWhole_atOnce store _
  isWhole_tryRecord store _ _ := Change.isWhole_atOnce store _

theorem MemoryStore.apply_eq (store : MemoryStore) (key : String) (event : Event) :
    LogStore.apply store key event = ((store.entry key).apply event).map (store.setEntry key) :=
  Change.made_atOnce store _

end ReorgSync
