import ReorgSync.Filter.Fingerprint
import ReorgSync.Store.Entry

namespace ReorgSync

/-! A store holds one entry for each filter, under the filter's fingerprint. -/

/-- What a store of entries can do. Entries are named by their keys. -/
class LogStore (σ : Type) where
  count : σ → Except SyncError Nat
  openEntry : σ → Filter → Except SyncError σ
  lastIndex : σ → String → Except SyncError Nat
  log? : σ → String → Nat → Except SyncError (Option Log)
  logs : σ → String → Except SyncError (List Log)
  lastBlock : σ → String → Except SyncError (Option Block)
  identity : σ → String → Except SyncError (Option ChainIdentity)
  tryApply : σ → String → Event → Change σ
  tryRecord : σ → String → ChainIdentity → Change σ
  isWhole_tryApply : ∀ store key event, (tryApply store key event).IsWhole store
  isWhole_tryRecord : ∀ store key identity, (tryRecord store key identity).IsWhole store

namespace LogStore

variable {σ : Type} [LogStore σ]

def apply (store : σ) (key : String) (event : Event) : Except SyncError σ :=
  (tryApply store key event).made

def record (store : σ) (key : String) (identity : ChainIdentity) : Except SyncError σ :=
  (tryRecord store key identity).made

end LogStore

structure StoredEntry (σ : Type) where
  store : σ
  key : String

instance [LogStore σ] : EntryStore (StoredEntry σ) where
  lastIndex entry := LogStore.lastIndex entry.store entry.key
  log? entry := LogStore.log? entry.store entry.key
  logs entry := LogStore.logs entry.store entry.key
  lastBlock entry := LogStore.lastBlock entry.store entry.key
  identity entry := LogStore.identity entry.store entry.key
  tryApply entry event :=
    (LogStore.tryApply entry.store entry.key event).map (StoredEntry.mk · entry.key)
  tryRecord entry identity :=
    (LogStore.tryRecord entry.store entry.key identity).map (StoredEntry.mk · entry.key)
  isWhole_tryApply entry event :=
    (LogStore.isWhole_tryApply entry.store entry.key event).map (StoredEntry.mk · entry.key)
  isWhole_tryRecord entry identity :=
    (LogStore.isWhole_tryRecord entry.store entry.key identity).map (StoredEntry.mk · entry.key)

namespace StoredEntry

variable {σ : Type} [LogStore σ]

theorem apply_eq (entry : StoredEntry σ) (event : Event) :
    EntryStore.apply entry event =
      (LogStore.apply entry.store entry.key event).map (StoredEntry.mk · entry.key) :=
  Change.made_map _ _

theorem record_eq (entry : StoredEntry σ) (identity : ChainIdentity) :
    EntryStore.record entry identity =
      (LogStore.record entry.store entry.key identity).map (StoredEntry.mk · entry.key) :=
  Change.made_map _ _

end StoredEntry

end ReorgSync
