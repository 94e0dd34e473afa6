import ReorgSync.Error
import ReorgSync.Log

namespace ReorgSync

/-! What is stored for one filter: a sequence of logs, the block it ends at,
and the identity of the chain it belongs to. -/

structure Entry where
  logs : List Log := []
  lastBlock : Option Block := none
  identity : Option ChainIdentity := none
deriving DecidableEq, Repr

namespace Entry

/-- Why an event cannot be applied to so many logs. -/
def truncationError (stored length : Nat) : SyncError :=
  .storage s!"cannot truncate {stored} logs to length {length}"

/-- Apply an event as a whole: cut, append, and move to its block. A cut beyond
the end is refused, and then nothing changes. -/
def apply (entry : Entry) (event : Event) : Except SyncError Entry :=
  match event.truncateTo with
  | none =>
      .ok { entry with logs := entry.logs ++ event.added, lastBlock := some event.block }
  | some length =>
      if entry.logs.length < length then .error (truncationError entry.logs.length length)
      else .ok { entry with
        logs := entry.logs.take length ++ event.added
        lastBlock := some event.block }

end Entry

/-! ## Entries behind an interface

Whoever works on an entry needs only these operations. Each of them may fail, and a change
that is refused has to leave everything as it was. -/

/-- How a change ended, and what is there afterwards. -/
structure Change (σ : Type) where
  result : Except SyncError Unit
  after : σ

namespace Change

/-- A change that is made in one step, or not at all. -/
def atOnce (before : σ) : Except SyncError σ → Change σ
  | .ok after => ⟨.ok (), after⟩
  | .error error => ⟨.error error, before⟩

/-- What is there after a change that was made. -/
def made (change : Change σ) : Except SyncError σ :=
  change.result.map fun _ => change.after

/-- The same change of what holds it as a part. -/
def map (part : σ → τ) (change : Change σ) : Change τ where
  result := change.result
  after := part change.after

/-- A change that was refused has left everything as it was. -/
def IsWhole (change : Change σ) (before : σ) : Prop :=
  ∀ error, change.result = .error error → change.after = before

@[simp] theorem made_atOnce (before : σ) (after : Except SyncError σ) :
    (atOnce before after).made = after := by
  cases after <;> rfl

/-- A change that is whole is known from what it came to. -/
theorem IsWhole.eq_atOnce {change : Change σ} {before : σ} (isWhole : change.IsWhole before) :
    change = atOnce before change.made := by
  rcases change with ⟨result, after⟩
  cases result with
  | ok _ => rfl
  | error error => exact congrArg (Change.mk (.error error)) (isWhole error rfl)

theorem made_map (part : σ → τ) (change : Change σ) :
    (change.map part).made = change.made.map part := by
  rcases change with ⟨result, after⟩
  cases result <;> rfl

theorem IsWhole.map {change : Change σ} {before : σ} (isWhole : change.IsWhole before)
    (part : σ → τ) : (change.map part).IsWhole (part before) :=
  fun error refused => congrArg part (isWhole error refused)

theorem isWhole_atOnce (before : σ) (after : Except SyncError σ) :
    (atOnce before after).IsWhole before := by
  intro error refused
  cases after with
  | ok after => cases refused
  | error error => rfl

end Change

class EntryStore (ε : Type) where
  lastIndex : ε → Except SyncError Nat
  log? : ε → Nat → Except SyncError (Option Log)
  logs : ε → Except SyncError (List Log)
  lastBlock : ε → Except SyncError (Option Block)
  identity : ε → Except SyncError (Option ChainIdentity)
  tryApply : ε → Event → Change ε
  /-- Record the identity of the chain, replacing one recorded before. -/
  tryRecord : ε → ChainIdentity → Change ε
  isWhole_tryApply : ∀ entry event, (tryApply entry event).IsWhole entry
  isWhole_tryRecord : ∀ entry identity, (tryRecord entry identity).IsWhole entry

namespace EntryStore

variable {ε : Type} [EntryStore ε]

def apply (entry : ε) (event : Event) : Except SyncError ε :=
  (tryApply entry event).made

def record (entry : ε) (identity : ChainIdentity) : Except SyncError ε :=
  (tryRecord entry identity).made

/-- The logs from an index on, as far as there are any below `count` more. -/
def logsFrom (entry : ε) : (count index : Nat) → Except SyncError (List Log)
  | 0, _ => .ok []
  | count + 1, index => do
      let log ← log? entry index
      return log.toList ++ (← logsFrom entry count (index + 1))

def logsByIndex (entry : ε) : Except SyncError (List Log) := do
  logsFrom entry (← lastIndex entry) 0

end EntryStore

/-- An entry in memory cannot fail, except to be cut beyond its end. -/
instance : EntryStore Entry where
  lastIndex entry := .ok entry.logs.length
  log? entry index := .ok entry.logs[index]?
  logs entry := .ok entry.logs
  lastBlock entry := .ok entry.lastBlock
  identity entry := .ok entry.identity
  tryApply entry event := .atOnce entry (entry.apply event)
  tryRecord entry identity := .atOnce entry (.ok { entry with identity := some identity })
  isWhole_tryApply entry event := Change.isWhole_atOnce entry (entry.apply event)
  isWhole_tryRecord entry _ := Change.isWhole_atOnce entry _

theorem Entry.apply_eq (entry : Entry) (event : Event) :
    EntryStore.apply entry event = entry.apply event :=
  Change.made_atOnce entry (entry.apply event)

end ReorgSync
