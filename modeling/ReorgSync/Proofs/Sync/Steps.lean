import ReorgSync.Proofs.Routine.Attains
import ReorgSync.Proofs.Sync.Lookup

namespace ReorgSync

/-! What routines attain while a chain stands still. Its node always answers, and
nothing is canceled. -/

namespace Routine

variable {chain : StillChain} {state : σ} {routine : Routine σ α}

/-- Where nothing fails, what a routine tries it attains. -/
theorem Tries.attains {invariant : σ → Prop} {met : α → σ → Prop}
    (tries : routine.Tries chain False invariant met state) :
    routine.Attains chain.surroundings
      (fun value after _ => invariant after ∧ met value after) state () := by
  rcases tries.exists_run (chain.surroundings_follows False) with ⟨value, after, run, holds⟩
  exact ⟨value, after, (), run, holds⟩

theorem Seeks.attains {found : α → Prop} {met : α → σ → Unit → Prop}
    (seeks : routine.Seeks chain False found state)
    (holds : ∀ value, found value → met value state ()) :
    routine.Attains chain.surroundings met state () := by
  apply (Tries.attains seeks).mono
  intro value after _ isFound
  rcases isFound with ⟨rfl, isFound⟩
  exact holds value isFound

theorem Seeks.attains_found {value : α} {met : α → σ → Unit → Prop}
    (finds : routine.Seeks chain False (· = value) state) (holds : met value state ()) :
    routine.Attains chain.surroundings met state () := by
  apply finds.attains
  intro _ same
  rw [same]
  exact holds

end Routine

/-! What the steps of a session attain. -/

namespace Session

open Routine

variable {chain : StillChain} {session : Session Entry} {height : Nat} {block : Block}

theorem attains_call {call : Node.Call} {value : call.Value}
    (replies : chain.reply call = .ok value) {met : call.Value → Session Entry → Unit → Prop}
    (holds : met value session ()) :
    (Session.call call).Attains chain.surroundings met session () :=
  (seeks_call replies).attains_found holds

theorem attains_reply {call : Node.Call} {reply : call.Reply} (replies : chain.reply call = reply)
    {met : Option call.Reply → Session Entry → Unit → Prop} (holds : met (some reply) session ()) :
    (Routine.ask (.cancelableNode call) .done : Routine (Session Entry) _).guarded.Attains
      chain.surroundings met session () := by
  apply seeks_reply.attains
  intro answer allowed
  cases answer with
  | none => exact allowed.elim
  | some other =>
      rw [allowed.resolve_right And.left, replies]
      exact holds

theorem attains_blockAt (found : chain.blocks[height]? = some block)
    {met : Block → Session Entry → Unit → Prop} (holds : met block session ()) :
    (blockAt height).Attains chain.surroundings met session () := by
  apply Seeks.attains (seeks_blockAt fun missing => nomatch missing.symm.trans found)
  intro other isOther
  cases found.symm.trans isOther
  exact holds

theorem attains_checkCanceled {met : Unit → Session Entry → Unit → Prop}
    (holds : met () session ()) :
    checkCanceled.Attains chain.surroundings met session () :=
  .ask rfl (.done holds)

theorem attains_readEntry {read : Entry → Except SyncError α} {value : α}
    (succeeds : read session.entry = .ok value) {met : α → Session Entry → Unit → Prop}
    (holds : met value session ()) :
    (readEntry read).Attains chain.surroundings met session () := by
  apply Attains.bind
  apply Attains.get
  exact .ofExcept succeeds holds

theorem attains_changeEntry {change : Entry → Except SyncError Entry} {entry : Entry}
    (succeeds : change session.entry = .ok entry) {met : Unit → Session Entry → Unit → Prop}
    (holds : met () { session with entry } ()) :
    (changeEntry change).Attains chain.surroundings met session () := by
  apply Attains.bind
  apply attains_readEntry succeeds
  exact .modify holds

theorem attains_apply {event : Event} {entry : Entry}
    (succeeds : session.entry.apply event = .ok entry)
    {met : Unit → Session Entry → Unit → Prop}
    (holds : met () { session with entry, events := session.events.publish event } ()) :
    (Session.apply event).Attains chain.surroundings met session () := by
  apply Attains.bind
  apply attains_changeEntry ((Entry.apply_eq session.entry event).trans succeeds)
  exact .modify holds

end Session

end ReorgSync
