import ReorgSync.Proofs.Sync.ChangeLog
import ReorgSync.Proofs.Sync.Termination

namespace ReorgSync

/-! What a session asks of its node, word for word. Nothing is assumed of the answers: they
are written down in a world that keeps them, and so a whole run can be told by what was
asked, what was answered, and what was stored upon it. -/

instance : (call : Node.Call) → DecidableEq call.Value
  | .height => inferInstanceAs (DecidableEq Nat)
  | .blockByTag _ => inferInstanceAs (DecidableEq (Option Block))
  | .blockByHash _ _ => inferInstanceAs (DecidableEq (Option Block))
  | .logs _ => inferInstanceAs (DecidableEq (List Log))
  | .chainId => inferInstanceAs (DecidableEq Nat)

/-- A question to a node, and the answer if it was waited for. -/
structure Exchange where
  call : Node.Call
  reply? : Option call.Reply
deriving DecidableEq

namespace Exchange

/-- Whether the logs of a range of heights were asked for. -/
def IsRange (exchange : Exchange) : Prop :=
  match exchange.call with
  | .logs ⟨_, .range _ _⟩ => True
  | _ => False

/-- The node has answered the height of its head. -/
def headAt (head : Nat) : Exchange :=
  ⟨.height, some (.ok head)⟩

/-- The node has answered a block for a height. -/
def blockAt (height : Nat) (block : Block) : Exchange :=
  ⟨.blockByTag (.number height), some (.ok (some block))⟩

/-- The node has answered a block for a hash. -/
def blockOf (hash : String) (block : Block) : Exchange :=
  ⟨.blockByHash hash false, some (.ok (some block))⟩

/-- The node has answered the logs of the block with a hash. -/
def logsOf (filter : Filter) (hash : String) (logs : List Log) : Exchange :=
  ⟨.logs ⟨filter, .blockHash hash⟩, some (.ok logs)⟩

end Exchange

def Query.exchanges : (query : Query) → query.Answer → List Exchange
  | .node call, reply => [⟨call, some reply⟩]
  | .cancelableNode call, reply? => [⟨call, reply?⟩]
  | _, _ => []

/-- Nothing was asked about ranges. -/
def Unranged (heard : List Exchange) : Prop :=
  ∀ exchange ∈ heard, ¬ exchange.IsRange

theorem unranged_nil : Unranged [] :=
  fun _ member => (List.not_mem_nil member).elim

theorem Unranged.append {heard more : List Exchange} (unranged : Unranged heard)
    (unrangedThen : Unranged more) : Unranged (heard ++ more) := by
  intro exchange member
  rcases List.mem_append.mp member with member | member
  · exact unranged exchange member
  · exact unrangedThen exchange member

theorem unranged_singleton {exchange : Exchange} (other : ¬ exchange.IsRange) :
    Unranged [exchange] := by
  intro said member
  rw [List.mem_singleton.mp member]
  exact other

namespace Session

open Routine (Keeps)

section

variable {ε ω : Type} [EntryStore ε] [FaithfulStore ε]

/-- What has happened since a moment: the questions to the node, and the events that were
stored and published. Nothing else was done to the entry. -/
structure Since (transcript : ω → List Exchange) (session : Session ε) (world : ω)
    (heard : List Exchange) (events : List Event) (after : Session ε) (later : ω) : Prop where
  heard : transcript later = transcript world ++ heard
  ledger : after.ledger = session.ledger.followAll events
  published : after.events = session.events.publishAll events
  backlog : after.follower.backlog = session.follower.backlog

variable {transcript : ω → List Exchange} {session now after : Session ε} {world late later : ω}
  {heard more : List Exchange} {events stored : List Event}

theorem since_start : Since transcript session world [] [] session world where
  heard := (List.append_nil _).symm
  ledger := rfl
  published := rfl
  backlog := rfl

theorem Since.trans (since : Since transcript session world heard events now late)
    (sinceThen : Since transcript now late more stored after later) :
    Since transcript session world (heard ++ more) (events ++ stored) after later where
  heard := by
    rw [sinceThen.heard, since.heard, List.append_assoc]
  ledger := by
    rw [sinceThen.ledger, since.ledger, Ledger.followAll_append]
  published := by
    rw [sinceThen.published, since.published, Feed.publishAll_append]
  backlog := sinceThen.backlog.trans since.backlog

theorem Since.wait (since : Since transcript session world heard events now late)
    (sinceThen : Since transcript now late more [] after later) :
    Since transcript session world (heard ++ more) events after later := by
  have both := since.trans sinceThen
  rw [List.append_nil] at both
  exact both

end

end Session

/-- Any answer is acceptable, as long as heights are words. All questions to the node are
written down, and meanwhile nothing happens to the entry. -/
def Conduct.transcribed {ε ω : Type} [EntryStore ε] [FaithfulStore ε]
    (transcript : ω → List Exchange) : Conduct (Session ε) ω :=
  fun query session world answer after later =>
    Session.Since transcript session world (query.exchanges answer) [] after later ∧
      Conduct.headsUpTo (Word.size 64 - 1) query session world answer after later

namespace Session

open Routine (Keeps)

variable {ε ω : Type} [EntryStore ε] [FaithfulStore ε] {transcript : ω → List Exchange}
  {session now : Session ε} {world late : ω} {heard : List Exchange} {events : List Event}

/-- Work that stores nothing, and what it has heard when it ends with a value. Where it
ends without one, it has not asked about ranges. -/
abbrev Asks (transcript : ω → List Exchange) (met : α → List Exchange → Prop)
    (routine : Routine (Session ε) α) (session : Session ε) (world : ω) : Prop :=
  routine.Keeps (Conduct.transcribed transcript) (fun _ _ => True) (Outcome.Meets
    (fun value after later => ∃ heard, Since transcript session world heard [] after later ∧
      met value heard)
    (fun after later => ∃ heard, Since transcript session world heard [] after later ∧
      Unranged heard)) session world

/-- Such work in front of other work. -/
theorem Asks.sequence {met : α → List Exchange → Prop} {first : Routine (Session ε) α}
    {second : α → Routine (Session ε) β} {ends : Outcome β → Session ε → ω → Prop}
    (asks : Asks transcript met first now late)
    (since : Since transcript session world heard events now late)
    (continues : ∀ value after later more, met value more →
      Since transcript session world (heard ++ more) events after later →
        (second value).Keeps (Conduct.transcribed transcript) (fun _ _ => True) ends after later)
    (quits : ∀ outcome after later more, outcome.value? = none → Unranged more →
      Since transcript session world (heard ++ more) events after later →
        ends outcome after later) :
    (first >>= second).Keeps (Conduct.transcribed transcript) (fun _ _ => True) ends now late := by
  apply asks.bind
  · intro value after later holds
    rcases holds with ⟨more, sinceThen, holds⟩
    exact continues value after later more holds (since.wait sinceThen)
  · intro cause after later stops
    rcases stops with ⟨more, sinceThen, unranged⟩
    exact quits _ after later more rfl unranged (since.wait sinceThen)
  · intro cause after later stops
    rcases stops with ⟨more, sinceThen, unranged⟩
    exact quits _ after later more rfl unranged (since.wait sinceThen)

theorem asks_done {met : α → List Exchange → Prop} {value : α} (holds : met value []) :
    Asks transcript met (.done value) session world :=
  ⟨[], since_start, holds⟩

theorem asks_enter (phase : Phase) :
    Asks transcript (fun _ heard => heard = []) (enter phase) session world := by
  refine ⟨trivial, [], ?_, rfl⟩
  exact ⟨(List.append_nil _).symm, rfl, rfl, rfl⟩

theorem asks_checkCanceled :
    Asks transcript (fun _ heard => heard = []) .checkCanceled session world := by
  intro canceled after later accepted
  cases canceled with
  | true => exact ⟨[], accepted.1, unranged_nil⟩
  | false => exact ⟨[], accepted.1, rfl⟩

/-- Such work in front of more of it. -/
theorem Asks.andThen {met : α → List Exchange → Prop} {metThen : β → List Exchange → Prop}
    {first : Routine (Session ε) α} {second : α → Routine (Session ε) β}
    (asks : Asks transcript met first session world)
    (unranged : ∀ value heard, met value heard → Unranged heard)
    (continues : ∀ value after later heard, met value heard →
      Asks transcript (fun result more => metThen result (heard ++ more)) (second value) after
        later) :
    Asks transcript metThen (first >>= second) session world := by
  apply asks.sequence since_start
  · intro value now late heard holds since
    apply (continues value now late heard holds).weaken
    · intro result after later found
      rcases found with ⟨more, sinceThen, found⟩
      exact ⟨heard ++ more, since.wait sinceThen, found⟩
    · intro after later stops
      rcases stops with ⟨more, sinceThen, unrangedThen⟩
      exact ⟨heard ++ more, since.wait sinceThen, (unranged value heard holds).append unrangedThen⟩
  · intro outcome after later heard noValue unranged since
    cases outcome with
    | value value => cases noValue
    | error cause => exact ⟨heard, since, unranged⟩
    | halted cause => exact ⟨heard, since, unranged⟩

/-- A question to the node that may be given up. -/
theorem asks_reply (call : Node.Call) :
    Asks transcript (fun reply? heard => heard = [⟨call, reply?⟩])
      (Routine.ask (.cancelableNode call) .done).guarded session world := by
  apply asks_checkCanceled.andThen
  · intro _ _ none
    rw [none]
    exact unranged_nil
  · intro _ now late _ none reply? after later accepted
    rw [none]
    exact ⟨_, accepted.1, rfl⟩

theorem asks_call {call : Node.Call} (other : ∀ reply?, ¬ Exchange.IsRange ⟨call, reply?⟩) :
    Asks transcript (fun value heard => heard = [⟨call, some (.ok value)⟩]) (Session.call call)
      session world := by
  apply asks_checkCanceled.andThen
  · intro _ _ none
    rw [none]
    exact unranged_nil
  · intro _ now late _ none
    rw [none, Routine.node, Routine.cancelable]
    intro reply? after later accepted
    rcases reply? with _ | error | value
    · exact ⟨_, accepted.1, unranged_singleton (other _)⟩
    · exact ⟨_, accepted.1, unranged_singleton (other _)⟩
    · exact ⟨_, accepted.1, rfl⟩

theorem asks_height :
    Asks transcript (fun head heard => heard = [.headAt head] ∧ head < Word.size 64)
      (Session.call .height) session world := by
  apply asks_checkCanceled.andThen
  · intro _ _ none
    rw [none]
    exact unranged_nil
  · intro _ now late _ none
    rw [none, Routine.node, Routine.cancelable]
    intro reply? after later accepted
    rcases reply? with _ | error | head
    · exact ⟨_, accepted.1, unranged_singleton id⟩
    · exact ⟨_, accepted.1, unranged_singleton id⟩
    · have below : head ≤ Word.size 64 - 1 := accepted.2 head rfl
      exact ⟨_, accepted.1, rfl, (Nat.le_sub_one_iff_lt (Nat.two_pow_pos 64)).mp below⟩

theorem asks_blockAt (height : Nat) :
    Asks transcript (fun block heard => heard = [.blockAt height block]) (Session.blockAt height)
      session world := by
  have other : ∀ reply?, ¬ Exchange.IsRange ⟨.blockByTag (.number height), reply?⟩ := fun _ => id
  apply (asks_call other).andThen
  · intro found heard said
    rw [said]
    exact unranged_singleton (other _)
  · intro found after later heard said
    rw [said]
    cases found with
    | none => exact ⟨[], since_start, unranged_nil⟩
    | some block => exact ⟨[], since_start, rfl⟩

theorem asks_blockWithHash (hash : String) :
    Asks transcript (fun block heard => heard = [.blockOf hash block]) (blockWithHash hash) session
      world := by
  have other : ∀ reply?, ¬ Exchange.IsRange ⟨.blockByHash hash false, reply?⟩ := fun _ => id
  apply (asks_call other).andThen
  · intro found heard said
    rw [said]
    exact unranged_singleton (other _)
  · intro found after later heard said
    rw [said]
    cases found with
    | none => exact ⟨[], since_start, unranged_nil⟩
    | some block => exact ⟨[], since_start, rfl⟩

theorem asks_inWindow {look : Window → α} {met : α → Prop} (always : ∀ window, met (look window)) :
    Asks transcript (fun value heard => met value ∧ heard = []) (inWindow look) session world := by
  intro _ now late accepted _ after later acceptedThen
  exact ⟨[], accepted.1.trans acceptedThen.1, always now.follower.window, rfl⟩

/-! ## Logs of blocks -/

theorem asks_sleep (time : Nat) :
    Asks transcript (fun _ heard => heard = []) (.sleep time) session world := by
  intro canceled after later accepted
  cases canceled with
  | true => exact ⟨[], accepted.1, unranged_nil⟩
  | false => exact ⟨[], accepted.1, rfl⟩

/-- However often it takes, the logs that are found are an answer of the node. -/
theorem asks_retryLogs (filter : Filter) (hash : String) (delay attempts : Nat) :
    Asks transcript (fun logs heard => Unranged heard ∧ .logsOf filter hash logs ∈ heard)
      (retryLogs ⟨filter, .blockHash hash⟩ delay attempts) session world := by
  have other : ∀ reply?, ¬ Exchange.IsRange ⟨.logs ⟨filter, .blockHash hash⟩, reply?⟩ := fun _ => id
  induction attempts generalizing session world with
  | zero =>
      apply (asks_call other).weaken
      · intro logs after later found
        rcases found with ⟨heard, since, said⟩
        rw [said] at since
        exact ⟨_, since, unranged_singleton (other _), List.mem_singleton_self _⟩
      · exact fun _ _ holds => holds
  | succ attempts induction =>
      apply (asks_reply _).andThen
      · intro reply heard said
        rw [said]
        exact unranged_singleton (other _)
      · intro reply now late heard said
        rw [said]
        rcases reply with _ | error | logs
        · exact ⟨[], since_start, unranged_nil⟩
        · apply (asks_sleep delay).andThen
          · intro _ heard none
            rw [none]
            exact unranged_nil
          · intro _ now late heard none
            rw [none]
            apply induction.weaken
            · intro logs after later found
              rcases found with ⟨heard, since, unranged, member⟩
              exact ⟨heard, since, (unranged_singleton (other _)).append unranged,
                List.mem_append_right _ member⟩
            · exact fun _ _ holds => holds
        · exact ⟨[], since_start, unranged_singleton (other _), List.mem_singleton_self _⟩

theorem asks_logsOfBlocks (config : Config) (blocks : List Block) :
    Asks transcript (fun logs heard => Unranged heard ∧ ∃ parts, logs = parts.flatten ∧
      List.Forall₂ (fun block part => .logsOf config.filter block.hash part ∈ heard) blocks parts)
      (logsOfBlocks config blocks) session world := by
  induction blocks generalizing session world with
  | nil => exact asks_done ⟨unranged_nil, [], rfl, .nil⟩
  | cons block rest induction =>
      apply (asks_retryLogs config.filter block.hash _ _).andThen
      · exact fun _ _ found => found.1
      · intro logs now late heard found
        apply induction.andThen
        · exact fun _ _ found => found.1
        · intro behind now late more answered
          rcases answered with ⟨unranged, parts, rfl, answered⟩
          apply asks_done
          rw [List.append_nil]
          refine ⟨found.1.append unranged, logs :: parts, rfl, ?_⟩
          refine .cons (List.mem_append_left _ found.2) ?_
          exact answered.imp fun _ _ member => List.mem_append_right _ member

/-! ## Storing -/

/-- An event is stored and published, or nothing happens. -/
theorem keeps_apply_since (event : Event) :
    (Session.apply event).Keeps (Conduct.transcribed transcript) (fun _ _ => True) (Outcome.Meets
      (fun _ after later => Since transcript session world [] [event] after later)
      (fun after later => Since transcript session world [] [] after later)) session world := by
  rw [Session.apply, changeEntry, bind_assoc]
  change Keeps _ _ _ (Routine.ofExcept (EntryStore.apply session.entry event) >>= _) session world
  cases applied : EntryStore.apply session.entry event with
  | error error => exact since_start
  | ok stored =>
      have follows : FaithfulStore.ledger stored = session.ledger.follow event :=
        FaithfulStore.ledger_apply applied
      exact ⟨trivial, trivial, (List.append_nil _).symm, follows, rfl, rfl⟩

end Session

end ReorgSync
