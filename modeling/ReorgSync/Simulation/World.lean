import ReorgSync.Routine
import ReorgSync.Rpc.Server
import ReorgSync.Simulation.Chain

namespace ReorgSync.Simulation

/-! A scripted world: a node over a scripted chain, whose calls can be made to
fail and can set off further changes, and a clock that moves only while someone
waits. -/

inductive ChainSetting where
  | chainId (value : Nat)
  | maxRange (value : Option Nat)
  | refusesRanges (value : Bool)
  | logEvery (value : Nat)
  | logsPerBlock (value : Nat)
  | addresses (value : List String)

/-- The text of a call, or the beginning of one. -/
inductive CallPattern where
  | exactly (text : String)
  | startingWith (text : String)

def CallPattern.admits : CallPattern → String → Bool
  | .exactly text, call => text == call
  | .startingWith text, call => text.toList.isPrefixOf call.toList

/-- A failure of matching calls, after some and for some of them. Without an
error, the node answers that there is nothing. -/
structure CallFault where
  pattern : CallPattern
  after : Nat := 0
  times : Nat := 1
  error : Option NodeError

/-- A block by its hash, or by its canonical height. -/
inductive BlockName where
  | hash (value : String)
  | height (value : Nat)

/-- One change of the world. -/
inductive Action where
  | mine (count : Nat)
  | reorg (height count : Nat)
  | put (block : Block) (logs : List Log) (isCanonical : Bool)
  | drop (height : Nat)
  | forget (hash : String)
  /-- The next lookups of a block by its hash find nothing. -/
  | hide (block : BlockName) (times : Nat)
  | fault (fault : CallFault)
  /-- Changes that follow a matching call, after some of them. -/
  | hook (pattern : CallPattern) (after : Nat) (actions : List Action)
  | set (settings : List ChainSetting)
  /-- Cancel the work that was started last. -/
  | cancel

/-- Changes that wait for a call. -/
structure Hook where
  pattern : CallPattern
  after : Nat
  actions : List Action

structure World where
  chain : Chain := {}
  faults : List CallFault := []
  hooks : List Hook := []
  /-- How many lookups of a hash will still find nothing. -/
  hidden : List (String × Nat) := []
  /-- Whether calls go through a JSON-RPC connection. -/
  isRemote : Bool := false
  /-- The calls made so far, newest first. -/
  calls : List String := []
  clock : Nat := 0
  /-- The work that was started last, by its number. -/
  current : Nat := 0
  /-- The work that was canceled. -/
  canceled : List Nat := []
  /-- Who holds which follower: the follower and the work. -/
  holders : List (Nat × Nat) := []
  /-- Who waits for which follower, longest first. -/
  queue : List (Nat × Nat) := []
  /-- Changes before each poll of the head that is still scripted. -/
  polls : List (List Action) := []
  /-- Notifications that will arrive. -/
  notifications : List Json := []
  /-- Whether the subscription ends behind the notifications; otherwise the
  work is canceled there. -/
  closesSubscription : Bool := false
  subscribeError : Option NodeError := none
  /-- The topic that was subscribed to. -/
  topic : Option String := none

namespace World

/-! ## Changes -/

def cancelWork (world : World) (work : Nat) : World :=
  { world with canceled := work :: world.canceled }

def isCanceled (world : World) (work : Nat) : Bool :=
  world.canceled.contains work

def applySetting (chain : Chain) : ChainSetting → Chain
  | .chainId value => { chain with chainId := value }
  | .maxRange value => { chain with maxRange := value }
  | .refusesRanges value => { chain with refusesRanges := value }
  | .logEvery value => { chain with logEvery := value }
  | .logsPerBlock value => { chain with logsPerBlock := value }
  | .addresses value => { chain with addresses := value }

def setHidden (hash : String) (times : Nat) (hidden : List (String × Nat)) :
    List (String × Nat) :=
  (hash, times) :: hidden.filter fun entry => entry.1 ≠ hash

def act (world : World) : Action → World
  | .mine count => { world with chain := world.chain.mine count }
  | .reorg height count => { world with chain := world.chain.reorg height count }
  | .put block logs isCanonical => { world with chain := world.chain.put block logs isCanonical }
  | .drop height => { world with chain := world.chain.drop height }
  | .forget hash => { world with chain := world.chain.forget hash }
  | .hide (.hash hash) times => { world with hidden := setHidden hash times world.hidden }
  | .hide (.height height) times =>
      match world.chain.blockAt? height with
      | some block => { world with hidden := setHidden block.hash times world.hidden }
      | none => world
  | .fault fault => { world with faults := world.faults ++ [fault] }
  | .hook pattern after actions =>
      { world with hooks := world.hooks ++ [{ pattern, after, actions }] }
  | .set settings => { world with chain := settings.foldl applySetting world.chain }
  | .cancel => world.cancelWork world.current

def actAll (world : World) (actions : List Action) : World :=
  actions.foldl act world

/-! ## Calls -/

def callText : Node.Call → String
  | .height => "blockNumber"
  | .blockByTag .latest => "byNumber:latest"
  | .blockByTag (.number height) => s!"byNumber:{height}"
  | .blockByHash hash full => s!"byHash:{hash}" ++ if full then ":full" else ""
  | .logs ⟨_, .range first last⟩ => s!"logs:{first}-{last}"
  | .logs ⟨_, .blockHash hash⟩ => s!"logs:{hash}"
  | .chainId => "chainId"

/-- The error of the first fault that is due for a call, and the faults with
their counts brought up to date. -/
def takeFault (call : String) : List CallFault → Option (Option NodeError) × List CallFault
  | [] => (none, [])
  | fault :: rest =>
      if fault.pattern.admits call then
        if 0 < fault.after then
          let (found, rest) := takeFault call rest
          (found, { fault with after := fault.after - 1 } :: rest)
        else if 0 < fault.times then
          (some fault.error, { fault with times := fault.times - 1 } :: rest)
        else
          let (found, rest) := takeFault call rest
          (found, fault :: rest)
      else
        let (found, rest) := takeFault call rest
        (found, fault :: rest)

/-- The changes of the hooks that are due for a call, and the hooks that are
left. -/
def takeHooks (call : String) : List Hook → List Action × List Hook
  | [] => ([], [])
  | hook :: rest =>
      let (actions, hooks) := takeHooks call rest
      if hook.pattern.admits call then
        if 0 < hook.after then (actions, { hook with after := hook.after - 1 } :: hooks)
        else (hook.actions ++ actions, hooks)
      else (actions, hook :: hooks)

def emptyReply : (call : Node.Call) → call.Reply
  | .height => .ok 0
  | .blockByTag _ => .ok none
  | .blockByHash _ _ => .ok none
  | .logs _ => .ok []
  | .chainId => .ok 0

/-- The answer of the chain, except that hidden blocks are not found. -/
def lookUp (world : World) : (call : Node.Call) → call.Reply × World
  | .blockByHash hash full =>
      match world.hidden.lookup hash with
      | some (times + 1) => (.ok none, { world with hidden := setHidden hash times world.hidden })
      | _ => (world.chain.reply (.blockByHash hash full), world)
  | call => (world.chain.reply call, world)

/-- Answer a call: with the error of a fault that is due, or from the chain.
Hooks follow the answer. -/
def call (world : World) (call : Node.Call) : call.Reply × World :=
  let text := callText call
  let (fault?, faults) := takeFault text world.faults
  let world := { world with calls := text :: world.calls, faults }
  let (reply, world) : call.Reply × World :=
    match fault? with
    | some (some error) => (.error error, world)
    | some none => (emptyReply call, world)
    | none => world.lookUp call
  let (actions, hooks) := takeHooks text world.hooks
  let world := { world with hooks }.actAll actions
  (if world.isRemote then Rpc.relay call reply else reply, world)

/-- Answer a call that is given up on cancellation. Polls of the head follow
their script, if there is one; the poll behind its end is never answered, and
the work is canceled. -/
def cancelableCall (world : World) (work : Nat) (isScripted : Bool) (call : Node.Call) :
    Option call.Reply × World :=
  if isScripted then
    match world.polls with
    | [] => (none, world.cancelWork work)
    | actions :: polls =>
        let (reply, world) := ({ world with polls }.actAll actions).call call
        (some reply, world)
  else
    let (reply, world) := world.call call
    (some reply, world)

/-! ## Holding followers -/

def holds (world : World) (follower work : Nat) : Bool :=
  world.holders.contains (follower, work)

/-- Take hold of a follower that no one holds, or queue up for it. -/
def acquire (world : World) (follower work : Nat) : World :=
  if world.holders.any (·.1 == follower) then
    { world with queue := world.queue ++ [(follower, work)] }
  else { world with holders := (follower, work) :: world.holders }

/-- Let go of a follower. It passes to the one who waited longest. -/
def release (world : World) (follower work : Nat) : World :=
  let holders := world.holders.erase (follower, work)
  match world.queue.find? (·.1 == follower) with
  | some next => { world with holders := next :: holders, queue := world.queue.erase next }
  | none => { world with holders }

/-- Leave the queue, or let go. -/
def giveUp (world : World) (follower work : Nat) : World :=
  if world.holds follower work then world.release follower work
  else { world with queue := world.queue.erase (follower, work) }

/-! ## Notifications -/

def nextArrival (world : World) : Arrival × World :=
  match world.notifications with
  | payload :: notifications => (.message payload, { world with notifications })
  | [] => (if world.closesSubscription then .closed else .canceled, world)

def subscribe (world : World) (topic : String) : Except NodeError Unit × World :=
  let world := { world with topic := some topic }
  match world.subscribeError with
  | some error => (.error error, world)
  | none => (.ok (), world)

end World

end ReorgSync.Simulation
