import ReorgSync.Node
import ReorgSync.Quantity

namespace ReorgSync.Simulation

/-! A chain that grows and reorganises on command, as a node would hold it: one
canonical block for each height, and all blocks ever seen by their hashes. -/

structure Chain where
  /-- The canonical blocks in ascending order of their heights. -/
  canonical : List Block := []
  /-- All known blocks, the newest first. -/
  known : List Block := []
  /-- The logs of blocks by the blocks' hashes, the newest first. -/
  logs : List (String × List Log) := []
  chainId : Nat := 1
  fork : Nat := 0
  /-- Every so many heights a block has logs; zero is never. -/
  logEvery : Nat := 1
  logsPerBlock : Nat := 1
  /-- The contracts that write logs in turn. -/
  addresses : List String := ["0xc0ffee"]
  /-- The widest range query that is answered. -/
  maxRange : Option Nat := none
  refusesRanges : Bool := false

namespace Chain

/-! ## Changing the chain -/

def head? (chain : Chain) : Option Block :=
  chain.canonical.getLast?

/-- Put a block at its height, in place of one that is there. -/
def placeBlock (block : Block) : List Block → List Block
  | [] => [block]
  | other :: rest =>
      if block.number < other.number then block :: other :: rest
      else if block.number = other.number then block :: rest
      else other :: placeBlock block rest

def register (chain : Chain) (block : Block) (logs : List Log) : Chain :=
  { chain with
    known := block :: chain.known
    logs := (block.hash, logs) :: chain.logs }

/-- Make a block and its logs known, and put it at its height if it is
canonical. -/
def put (chain : Chain) (block : Block) (logs : List Log) (isCanonical : Bool) : Chain :=
  let chain := chain.register block logs
  if isCanonical then { chain with canonical := placeBlock block chain.canonical } else chain

/-- Hexadecimal digits, with zeros in front up to a width. -/
def paddedHex (width value : Nat) : String :=
  let digits := Quantity.hexDigits value
  String.ofList (List.replicate (width - digits.length) '0') ++ digits

def minedLog (chain : Chain) (block : Block) (index : Nat) : Log where
  address := chain.addresses.getD ((block.number + index) % chain.addresses.length) ""
  topics := ["0xsig", s!"0xt{index}"]
  data := Quantity.encode chain.fork
  blockNumber := block.number
  blockHash := block.hash
  transactionHash := s!"{block.hash}t{index}"
  transactionIndex := index
  logIndex := index

/-- Add one block behind the head. Its hash tells its height and the number of
reorganisations before it. -/
def mineOne (chain : Chain) : Chain :=
  let (number, parentHash) :=
    match chain.head? with
    | some head => (head.number + 1, head.hash)
    | none => (0, "0x")
  let block : Block :=
    { number
      hash := "0x" ++ Quantity.hexDigits chain.fork ++ paddedHex 6 number
      parentHash
      timestamp := 12 * number }
  let hasLogs := chain.logEvery ≠ 0 ∧ number % chain.logEvery = 0
  let logs := if hasLogs then (List.range chain.logsPerBlock).map (chain.minedLog block) else []
  chain.put block logs true

def mine : (count : Nat) → Chain → Chain
  | 0, chain => chain
  | count + 1, chain => mine count chain.mineOne

/-- Displace the canonical blocks from a height on, and mine others. The
displaced blocks stay known. -/
def reorg (chain : Chain) (height count : Nat) : Chain :=
  mine count { chain with
    canonical := chain.canonical.filter fun block => decide (block.number < height)
    fork := chain.fork + 1 }

def drop (chain : Chain) (height : Nat) : Chain :=
  { chain with canonical := chain.canonical.filter fun block => block.number ≠ height }

def forget (chain : Chain) (hash : String) : Chain :=
  { chain with known := chain.known.filter fun block => block.hash ≠ hash }

/-! ## Looking at the chain -/

def blockAt? (chain : Chain) (height : Nat) : Option Block :=
  chain.canonical.find? fun block => block.number = height

def block? (chain : Chain) (hash : String) : Option Block :=
  chain.known.find? fun block => block.hash = hash

def logsOf (chain : Chain) (hash : String) : List Log :=
  (chain.logs.lookup hash).getD []

/-- The logs in some blocks that a filter selects, unless the query covers too
many heights. -/
def queryLogs (chain : Chain) (query : LogQuery) : Except NodeError (List Log) :=
  match query.selector with
  | .blockHash hash => .ok ((chain.logsOf hash).filter query.filter.matchesLog)
  | .range first last =>
      let isTooWide :=
        match chain.maxRange with
        | some width => decide (width < last - first)
        | none => false
      if chain.refusesRanges || isTooWide then .error (.tooMuchData s!"range {first}..{last}")
      else
        let blocks := chain.canonical.filter fun block =>
          decide (first ≤ block.number ∧ block.number ≤ last)
        .ok ((blocks.flatMap fun block => chain.logsOf block.hash).filter query.filter.matchesLog)

def reply (chain : Chain) : (call : Node.Call) → call.Reply
  | .height => .ok ((chain.head?.map Block.number).getD 0)
  | .blockByTag .latest => .ok chain.head?
  | .blockByTag (.number height) => .ok (chain.blockAt? height)
  | .blockByHash hash _ => .ok (chain.block? hash)
  | .logs query => chain.queryLogs query
  | .chainId => .ok chain.chainId

end Chain

end ReorgSync.Simulation
