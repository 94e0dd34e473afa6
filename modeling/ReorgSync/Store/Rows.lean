import ReorgSync.Store.LogStore

namespace ReorgSync

/-! A store in two tables of a database: one row for each entry, and one row
for each log. Values are kept as JSON text, numbers in signed columns of 64
bits. The tables outlive the connection; while it is closed, every operation
fails. -/

structure EntryRow where
  fingerprint : String
  filterText : String
  lastBlockText : Option String := none
  chainId : Option Int := none
  genesisHash : Option String := none
deriving DecidableEq, Repr

/-- The row of a log: its entry, its index there, and its text. An entry has at
most one row for an index. -/
structure LogRow where
  fingerprint : String
  index : Int
  text : String
deriving DecidableEq, Repr

structure TableStore where
  entries : List EntryRow := []
  logs : List LogRow := []
  isOpen : Bool := true
deriving DecidableEq, Repr

namespace TableStore

/-! ## Columns -/

/-- An unsigned number of 64 bits in a signed column. -/
def toColumn (value : Nat) : Int :=
  Int.bmod value (Word.size 64)

/-- The unsigned number that a signed column stands for. -/
def ofColumn (column : Int) : Nat :=
  (column % Word.size 64).toNat

/-- The text of a value whose numbers fit their words. No value of the program
has others, and one that had could not be read back. -/
def writeColumn (encode : α → Json) (inRange : α → Prop) [DecidablePred inRange] (value : α) :
    Except SyncError String :=
  if inRange value then .ok (encode value).print else .error (.storage unspecified)

def readColumn (decoder : Codec.Decoder α) (text : String) : Except SyncError α :=
  match decoder.ofText text with
  | .ok value => .ok value
  | .error fault => .error (.storage fault.message)

/-! ## Statements -/

def close (store : TableStore) : TableStore :=
  { store with isOpen := false }

def reopen (store : TableStore) : TableStore :=
  { store with isOpen := true }

/-- Go on only while the connection is open. -/
def connected (store : TableStore) : Except SyncError Unit :=
  if store.isOpen then .ok () else .error (.storage unspecified)

/-- The rows of an entry's logs in the order of their indices. -/
def logRows (store : TableStore) (key : String) : List LogRow :=
  (store.logs.filter (·.fingerprint == key)).mergeSort fun left right =>
    decide (left.index ≤ right.index)

def entryRow? (store : TableStore) (key : String) : Option EntryRow :=
  store.entries.find? (·.fingerprint == key)

def updateEntry (store : TableStore) (key : String) (change : EntryRow → EntryRow) : TableStore :=
  { store with
    entries := store.entries.map fun row => if row.fingerprint = key then change row else row }

def logCount (store : TableStore) (key : String) : Nat :=
  (store.logs.filter (·.fingerprint == key)).length

def deleteFrom (store : TableStore) (key : String) (length : Nat) : TableStore :=
  { store with
    logs := store.logs.filter fun row =>
      !(row.fingerprint == key && decide (toColumn length ≤ row.index)) }

/-- Every row has a number of its own, from one on in a signed column. So many
rows there can be. -/
def rowLimit : Nat := Word.size 63 - 1

/-- Add a row, if its index is not taken and the numbers for rows do not run
out. -/
def insertRow (store : TableStore) (row : LogRow) : Except SyncError TableStore :=
  if store.logs.any fun other => other.fingerprint == row.fingerprint && other.index == row.index
  then .error (.storage unspecified)
  else if rowLimit ≤ store.logCount row.fingerprint then .error (.storage unspecified)
  else .ok { store with logs := store.logs ++ [row] }

/-- Values of texts, up to the first that cannot be read. -/
def readRows : List LogRow → Except SyncError (List Log)
  | [] => .ok []
  | row :: rest => do
      let log ← readColumn Log.decoder row.text
      return log :: (← readRows rest)

end TableStore

end ReorgSync
