import PagedIndex.Hash.KeyHash
import PagedIndex.Index.Insert
import PagedIndex.Index.Remove
import PagedIndex.Index.Report
import PagedIndex.Index.Verify
import PagedIndex.Field.Order
import PagedIndex.Pool.Sharded
import PagedIndex.Store.Backing
import PagedIndex.Workload.Keys
import PagedIndex.Workload.Options

namespace PagedIndex.Workload

-- What a workload needs of the world it runs in.
structure Console (m : Type → Type) where
  say : String → m Unit
  report : Event → m Unit
  now : m Nat
  -- the text of the time since then
  elapsed : Nat → m String
  -- the store of the pages of an empty file at a path
  createFile : String → m (Except IoError Backing)
  randomSeed : m UInt64

-- An error with what was being done, outermost first.
abbrev Trail := List String

def trailOf : StoreError → Trail
  | .io cause => [StoreError.message (.io cause), cause.message]
  | e => [e.message]

-- The lines that an error is shown as.
def Trail.lines : Trail → List String
  | [] => []
  | [top] => ["Error: " ++ top]
  | [top, cause] => ["Error: " ++ top, "", "Caused by:", "    " ++ cause]
  | top :: causes =>
    ["Error: " ++ top, "", "Caused by:"] ++
      causes.zipIdx.map fun (cause, i) => "    " ++ i.repr ++ ": " ++ cause

inductive Failed
  | error (trail : Trail)
  | aborted

-- A workload in progress over the state `σ`: it can fail, and it can show lines.
abbrev Script (m : Type → Type) (σ α : Type) := ExceptT Failed (StateT σ m) α

variable {m : Type → Type} [Monad m] {σ τ α : Type}

def failWith (trail : Trail) : Script m σ α := throw (.error trail)

def say (c : Console m) (text : String) : Script m σ Unit :=
  ExceptT.lift (StateT.lift (c.say text))

def ask (x : m α) : Script m σ α := ExceptT.lift (StateT.lift x)

-- Run an operation, report its events, and hand over how it ended.
def attempt (c : Console m) (x : Op σ α) : Script m σ (Checked α) := do
  let o := x (← get)
  set o.state
  o.events.forM fun e => ask (c.report e)
  return o.result

-- Run an operation, saying what was being done if it fails.
def perform (c : Console m) (doing : Trail) (x : Op σ α) : Script m σ α := do
  match ← attempt c x with
  | .ok a => return a
  | .error (.error e) => failWith (doing ++ trailOf e)
  | .error (.abort _) => throw .aborted

abbrev Index := HashIndex Int64 RecordId

abbrev PoolState (n k : Nat) := Mounted (ShardedPool n k) Backing

-- What one thread does with one key: it adds to the count of the phase, or gives up.
abbrev KeyStep (σ : Type) := Int64 → Nat → Op σ (Except Trail Nat)

-- Act on every key with its position, and add up the counts. A thread that aborts is an error of
-- the phase.
def runKeys (c : Console m) (doing : String) (keys : Array Int64) (step : KeyStep σ) :
    Script m σ Nat := do
  let mut total := 0
  for h : i in [0 : keys.size] do
    match ← attempt c (step keys[i] i) with
    | .ok (.ok n) => total := total + n
    | .ok (.error trail) => failWith (doing :: trail)
    | .error (.error e) => failWith (doing :: trailOf e)
    | .error (.abort _) => failWith [doing, "worker thread panicked"]
  return total

section

variable {γ : Type} [PagePool σ γ]

def insertKey (t : Index) : KeyStep σ := fun key position => do
  match ← Op.attempt (t.insert key (recordAt position)) with
  | .ok inserted => return .ok (if inserted then 1 else 0)
  | .error e =>
    let advice := "key " ++ toString key.toInt ++
      " did not fit; try a larger --pool-size or --bucket-capacity"
    return .error (if e.isExhaustion then advice :: trailOf e else trailOf e)

def describeRecords (records : List RecordId) : String :=
  "[" ++ String.intercalate ", " (records.map fun r =>
    "TupleId \x7b page_id: PageId(" ++ r.page.number.toNat.repr ++ "), slot_id: " ++
      r.slot.toNat.repr ++ " \x7d") ++ "]"

def lookUpKey (t : Index) : KeyStep σ := fun key position => do
  let found ← t.get key
  if found = [recordAt position] then return .ok 1
  else return .error ["key " ++ toString key.toInt ++ " returned " ++ describeRecords found]

-- Every other key stays.
def removeKey (t : Index) : KeyStep σ := fun key position => do
  if position % 2 = 1 then return .ok 0
  if ← t.remove key (recordAt position) then return .ok 1
  else return .error ["key " ++ toString key.toInt ++ " vanished before removal"]

end

-- Run a phase and say how many entries it handled, in what time.
def phase (c : Console m) (sign verb doing : String) (keys : Array Int64) (step : KeyStep σ) :
    Script m σ Nat := do
  let start ← ask c.now
  let count ← runKeys c doing keys step
  let time ← ask (c.elapsed start)
  say c (sign ++ " " ++ verb ++ " " ++ count.repr ++ " entries in " ++ time)
  return count

-- The phases on an index in an open pool, and the summary.
def runPhases {n k : Nat} (c : Console m) (o : Options) (seed : UInt64) :
    Script m (PoolState n k) Unit := do
  let policy : KeyPolicy Int64 := ⟨KeyOrder.byValue, KeyHash.xx 0⟩
  let t : Index ← perform c ["Failed to create hash index"]
    (HashIndex.create "workload" policy o.capacity?)
  say c ("🗂  Hash index: directory page " ++ t.directory.label ++ ", bucket capacity " ++
    t.capacity.repr)
  let keys ← perform c [] (Op.ofChecked (generateKeys o.keys seed))
  say c ("🎲 " ++ keys.size.repr ++ " keys from seed " ++ seed.toNat.repr)
  let inserted ← phase c "➕" "Inserted" "Insert phase failed" keys (insertKey t)
  let _ ← phase c "🔍" "Found" "Lookup phase failed" keys (lookUpKey t)
  let removed ← phase c "➖" "Removed" "Remove phase failed" keys (removeKey t)
  perform c ["Index failed integrity check"] t.verify
  perform c [] t.reportDirectory
  perform c ["Failed to flush buffer pool"] (ShardedPool.flushAll .byFrame)
  say c ""
  say c "✅ Workload complete"
  say c ("   - Live entries: " ++ (inserted - removed).repr)
  say c ("   - Global depth: " ++ (← perform c [] t.globalDepth).repr)
  say c ("   - Buckets: " ++ (← perform c [] t.bucketCount).repr)

-- Build the store and the pool, then run the phases in it.
def script (c : Console m) (o : Options) : Script m Backing Unit := do
  if o.threads = 0 then failWith ["--threads must be at least 1"]
  match o.dataFile? with
  | some path =>
    say c ("📂 Page file: " ++ path)
    match ← ask (c.createFile path) with
    | .ok store => set store
    | .error e => failWith ("Failed to create page file" :: trailOf (.io e))
  | none => say c "🧠 Using in-memory page store"
  let pool : ShardedPool o.poolSize o.shards ←
    perform c ["Failed to build buffer pool"] (ShardedPool.create o.poolSize o.shards)
  say c ("🔧 Buffer pool: " ++ o.shards.repr ++ " instances × " ++ o.poolSize.repr ++ " frames")
  let seed ← match o.seed? with
    | some seed => pure seed
    | none => ask c.randomSeed
  let (result, mounted) ← ask ((runPhases c o seed).run ⟨pool, ← get⟩)
  set mounted.store
  match result with
  | .ok () => return ()
  | .error failed => throw failed

-- How a run ended: the exit code, the lines that tell of an error, and the store.
structure Ending where
  code : Nat
  errorLines : List String
  store : Backing

def run (c : Console m) (o : Options) : m Ending := do
  let (result, store) ← (script c o).run (.memory .empty)
  match result with
  | .ok () => return ⟨0, [], store⟩
  | .error (.error trail) => return ⟨1, Trail.lines trail, store⟩
  | .error .aborted => return ⟨101, [], store⟩

end PagedIndex.Workload
