import PagedIndex.Error

namespace PagedIndex

inductive Level
  | debug
  | warn
deriving DecidableEq, Repr

namespace Level

def label : Level → String
  | debug => "DEBUG"
  | warn => "WARN"

end Level

-- What the pool and the index report while they work.
inductive Event
  -- stores
  | readPastEnd (page : PageId)
  -- pools
  | evicted (page : PageId) (frame shard : Nat)
  | wroteBack (page : PageId)
  | allocationFailed (shard : Nat) (cause : StoreError)
  | flushSkipped (page : PageId)
  | deleteRefused (page : PageId) (pins : Nat)
  | unpinAbsent (page : PageId)
  | unpinUnpinned (page : PageId)
  | evictionQueueFull (frame : Nat)
  | poolCreated (shards frames : Nat)
  | shardsFull (shards : Nat)
  -- indexes
  | indexCreated (name : String) (directory : PageId) (capacity : Nat)
  | directoryGrew (name : String) (globalDepth : Nat)
  | bucketSplit (name : String) (old : PageId) (depth moved total : Nat) (new : PageId)
  | bucketMerged (name : String) (emptied survivor : PageId) (globalDepth : Nat)
  | freeRefused (name : String) (bucket : PageId)
  | freeFailed (name : String) (bucket : PageId) (cause : StoreError)
  | mergeStopped (name : String) (slot : Nat) (cause : StoreError)
  | integrityFailed (name : String) (cause : StoreError)
  | directoryTitle (name : String) (globalDepth : Nat)
  | directoryHeader
  | directoryRow (slot : Nat) (bucket : PageId) (depth entries : Nat)
deriving DecidableEq, Repr

namespace Event

def level : Event → Level
  | unpinAbsent _ | unpinUnpinned _ | evictionQueueFull _ | shardsFull _ => .warn
  | freeRefused _ _ | freeFailed _ _ _ | mergeStopped _ _ _ | integrityFailed _ _ => .warn
  | _ => .debug

-- A number in a column, aligned to the right.
def column (width n : Nat) : String := String.ofList (n.repr.toList.leftpad width ' ')

def message : Event → String
  | readPastEnd page => s!"Page {page.label} is past end of file, reading zeroes"
  | evicted page frame shard =>
      s!"Evicted page {page.label} from frame {frame} of instance {shard}"
  | wroteBack page => s!"Wrote back dirty page {page.label}"
  | allocationFailed shard cause => s!"Instance {shard} cannot allocate a page: {cause.message}"
  | flushSkipped page => s!"Skipped flush of page {page.label}: write guard is live"
  | deleteRefused page pins => s!"Cannot delete page {page.label}: pin count is {pins}"
  | unpinAbsent page => s!"Unpin of page {page.label} which is not resident"
  | unpinUnpinned page => s!"Unpin of page {page.label} with pin count 0"
  | evictionQueueFull frame => s!"Replacer at capacity, ignoring unpin of frame {frame}"
  | poolCreated shards frames =>
      s!"Created parallel buffer pool: {shards} instances x {frames} frames"
  | shardsFull shards => s!"All {shards} buffer pool instances are fully pinned"
  | indexCreated name directory capacity =>
      s!"Created hash index '{name}': directory {directory.label}, bucket capacity {capacity}"
  | directoryGrew name globalDepth =>
      s!"Hash index '{name}' directory grew to global depth {globalDepth}"
  | bucketSplit name old depth moved total new =>
      s!"Hash index '{name}' split bucket {old.label} at depth {depth}: " ++
        s!"{moved} of {total} entries moved to {new.label}"
  | bucketMerged name emptied survivor globalDepth =>
      s!"Hash index '{name}' merged bucket {emptied.label} into {survivor.label}, " ++
        s!"global depth {globalDepth}"
  | freeRefused name bucket =>
      s!"Hash index '{name}' could not free merged bucket {bucket.label}: still pinned"
  | freeFailed name bucket cause =>
      s!"Hash index '{name}' could not free merged bucket {bucket.label}: {cause.message}"
  | mergeStopped name slot cause =>
      s!"Hash index '{name}' stopped merging at slot {slot}: {cause.message}"
  | integrityFailed name cause =>
      s!"Hash index '{name}' failed integrity check: {cause.message}"
  | directoryTitle name globalDepth =>
      s!"======== {name} (global depth {globalDepth}) ========"
  | directoryHeader => "| slot | page_id | local_depth | entries |"
  | directoryRow slot bucket depth entries =>
      "| " ++ column 4 slot ++ " | " ++ bucket.label ++ " | " ++ column 11 depth ++ " | " ++
        column 7 entries ++ " |"

def line (e : Event) : String := e.level.label ++ " " ++ e.message

end Event

end PagedIndex
