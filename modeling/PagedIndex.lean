import PagedIndex.Bucket.Access
import PagedIndex.Bucket.Basic
import PagedIndex.Bucket.Layout
import PagedIndex.Bucket.Update
import PagedIndex.Bytes.Hex
import PagedIndex.Bytes.LittleEndian
import PagedIndex.Bytes.LittleEndian.Lemmas
import PagedIndex.Directory.Basic
import PagedIndex.Directory.Codec
import PagedIndex.Directory.Codec.Lemmas
import PagedIndex.Directory.Integrity
import PagedIndex.Directory.Lemmas
import PagedIndex.Directory.Resize
import PagedIndex.Error
import PagedIndex.Event
import PagedIndex.Field.ByteKey
import PagedIndex.Field.Codec
import PagedIndex.Field.FieldType
import PagedIndex.Field.Integer
import PagedIndex.Field.Lawful
import PagedIndex.Field.Order
import PagedIndex.Field.RecordId
import PagedIndex.Hash.KeyHash
import PagedIndex.Hash.XxHash
import PagedIndex.Index.Basic
import PagedIndex.Index.Insert
import PagedIndex.Index.Policy
import PagedIndex.Index.Remove
import PagedIndex.Index.Report
import PagedIndex.Index.Verify
import PagedIndex.Main
import PagedIndex.Op
import PagedIndex.Page.Basic
import PagedIndex.Page.Bitmap
import PagedIndex.Page.Id
import PagedIndex.Pool.Access
import PagedIndex.Pool.Basic
import PagedIndex.Pool.EvictionQueue
import PagedIndex.Pool.EvictionQueue.Lemmas
import PagedIndex.Pool.Shard
import PagedIndex.Pool.Sharded
import PagedIndex.Proofs.Bucket.Access
import PagedIndex.Proofs.Bucket.Entries
import PagedIndex.Proofs.Bucket.Layout
import PagedIndex.Proofs.Bucket.Log
import PagedIndex.Proofs.Bucket.Slots
import PagedIndex.Proofs.Directory.Checked
import PagedIndex.Proofs.Directory.Contraction
import PagedIndex.Proofs.Directory.Failing
import PagedIndex.Proofs.Directory.Fields
import PagedIndex.Proofs.Directory.Partition
import PagedIndex.Proofs.Directory.Resizing
import PagedIndex.Proofs.Directory.Verdict
import PagedIndex.Proofs.Field.Codecs
import PagedIndex.Proofs.Field.IntegerKeys
import PagedIndex.Proofs.Index.Answers
import PagedIndex.Proofs.Index.Balance
import PagedIndex.Proofs.Index.Capacity
import PagedIndex.Proofs.Index.Collapse
import PagedIndex.Proofs.Index.Fenced
import PagedIndex.Proofs.Index.Fullness
import PagedIndex.Proofs.Index.Guarding
import PagedIndex.Proofs.Index.Independence
import PagedIndex.Proofs.Index.Insertion
import PagedIndex.Proofs.Index.Inspection
import PagedIndex.Proofs.Index.Merging
import PagedIndex.Proofs.Index.Neighbours
import PagedIndex.Proofs.Index.Opening
import PagedIndex.Proofs.Index.Outline
import PagedIndex.Proofs.Index.Pages
import PagedIndex.Proofs.Index.Recapacity
import PagedIndex.Proofs.Index.Removal
import PagedIndex.Proofs.Index.Representation
import PagedIndex.Proofs.Index.Restart
import PagedIndex.Proofs.Index.Rounds
import PagedIndex.Proofs.Index.Runs
import PagedIndex.Proofs.Index.Sharing
import PagedIndex.Proofs.Index.Splitting
import PagedIndex.Proofs.Index.Steps
import PagedIndex.Proofs.Index.Structure
import PagedIndex.Proofs.Index.Supply
import PagedIndex.Proofs.Index.Watched
import PagedIndex.Proofs.Index.Writing
import PagedIndex.Proofs.Outcome
import PagedIndex.Proofs.Pool.Blank
import PagedIndex.Proofs.Pool.Caching
import PagedIndex.Proofs.Pool.Contents
import PagedIndex.Proofs.Pool.Creation
import PagedIndex.Proofs.Pool.Eviction
import PagedIndex.Proofs.Pool.Failures
import PagedIndex.Proofs.Pool.Flushing
import PagedIndex.Proofs.Pool.Frames
import PagedIndex.Proofs.Pool.Guarded
import PagedIndex.Proofs.Pool.Invariants
import PagedIndex.Proofs.Pool.Journaled
import PagedIndex.Proofs.Pool.Lawful
import PagedIndex.Proofs.Pool.Ledger
import PagedIndex.Proofs.Pool.Locality
import PagedIndex.Proofs.Pool.Marking
import PagedIndex.Proofs.Pool.Numbering
import PagedIndex.Proofs.Pool.Operations
import PagedIndex.Proofs.Pool.Queueing
import PagedIndex.Proofs.Pool.Representation
import PagedIndex.Proofs.Pool.Requests
import PagedIndex.Proofs.Pool.Restart
import PagedIndex.Proofs.Pool.Resting
import PagedIndex.Proofs.Pool.Room
import PagedIndex.Proofs.Pool.Rotation
import PagedIndex.Proofs.Pool.Runs
import PagedIndex.Proofs.Pool.Saving
import PagedIndex.Proofs.Pool.Scarce
import PagedIndex.Proofs.Pool.Sharding
import PagedIndex.Proofs.Pool.Steady
import PagedIndex.Proofs.Pool.Supply
import PagedIndex.Proofs.Pool.Tallied
import PagedIndex.Proofs.Pool.Transparency
import PagedIndex.Proofs.Pool.Turns
import PagedIndex.Proofs.Pool.Unreliable
import PagedIndex.Proofs.Pool.Waiting
import PagedIndex.Proofs.Store.Growing
import PagedIndex.Proofs.Store.Interchange
import PagedIndex.Proofs.Store.Lawful
import PagedIndex.Proofs.Store.OpenFile
import PagedIndex.Session.Basic
import PagedIndex.Session.IndexSteps
import PagedIndex.Session.PoolSteps
import PagedIndex.Session.StoreSteps
import PagedIndex.Session.Workbench
import PagedIndex.Store.Backing
import PagedIndex.Store.Basic
import PagedIndex.Store.Fault
import PagedIndex.Store.File
import PagedIndex.Store.Memory
import PagedIndex.Store.Null
import PagedIndex.Workload.DataFile
import PagedIndex.Workload.Duration
import PagedIndex.Workload.Keys
import PagedIndex.Workload.Options
import PagedIndex.Workload.Run
import PagedIndex.Workload.Usage
