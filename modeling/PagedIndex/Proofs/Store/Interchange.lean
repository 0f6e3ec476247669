import PagedIndex.Proofs.Store.Growing
import PagedIndex.Proofs.Store.OpenFile

namespace PagedIndex

-- What was written, the last page first.
abbrev Writes := List (PageId × Page)

namespace Writes

def page (w : Writes) (id : PageId) : Page := (w.lookup id).getD Page.zero

-- One more than the largest id, or zero.
def span (w : Writes) : Nat := (w.map fun x => x.1.number.toNat).max?.elim 0 (· + 1)

theorem page_cons (id : PageId) (p : Page) (w : Writes) :
    page ((id, p) :: w) = Function.update (page w) id p := by
  funext other
  rw [Function.update_apply, page, List.lookup_cons]
  by_cases h : other = id
  · simp [h]
  · rw [if_neg h, beq_false_of_ne h, page]

theorem span_cons (id : PageId) (p : Page) (w : Writes) :
    span ((id, p) :: w) = max (span w) (id.number.toNat + 1) := by
  rw [span, List.map_cons, List.max?_cons, span]
  cases (w.map fun x => x.1.number.toNat).max? with
  | none => simp
  | some largest =>
    simp only [Option.elim]
    omega

end Writes

-- A call that a store answers, given as buffers of any length.
inductive StoreCall
  | read (id : PageId) (length : Nat)
  | write (id : PageId) (length : Nat) (byte : Nat → UInt8)
  | count
  -- the store is closed and opened again
  | reopen

inductive StoreAnswer
  | done
  | page (p : Page)
  | count (n : Nat)

-- Stores that stay as they are while nobody holds them open.
class ReopenedStore (D : Type) where
  reopened : D → D

-- The store in memory lives as long as the program, and nothing happens to it meanwhile.
instance : ReopenedStore MemoryStore where
  reopened s := s

instance : ReopenedStore FileStore where
  reopened s := s

instance : ReopenedStore OpenFile where
  reopened := OpenFile.reopened

namespace StoreCall

variable {D : Type} [PageStore D] [ReopenedStore D]

-- The largest id stands for "no page".
def Valid : StoreCall → Prop
  | read id _ => id ≠ PageId.invalid
  | write id _ _ => id ≠ PageId.invalid
  | count => True
  | reopen => True

def run : StoreCall → Op D StoreAnswer
  | read id length => StoreAnswer.page <$> PageStore.readInto id length
  | write id length byte => (fun _ => StoreAnswer.done) <$> PageStore.writeFrom id length byte
  | count => (fun n => StoreAnswer.count n.toNat) <$> PageStore.pageCount
  | reopen => (fun _ => StoreAnswer.done) <$> Op.update ReopenedStore.reopened

-- The answers of calls made one after the other. A call that fails is followed by the next one.
def transcript : List StoreCall → D → List (Checked StoreAnswer)
  | [], _ => []
  | call :: calls, d => (call.run d).result :: transcript calls (call.run d).state

-- What a call is to answer.
def answer (w : Writes) : StoreCall → Checked StoreAnswer
  | read id length =>
    if length = pageSize then .ok (.page (w.page id))
    else .error (.error (.bufferSize pageSize length))
  | write _ length _ =>
    if length = pageSize then .ok .done else .error (.error (.bufferSize pageSize length))
  | count => .ok (.count w.span)
  | reopen => .ok .done

-- What is written once the call was answered. A buffer of a wrong length is not.
def after (w : Writes) : StoreCall → Writes
  | write id length byte =>
    if length = pageSize then (id, ⟨Vector.ofFn fun i => byte i⟩) :: w else w
  | _ => w

def answers : Writes → List StoreCall → List (Checked StoreAnswer)
  | _, [] => []
  | w, call :: calls => call.answer w :: answers (call.after w) calls

end StoreCall

-- Stores whose answers are told by what was written to them.
class RecordedStore (D : Type) [PageStore D] [ReopenedStore D] where
  -- what was written is this
  Records : Writes → D → Prop
  readPage_records {w : Writes} {d : D} (id : PageId) (h : Records w d) :
    (PageStore.readPage id).Ends d fun r d' => r = .ok (w.page id) ∧ Records w d'
  writePage_records {w : Writes} {d : D} {id : PageId} (hid : id ≠ PageId.invalid) (p : Page)
    (h : Records w d) :
    (PageStore.writePage id p).Ends d fun r d' => r = .ok () ∧ Records ((id, p) :: w) d'
  pageCount_records {w : Writes} {d : D} (h : Records w d) :
    (PageStore.pageCount (D := D)).Ends d fun r d' =>
      (∃ n, r = .ok n ∧ n.toNat = w.span) ∧ Records w d'
  reopened_records {w : Writes} {d : D} (h : Records w d) :
    Records w (ReopenedStore.reopened d)

namespace MemoryStore

instance : RecordedStore MemoryStore where
  Records w s := s.page = w.page ∧ s.count.toNat = w.span
  readPage_records id h := ⟨congrArg Except.ok (congrFun h.1 id), h⟩
  pageCount_records h := ⟨⟨_, rfl, h.2⟩, h⟩
  reopened_records h := h
  writePage_records {w s id} hid p h := by
    change (write id p).Ends s _
    have hvalid : id.isValid = true := by simpa [PageId.isValid] using hid
    rw [Op.Ends, write, if_pos hvalid]
    refine ⟨rfl, ?_, ?_⟩
    · rw [page_insert, h.1, Writes.page_cons]
    · rw [Writes.span_cons, UInt32.toNat_max, PageId.toNat_succ hid, h.2]

end MemoryStore

namespace FileStore

-- The file holds the pages that were written, and it ends with the one of the largest id.
structure Records (w : Writes) (s : FileStore) : Prop where
  sound : Sound s
  page : s.page = w.page
  length : s.file.length = pageSize * w.span
  bounded : w.span < UInt32.size

theorem records_empty : Records [] empty where
  sound n _ := Std.HashMap.getD_empty
  page := funext fun _ => Std.HashMap.getD_empty
  length := rfl
  bounded := by decide

theorem Records.write {w : Writes} {s : FileStore} (h : Records w s) {id : PageId}
    (hid : id ≠ PageId.invalid) (p : Page) :
    Records ((id, p) :: w) ⟨s.file.writeBlock id.number.toNat p⟩ where
  sound := h.sound.write _ p
  page := by rw [page_write, h.page, Writes.page_cons]
  length := by
    have hlength : (s.file.writeBlock id.number.toNat p).length =
        max s.file.length (pageSize * (id.number.toNat + 1)) := rfl
    rw [hlength, h.length, Writes.span_cons, pageSize]
    omega
  bounded := by
    have hsucc := PageId.toNat_succ hid
    have hlt := (id.number + 1).toNat_lt
    have hspan := h.bounded
    rw [Writes.span_cons, UInt32.size] at *
    omega

instance : RecordedStore FileStore where
  Records := Records
  readPage_records {w s} id h := by
    change (read id).Ends s _
    have hpage : s.file.block id.number.toNat = w.page id := congrFun h.page id
    rw [Op.Ends, read]
    by_cases hpast : s.file.length ≤ pageSize * id.number.toNat
    · rw [if_pos hpast, ← hpage, h.sound _ hpast]
      exact ⟨rfl, h⟩
    · -- the file ends between two pages, so it does not cut this one off
      have hwhole : ¬ s.file.length < pageSize * id.number.toNat + pageSize := by
        have hlength := h.length
        rw [pageSize] at *
        omega
      rw [if_neg hpast, if_neg hwhole, hpage]
      exact ⟨rfl, h⟩
  pageCount_records {w s} h := by
    have hcount : s.file.length / pageSize = w.span := by
      rw [h.length, Nat.mul_div_cancel_left _ (by decide)]
    refine ⟨⟨UInt32.ofNat (s.file.length / pageSize), rfl, ?_⟩, h⟩
    rw [hcount, UInt32.toNat_ofNat_of_lt' h.bounded]
  reopened_records h := h
  writePage_records hid p h := ⟨rfl, h.write hid p⟩

end FileStore

namespace OpenFile

-- What the file holds is told through the blocks that stand for its bytes.
instance : RecordedStore OpenFile where
  Records w f := ∃ s : FileStore, s.Denotes f ∧ s.Records w
  readPage_records id h := by
    obtain ⟨s, hdenotes, h⟩ := h
    refine ((FileStore.alike_readPage id).ends hdenotes
      (RecordedStore.readPage_records id h)).mono fun r f' hread => ?_
    obtain ⟨s', hs', hr, hw⟩ := hread
    exact ⟨hr, s', hs', hw⟩
  pageCount_records h := by
    obtain ⟨s, hdenotes, h⟩ := h
    refine (FileStore.alike_pageCount.ends hdenotes
      (RecordedStore.pageCount_records h)).mono fun r f' hcount => ?_
    obtain ⟨s', hs', hr, hw⟩ := hcount
    exact ⟨hr, s', hs', hw⟩
  reopened_records h := by
    obtain ⟨s, hdenotes, h⟩ := h
    exact ⟨s, hdenotes.reopened, h⟩
  writePage_records hid p h := by
    obtain ⟨s, hdenotes, h⟩ := h
    refine ((FileStore.alike_writePage _ p).ends hdenotes
      (RecordedStore.writePage_records hid p h)).mono fun r f' hwrite => ?_
    obtain ⟨s', hs', hr, hw⟩ := hwrite
    exact ⟨hr, s', hs', hw⟩

theorem records_empty : RecordedStore.Records [] empty :=
  ⟨_, FileStore.denotes_empty, FileStore.records_empty⟩

end OpenFile

namespace StoreCall

variable {D : Type} [PageStore D] [ReopenedStore D] [RecordedStore D]

-- A call answers by what was written, and adds what it writes.
theorem run_records {w : Writes} {d : D} {call : StoreCall} (hcall : call.Valid)
    (h : RecordedStore.Records w d) :
    call.run.Ends d fun r d' => r = call.answer w ∧ RecordedStore.Records (call.after w) d' := by
  cases call with
  | read id length =>
    rw [run, Op.ends_map, PageStore.readInto, answer]
    split
    · refine (RecordedStore.readPage_records id h).mono fun r d' hr => ?_
      obtain ⟨rfl, hd⟩ := hr
      exact ⟨rfl, hd⟩
    · exact ⟨rfl, h⟩
  | write id length byte =>
    rw [run, Op.ends_map, PageStore.writeFrom, answer, after]
    split
    · refine (RecordedStore.writePage_records hcall _ h).mono fun r d' hr => ?_
      obtain ⟨rfl, hd⟩ := hr
      exact ⟨rfl, hd⟩
    · exact ⟨rfl, h⟩
  | count =>
    rw [run, Op.ends_map]
    refine (RecordedStore.pageCount_records h).mono fun r d' hr => ?_
    obtain ⟨⟨n, rfl, hn⟩, hd⟩ := hr
    exact ⟨congrArg (fun n => Except.ok (StoreAnswer.count n)) hn, hd⟩
  | reopen => exact ⟨rfl, RecordedStore.reopened_records h⟩

theorem transcript_records {calls : List StoreCall} (hcalls : ∀ call ∈ calls, call.Valid)
    {w : Writes} {d : D} (h : RecordedStore.Records w d) :
    transcript calls d = answers w calls := by
  induction calls generalizing w d with
  | nil => rfl
  | cons call calls ih =>
    obtain ⟨hcall, hrest⟩ := List.forall_mem_cons.mp hcalls
    obtain ⟨hanswer, hafter⟩ := run_records hcall h
    rw [transcript, answers, hanswer, ih hrest hafter]

end StoreCall

-- Any calls are answered alike by a store in memory, a file and the string of bytes that the file
-- stands for, whatever the lengths of the buffers and wherever the file is closed and opened again.
theorem stores_interchange {calls : List StoreCall} (hcalls : ∀ call ∈ calls, call.Valid) :
    StoreCall.transcript calls MemoryStore.empty = StoreCall.answers [] calls ∧
    StoreCall.transcript calls FileStore.empty = StoreCall.answers [] calls ∧
    StoreCall.transcript calls OpenFile.empty = StoreCall.answers [] calls := by
  have hmemory : RecordedStore.Records [] MemoryStore.empty :=
    ⟨funext fun _ => Std.HashMap.getD_empty, rfl⟩
  exact ⟨StoreCall.transcript_records hcalls hmemory,
    StoreCall.transcript_records hcalls FileStore.records_empty,
    StoreCall.transcript_records hcalls OpenFile.records_empty⟩

-- A page beyond a gap, a page in the gap and a buffer that is too short, with the file closed and
-- opened again in between.
theorem interchange_beyond_gap :
    let page : Page := ⟨Vector.ofFn fun i => UInt8.ofNat i⟩
    let calls : List StoreCall := [.write ⟨2⟩ 4096 fun i => UInt8.ofNat i, .reopen, .read ⟨1⟩ 4096,
      .write ⟨7⟩ 16 fun _ => 1, .read ⟨2⟩ 4096, .count]
    let expected : List (Checked StoreAnswer) := [.ok .done, .ok .done, .ok (.page Page.zero),
      .error (.error (.bufferSize 4096 16)), .ok (.page page), .ok (.count 3)]
    StoreCall.transcript calls MemoryStore.empty = expected ∧
      StoreCall.transcript calls FileStore.empty = expected ∧
      StoreCall.transcript calls OpenFile.empty = expected := by
  refine stores_interchange fun call hcall => ?_
  simp only [List.mem_cons, List.not_mem_nil, or_false] at hcall
  rcases hcall with rfl | rfl | rfl | rfl | rfl | rfl
  · exact (by decide : (⟨2⟩ : PageId) ≠ PageId.invalid)
  · trivial
  · exact (by decide : (⟨1⟩ : PageId) ≠ PageId.invalid)
  · exact (by decide : (⟨7⟩ : PageId) ≠ PageId.invalid)
  · exact (by decide : (⟨2⟩ : PageId) ≠ PageId.invalid)
  · trivial

end PagedIndex
