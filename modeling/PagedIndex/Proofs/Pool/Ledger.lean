import PagedIndex.Proofs.Pool.Caching

namespace PagedIndex

-- A page that was given out. It reads as zeroes until it is written.
inductive Sheet
  | blank
  | written (p : Page)

def Sheet.page : Sheet → Page
  | blank => Page.zero
  | written p => p

abbrev Sheets := PageId → Option Sheet

-- What is known of a pool from its answers: the pages that were given out, what was written to
-- them, and how many calls were refused.
structure Ledger where
  sheets : Sheets
  -- the fetches and allocations that failed
  refusals : Nat

namespace Ledger

def memory (w : Ledger) : Memory := fun id => (w.sheets id).map Sheet.page

def ofMemory (M : Memory) (refusals : Nat) : Ledger := ⟨fun id => (M id).map .written, refusals⟩

def allot (w : Ledger) (id : PageId) : Ledger :=
  { w with sheets := Function.update w.sheets id (some .blank) }

def put (w : Ledger) (id : PageId) (p : Page) : Ledger :=
  { w with sheets := Function.update w.sheets id (some (.written p)) }

def refuse (w : Ledger) : Ledger := { w with refusals := w.refusals + 1 }

section

variable (w : Ledger) (id : PageId) (p : Page) {other : PageId}

@[simp] theorem refusals_allot : (w.allot id).refusals = w.refusals := rfl
@[simp] theorem refusals_put : (w.put id p).refusals = w.refusals := rfl
@[simp] theorem refusals_refuse : w.refuse.refusals = w.refusals + 1 := rfl
@[simp] theorem sheets_refuse : w.refuse.sheets = w.sheets := rfl
@[simp] theorem memory_refuse : w.refuse.memory = w.memory := rfl

theorem sheets_allot_self : (w.allot id).sheets id = some .blank := Function.update_self ..

theorem sheets_allot_of_ne (h : other ≠ id) : (w.allot id).sheets other = w.sheets other :=
  Function.update_of_ne h ..

theorem sheets_put_self : (w.put id p).sheets id = some (.written p) := Function.update_self ..

theorem sheets_put_of_ne (h : other ≠ id) : (w.put id p).sheets other = w.sheets other :=
  Function.update_of_ne h ..

-- Nothing is taken out of a ledger.
theorem sheets_allot_ne_none (h : w.sheets other ≠ none) : (w.allot id).sheets other ≠ none := by
  by_cases heq : other = id
  · rw [heq, sheets_allot_self]
    exact Option.some_ne_none _
  · rwa [sheets_allot_of_ne w id heq]

theorem sheets_put_ne_none (h : w.sheets other ≠ none) : (w.put id p).sheets other ≠ none := by
  by_cases heq : other = id
  · rw [heq, sheets_put_self]
    exact Option.some_ne_none _
  · rwa [sheets_put_of_ne w id p heq]

@[simp] theorem memory_ofMemory (M : Memory) (refusals : Nat) : (ofMemory M refusals).memory = M := by
  funext id
  simp only [memory, ofMemory, Option.map_map]
  cases M id <;> rfl

@[simp] theorem memory_allot : (w.allot id).memory = w.memory.put id Page.zero := by
  funext other
  by_cases h : other = id
  · rw [h, Memory.put_self, memory, sheets_allot_self]
    rfl
  · rw [Memory.put_of_ne _ _ h, memory, sheets_allot_of_ne w id h]
    rfl

@[simp] theorem memory_put : (w.put id p).memory = w.memory.put id p := by
  funext other
  by_cases h : other = id
  · rw [h, Memory.put_self, memory, sheets_put_self]
    rfl
  · rw [Memory.put_of_ne _ _ h, memory, sheets_put_of_ne w id p h]
    rfl

end

variable {w : Ledger} {id : PageId} {p : Page}

theorem memory_of_written (h : w.sheets id = some (.written p)) : w.memory id = some p := by
  rw [memory, h]
  rfl

theorem sheets_ofMemory {M : Memory} (h : M id = some p) (refusals : Nat) :
    (ofMemory M refusals).sheets id = some (.written p) := by
  change (M id).map Sheet.written = _
  rw [h]
  rfl

theorem sheets_ne_none_iff : w.sheets id ≠ none ↔ w.memory id ≠ none :=
  not_congr Option.map_eq_none_iff.symm

theorem memory_of_blank (h : w.sheets id = some .blank) : w.memory id = some Page.zero := by
  rw [memory, h]
  rfl

theorem sheets_eq_none (h : w.memory id = none) : w.sheets id = none := Option.map_eq_none_iff.mp h

end Ledger

end PagedIndex
