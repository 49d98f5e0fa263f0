import Mathlib.Order.BooleanAlgebra.Set
import Mathlib.Logic.Relation

namespace Relay

variable {ι : Type}

/-- What a relay has done so far. It may send and deliver an entry any number
of times, and an entry that was sent may get lost. -/
@[ext]
structure Books (ι : Type) where
  recorded : Set ι
  sent : Set ι
  delivered : Set ι

inductive Step : Books ι → Books ι → Prop where
  | record (b : Books ι) (i : ι) : Step b { b with recorded := insert i b.recorded }
  | send {b : Books ι} {i : ι} (h : i ∈ b.recorded) : Step b { b with sent := insert i b.sent }
  | deliver {b : Books ι} {i : ι} (h : i ∈ b.sent) :
      Step b { b with delivered := insert i b.delivered }

namespace Books

def empty : Books ι := ⟨∅, ∅, ∅⟩

/-- The entries that have to be sent again. -/
def outstanding (b : Books ι) : Set ι := b.recorded \ b.delivered

variable {b : Books ι} {i : ι}

theorem outstanding_record (h : i ∉ b.delivered) :
    ({ b with recorded := insert i b.recorded } : Books ι).outstanding =
      insert i b.outstanding :=
  Set.insert_sdiff_of_notMem b.recorded h

theorem outstanding_deliver :
    ({ b with delivered := insert i b.delivered } : Books ι).outstanding = b.outstanding \ {i} := by
  simp only [outstanding, Set.sdiff_sdiff, Set.union_singleton]

end Books

/-- The books of a relay that started with nothing. -/
def Kept (b : Books ι) : Prop := Relation.ReflTransGen Step Books.empty b

variable {b : Books ι}

/-- A relay delivers only what it sent and sends only what was recorded. -/
theorem Kept.subset (h : Kept b) : b.delivered ⊆ b.sent ∧ b.sent ⊆ b.recorded := by
  induction h with
  | refl => exact ⟨Set.empty_subset _, Set.empty_subset _⟩
  | tail _ hs ih =>
    obtain ⟨hds, hsr⟩ := ih
    cases hs with
    | record i => exact ⟨hds, hsr.trans (Set.subset_insert _ _)⟩
    | send hi => exact ⟨hds.trans (Set.subset_insert _ _), Set.insert_subset hi hsr⟩
    | deliver hi => exact ⟨Set.insert_subset hi hds, hsr⟩

end Relay
