import Mathlib.Tactic
import Std.Data.ExtHashMap

/-!
# Queues that list a hash map

A hash map has no order of its own; the queue beside it names each of its keys once.
-/

namespace VisionCore
namespace Foundation

open Std

variable {Key Value : Type} [BEq Key] [LawfulBEq Key] [Hashable Key]

/-- The queue is a duplicate-free listing of exactly the keys of the map. -/
structure Lists (order : List Key) (m : ExtHashMap Key Value) : Prop where
  nodup : order.Nodup
  mem_iff : forall key : Key, key ∈ order ↔ key ∈ m

namespace Lists

variable {order rest : List Key} {m : ExtHashMap Key Value} {k : Key}

theorem empty : Lists [] (∅ : ExtHashMap Key Value) where
  nodup := List.nodup_nil
  mem_iff := by simp

theorem erase_head (h : Lists (k :: rest) m) : Lists rest (m.erase k) where
  nodup := (List.nodup_cons.mp h.nodup).2
  mem_iff := by
    intro key
    have hnotMem := (List.nodup_cons.mp h.nodup).1
    rw [ExtHashMap.mem_erase, ← h.mem_iff, List.mem_cons]
    constructor
    · intro hmem
      refine ⟨beq_false_of_ne ?_, Or.inr hmem⟩
      intro heq
      exact hnotMem (heq ▸ hmem)
    · rintro ⟨hne, heq | hmem⟩
      · exact absurd heq.symm (ne_of_beq_false hne)
      · exact hmem

theorem rotate (h : Lists (k :: rest) m) : Lists (rest ++ [k]) m where
  nodup := (List.perm_append_singleton k rest).nodup_iff.mpr h.nodup
  mem_iff := by
    intro key
    rw [← h.mem_iff]
    exact (List.perm_append_singleton k rest).mem_iff

theorem insert (h : Lists order m) (hfresh : k ∉ m) (v : Value) :
    Lists (order ++ [k]) (m.insert k v) where
  nodup := by
    refine (List.perm_append_singleton k order).nodup_iff.mpr (List.nodup_cons.mpr ⟨?_, h.nodup⟩)
    rwa [h.mem_iff]
  mem_iff := by
    intro key
    rw [ExtHashMap.mem_insert, List.mem_append, List.mem_singleton, h.mem_iff, beq_iff_eq, or_comm,
      eq_comm]

theorem length_eq (h : Lists order m) : order.length = m.size := by
  induction order generalizing m with
  | nil =>
      have hempty : m = ∅ := by
        rw [ExtHashMap.eq_empty_iff_forall_not_mem]
        intro key hmem
        cases (h.mem_iff key).mpr hmem
      rw [hempty]
      rfl
  | cons k rest ih =>
      have hmem : k ∈ m := (h.mem_iff k).mp List.mem_cons_self
      have hrest := ih h.erase_head
      have hpositive : m.size ≠ 0 := by
        intro hzero
        have hempty := ExtHashMap.eq_empty_iff_size_eq_zero.mpr hzero
        rw [hempty] at hmem
        simp at hmem
      rw [ExtHashMap.size_erase, if_pos hmem] at hrest
      rw [List.length_cons]
      omega

/-- A filter that drops only what is not listed changes nothing. -/
theorem filter_ne [DecidableEq Key] (h : Lists order m) (hfresh : k ∉ m) :
    order.filter (fun queued => queued ≠ k) = order := by
  rw [List.filter_eq_self]
  intro queued hmem
  refine decide_eq_true ?_
  intro heq
  exact hfresh (heq ▸ (h.mem_iff queued).mp hmem)

end Lists

end Foundation
end VisionCore
