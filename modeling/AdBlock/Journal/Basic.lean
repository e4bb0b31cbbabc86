import Mathlib.Data.List.DropRight
import Mathlib.Tactic.Common

/-!
# Rings with a journal

A ring keeps the newest entries up to a capacity.  Entries are also appended to a journal, which is
rewritten with what the ring keeps once it has twice as many.  A ring that is lost is read off the
journal again.

The ring, and what would be read off the journal, are the newest of all entries
(`Holds.push`, `Holds.reload`).
-/

/-- A ring and its journal, from the oldest entry. -/
structure Journal (ε : Type) where
  ring : List ε
  entries : List ε

namespace Journal

variable {ε : Type} (cap : ℕ)

def empty : Journal ε :=
  { ring := [], entries := [] }

def push (e : ε) (j : Journal ε) : Journal ε :=
  { ring := (j.ring ++ [e]).rtake cap
    entries :=
      if cap * 2 ≤ j.entries.length then (j.ring ++ [e]).rtake cap else j.entries ++ [e] }

def reload (j : Journal ε) : Journal ε :=
  { j with ring := j.entries.rtake cap }

/-- The newest entries of a list stay the newest when others come after them. -/
theorem rtake_rtake_append (n : ℕ) (l m : List ε) :
  (l.rtake n ++ m).rtake n = (l ++ m).rtake n
  := by
  simp only [List.rtake_eq_reverse_take_reverse, List.reverse_append, List.reverse_reverse,
    List.take_append, List.take_take]
  rw [Nat.min_eq_left (Nat.sub_le _ _)]

theorem length_rtake_le (n : ℕ) (l : List ε) :
  (l.rtake n).length ≤ n
  := by
  rw [List.rtake, List.length_drop]
  omega

/-- The ring has the newest of all entries, and so has the journal, which is bounded. -/
structure Holds (all : List ε) (j : Journal ε) : Prop where
  ring_eq : j.ring = all.rtake cap
  rtake_entries : j.entries.rtake cap = all.rtake cap
  length_le : j.entries.length ≤ cap * 2

namespace Holds

variable {cap} {all : List ε} {j : Journal ε}

theorem empty :
  Holds cap [] (empty : Journal ε)
  := ⟨(List.rtake_nil cap).symm, rfl, Nat.zero_le _⟩

theorem push (h : Holds cap all j) (e : ε) :
  Holds cap (all ++ [e]) (j.push cap e)
  := by
  have hring : (j.ring ++ [e]).rtake cap = (all ++ [e]).rtake cap := by
    rw [h.ring_eq, rtake_rtake_append]
  refine ⟨hring, ?_, ?_⟩
  · rw [Journal.push]
    dsimp only
    split
    · rw [hring]
      have hself := rtake_rtake_append cap (all ++ [e]) []
      rwa [List.append_nil, List.append_nil] at hself
    · rw [← rtake_rtake_append, h.rtake_entries, rtake_rtake_append]
  · rw [Journal.push]
    dsimp only
    split
    · have hle := length_rtake_le cap (j.ring ++ [e])
      omega
    · rw [List.length_append, List.length_singleton]
      omega

theorem reload (h : Holds cap all j) :
  Holds cap all (j.reload cap)
  := ⟨h.rtake_entries, h.rtake_entries, h.length_le⟩

end Holds

end Journal
