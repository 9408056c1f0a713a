import Mathlib.Algebra.Group.Nat.Defs
import Mathlib.Data.List.Perm.Basic
import Mathlib.Data.List.Nodup

namespace RadminPro

/-!
# An atomic counter of slots

Owners take a slot by `fetch_add` and return it by `fetch_sub`.  The history of
the counter records both with the value they met.  As long as the counter does
not wrap, its value is the number of slots that are held, and every slot that
was taken is either held or was returned once.
-/

/-- One operation on the counter, with the value before it. -/
inductive SlotEvent (Owner : Type) where
  | taken (owner : Owner) (old : UInt32)
  | returned (owner : Owner) (old : UInt32)

/-- A counter with what has been done to it. -/
structure SlotCounter (Owner : Type) where
  value : UInt32 := 0
  history : List (SlotEvent Owner) := []

namespace SlotCounter

variable {Owner : Type}

/-- Take a slot; the counter before that decides whether it is granted. -/
def fetchAdd (counter : SlotCounter Owner) (owner : Owner) :
    SlotCounter Owner where
  value := counter.value + 1
  history := counter.history ++ [.taken owner counter.value]

/-- Return a slot. -/
def fetchSub (counter : SlotCounter Owner) (owner : Owner) :
    SlotCounter Owner where
  value := counter.value - 1
  history := counter.history ++ [.returned owner counter.value]

/-- Who has taken a slot so far. -/
def takers (counter : SlotCounter Owner) : List Owner :=
  counter.history.filterMap fun event =>
    match event with
    | .taken owner _ => some owner
    | .returned .. => none

/-- Who has returned a slot so far. -/
def returners (counter : SlotCounter Owner) : List Owner :=
  counter.history.filterMap fun event =>
    match event with
    | .taken .. => none
    | .returned owner _ => some owner

@[simp] theorem takers_fetchAdd
    (counter : SlotCounter Owner)
    (owner : Owner) :
    (counter.fetchAdd owner).takers = counter.takers ++ [owner] := by
  simp [takers, fetchAdd]

@[simp] theorem takers_fetchSub
    (counter : SlotCounter Owner)
    (owner : Owner) :
    (counter.fetchSub owner).takers = counter.takers := by
  simp [takers, fetchSub]

@[simp] theorem returners_fetchAdd
    (counter : SlotCounter Owner)
    (owner : Owner) :
    (counter.fetchAdd owner).returners = counter.returners := by
  simp [returners, fetchAdd]

@[simp] theorem returners_fetchSub
    (counter : SlotCounter Owner)
    (owner : Owner) :
    (counter.fetchSub owner).returners = counter.returners ++ [owner] := by
  simp [returners, fetchSub]

/-- The counter counts exactly the slots that these owners hold. -/
structure Counts (counter : SlotCounter Owner) (holders : List Owner) :
    Prop where
  value : counter.value.toNat = holders.length
  once : counter.takers.Perm (counter.returners ++ holders)
  distinct : counter.takers.Nodup
  noUnderflow :
    ∀ owner old, .returned owner old ∈ counter.history → old ≠ 0

/-- A counter at zero counts nothing. -/
theorem counts_nil : Counts ({} : SlotCounter Owner) [] where
  value := rfl
  once := List.Perm.refl _
  distinct := List.nodup_nil
  noUnderflow := by
    simp

variable {counter : SlotCounter Owner}
variable {holders : List Owner}
variable {owner : Owner}

/-- The order of the holders does not matter. -/
theorem Counts.perm
    {others : List Owner}
    (counts : Counts counter holders)
    (same : holders.Perm others) :
    Counts counter others where
  value := counts.value.trans same.length_eq
  once := counts.once.trans (same.append_left _)
  distinct := counts.distinct
  noUnderflow := counts.noUnderflow

/-- Below the last value, taking a slot adds a holder. -/
theorem Counts.fetchAdd
    (counts : Counts counter holders)
    (room : holders.length + 1 < 2 ^ 32)
    (fresh : owner ∉ counter.takers) :
    Counts (counter.fetchAdd owner) (owner :: holders) where
  value := by
    have small : counter.value.toNat + 1 < 2 ^ 32 := by
      rwa [counts.value]
    rw [SlotCounter.fetchAdd, List.length_cons, ← counts.value]
    simp only [UInt32.toNat_add, UInt32.toNat_one]
    exact Nat.mod_eq_of_lt small
  once := by
    rw [takers_fetchAdd, returners_fetchAdd]
    refine (counts.once.append_right [owner]).trans ?_
    rw [List.append_assoc]
    exact (List.perm_append_singleton owner holders).append_left _
  distinct := by
    rw [takers_fetchAdd]
    exact List.nodup_append.mpr
      ⟨counts.distinct, List.nodup_singleton owner, by
        intro taker wasTaken other isOwner same
        rw [List.mem_singleton.mp isOwner] at same
        exact fresh (same ▸ wasTaken)⟩
  noUnderflow := by
    intro other old member
    rcases List.mem_append.mp member with before | isNew
    · exact counts.noUnderflow other old before
    · simp at isNew

/-- Returning a slot that is held removes the holder, and the counter was not zero. -/
theorem Counts.fetchSub
    (counts : Counts counter (owner :: holders)) :
    Counts (counter.fetchSub owner) holders where
  value := by
    have positive : counter.value.toNat = holders.length + 1 :=
      counts.value
    have notZero : (1 : UInt32) ≤ counter.value := by
      rw [UInt32.le_iff_toNat_le, positive]
      simp
    rw [SlotCounter.fetchSub, UInt32.toNat_sub_of_le _ _ notZero, positive]
    rfl
  once := by
    rw [takers_fetchSub, returners_fetchSub, List.append_assoc]
    exact counts.once
  distinct := by
    rw [takers_fetchSub]
    exact counts.distinct
  noUnderflow := by
    intro other old member
    rcases List.mem_append.mp member with before | isNew
    · exact counts.noUnderflow other old before
    · obtain ⟨rfl, rfl⟩ := SlotEvent.returned.inj (List.mem_singleton.mp isNew)
      intro isZero
      have positive := counts.value
      rw [isZero] at positive
      simp at positive

end SlotCounter

end RadminPro
