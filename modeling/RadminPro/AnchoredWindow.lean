import Mathlib.Algebra.Order.Group.Unbundled.Basic
import Mathlib.Algebra.Order.Group.Int
import Mathlib.Data.List.Infix
import Mathlib.Order.MinMax

namespace RadminPro.AnchoredWindow

/-!
# Counting events in anchored windows

Events are counted in windows.  A window is anchored at the event that opens
it; the next event opens a new one when it lies more than a width after the
anchor, or when the window is full.  Nothing slides: the events of a window
that has run out are forgotten together.
-/

variable {T : Type} [AddCommGroup T] [LinearOrder T]

/-- The window that is open after one more event. -/
def enter (width : T) (capacity : Nat) (window : List T) (event : T) : List T :=
  match window with
  | [] => [event]
  | anchor :: rest =>
      if width < event - anchor ∨ capacity ≤ (anchor :: rest).length then
        [event]
      else
        anchor :: rest ++ [event]

/-- The events counted in the window that is open after all of them. -/
def openWindow (width : T) (capacity : Nat) (events : List T) : List T :=
  events.foldl (enter width capacity) []

variable {width : T} {capacity : Nat}

@[simp] theorem openWindow_nil :
    openWindow width capacity ([] : List T) = [] :=
  rfl

theorem openWindow_snoc (events : List T) (event : T) :
    openWindow width capacity (events ++ [event]) =
      enter width capacity (openWindow width capacity events) event := by
  simp [openWindow]

/-- An event is either the first of its window or follows the others in it. -/
theorem enter_cases
    (width : T)
    (capacity : Nat)
    (window : List T)
    (event : T) :
    enter width capacity window event = [event] ∨
      ∃ anchor rest,
        window = anchor :: rest ∧
          event - anchor ≤ width ∧
          window.length < capacity ∧
          enter width capacity window event = window ++ [event] := by
  cases window with
  | nil =>
      exact .inl rfl
  | cons anchor rest =>
      by_cases closed : width < event - anchor ∨ capacity ≤ (anchor :: rest).length
      · exact .inl (if_pos closed)
      · obtain ⟨recent, roomy⟩ := not_or.mp closed
        exact .inr ⟨anchor, rest, rfl, not_lt.mp recent, not_le.mp roomy,
          if_neg closed⟩

/-- The open window is made of the latest events. -/
theorem openWindow_suffix (width : T) (capacity : Nat) (events : List T) :
    openWindow width capacity events <:+ events := by
  induction events using List.reverseRecOn with
  | nil =>
      exact List.suffix_refl _
  | append_singleton earlier event inductionHypothesis =>
      rw [openWindow_snoc]
      rcases enter_cases width capacity
          (openWindow width capacity earlier) event
        with alone | ⟨anchor, rest, _, _, _, follows⟩
      · rw [alone]
        exact List.suffix_append earlier [event]
      · rw [follows]
        exact List.suffix_append_self_iff.mpr inductionHypothesis

/-- No window holds more events than its capacity. -/
theorem length_openWindow_le (roomy : 0 < capacity) (events : List T) :
    (openWindow width capacity events).length ≤ capacity := by
  induction events using List.reverseRecOn with
  | nil =>
      exact Nat.zero_le _
  | append_singleton earlier event inductionHypothesis =>
      rw [openWindow_snoc]
      rcases enter_cases width capacity
          (openWindow width capacity earlier) event
        with alone | ⟨anchor, rest, _, _, below, follows⟩
      · rw [alone]
        exact roomy
      · simpa [follows] using Nat.succ_le_of_lt below

/-- The events of a window lie within a width of the one counted last. -/
theorem openWindow_within
    [IsOrderedAddMonoid T]
    {earlier : List T}
    {event : T}
    (ordered : (earlier ++ [event]).Pairwise (· ≤ ·))
    {counted : T}
    (member : counted ∈ openWindow width capacity (earlier ++ [event])) :
    event - max width 0 ≤ counted ∧ counted ≤ event := by
  have beforeLast : ∀ time ∈ earlier, time ≤ event := by
    intro time isEarlier
    exact (List.pairwise_append.mp ordered).2.2 time isEarlier event
      List.mem_cons_self
  have self : event - max width 0 ≤ event :=
    sub_le_self event (le_max_right width 0)
  rw [openWindow_snoc] at member
  rcases enter_cases width capacity
      (openWindow width capacity earlier) event
    with alone | ⟨anchor, rest, shape, recent, _, follows⟩
  · rw [alone, List.mem_singleton] at member
    subst counted
    exact ⟨self, le_rfl⟩
  · rw [follows, List.mem_append, List.mem_singleton] at member
    rcases member with isEarlier | rfl
    · have suffix := openWindow_suffix width capacity earlier
      have anchored : anchor ≤ counted := by
        have sorted :
            (openWindow width capacity earlier).Pairwise (· ≤ ·) :=
          (List.pairwise_append.mp ordered).1.sublist suffix.sublist
        rw [shape] at sorted isEarlier
        rcases List.mem_cons.mp isEarlier with rfl | later
        · exact le_rfl
        · exact (List.pairwise_cons.mp sorted).1 counted later
      have reach : event - max width 0 ≤ anchor := by
        have wide : event - anchor ≤ max width 0 :=
          recent.trans (le_max_left width 0)
        exact sub_le_comm.mp wide
      exact ⟨reach.trans anchored, beforeLast counted (suffix.subset isEarlier)⟩
    · exact ⟨self, le_rfl⟩

end RadminPro.AnchoredWindow
