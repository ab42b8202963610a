import ApkFormats.Xml.Event
import Mathlib.Data.List.Induction

/-!
# Which elements are open

Starts and ends in a row of events belong together like brackets.  An element
that starts at a place is open before a later place when, from its start on up
to there, no stretch of events holds more ends than starts: otherwise one of
these ends was its own.

* `openPlaces_append`: an event opens the element that it starts, or closes the
  innermost open one, or leaves the open elements as they are;
* `balance_openPlaces`: between the start of an open element and the end of the
  row, as many more elements have started than ended as are open inside it.
-/

namespace ApkFormats.Xml

namespace Event

/-- Whether an element starts. -/
def isStart : Event → Bool
  | .start _ _ _ => true
  | _ => false

/-- Whether an element ends. -/
def isFinish : Event → Bool
  | .finish => true
  | _ => false

theorem not_isFinish {e : Event} (h : e.isStart = true) : e.isFinish = false := by
  cases e with
  | start name uri attributes => rfl
  | _ => cases h

end Event

/-- Number of elements that start. -/
def starts (events : List Event) : Nat :=
  events.countP Event.isStart

/-- Number of elements that end. -/
def finishes (events : List Event) : Nat :=
  events.countP Event.isFinish

/-- The events behind one place and before another. -/
def between (events : List Event) (i j : Nat) : List Event :=
  (events.take j).drop (i + 1)

/-- Whether the element that starts at a place is open before another place. -/
def isOpen (events : List Event) (i j : Nat) : Bool :=
  (events[i]?).any Event.isStart &&
    (List.range (j + 1)).all fun m => finishes (between events i m) ≤ starts (between events i m)

/-- Places of the elements that are open before a place, innermost first. -/
def openPlaces (events : List Event) (j : Nat) : List Nat :=
  ((List.range j).filter fun i => isOpen events i j).reverse

/-- Place of the innermost element that is open before a place. -/
def innermost? (events : List Event) (j : Nat) : Option Nat :=
  (openPlaces events j).head?

section Counts

variable (events more : List Event) (e : Event)

@[simp] theorem starts_append : starts (events ++ more) = starts events + starts more :=
  List.countP_append

@[simp] theorem finishes_append : finishes (events ++ more) = finishes events + finishes more :=
  List.countP_append

@[simp] theorem starts_singleton : starts [e] = if e.isStart then 1 else 0 := by
  simp [starts, List.countP_singleton]

@[simp] theorem finishes_singleton : finishes [e] = if e.isFinish then 1 else 0 := by
  simp [finishes, List.countP_singleton]

end Counts

section Prefixes

/-! ## What comes later does not matter -/

variable {events : List Event} {e : Event} {i j : Nat}

theorem between_append (more : List Event) (hj : j ≤ events.length) :
    between (events ++ more) i j = between events i j := by
  rw [between, between, List.take_append_of_le_length hj]

theorem between_last (hi : i < events.length) :
    between (events ++ [e]) i (events.length + 1) = between events i events.length ++ [e] := by
  have hall : (events ++ [e]).take (events.length + 1) = events ++ [e] :=
    List.take_of_length_le (by simp)
  rw [between, between, hall, List.take_length, List.drop_append_of_le_length hi]

theorem between_eq_nil (h : j ≤ i + 1) : between events i j = [] := by
  refine List.drop_eq_nil_of_le ?_
  rw [List.length_take]
  omega

theorem isOpen_append (more : List Event) (hi : i < events.length) (hj : j ≤ events.length) :
    isOpen (events ++ more) i j = isOpen events i j := by
  rw [isOpen, isOpen, List.getElem?_append_left hi]
  have hsame : ∀ m ∈ List.range (j + 1),
      between (events ++ more) i m = between events i m := by
    intro m hm
    have := List.mem_range.mp hm
    exact between_append more (by omega)
  congr 1
  rw [Bool.eq_iff_iff, List.all_eq_true, List.all_eq_true]
  constructor
  · intro h m hm
    rw [← hsame m hm]
    exact h m hm
  · intro h m hm
    rw [hsame m hm]
    exact h m hm

theorem openPlaces_of_append (more : List Event) (hj : j ≤ events.length) :
    openPlaces (events ++ more) j = openPlaces events j := by
  rw [openPlaces, openPlaces]
  congr 1
  refine List.filter_congr fun i hi => ?_
  have hi : i < j := List.mem_range.mp hi
  exact isOpen_append more (by omega) hj

theorem innermost?_of_append (more : List Event) (hj : j ≤ events.length) :
    innermost? (events ++ more) j = innermost? events j := by
  rw [innermost?, innermost?, openPlaces_of_append more hj]

theorem lt_of_mem_openPlaces (h : i ∈ openPlaces events j) : i < j := by
  simp only [openPlaces, List.mem_reverse, List.mem_filter, List.mem_range] at h
  exact h.1

theorem lt_of_innermost? (h : innermost? events j = some i) : i < j :=
  lt_of_mem_openPlaces (List.mem_of_head? h)

/-- Where an element is open an element has started. -/
theorem exists_start_of_mem_openPlaces (h : i ∈ openPlaces events j) :
    ∃ name uri attributes, events[i]? = some (.start name uri attributes) := by
  simp only [openPlaces, List.mem_reverse, List.mem_filter, isOpen, Bool.and_eq_true] at h
  obtain ⟨e, he, hstart⟩ := (Option.any_eq_true _ _).mp h.2.1
  cases e with
  | start name uri attributes => exact ⟨name, uri, attributes, he⟩
  | _ => cases hstart

end Prefixes

section Steps

/-! ## One event more -/

variable {events : List Event} {e : Event} {i : Nat}

/-- An element stays open when the event does not close it. -/
theorem isOpen_last (hi : i < events.length) :
    isOpen (events ++ [e]) i (events.length + 1) =
      (isOpen events i events.length &&
        decide (finishes (between events i events.length ++ [e]) ≤
          starts (between events i events.length ++ [e]))) := by
  rw [← isOpen_append [e] hi (Nat.le_refl _), isOpen, isOpen,
    List.range_succ (n := events.length + 1), List.all_append, Bool.and_assoc]
  simp only [List.all_cons, List.all_nil, Bool.and_true, between_last hi]

/-- The element that starts last is open. -/
theorem isOpen_self : isOpen (events ++ [e]) events.length (events.length + 1) = e.isStart := by
  have hall : ((List.range (events.length + 1 + 1)).all fun m =>
      finishes (between (events ++ [e]) events.length m) ≤
        starts (between (events ++ [e]) events.length m)) = true := by
    rw [List.all_eq_true]
    intro m hm
    have hm : m ≤ events.length + 1 := by
      have := List.mem_range.mp hm
      omega
    rw [between_eq_nil hm]
    rfl
  rw [isOpen, hall]
  simp

/-- The open elements after one event more are those that it leaves open, inside them the one that
it starts. -/
theorem openPlaces_last :
    openPlaces (events ++ [e]) (events.length + 1) =
      (if e.isStart then [events.length] else []) ++
        (openPlaces events events.length).filter fun i =>
          finishes (between events i events.length ++ [e]) ≤
            starts (between events i events.length ++ [e]) := by
  have hfilter : (List.range events.length).filter
        (fun i => isOpen (events ++ [e]) i (events.length + 1)) =
      ((List.range events.length).filter fun i => isOpen events i events.length).filter fun i =>
        finishes (between events i events.length ++ [e]) ≤
          starts (between events i events.length ++ [e]) := by
    rw [List.filter_filter]
    refine List.filter_congr fun i hi => ?_
    rw [isOpen_last (List.mem_range.mp hi), Bool.and_comm]
  rw [openPlaces, List.range_succ, List.filter_append, List.reverse_append, hfilter, openPlaces,
    List.filter_reverse]
  cases hstart : e.isStart <;> simp [isOpen_self, hstart]

/-- When values at the places of a list count up from zero, those above zero are its tail. -/
theorem filter_eq_tail (l : List Nat) (value : Nat → Nat)
    (h : ∀ k i, l[k]? = some i → value i = k) : (l.filter fun i => 0 < value i) = l.tail := by
  cases l with
  | nil => rfl
  | cons i rest =>
      have hfirst : value i = 0 := h 0 i rfl
      rw [List.filter_cons_of_neg (by simp [hfirst]), List.tail_cons, List.filter_eq_self]
      intro a ha
      obtain ⟨k, hk⟩ := List.mem_iff_getElem?.mp ha
      have hlater := h (k + 1) a hk
      simp only [decide_eq_true_eq]
      omega

/-- The innermost open element is as deep as all elements that have started since it did have
ended; each element around it is one further out. -/
def Balanced (events : List Event) : Prop :=
  ∀ k i, (openPlaces events events.length)[k]? = some i →
    starts (between events i events.length) = finishes (between events i events.length) + k

/-- Under balance an event opens the element that it starts, or closes the innermost open one, or
leaves the open elements as they are. -/
theorem openPlaces_append_of_balanced (h : Balanced events) :
    openPlaces (events ++ [e]) (events.length + 1) =
      if e.isStart then events.length :: openPlaces events events.length
      else if e.isFinish then (openPlaces events events.length).tail
      else openPlaces events events.length := by
  have hbalance : ∀ i ∈ openPlaces events events.length,
      finishes (between events i events.length) ≤ starts (between events i events.length) := by
    intro i hi
    obtain ⟨k, hk⟩ := List.mem_iff_getElem?.mp hi
    have := h k i hk
    omega
  rw [openPlaces_last]
  cases hfinish : e.isFinish with
  | false =>
      have hkeep : ((openPlaces events events.length).filter fun i =>
          finishes (between events i events.length ++ [e]) ≤
            starts (between events i events.length ++ [e])) = openPlaces events events.length := by
        rw [List.filter_eq_self]
        intro i hi
        have := hbalance i hi
        simp only [finishes_append, starts_append, finishes_singleton, hfinish, decide_eq_true_eq]
        simp only [Bool.false_eq_true, if_false]
        omega
      rw [hkeep]
      cases e.isStart <;> rfl
  | true =>
      have hstart : e.isStart = false := by
        rw [Bool.eq_false_iff]
        intro hstart
        rw [Event.not_isFinish hstart] at hfinish
        cases hfinish
      have htail := filter_eq_tail (openPlaces events events.length)
        (fun i => starts (between events i events.length) -
          finishes (between events i events.length)) (fun k i hk => by
          have := h k i hk
          omega)
      rw [hstart, ← htail]
      refine List.filter_congr fun i hi => ?_
      have := hbalance i hi
      simp only [finishes_append, starts_append, finishes_singleton, starts_singleton, hfinish,
        hstart, if_true, Bool.false_eq_true, if_false, decide_eq_decide]
      omega

/-- Every row of events is balanced, by induction on its length. -/
theorem balance_openPlaces (events : List Event) : Balanced events := by
  induction events using List.reverseRecOn with
  | nil =>
      intro k i hk
      simp [openPlaces] at hk
  | append_singleton events e ih =>
      intro k i hk
      rw [List.length_append, List.length_singleton] at hk ⊢
      rw [openPlaces_append_of_balanced ih] at hk
      -- Both counts behind an element that was open grow by what the event is.
      have hgrows : ∀ m, (openPlaces events events.length)[m]? = some i →
          starts (between (events ++ [e]) i (events.length + 1)) =
            finishes (between events i events.length) + m + (if e.isStart then 1 else 0) ∧
          finishes (between (events ++ [e]) i (events.length + 1)) =
            finishes (between events i events.length) + (if e.isFinish then 1 else 0) := by
        intro m hm
        have hi : i < events.length := lt_of_mem_openPlaces (List.mem_of_getElem? hm)
        rw [between_last hi, starts_append, finishes_append, ih m i hm, starts_singleton,
          finishes_singleton]
        exact ⟨rfl, rfl⟩
      by_cases hstart : e.isStart = true
      · have hfinish : e.isFinish = false := Event.not_isFinish hstart
        rw [if_pos hstart] at hk
        cases k with
        | zero =>
            cases hk
            rw [between_eq_nil (Nat.le_refl _)]
            rfl
        | succ k =>
            obtain ⟨hstarts, hfinishes⟩ := hgrows k hk
            rw [if_pos hstart] at hstarts
            rw [if_neg (by simp [hfinish])] at hfinishes
            omega
      · rw [if_neg hstart] at hk
        by_cases hfinish : e.isFinish = true
        · rw [if_pos hfinish, List.getElem?_tail] at hk
          obtain ⟨hstarts, hfinishes⟩ := hgrows (k + 1) hk
          rw [if_neg hstart] at hstarts
          rw [if_pos hfinish] at hfinishes
          omega
        · rw [if_neg hfinish] at hk
          obtain ⟨hstarts, hfinishes⟩ := hgrows k hk
          rw [if_neg hstart] at hstarts
          rw [if_neg hfinish] at hfinishes
          omega

/-- An event opens the element that it starts, or closes the innermost open one, or leaves the
open elements as they are. -/
theorem openPlaces_append :
    openPlaces (events ++ [e]) (events.length + 1) =
      if e.isStart then events.length :: openPlaces events events.length
      else if e.isFinish then (openPlaces events events.length).tail
      else openPlaces events events.length :=
  openPlaces_append_of_balanced (balance_openPlaces events)

example : openPlaces [.start "a" none [], .start "b" none [], .text "x", .finish] 3 = [1, 0] := by
  decide

end Steps

end ApkFormats.Xml
