import Mathlib.Data.List.Basic
import Mathlib.Data.List.Induction

/-!
# The log buffer of a stream

A queue of at most `kMaxQueue` messages. A push into a full queue removes the
oldest messages first, and a pop that finds nothing in time returns nothing.

Equal messages may be pushed twice, so the second half follows the messages by
their position in push order. The queue is always a window at the end of what
was pushed; the messages lost are those the window has passed by.
-/

namespace Evrp

/-- The buffer between the log calls and the writing loop of one stream. -/
structure AsyncLogBuffer (α : Type*) where
  queue : List α
  closed : Bool
  deriving DecidableEq, Repr

namespace AsyncLogBuffer

variable {α : Type*}

def kMaxQueue : ℕ := 2000

/-- A new buffer. -/
def empty : AsyncLogBuffer α := ⟨[], false⟩

/-- Remove messages from the front until one more fits. -/
def dropOldest : List α → List α
  | [] => []
  | m :: rest => if kMaxQueue ≤ (m :: rest).length then dropOldest rest else m :: rest

/-- Append a message to an open buffer. -/
def push (b : AsyncLogBuffer α) (m : α) : AsyncLogBuffer α :=
  if b.closed then b else { b with queue := dropOldest b.queue ++ [m] }

/-- The front message, or nothing when the wait has ended with an empty queue. -/
def waitPopFor (b : AsyncLogBuffer α) : Option α × AsyncLogBuffer α :=
  match b.queue with
  | [] => (none, b)
  | m :: rest => (some m, { b with queue := rest })

/-- Only old messages are removed. -/
theorem dropOldest_suffix (queue : List α) : dropOldest queue <:+ queue := by
  induction queue with
  | nil => exact List.suffix_refl _
  | cons m rest ih =>
    unfold dropOldest
    split
    · exact ih.trans (List.suffix_cons m rest)
    · exact List.suffix_refl _

/-- A queued message was queued before or has just been pushed. -/
theorem mem_queue_push {b : AsyncLogBuffer α} {m x : α} (hx : x ∈ (b.push m).queue) :
    x ∈ b.queue ∨ x = m := by
  unfold push at hx
  split at hx
  · exact Or.inl hx
  · rcases List.mem_append.mp hx with hold | hnew
    · exact Or.inl ((dropOldest_suffix b.queue).subset hold)
    · exact Or.inr (List.mem_singleton.mp hnew)

/-- A popped message was the front of the queue. -/
theorem waitPopFor_eq_some {b b' : AsyncLogBuffer α} {m : α}
    (h : b.waitPopFor = (some m, b')) : b.queue = m :: b'.queue ∧ b'.closed = b.closed := by
  unfold waitPopFor at h
  split at h
  · cases h
  · rename_i x rest hqueue
    obtain ⟨rfl, rfl⟩ : x = m ∧ { b with queue := rest } = b' := by simpa using h
    exact ⟨hqueue, rfl⟩

/-- Removal stops as soon as one more message fits. -/
theorem dropOldest_eq_drop (queue : List α) :
    dropOldest queue = queue.drop (queue.length + 1 - kMaxQueue) := by
  induction queue with
  | nil => exact List.drop_nil.symm
  | cons m rest ih =>
    unfold dropOldest
    split
    · rename_i hfull
      have hcount : (m :: rest).length + 1 - kMaxQueue = rest.length + 1 - kMaxQueue + 1 := by
        rw [List.length_cons] at hfull ⊢
        omega
      rw [ih, hcount, List.drop_succ_cons]
    · rename_i hfits
      have hcount : (m :: rest).length + 1 - kMaxQueue = 0 := by omega
      rw [hcount, List.drop_zero]

end AsyncLogBuffer

section Calls

variable {α β : Type*}

/-- A call on the buffer. Both hold the mutex, so their effects come one after the other. -/
inductive LogCall (α : Type*) where
  | push (message : α)
  | waitPopFor
  deriving DecidableEq, Repr

/-- The message a call adds. -/
def LogCall.pushed : LogCall α → Option α
  | .push m => some m
  | .waitPopFor => none

/-- The messages added by a sequence of calls. -/
def pushedBy (calls : List (LogCall α)) : List α := calls.filterMap LogCall.pushed

/-- The buffer and what its pops have returned. -/
structure LogHistory (α : Type*) where
  buffer : AsyncLogBuffer α
  popped : List α

namespace LogHistory

def call (h : LogHistory α) : LogCall α → LogHistory α
  | .push m => { h with buffer := h.buffer.push m }
  | .waitPopFor => ⟨h.buffer.waitPopFor.2, h.popped ++ h.buffer.waitPopFor.1.toList⟩

/-- The calls in order on a new buffer. -/
def after (calls : List (LogCall α)) : LogHistory α := calls.foldl call ⟨.empty, []⟩

/-- What was popped, then what is still queued. -/
def delivered (h : LogHistory α) : List α := h.popped ++ h.buffer.queue

def map (f : α → β) (h : LogHistory α) : LogHistory β :=
  ⟨⟨h.buffer.queue.map f, h.buffer.closed⟩, h.popped.map f⟩

end LogHistory

/-- Label every pushed message with the number of pushes before it. -/
def numbered : ℕ → List (LogCall α) → List (LogCall (α × ℕ))
  | _, [] => []
  | n, .push m :: calls => .push (m, n) :: numbered (n + 1) calls
  | n, .waitPopFor :: calls => .waitPopFor :: numbered n calls

/-- The history of the labelled messages. -/
def labelledAfter (calls : List (LogCall α)) : LogHistory (α × ℕ) :=
  LogHistory.after (numbered 0 calls)

@[simp] theorem pushedBy_append (xs ys : List (LogCall α)) :
    pushedBy (xs ++ ys) = pushedBy xs ++ pushedBy ys :=
  List.filterMap_append

theorem pushedBy_numbered (n : ℕ) (calls : List (LogCall α)) :
    pushedBy (numbered n calls) = (pushedBy calls).zipIdx n := by
  induction calls generalizing n with
  | nil => rfl
  | cons c calls ih =>
    cases c with
    | push m => exact congrArg ((m, n) :: ·) (ih (n + 1))
    | waitPopFor => exact ih n

theorem numbered_append (n : ℕ) (xs ys : List (LogCall α)) :
    numbered n (xs ++ ys) = numbered n xs ++ numbered (n + (pushedBy xs).length) ys := by
  induction xs generalizing n with
  | nil => rfl
  | cons c xs ih =>
    cases c with
    | push m =>
      refine congrArg (LogCall.push (m, n) :: ·) ((ih (n + 1)).trans ?_)
      rw [Nat.add_assoc, Nat.add_comm 1]
      rfl
    | waitPopFor => exact congrArg (LogCall.waitPopFor :: ·) (ih n)

namespace LogHistory

theorem after_concat (calls : List (LogCall α)) (c : LogCall α) :
    after (calls ++ [c]) = (after calls).call c := by
  rw [after, List.foldl_append]
  rfl

theorem call_push_open {h : LogHistory α} (hopen : h.buffer.closed = false) (m : α) :
    h.call (.push m) = ⟨⟨h.buffer.queue.drop (h.buffer.queue.length + 1 -
      AsyncLogBuffer.kMaxQueue) ++ [m], false⟩, h.popped⟩ := by
  rw [call, AsyncLogBuffer.push, hopen, if_neg Bool.false_ne_true,
    AsyncLogBuffer.dropOldest_eq_drop]

/-- A pop moves the front message, if there is one. -/
theorem call_waitPopFor (h : LogHistory α) :
    h.call .waitPopFor = ⟨⟨h.buffer.queue.drop 1, h.buffer.closed⟩,
      h.popped ++ h.buffer.queue.take 1⟩ := by
  obtain ⟨⟨queue, closed⟩, popped⟩ := h
  cases queue <;> rfl

/-- The buffer never looks at its messages. -/
theorem push_map (f : α → β) (h : LogHistory α) (hopen : h.buffer.closed = false) (m : α) :
    (h.map f).call (.push (f m)) = (h.call (.push m)).map f := by
  have hopen' : (h.map f).buffer.closed = false := hopen
  rw [call_push_open hopen, call_push_open hopen']
  simp [map]

theorem waitPopFor_map (f : α → β) (h : LogHistory α) :
    (h.map f).call .waitPopFor = (h.call .waitPopFor).map f := by
  rw [call_waitPopFor, call_waitPopFor]
  simp [map]

theorem delivered_map (f : α → β) (h : LogHistory α) :
    (h.map f).delivered = h.delivered.map f :=
  List.map_append.symm

theorem closed_after (calls : List (LogCall α)) : (after calls).buffer.closed = false := by
  induction calls using List.reverseRecOn with
  | nil => rfl
  | append_singleton calls c ih =>
    rw [after_concat]
    cases c with
    | push m => rw [call_push_open ih]
    | waitPopFor => rw [call_waitPopFor, ih]

/-- A delivered message was delivered before or pushed since. -/
theorem mem_delivered_foldl {h : LogHistory α} {more : List (LogCall α)} {x : α}
    (hx : x ∈ (more.foldl call h).delivered) : x ∈ h.delivered ∨ x ∈ pushedBy more := by
  induction more generalizing h with
  | nil => exact Or.inl hx
  | cons c more ih =>
    rcases ih hx with hbefore | hlater
    · cases c with
      | push m =>
        rcases List.mem_append.mp hbefore with hpopped | hqueued
        · exact Or.inl (List.mem_append_left _ hpopped)
        · rcases AsyncLogBuffer.mem_queue_push hqueued with hold | rfl
          · exact Or.inl (List.mem_append_right _ hold)
          · exact Or.inr List.mem_cons_self
      | waitPopFor =>
        rw [call_waitPopFor, delivered, List.append_assoc, List.take_append_drop] at hbefore
        exact Or.inl hbefore
    · refine Or.inr ?_
      cases c with
      | push m => exact List.mem_cons_of_mem m hlater
      | waitPopFor => exact hlater

end LogHistory

/-- A pop of the calls so far takes the front message from the queue, and nothing from an empty
queue. -/
theorem LogHistory.after_waitPopFor (calls : List (LogCall α)) :
    (∀ m rest, (after calls).buffer.queue = m :: rest →
        after (calls ++ [.waitPopFor]) = ⟨⟨rest, false⟩, (after calls).popped ++ [m]⟩) ∧
      ((after calls).buffer.queue = [] → after (calls ++ [.waitPopFor]) = after calls) := by
  have hopen := closed_after calls
  rw [after_concat, call_waitPopFor, hopen]
  constructor
  · intro m rest hqueue
    rw [hqueue]
    rfl
  · intro hqueue
    generalize after calls = h at hopen hqueue
    obtain ⟨⟨queue, closed⟩, popped⟩ := h
    obtain rfl : queue = [] := hqueue
    obtain rfl : closed = false := hopen
    exact congrArg _ (List.append_nil _)

theorem labelledAfter_push (calls : List (LogCall α)) (m : α) :
    labelledAfter (calls ++ [.push m]) =
      (labelledAfter calls).call (.push (m, (pushedBy calls).length)) := by
  rw [labelledAfter, numbered_append, Nat.zero_add]
  exact LogHistory.after_concat _ _

theorem labelledAfter_waitPopFor (calls : List (LogCall α)) :
    labelledAfter (calls ++ [.waitPopFor]) = (labelledAfter calls).call .waitPopFor := by
  rw [labelledAfter, numbered_append]
  exact LogHistory.after_concat _ _

/-- Forgetting the labels gives the history of the messages themselves. -/
theorem labelledAfter_map (calls : List (LogCall α)) :
    (labelledAfter calls).map Prod.fst = LogHistory.after calls := by
  induction calls using List.reverseRecOn with
  | nil => rfl
  | append_singleton calls c ih =>
    rw [LogHistory.after_concat, ← ih]
    cases c with
    | push m =>
      rw [labelledAfter_push]
      exact (LogHistory.push_map Prod.fst _ (LogHistory.closed_after _) (m, _)).symm
    | waitPopFor =>
      rw [labelledAfter_waitPopFor]
      exact (LogHistory.waitPopFor_map _ _).symm

/-- The labelled messages of a sequence of calls, in push order. -/
def labelledBy (calls : List (LogCall α)) : List (α × ℕ) := (pushedBy calls).zipIdx

@[simp] theorem length_labelledBy (calls : List (LogCall α)) :
    (labelledBy calls).length = (pushedBy calls).length :=
  List.length_zipIdx

theorem labelledBy_push (calls : List (LogCall α)) (m : α) :
    labelledBy (calls ++ [.push m]) = labelledBy calls ++ [(m, (pushedBy calls).length)] := by
  rw [labelledBy, pushedBy_append, List.zipIdx_append, Nat.zero_add]
  rfl

theorem labelledBy_waitPopFor (calls : List (LogCall α)) :
    labelledBy (calls ++ [.waitPopFor]) = labelledBy calls := by
  rw [labelledBy, pushedBy_append]
  exact congrArg List.zipIdx (List.append_nil _)

theorem snd_lt_of_mem_take {calls : List (LogCall α)} {q : ℕ} {x : α × ℕ}
    (hx : x ∈ (labelledBy calls).take q) : x.2 < q := by
  obtain ⟨i, hi, rfl⟩ := List.mem_take_iff_getElem.mp hx
  simp only [labelledBy, List.getElem_zipIdx]
  omega

theorem le_snd_of_mem_drop {calls : List (LogCall α)} {q : ℕ} {x : α × ℕ}
    (hx : x ∈ (labelledBy calls).drop q) : q ≤ x.2 := by
  obtain ⟨i, hi, rfl⟩ := List.mem_drop_iff_getElem.mp hx
  simp only [labelledBy, List.getElem_zipIdx]
  omega

/-- The queue is what was pushed from position `q` on, what was popped lies before it in push
order, and a message before it that was not popped was overtaken by `kMaxQueue` others. -/
structure QueueWindow (calls : List (LogCall α)) (q : ℕ) : Prop where
  le_length : q ≤ (pushedBy calls).length
  length_le : (pushedBy calls).length ≤ q + AsyncLogBuffer.kMaxQueue
  queue_eq : (labelledAfter calls).buffer.queue = (labelledBy calls).drop q
  popped_sublist : (labelledAfter calls).popped.Sublist ((labelledBy calls).take q)
  overtaken : ∀ x ∈ (labelledBy calls).take q, x ∉ (labelledAfter calls).popped →
    ∃ earlier, earlier <+: calls ∧ x ∉ (labelledAfter earlier).popped ∧
      x.2 + AsyncLogBuffer.kMaxQueue < (pushedBy earlier).length

namespace QueueWindow

variable {calls : List (LogCall α)} {q : ℕ}

/-- A pop advances the window by one message, unless it is empty. -/
theorem pop (h : QueueWindow calls q) : ∃ q', QueueWindow (calls ++ [.waitPopFor]) q' := by
  have hpushed : pushedBy (calls ++ [.waitPopFor]) = pushedBy calls := by
    rw [pushedBy_append]
    exact List.append_nil _
  have hafter : labelledAfter (calls ++ [.waitPopFor]) = ⟨⟨(labelledBy calls).drop (q + 1),
      (labelledAfter calls).buffer.closed⟩, (labelledAfter calls).popped ++
        ((labelledBy calls).drop q).take 1⟩ := by
    rw [labelledAfter_waitPopFor, LogHistory.call_waitPopFor, h.queue_eq, List.drop_drop]
  rcases Nat.lt_or_eq_of_le h.le_length with hlt | heq
  · refine ⟨q + 1, ?_, ?_, ?_, ?_, ?_⟩
    · rw [hpushed]
      exact hlt
    · rw [hpushed]
      exact Nat.le_trans h.length_le (by omega)
    · rw [hafter, labelledBy_waitPopFor]
    · rw [hafter, labelledBy_waitPopFor, List.take_add]
      exact h.popped_sublist.append (List.Sublist.refl _)
    · intro x hx hpopped
      rw [hafter, List.mem_append, not_or] at hpopped
      rw [labelledBy_waitPopFor, List.take_add, List.mem_append] at hx
      rcases hx with hbefore | hfront
      · obtain ⟨earlier, hprefix, hearlier⟩ := h.overtaken x hbefore hpopped.1
        exact ⟨earlier, hprefix.trans (List.prefix_append _ _), hearlier⟩
      · exact absurd hfront hpopped.2
  · have hnothing : (labelledBy calls).drop q = [] :=
      List.drop_eq_nil_of_le (by rw [length_labelledBy]; omega)
    have hnone : (labelledBy calls).drop (q + 1) = [] :=
      List.drop_eq_nil_of_le (by rw [length_labelledBy]; omega)
    rw [hnothing, hnone, List.take_nil, List.append_nil] at hafter
    refine ⟨q, ?_, ?_, ?_, ?_, ?_⟩
    · rw [hpushed]
      exact h.le_length
    · rw [hpushed]
      exact h.length_le
    · rw [hafter, labelledBy_waitPopFor, hnothing]
    · rw [hafter, labelledBy_waitPopFor]
      exact h.popped_sublist
    · intro x hx hpopped
      rw [labelledBy_waitPopFor] at hx
      rw [hafter] at hpopped
      obtain ⟨earlier, hprefix, hearlier⟩ := h.overtaken x hx hpopped
      exact ⟨earlier, hprefix.trans (List.prefix_append _ _), hearlier⟩

/-- A push into a full window advances it, and the message left behind is overtaken. -/
theorem push (h : QueueWindow calls q) (m : α) : ∃ q', QueueWindow (calls ++ [.push m]) q' := by
  have hpushed : (pushedBy (calls ++ [.push m])).length = (pushedBy calls).length + 1 := by
    rw [pushedBy_append, List.length_append]
    rfl
  have hlength : (labelledAfter calls).buffer.queue.length = (pushedBy calls).length - q := by
    rw [h.queue_eq, List.length_drop, length_labelledBy]
  have hmax : 0 < AsyncLogBuffer.kMaxQueue := by decide
  -- the first position the queue may still hold
  obtain ⟨d, hd⟩ : ∃ d, d = (labelledAfter calls).buffer.queue.length + 1 -
    AsyncLogBuffer.kMaxQueue := ⟨_, rfl⟩
  have hqd : q + d ≤ (pushedBy calls).length := by
    have := h.le_length
    omega
  have hafter : labelledAfter (calls ++ [.push m]) = ⟨⟨(labelledBy calls).drop (q + d) ++
      [(m, (pushedBy calls).length)], false⟩, (labelledAfter calls).popped⟩ := by
    have hopen : (labelledAfter calls).buffer.closed = false := LogHistory.closed_after _
    rw [labelledAfter_push, LogHistory.call_push_open hopen, ← hd, h.queue_eq, List.drop_drop]
  have hle : q + d ≤ (labelledBy calls).length := by rwa [length_labelledBy]
  have htake : (labelledBy (calls ++ [.push m])).take (q + d) =
      (labelledBy calls).take (q + d) := by
    rw [labelledBy_push, List.take_append_of_le_length hle]
  refine ⟨q + d, ?_, ?_, ?_, ?_, ?_⟩
  · rw [hpushed]
    exact Nat.le_succ_of_le hqd
  · have := h.length_le
    rw [hpushed]
    omega
  · rw [hafter, labelledBy_push, List.drop_append_of_le_length hle]
  · rw [hafter, htake]
    exact h.popped_sublist.trans (List.take_sublist_take_left (Nat.le_add_right q d))
  · intro x hx hpopped
    rw [hafter] at hpopped
    rw [htake] at hx
    have hlt := snd_lt_of_mem_take hx
    rw [List.take_add, List.mem_append] at hx
    rcases hx with hbefore | hleft
    · obtain ⟨earlier, hprefix, hearlier⟩ := h.overtaken x hbefore hpopped
      exact ⟨earlier, hprefix.trans (List.prefix_append _ _), hearlier⟩
    · refine ⟨_, List.prefix_refl _, by rwa [hafter], ?_⟩
      have hd0 : d ≠ 0 := by
        rintro rfl
        exact absurd hleft List.not_mem_nil
      rw [hpushed]
      omega

end QueueWindow

theorem exists_queueWindow (calls : List (LogCall α)) : ∃ q, QueueWindow calls q := by
  induction calls using List.reverseRecOn with
  | nil =>
    exact ⟨0, Nat.le_refl _, Nat.zero_le _, rfl, List.Sublist.refl _,
      fun x hx _ => absurd hx List.not_mem_nil⟩
  | append_singleton calls c ih =>
    obtain ⟨q, h⟩ := ih
    cases c with
    | push m => exact h.push m
    | waitPopFor => exact h.pop

/-- A message overtaken before it was popped is never delivered. -/
theorem not_delivered_of_overtaken {earlier calls : List (LogCall α)} {x : α × ℕ}
    (hearlier : earlier <+: calls) (hpopped : x ∉ (labelledAfter earlier).popped)
    (hlt : x.2 + AsyncLogBuffer.kMaxQueue < (pushedBy earlier).length) :
    x ∉ (labelledAfter calls).delivered := by
  obtain ⟨more, rfl⟩ := hearlier
  intro hx
  rw [labelledAfter, numbered_append, LogHistory.after, List.foldl_append] at hx
  rcases LogHistory.mem_delivered_foldl hx with hbefore | hlater
  · rcases List.mem_append.mp hbefore with hgone | hqueued
    · exact hpopped hgone
    · obtain ⟨q, h⟩ := exists_queueWindow earlier
      have hq := le_snd_of_mem_drop (h.queue_eq ▸ hqueued)
      have := h.length_le
      omega
  · rw [pushedBy_numbered] at hlater
    have := List.le_snd_of_mem_zipIdx hlater
    omega

/-- Nothing is lost while no more messages are outstanding than the queue holds. -/
theorem delivered_of_outstanding_le {calls : List (LogCall α)}
    (h : ∀ earlier, earlier <+: calls → (pushedBy earlier).length ≤
      (LogHistory.after earlier).popped.length + AsyncLogBuffer.kMaxQueue) :
    (LogHistory.after calls).delivered = pushedBy calls := by
  induction calls using List.reverseRecOn with
  | nil => rfl
  | append_singleton calls c ih =>
    have hbefore := ih fun earlier hearlier => h earlier (hearlier.trans (List.prefix_append _ _))
    rw [LogHistory.after_concat, pushedBy_append, ← hbefore]
    cases c with
    | push m =>
      have hpopped : (LogHistory.after (calls ++ [.push m])).popped =
          (LogHistory.after calls).popped := by
        rw [LogHistory.after_concat]
        rfl
      have hone : (pushedBy [LogCall.push m]).length = 1 := rfl
      have hlength := h _ (List.prefix_refl _)
      rw [hpopped, pushedBy_append, ← hbefore, LogHistory.delivered, List.length_append,
        List.length_append, hone] at hlength
      have hfits : (LogHistory.after calls).buffer.queue.length + 1 -
          AsyncLogBuffer.kMaxQueue = 0 := by omega
      rw [LogHistory.call_push_open (LogHistory.closed_after calls), LogHistory.delivered, hfits,
        List.drop_zero, ← List.append_assoc]
      rfl
    | waitPopFor =>
      rw [LogHistory.call_waitPopFor, LogHistory.delivered, List.append_assoc,
        List.take_append_drop]
      exact (List.append_nil _).symm

/-- The buffer is a bounded queue that gives up its oldest messages, and a pop takes the oldest that
it holds. Messages are told apart by their position in push order. -/
theorem logBuffer_dropOldest_fifo (calls : List (LogCall α)) :
    (LogHistory.after calls).buffer.queue.length ≤ AsyncLogBuffer.kMaxQueue ∧
      (LogHistory.after calls).delivered.Sublist (pushedBy calls) ∧
      LogHistory.after calls = (labelledAfter calls).map Prod.fst ∧
      (labelledAfter calls).delivered.Sublist (labelledBy calls) ∧
      (∀ x ∈ labelledBy calls, x ∉ (labelledAfter calls).delivered ↔
        ∃ earlier, earlier <+: calls ∧ x ∉ (labelledAfter earlier).popped ∧
          x.2 + AsyncLogBuffer.kMaxQueue < (pushedBy earlier).length) ∧
      ((∀ earlier, earlier <+: calls → (pushedBy earlier).length ≤
          (LogHistory.after earlier).popped.length + AsyncLogBuffer.kMaxQueue) →
        (LogHistory.after calls).delivered = pushedBy calls) ∧
      (∀ m rest, (LogHistory.after calls).buffer.queue = m :: rest →
        LogHistory.after (calls ++ [.waitPopFor]) =
          ⟨⟨rest, false⟩, (LogHistory.after calls).popped ++ [m]⟩) ∧
      ((LogHistory.after calls).buffer.queue = [] →
        LogHistory.after (calls ++ [.waitPopFor]) = LogHistory.after calls) := by
  obtain ⟨q, h⟩ := exists_queueWindow calls
  have hsublist : (labelledAfter calls).delivered.Sublist (labelledBy calls) := by
    rw [LogHistory.delivered, h.queue_eq]
    conv_rhs => rw [← List.take_append_drop q (labelledBy calls)]
    exact h.popped_sublist.append (List.Sublist.refl _)
  refine ⟨?_, ?_, (labelledAfter_map calls).symm, hsublist, ?_, delivered_of_outstanding_le,
    LogHistory.after_waitPopFor calls⟩
  · have := h.length_le
    rw [← labelledAfter_map, LogHistory.map, List.length_map, h.queue_eq, List.length_drop,
      length_labelledBy]
    omega
  · have hmap := hsublist.map Prod.fst
    rwa [← LogHistory.delivered_map, labelledAfter_map, labelledBy, List.zipIdx_map_fst] at hmap
  · intro x hx
    constructor
    · intro hmissing
      rw [LogHistory.delivered, List.mem_append, not_or, h.queue_eq] at hmissing
      rw [← List.take_append_drop q (labelledBy calls), List.mem_append] at hx
      exact h.overtaken x (hx.resolve_right hmissing.2) hmissing.1
    · rintro ⟨earlier, hprefix, hpopped, hlt⟩
      exact not_delivered_of_overtaken hprefix hpopped hlt

/-- The older of two messages is popped first, and a third pop finds nothing. -/
example : (LogHistory.after [.push 7, .push 8, .waitPopFor]).popped = [7] ∧
    (LogHistory.after [.push 7, .push 8, .waitPopFor, .waitPopFor, .waitPopFor]).popped =
      [7, 8] := by
  decide

end Calls

end Evrp
