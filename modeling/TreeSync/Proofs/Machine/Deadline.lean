import TreeSync.Proofs.Machine.Polling
import TreeSync.Session
import Mathlib.Algebra.Order.Floor.Div

/-!
# TreeSync.Proofs.Machine.Deadline

How often a question is asked until the time is up.

The world may be of any type, and asking, looking at the clock and sleeping may change
it in any way.

1. What polling does is told by the worlds that the questions are asked in, one after
   each refusal (`asked`): every question but the last was refused in time, and the last
   one was answered, or it was refused and the time was up (`Polled`).  How many
   questions are allowed does not matter, if they are not too few
   (`Polled.run_pollWithin`).
2. Where time never goes back and a sleep takes the interval or longer, each question
   is asked an interval after the one before or later (`Flows.le_time_next`), so
   polling comes to an end (`exists_polled`).
3. Where nothing but sleeping takes time, and a sleep takes just the interval, the
   questions are asked one interval apart (`Ticks.time_asked`), so the number of the
   first question that is answered decides whether its answer is heard
   (`Polled.fst_eq_some_iff`).
-/

namespace TreeSync

namespace Clock

variable {World α : Type}

/-! ## the questions -/

section
variable (clock : Clock (StateM World)) (interval : Nat) (check : StateM World (Option α))

/-- The time that is read after a question, and the world then. -/
def look (world : World) : Nat × World := (clock.now.run (check.run world).run.2).run

/-- The world that the next question is asked in, if this one is refused. -/
def next (world : World) : World :=
  ((clock.sleep interval).run (clock.look check world).2).run.2

/-- The world that a question is asked in after some have been refused. -/
def asked (first : World) : Nat → World
  | 0 => first
  | k + 1 => asked (clock.next interval check first) k

/-- How the last question ends the polling. -/
inductive Closes (deadline : Nat) (last : World) : Option α × World → Prop
  | answered {value : α} {after : World} (hanswer : (check.run last).run = (some value, after)) :
      Closes deadline last (some value, after)
  | expired (hrefused : (check.run last).run.1 = none)
      (hlate : deadline ≤ (clock.look check last).1) :
      Closes deadline last (none, (clock.look check last).2)

/-- Polling that asks some number of times. -/
structure Polled (deadline : Nat) (first : World) (calls : Nat) (ending : Option α × World) :
    Prop where
  /-- Before the last question all were refused, and the time was not up. -/
  refused : ∀ k, k + 1 < calls →
    (check.run (clock.asked interval check first k)).run.1 = none ∧
      (clock.look check (clock.asked interval check first k)).1 < deadline
  closed : ∃ k, calls = k + 1 ∧
    clock.Closes check deadline (clock.asked interval check first k) ending

/-- Question `k + 1` is the first that is answered. -/
structure AnswersFirst (first : World) (k : Nat) (value : α) : Prop where
  refused : ∀ j < k, (check.run (clock.asked interval check first j)).run.1 = none
  answered : (check.run (clock.asked interval check first k)).run.1 = some value

/-- Something that counts the questions. -/
structure Counts (count : World → Nat) : Prop where
  check : ∀ world, count (check.run world).run.2 = count world + 1
  now : ∀ world, count (clock.now.run world).run.2 = count world
  sleep : ∀ world, count ((clock.sleep interval).run world).run.2 = count world

/-- Time that never goes back, and a sleep that takes the interval or longer.  What the
clock shows was the time when it was read. -/
structure Flows (time : World → Nat) : Prop where
  check : ∀ world, time world ≤ time (check.run world).run.2
  now : ∀ world, time world ≤ (clock.now.run world).run.1 ∧
    (clock.now.run world).run.1 ≤ time (clock.now.run world).run.2
  sleep : ∀ world, time world + interval ≤ time ((clock.sleep interval).run world).run.2

/-- Time that passes in sleeps only, and there by exactly the interval. -/
structure Ticks (time : World → Nat) : Prop where
  check : ∀ world, time (check.run world).run.2 = time world
  now : ∀ world, (clock.now.run world).run.1 = time world ∧
    time (clock.now.run world).run.2 = time world
  sleep : ∀ world, time ((clock.sleep interval).run world).run.2 = time world + interval

end

variable {clock : Clock (StateM World)} {interval deadline : Nat}
  {check : StateM World (Option α)} {first : World} {calls : Nat} {ending : Option α × World}

/-! ## one question after the other -/

theorem polled_one_iff :
    clock.Polled interval check deadline first 1 ending ↔
      clock.Closes check deadline first ending := by
  constructor
  · intro h
    obtain ⟨k, hk, hcloses⟩ := h.closed
    obtain rfl : k = 0 := by omega
    exact hcloses
  · exact fun h => ⟨by omega, 0, rfl, h⟩

/-- With more than one question the first was refused in time. -/
theorem polled_succ_iff :
    clock.Polled interval check deadline first (calls + 2) ending ↔
      ((check.run first).run.1 = none ∧ (clock.look check first).1 < deadline) ∧
        clock.Polled interval check deadline (clock.next interval check first) (calls + 1)
          ending := by
  constructor
  · intro h
    refine ⟨h.refused 0 (by omega), fun k hk => h.refused (k + 1) (by omega), ?_⟩
    obtain ⟨k, hk, hcloses⟩ := h.closed
    obtain rfl : k = calls + 1 := by omega
    exact ⟨calls, rfl, hcloses⟩
  · rintro ⟨hfirst, hrest⟩
    obtain ⟨k, hk, hcloses⟩ := hrest.closed
    refine ⟨fun j hj => ?_, k + 1, by omega, hcloses⟩
    cases j with
    | zero => exact hfirst
    | succ j => exact hrest.refused j (by omega)

/-- What asking, looking at the clock and sleeping keep holds whenever a question is asked. -/
theorem asked_of_keeps {holds : World → Prop}
    (hcheck : ∀ world, holds world → holds (check.run world).run.2)
    (hnow : ∀ world, holds world → holds (clock.now.run world).run.2)
    (hsleep : ∀ world, holds world → holds ((clock.sleep interval).run world).run.2)
    (hfirst : holds first) (k : Nat) : holds (clock.asked interval check first k) := by
  induction k generalizing first with
  | zero => exact hfirst
  | succ k ih => exact ih (hsleep _ (hnow _ (hcheck _ hfirst)))

/-- Asking the one question that closes. -/
theorem Closes.run_pollWithin (h : clock.Closes check deadline first ending) (allowed : Nat) :
    ((clock.pollWithin deadline interval check (allowed + 1)).run first).run = ending := by
  rw [Clock.run_pollWithin]
  cases h with
  | answered hanswer => rw [hanswer]
  | expired hrefused hlate =>
      unfold look at hlate ⊢
      cases hrun : (check.run first).run with
      | mk answer after =>
          rw [hrun] at hrefused hlate
          cases hrefused
          simp [hlate]

/-- A question that is refused in time leaves it to the next ones. -/
theorem run_pollWithin_of_refused (hrefused : (check.run first).run.1 = none)
    (hearly : (clock.look check first).1 < deadline) (allowed : Nat) :
    ((clock.pollWithin deadline interval check (allowed + 1)).run first).run =
      ((clock.pollWithin deadline interval check allowed).run
        (clock.next interval check first)).run := by
  rw [Clock.run_pollWithin]
  unfold next
  unfold look at hearly ⊢
  cases hrun : (check.run first).run with
  | mk answer after =>
      rw [hrun] at hrefused hearly
      cases hrefused
      simp [Nat.not_le.mpr hearly]

/-- **How many questions are allowed does not matter**, if they are not too few. -/
theorem Polled.run_pollWithin (h : clock.Polled interval check deadline first calls ending)
    {allowed : Nat} (hallowed : calls ≤ allowed) :
    ((clock.pollWithin deadline interval check allowed).run first).run = ending := by
  obtain ⟨last, rfl, -⟩ := h.closed
  obtain ⟨more, rfl⟩ := Nat.exists_eq_add_of_le' hallowed
  induction last generalizing first with
  | zero => exact (polled_one_iff.mp h).run_pollWithin more
  | succ last ih =>
      obtain ⟨⟨hrefused, hearly⟩, hrest⟩ := polled_succ_iff.mp h
      have hnext := ih hrest (by omega)
      rwa [← run_pollWithin_of_refused hrefused hearly] at hnext

/-- As many questions are counted. -/
theorem Polled.count_eq {count : World → Nat} (hcount : clock.Counts interval check count)
    (h : clock.Polled interval check deadline first calls ending) :
    count ending.2 = count first + calls := by
  obtain ⟨last, rfl, -⟩ := h.closed
  induction last generalizing first with
  | zero =>
      cases polled_one_iff.mp h with
      | answered hanswer => simpa [hanswer] using hcount.check first
      | expired => simp [look, hcount.now, hcount.check]
  | succ last ih =>
      have hrest := ih (polled_succ_iff.mp h).2
      simp only [next, look, hcount.sleep, hcount.now, hcount.check] at hrest
      omega

/-! ## the end -/

/-- A question closes the polling, or it is refused in time. -/
theorem closes_or_refused (clock : Clock (StateM World)) (check : StateM World (Option α))
    (deadline : Nat) (world : World) :
    (∃ ending, clock.Closes check deadline world ending) ∨
      ((check.run world).run.1 = none ∧ (clock.look check world).1 < deadline) := by
  cases hrun : (check.run world).run with
  | mk answer after =>
      cases answer with
      | some value => exact .inl ⟨_, .answered hrun⟩
      | none =>
          by_cases hlate : deadline ≤ (clock.look check world).1
          · exact .inl ⟨_, .expired (by rw [hrun]) hlate⟩
          · exact .inr ⟨rfl, by omega⟩

section
variable {time : World → Nat} (h : clock.Flows interval check time)
include h

theorem Flows.time_le_look (world : World) : time world ≤ (clock.look check world).1 :=
  Nat.le_trans (h.check world) (h.now _).1

/-- From one question to the next it takes the interval or longer. -/
theorem Flows.le_time_next (world : World) :
    time world + interval ≤ time (clock.next interval check world) := by
  have hlook := h.time_le_look world
  have hnow := (h.now (check.run world).run.2).2
  have hsleep := h.sleep (clock.look check world).2
  unfold next
  unfold look at hlook hsleep ⊢
  omega

/-- **Polling ends** with the first question that is asked when the time is up, if not
before. -/
theorem exists_polled {n : Nat} (hdeadline : deadline ≤ time first + n * interval) :
    ∃ calls ending, calls ≤ n + 1 ∧ clock.Polled interval check deadline first calls ending := by
  induction n generalizing first with
  | zero =>
      obtain ⟨ending, hcloses⟩ | ⟨-, hearly⟩ := closes_or_refused clock check deadline first
      · exact ⟨1, ending, Nat.le_refl 1, polled_one_iff.mpr hcloses⟩
      · have hlook := h.time_le_look first
        omega
  | succ n ih =>
      obtain ⟨ending, hcloses⟩ | hrefused := closes_or_refused clock check deadline first
      · exact ⟨1, ending, by omega, polled_one_iff.mpr hcloses⟩
      · have hnext := h.le_time_next first
        have hfewer : deadline ≤ time (clock.next interval check first) + n * interval := by
          rw [Nat.succ_mul] at hdeadline
          omega
        obtain ⟨calls, ending, hcalls, hpolled⟩ := ih hfewer
        obtain ⟨last, rfl, -⟩ := hpolled.closed
        exact ⟨last + 2, ending, by omega, polled_succ_iff.mpr ⟨hrefused, hpolled⟩⟩

end

/-! ## time that passes in sleeps only -/

section
variable {time : World → Nat} (h : clock.Ticks interval check time)
include h

theorem Ticks.look_eq (world : World) : (clock.look check world).1 = time world := by
  rw [look, (h.now _).1, h.check]

/-- Question `k + 1` is asked `k` intervals after the first. -/
theorem Ticks.time_asked (first : World) (k : Nat) :
    time (clock.asked interval check first k) = time first + k * interval := by
  induction k generalizing first with
  | zero => simp [asked]
  | succ k ih =>
      rw [asked, ih, next, h.sleep, look, (h.now _).2, h.check, Nat.succ_mul]
      omega

/-- **The first answer is heard** if it comes by question `n + 1`, where `n` intervals are
the least that fill the time, and later it is not. -/
theorem Polled.fst_eq_some_iff {n k : Nat} {value : α}
    (hpolled : clock.Polled interval check deadline first calls ending) (hcalls : calls ≤ n + 1)
    (hdeadline : ∀ j, deadline ≤ time first + j * interval → n ≤ j)
    (hfirst : clock.AnswersFirst interval check first k value) :
    ending.1 = some value ↔ k ≤ n := by
  obtain ⟨last, rfl, hcloses⟩ := hpolled.closed
  cases hcloses with
  | @answered heard after hanswer =>
      -- No question before the last was answered, and none before question `k + 1`.
      have heq : last = k := by
        rcases Nat.lt_trichotomy last k with hlt | heq | hlt
        · have hnone := hfirst.refused last hlt
          simp [hanswer] at hnone
        · exact heq
        · have hnone := (hpolled.refused k (by omega)).1
          simp [hfirst.answered] at hnone
      subst heq
      have hvalue := hfirst.answered
      rw [hanswer] at hvalue
      exact iff_of_true hvalue (by omega)
  | expired hrefused hlate =>
      rw [h.look_eq, h.time_asked] at hlate
      have hlast := hdeadline last hlate
      refine iff_of_false (by simp) fun hk => ?_
      -- All questions up to number `n + 1` were refused.
      obtain hlt | rfl : k < last ∨ k = last := by omega
      · have hnone := (hpolled.refused k (by omega)).1
        simp [hfirst.answered] at hnone
      · simp [hfirst.answered] at hrefused

end

/-! ## waiting for an answer -/

/-- Waiting never allows too few questions. -/
theorem ceilDiv_lt_maxCalls {interval : Nat} (hinterval : 0 < interval) (timeout : Nat) :
    timeout ⌈/⌉ interval < maxCalls timeout interval := by
  have hmax : max 1 interval = interval := Nat.max_eq_right hinterval
  have hceil : timeout ⌈/⌉ interval ≤ timeout / interval + 1 := by
    rw [ceilDiv_le_iff_le_mul hinterval]
    exact Nat.le_of_lt (Nat.lt_mul_div_succ timeout hinterval)
  rw [maxCalls, hmax]
  omega

/-- Waiting is polling up to the end of the time. -/
theorem exists_polled_waitFor {time : World → Nat} (hinterval : 0 < interval)
    (h : clock.Flows interval check time) (timeout : Nat) {world : World} {start : Nat}
    (hstart : (clock.now.run world).run = (start, first)) :
    ∃ calls ending, calls ≤ timeout ⌈/⌉ interval + 1 ∧
      clock.Polled interval check (start + timeout) first calls ending ∧
      ((clock.waitFor timeout interval check).run world).run = ending := by
  have hflows : start ≤ time first := by simpa [hstart] using (h.now world).2
  have hfills : timeout ≤ timeout ⌈/⌉ interval * interval := by
    rw [Nat.mul_comm]
    exact le_smul_ceilDiv hinterval
  have hlast : start + timeout ≤ time first + timeout ⌈/⌉ interval * interval := by omega
  obtain ⟨calls, ending, hcalls, hpolled⟩ := exists_polled h hlast
  refine ⟨calls, ending, hcalls, hpolled, ?_⟩
  rw [waitFor, StateT.run_bind, Id.run_bind, hstart]
  exact hpolled.run_pollWithin (Nat.le_trans hcalls (ceilDiv_lt_maxCalls hinterval timeout))

/-- **Waiting ends and never gives up early.**  It takes one question at least, and at most
one more than the intervals that fill the time; to allow more would change nothing.  The
first answer ends it and is what it gives, and it gives none only when the time was up
after the last question.  Where nothing but sleeping takes time, the first answer is heard
exactly when it is the answer to one of that many questions. -/
theorem polled_waitFor {time : World → Nat} (hinterval : 0 < interval)
    (h : clock.Flows interval check time) (timeout : Nat) (world : World) :
    ∃ start first calls ending,
      (clock.now.run world).run = (start, first) ∧
      ((clock.waitFor timeout interval check).run world).run = ending ∧
      1 ≤ calls ∧ calls ≤ timeout ⌈/⌉ interval + 1 ∧
      clock.Polled interval check (start + timeout) first calls ending ∧
      (∀ allowed, calls ≤ allowed →
        ((clock.pollWithin (start + timeout) interval check allowed).run first).run = ending) ∧
      (∀ count, clock.Counts interval check count → count ending.2 = count world + calls) ∧
      (clock.Ticks interval check time → ∀ k value,
        clock.AnswersFirst interval check first k value →
          (ending.1 = some value ↔ k + 1 ≤ timeout ⌈/⌉ interval + 1)) := by
  obtain ⟨start, first, hstart⟩ : ∃ start first, (clock.now.run world).run = (start, first) :=
    ⟨_, _, rfl⟩
  obtain ⟨calls, ending, hcalls, hpolled, hwait⟩ := exists_polled_waitFor hinterval h timeout hstart
  refine ⟨start, first, calls, ending, hstart, hwait, ?_, hcalls, hpolled,
    fun allowed hallowed => hpolled.run_pollWithin hallowed, fun count hcount => ?_,
    fun hticks k value hfirst => ?_⟩
  · obtain ⟨last, rfl, -⟩ := hpolled.closed
    omega
  · have hcounted : count first = count world := by simpa [hstart] using hcount.now world
    rw [hpolled.count_eq hcount, hcounted]
  · have hnow : start = time world ∧ time first = time world := by
      simpa [hstart] using hticks.now world
    have hleast : ∀ j, start + timeout ≤ time first + j * interval → timeout ⌈/⌉ interval ≤ j := by
      intro j hj
      rw [ceilDiv_le_iff_le_mul hinterval, Nat.mul_comm]
      omega
    rw [hpolled.fst_eq_some_iff hticks hcalls hleast hfirst]
    omega

end Clock

/-! ## the clock of a session -/

theorem Clock.Ticks.flows {World α : Type} {clock : Clock (StateM World)} {interval : Nat}
    {check : StateM World (Option α)} {time : World → Nat} (h : clock.Ticks interval check time) :
    clock.Flows interval check time where
  check world := Nat.le_of_eq (h.check world).symm
  now world := by simp [h.now world]
  sleep world := Nat.le_of_eq (h.sleep world).symm

/-- The clock of a session goes on in sleeps only. -/
theorem Session.ticks_clock {α : Type} {interval : Nat} (hinterval : 0 < interval)
    {check : StateM Machine (Option α)}
    (hcheck : ∀ machine, (check.run machine).run.2.clock = machine.clock) :
    Session.clock.Ticks interval check Machine.clock where
  check := hcheck
  now _ := ⟨rfl, rfl⟩
  sleep machine := congrArg (machine.clock + ·) (Nat.max_eq_right hinterval)

namespace Clock

/-- An answer once a moment has come. -/
def since (moment : Nat) : StateM Machine (Option Unit) := do
  return if moment ≤ (← get).clock then some () else none

/-- Three intervals fill the time, so question four is heard, though the time is up when it
is asked, and there is no question five. -/
theorem polled_waitFor_since :
    0 < 7 ∧ Session.clock.Flows 7 (since 21) Machine.clock ∧
      20 ⌈/⌉ 7 + 1 = 4 ∧
      ((Session.clock.waitFor 20 7 (since 21)).run {}).run.1 = some () ∧
      ((Session.clock.waitFor 20 7 (since 28)).run {}).run.1 ≠ some () := by
  have hticks : ∀ moment, Session.clock.Ticks 7 (since moment) Machine.clock :=
    fun moment => Session.ticks_clock (by decide) fun _ => rfl
  obtain ⟨_, _, _, _, hstart, hheard, -, -, -, -, -, hfour⟩ :=
    polled_waitFor (by decide) (hticks 21).flows 20 {}
  obtain ⟨_, _, _, _, hstart', hmissed, -, -, -, -, -, hfive⟩ :=
    polled_waitFor (by decide) (hticks 28).flows 20 {}
  cases hstart
  cases hstart'
  refine ⟨by decide, (hticks 21).flows, rfl, ?_, ?_⟩
  · rw [hheard, hfour (hticks 21) 3 () ⟨by decide, rfl⟩]
    decide
  · rw [hmissed, Ne, hfive (hticks 28) 4 () ⟨by decide, rfl⟩]
    decide

end Clock

end TreeSync
