/-
The ceiling holds on every day.

What a breaker has recorded for a day is what the reservations of the day cost, as long as the
clock does not go back (`Tracks`).  A call settles its own day and clears every other one
(`Settles`), whether it reserves or only reads what remains; the days still to come have
nothing recorded and nothing granted.
-/
import ForexAi.Llm.Client
import Mathlib.Data.List.Induction

namespace ForexAi.DailyBudgetBreaker

/-- No call of the run is later. -/
def Follows (calls : List BudgetCall) (now : ℚ) : Prop := ∀ c ∈ calls, c.now ≤ now

/-! ### What is recorded

The record has a date and an amount, and is read for a day through both.  The rollover clears
it when the day is another one, so one date is all that is ever kept.
-/

theorem spentOn_nonneg (b : DailyBudgetBreaker) (day : ℤ) : 0 ≤ b.spentOn day := by
  unfold spentOn
  split_ifs
  · exact b.spent_nonneg
  · exact le_refl 0

theorem spentOn_le (b : DailyBudgetBreaker) (day : ℤ) : b.spentOn day ≤ b.budget := by
  unfold spentOn
  split_ifs
  · exact b.spent_le
  · exact b.spent_nonneg.trans b.spent_le

/-- Without a budget nothing is ever recorded. -/
theorem spentOn_of_no_budget {b : DailyBudgetBreaker} (h : b.budget ≤ 0) (day : ℤ) :
    b.spentOn day = 0 :=
  le_antisymm ((b.spentOn_le day).trans h) (b.spentOn_nonneg day)

@[simp] theorem rollover_budget (b : DailyBudgetBreaker) (now : ℚ) :
    (b.rollover now).budget = b.budget := by
  unfold rollover
  split_ifs <;> rfl

@[simp] theorem rollover_day (b : DailyBudgetBreaker) (now : ℚ) :
    (b.rollover now).day = utcDay now := by
  unfold rollover
  by_cases h : utcDay now = b.day
  · rw [if_neg (not_not.mpr h), h]
  · rw [if_pos h]

/-- The rollover leaves what is recorded for the day. -/
@[simp] theorem rollover_spent (b : DailyBudgetBreaker) (now : ℚ) :
    (b.rollover now).spent = b.spentOn (utcDay now) := by
  unfold rollover spentOn
  by_cases h : utcDay now = b.day
  · rw [if_neg (not_not.mpr h), if_pos h.symm]
  · rw [if_pos h, if_neg (Ne.symm h)]

/-- A call at `now` that reserves `cost` settles the day it is made on, and clears the others. -/
structure Settles (b : DailyBudgetBreaker) (now cost : ℚ) (b' : DailyBudgetBreaker) : Prop where
  budget : b'.budget = b.budget
  today : b'.spentOn (utcDay now) = b.spentOn (utcDay now) + cost
  others : ∀ day, day ≠ utcDay now → b'.spentOn day = 0

theorem settles_of_no_budget {b : DailyBudgetBreaker} (h : b.budget ≤ 0) (now : ℚ) :
    Settles b now 0 b where
  budget := rfl
  today := (add_zero _).symm
  others := fun day _ => spentOn_of_no_budget h day

/-- Where the day and the spend are known, so is the rest. -/
theorem settles_of_day {b b' : DailyBudgetBreaker} {now cost : ℚ} (hbudget : b'.budget = b.budget)
    (hday : b'.day = utcDay now) (hspent : b'.spent = b.spentOn (utcDay now) + cost) :
    Settles b now cost b' where
  budget := hbudget
  today := by
    unfold spentOn at hspent ⊢
    rw [if_pos hday, hspent]
  others := fun day hother => if_neg fun hsame => hother (hsame.symm.trans hday)

theorem settles_rollover (b : DailyBudgetBreaker) (now : ℚ) : Settles b now 0 (b.rollover now) :=
  settles_of_day (b.rollover_budget now) (b.rollover_day now) (by simp)

/-! ### The two calls

Asking what remains rolls the day over as a reservation does.  So both settle their day, and
they differ only in what they cost.
-/

theorem remaining_fst (b : DailyBudgetBreaker) (now : ℚ) :
    (b.remaining now).1 = b.budget - b.spentOn (utcDay now) := by
  unfold remaining
  by_cases h : b.budget ≤ 0
  · have hnone : b.budget = 0 := le_antisymm h (b.spent_nonneg.trans b.spent_le)
    rw [if_pos h, spentOn_of_no_budget h, hnone, sub_zero]
  · have hle := b.spentOn_le (utcDay now)
    rw [if_neg h]
    simp only [rollover_budget, rollover_spent]
    exact max_eq_right (sub_nonneg.mpr hle)

theorem remaining_settles (b : DailyBudgetBreaker) (now : ℚ) :
    Settles b now 0 (b.remaining now).2 := by
  unfold remaining
  by_cases h : b.budget ≤ 0
  · rw [if_pos h]
    exact settles_of_no_budget h now
  · rw [if_neg h]
    exact settles_rollover b now

/-- A reservation succeeds when there is a budget and it fits into what the day has left. -/
theorem reserve_ok_iff (b : DailyBudgetBreaker) (now : ℚ) (tokens : ℕ) :
    (b.reserve now tokens).1 = .ok () ↔
      0 < b.budget ∧ b.spentOn (utcDay now) + tokenCost tokens ≤ b.budget := by
  unfold reserve
  by_cases h : b.budget ≤ 0
  · rw [if_pos h]
    exact iff_of_false (by simp) fun hboth => absurd hboth.1 (not_lt.mpr h)
  · rw [if_neg h]
    simp only [rollover_budget, rollover_spent]
    by_cases hover : b.budget < b.spentOn (utcDay now) + tokenCost tokens
    · rw [dif_pos hover]
      exact iff_of_false (by simp) fun hboth => absurd hboth.2 (not_le.mpr hover)
    · rw [dif_neg hover]
      exact iff_of_true rfl ⟨not_le.mp h, not_lt.mp hover⟩

/-- A reservation that succeeds is recorded on its day. -/
theorem reserve_settles {b : DailyBudgetBreaker} {now : ℚ} {tokens : ℕ}
    (h : (b.reserve now tokens).1 = .ok ()) :
    Settles b now (tokenCost tokens) (b.reserve now tokens).2 := by
  obtain ⟨hbudget, hfits⟩ := (b.reserve_ok_iff now tokens).mp h
  unfold reserve
  rw [if_neg (not_le.mpr hbudget)]
  simp only [rollover_budget, rollover_spent]
  rw [dif_neg (not_lt.mpr hfits)]
  exact settles_of_day rfl (b.rollover_day now) rfl

theorem reserve_refused {b : DailyBudgetBreaker} {now : ℚ} {tokens : ℕ}
    (h : (b.reserve now tokens).1 ≠ .ok ()) :
    (b.budget ≤ 0 ∧ (b.reserve now tokens).2 = b) ∨ (b.reserve now tokens).2 = b.rollover now := by
  rw [Ne, reserve_ok_iff] at h
  unfold reserve
  by_cases hnone : b.budget ≤ 0
  · exact Or.inl ⟨hnone, by rw [if_pos hnone]⟩
  · right
    have hover : b.budget < b.spentOn (utcDay now) + tokenCost tokens :=
      not_le.mp fun hfits => h ⟨not_le.mp hnone, hfits⟩
    rw [if_neg hnone]
    simp only [rollover_budget, rollover_spent]
    rw [dif_pos hover]

theorem refused_settles {b : DailyBudgetBreaker} {now : ℚ} {tokens : ℕ}
    (h : (b.reserve now tokens).1 ≠ .ok ()) : Settles b now 0 (b.reserve now tokens).2 := by
  rcases reserve_refused h with ⟨hnone, hsame⟩ | hrolled
  · rw [hsame]
    exact settles_of_no_budget hnone now
  · rw [hrolled]
    exact settles_rollover b now

/-! ### What was granted

The other side of the ceiling is the history: the sum of the costs that were granted on a day.
-/

@[simp] theorem costOn_nil (day : ℤ) : costOn [] day = 0 := rfl

theorem costOn_concat (granted : List (ℚ × ℕ)) (now : ℚ) (tokens : ℕ) (day : ℤ) :
    costOn (granted ++ [(now, tokens)]) day
      = costOn granted day + if utcDay now = day then tokenCost tokens else 0 := by
  unfold costOn
  by_cases h : utcDay now = day
  · simp [h]
  · simp [h]

/-- A day after every reservation costs nothing. -/
theorem costOn_later {granted : List (ℚ × ℕ)} {day : ℤ} (h : ∀ g ∈ granted, utcDay g.1 < day) :
    costOn granted day = 0 := by
  have hnone : granted.filter (fun g => decide (utcDay g.1 = day)) = [] :=
    List.filter_eq_nil_iff.mpr fun g hg => by simpa using (h g hg).ne
  unfold costOn
  rw [hnone]
  rfl

/-- What a call leads to: the reservation it grants, if it does, is noted and recorded. -/
theorem step_cases (s : DailyBudgetBreaker × List (ℚ × ℕ)) (c : BudgetCall) :
    ((step s c).2 = s.2 ∧ Settles s.1 c.now 0 (step s c).1) ∨
      ∃ tokens, (step s c).2 = s.2 ++ [(c.now, tokens)] ∧
        Settles s.1 c.now (tokenCost tokens) (step s c).1 := by
  unfold step
  cases c.request with
  | remaining => exact Or.inl ⟨rfl, s.1.remaining_settles c.now⟩
  | reserve tokens =>
      rcases hreserve : s.1.reserve c.now tokens with ⟨answer, b⟩
      have hb : (s.1.reserve c.now tokens).2 = b := congrArg Prod.snd hreserve
      cases answer with
      | ok =>
          simp only [hreserve]
          refine Or.inr ⟨tokens, rfl, ?_⟩
          rw [← hb]
          exact reserve_settles (congrArg Prod.fst hreserve)
      | error reason =>
          simp only [hreserve]
          refine Or.inl ⟨trivial, ?_⟩
          rw [← hb]
          refine refused_settles ?_
          rw [hreserve]
          simp

/-! ### Runs -/

/-- What is recorded after some calls is what was granted. -/
structure Tracks (budgetUsd : ℚ) (calls : List BudgetCall)
    (s : DailyBudgetBreaker × List (ℚ × ℕ)) : Prop where
  budget : s.1.budget = max 0 budgetUsd
  /-- Reservations were made by the calls. -/
  granted : ∀ g ∈ s.2, ∃ c ∈ calls, c.now = g.1
  /-- From the last call on, the record of a day is what the day cost. -/
  recorded : ∀ now, Follows calls now → s.1.spentOn (utcDay now) = costOn s.2 (utcDay now)
  bounded : ∀ day, costOn s.2 day ≤ max 0 budgetUsd

theorem tracks_new (budgetUsd : ℚ) : Tracks budgetUsd [] (new budgetUsd, []) where
  budget := rfl
  granted := fun g hg => absurd hg (List.not_mem_nil)
  recorded := fun now _ => by
    unfold spentOn new
    simp
  bounded := fun day => by
    rw [costOn_nil]
    exact le_max_left 0 budgetUsd

/-- **One more call.** -/
theorem tracks_step {budgetUsd : ℚ} {calls : List BudgetCall}
    {s : DailyBudgetBreaker × List (ℚ × ℕ)} (h : Tracks budgetUsd calls s) {c : BudgetCall}
    (hclock : Follows calls c.now) : Tracks budgetUsd (calls ++ [c]) (step s c) := by
  have hlater {now : ℚ} (hnow : Follows (calls ++ [c]) now) : c.now ≤ now := hnow c (by simp)
  -- A day that comes after the call's is after every reservation.
  have hafter {now : ℚ} (hnow : Follows (calls ++ [c]) now) (hday : utcDay now ≠ utcDay c.now) :
      costOn s.2 (utcDay now) = 0 := by
    refine costOn_later fun g hg => ?_
    obtain ⟨c', hc', hg'⟩ := h.granted g hg
    have hcall : utcDay g.1 ≤ utcDay c.now := utcDay_mono (hg' ▸ hclock c' hc')
    exact hcall.trans_lt (lt_of_le_of_ne (utcDay_mono (hlater hnow)) hday.symm)
  rcases step_cases s c with ⟨hlog, hsettles⟩ | ⟨tokens, hlog, hsettles⟩
  · refine ⟨hsettles.budget.trans h.budget, fun g hg => ?_, fun now hnow => ?_, ?_⟩
    · obtain ⟨c', hc', hg'⟩ := h.granted g (hlog ▸ hg)
      exact ⟨c', List.mem_append_left _ hc', hg'⟩
    · rw [hlog]
      by_cases hday : utcDay now = utcDay c.now
      · rw [hday, hsettles.today, add_zero]
        exact h.recorded c.now hclock
      · rw [hsettles.others _ hday, hafter hnow hday]
    · rw [hlog]
      exact h.bounded
  · have hnew : costOn (step s c).2 (utcDay c.now) = (step s c).1.spentOn (utcDay c.now) := by
      rw [hlog, costOn_concat, if_pos rfl, hsettles.today, h.recorded c.now hclock]
    have hbudget : (step s c).1.budget = max 0 budgetUsd := hsettles.budget.trans h.budget
    refine ⟨hbudget, fun g hg => ?_, fun now hnow => ?_, fun day => ?_⟩
    · rw [hlog] at hg
      rcases List.mem_append.mp hg with hin | hin
      · obtain ⟨c', hc', hg'⟩ := h.granted g hin
        exact ⟨c', List.mem_append_left _ hc', hg'⟩
      · rw [List.mem_singleton.mp hin]
        exact ⟨c, by simp, rfl⟩
    · by_cases hday : utcDay now = utcDay c.now
      · rw [hday, hnew]
      · rw [hsettles.others _ hday, hlog, costOn_concat, if_neg (Ne.symm hday), hafter hnow hday,
          add_zero]
    · by_cases hday : utcDay c.now = day
      · rw [← hday, hnew, ← hbudget]
        exact (step s c).1.spentOn_le _
      · rw [hlog, costOn_concat, if_neg hday, add_zero]
        exact h.bounded day

theorem run_concat (budgetUsd : ℚ) (calls : List BudgetCall) (c : BudgetCall) :
    run budgetUsd (calls ++ [c]) = step (run budgetUsd calls) c := by
  unfold run
  rw [Runs.run_append]
  rfl

/-- **The record follows every run** whose clock does not go back. -/
theorem tracks_run (budgetUsd : ℚ) {calls : List BudgetCall}
    (hclock : calls.Pairwise fun a b => a.now ≤ b.now) :
    Tracks budgetUsd calls (run budgetUsd calls) := by
  induction calls using List.reverseRecOn with
  | nil => exact tracks_new budgetUsd
  | append_singleton calls c ih =>
      obtain ⟨hbefore, -, hlast⟩ := List.pairwise_append.mp hclock
      rw [run_concat]
      exact tracks_step (ih hbefore) fun c' hc' => hlast c' hc' c (by simp)

/-! ### The ceiling

A refusal depends on the record, the record on the history, and the history is bounded as the
record is.
-/

theorem Tracks.unspent {budgetUsd : ℚ} {calls : List BudgetCall}
    {s : DailyBudgetBreaker × List (ℚ × ℕ)} (h : Tracks budgetUsd calls s) {now : ℚ}
    (hlater : ∀ c ∈ calls, utcDay c.now < utcDay now) : s.1.spentOn (utcDay now) = 0 := by
  have hfollows : Follows calls now := fun c hc =>
    le_of_not_ge fun hback => absurd (hlater c hc) (not_lt.mpr (utcDay_mono hback))
  rw [h.recorded now hfollows]
  refine costOn_later fun g hg => ?_
  obtain ⟨c, hc, hg'⟩ := h.granted g hg
  rw [← hg']
  exact hlater c hc

/-- What a breaker keeps to after some calls. -/
structure KeepsCeiling (budgetUsd : ℚ) (calls : List BudgetCall) (b : DailyBudgetBreaker)
    (granted : List (ℚ × ℕ)) : Prop where
  /-- The reservations of a day cost no more than the budget. -/
  bounded : ∀ day, costOn granted day ≤ max 0 budgetUsd
  /-- A refusal changes nothing of what is recorded, for its day or for a later one; on the day
  of the record it changes nothing at all. -/
  refused : ∀ now tokens, Follows calls now → (b.reserve now tokens).1 ≠ .ok () →
    (∀ later, now ≤ later →
      (b.reserve now tokens).2.spentOn (utcDay later) = b.spentOn (utcDay later)) ∧
      (utcDay now = b.day → (b.reserve now tokens).2 = b)
  /-- What costs no more than what remains is granted, then and later, whether what remains was
  read or not. -/
  fits : 0 < budgetUsd → ∀ now later tokens, Follows calls now → now ≤ later →
    tokenCost tokens ≤ (b.remaining now).1 →
      (b.reserve later tokens).1 = .ok () ∧ ((b.remaining now).2.reserve later tokens).1 = .ok ()
  /-- A day without a call has the whole budget. -/
  fresh : ∀ now, (∀ c ∈ calls, utcDay c.now < utcDay now) →
    (b.remaining now).1 = max 0 budgetUsd

theorem Tracks.refused {budgetUsd : ℚ} {calls : List BudgetCall}
    {s : DailyBudgetBreaker × List (ℚ × ℕ)} (h : Tracks budgetUsd calls s) {now later : ℚ}
    {tokens : ℕ} (hclock : Follows calls now) (hrefused : (s.1.reserve now tokens).1 ≠ .ok ())
    (hle : now ≤ later) :
    (s.1.reserve now tokens).2.spentOn (utcDay later) = s.1.spentOn (utcDay later) := by
  have hsettles := refused_settles hrefused
  by_cases hday : utcDay later = utcDay now
  · rw [hday, hsettles.today, add_zero]
  · have hnext : utcDay now < utcDay later := lt_of_le_of_ne (utcDay_mono hle) (Ne.symm hday)
    rw [hsettles.others _ hday,
      h.unspent fun c hc => (utcDay_mono (hclock c hc)).trans_lt hnext]

theorem refused_same_day {b : DailyBudgetBreaker} {now : ℚ} {tokens : ℕ}
    (h : (b.reserve now tokens).1 ≠ .ok ()) (hday : utcDay now = b.day) :
    (b.reserve now tokens).2 = b := by
  rcases reserve_refused h with ⟨-, hsame⟩ | hrolled
  · exact hsame
  · rw [hrolled]
    unfold rollover
    exact if_neg (not_not.mpr hday)

theorem Tracks.spentOn_later_le {budgetUsd : ℚ} {calls : List BudgetCall}
    {s : DailyBudgetBreaker × List (ℚ × ℕ)} (h : Tracks budgetUsd calls s) {now later : ℚ}
    (hclock : Follows calls now) (hle : now ≤ later) :
    s.1.spentOn (utcDay later) ≤ s.1.spentOn (utcDay now) := by
  by_cases hday : utcDay later = utcDay now
  · rw [hday]
  · have hnext : utcDay now < utcDay later := lt_of_le_of_ne (utcDay_mono hle) (Ne.symm hday)
    rw [h.unspent fun c hc => (utcDay_mono (hclock c hc)).trans_lt hnext]
    exact s.1.spentOn_nonneg _

/-- Reading what remains leaves a later record as it was, or clears it. -/
theorem spentOn_remaining_le (b : DailyBudgetBreaker) (now later : ℚ) :
    (b.remaining now).2.spentOn (utcDay later) ≤ b.spentOn (utcDay later) := by
  have hsettles := b.remaining_settles now
  by_cases hday : utcDay later = utcDay now
  · rw [hday, hsettles.today, add_zero]
  · rw [hsettles.others _ hday]
    exact b.spentOn_nonneg _

/-- **The ceiling of every day.**  After any calls on a clock that does not go back, the
reservations of each day cost no more than the budget, a refusal leaves what is recorded, what
fits into what remains is granted, and a new day has the whole budget. -/
theorem budget_ceiling_run (budgetUsd : ℚ) (calls : List BudgetCall)
    (hclock : calls.Pairwise fun a b => a.now ≤ b.now) :
    KeepsCeiling budgetUsd calls (run budgetUsd calls).1 (run budgetUsd calls).2 := by
  have h := tracks_run budgetUsd hclock
  refine ⟨h.bounded, fun now tokens hfollows hrefused => ?_,
    fun hpos now later tokens hfollows hle hfits => ?_, fun now hlater => ?_⟩
  · exact ⟨fun later hle => h.refused hfollows hrefused hle, refused_same_day hrefused⟩
  · have hbudget : 0 < (run budgetUsd calls).1.budget := by
      rw [h.budget]
      exact lt_max_of_lt_right hpos
    rw [remaining_fst, le_sub_iff_add_le, add_comm] at hfits
    have hlater : (run budgetUsd calls).1.spentOn (utcDay later) + tokenCost tokens
        ≤ (run budgetUsd calls).1.budget :=
      (add_le_add_left (h.spentOn_later_le hfollows hle) _).trans hfits
    refine ⟨(reserve_ok_iff _ later tokens).mpr ⟨hbudget, hlater⟩,
      (reserve_ok_iff _ later tokens).mpr ?_⟩
    rw [(remaining_settles _ now).budget]
    exact ⟨hbudget, (add_le_add_left (spentOn_remaining_le _ now later) _).trans hlater⟩
  · rw [remaining_fst, h.unspent hlater, sub_zero, h.budget]

/-- Two reservations, of which the second is too much, and one on the day after. -/
def twoDayCalls : List BudgetCall :=
  [⟨1000000, .reserve 50⟩, ⟨1000001, .reserve 100000000⟩, ⟨1000002, .remaining⟩,
    ⟨1086400, .reserve 50⟩]

example : (run (5 / 10000) twoDayCalls).2 = [(1000000, 50), (1086400, 50)] := by decide +kernel

theorem twoDayCalls_kept :
    KeepsCeiling (5 / 10000) twoDayCalls (run (5 / 10000) twoDayCalls).1
      (run (5 / 10000) twoDayCalls).2 :=
  budget_ceiling_run (5 / 10000) twoDayCalls (by decide +kernel)

end ForexAi.DailyBudgetBreaker
