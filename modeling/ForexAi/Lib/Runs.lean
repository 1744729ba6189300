/-
Runs of a deterministic step function.

A run is a list of events folded through `step`.  `Along step P s es` says that every
event of the run satisfies `P` in the state it meets; `invariant` is the induction
every claim about runs goes through, once.
-/
import Mathlib.Init

namespace Runs

variable {σ ε : Type*} (step : σ → ε → σ)

/-- The state after a run. -/
def run (s : σ) (es : List ε) : σ := es.foldl step s

@[simp] theorem run_nil (s : σ) : run step s [] = s := rfl

@[simp] theorem run_cons (s : σ) (e : ε) (es : List ε) :
    run step s (e :: es) = run step (step s e) es := rfl

theorem run_append (s : σ) (es fs : List ε) :
    run step s (es ++ fs) = run step (run step s es) fs :=
  List.foldl_append

/-- Every event satisfies `P` in the state it meets. -/
def Along (P : σ → ε → Prop) : σ → List ε → Prop
  | _, [] => True
  | s, e :: rest => P s e ∧ Along P (step s e) rest

instance decidableAlong (P : σ → ε → Prop) [∀ s e, Decidable (P s e)] :
    ∀ (s : σ) (es : List ε), Decidable (Along step P s es)
  | _, [] => inferInstanceAs (Decidable True)
  | s, e :: rest =>
      have := decidableAlong P (step s e) rest
      inferInstanceAs (Decidable (P s e ∧ Along step P (step s e) rest))

variable {step} {P Q : σ → ε → Prop}

theorem along_append {s : σ} {es fs : List ε} :
    Along step P s (es ++ fs) ↔ Along step P s es ∧ Along step P (run step s es) fs := by
  induction es generalizing s with
  | nil => exact ⟨fun h => ⟨trivial, h⟩, fun h => h.2⟩
  | cons e rest ih =>
      show P s e ∧ Along step P (step s e) (rest ++ fs) ↔
        (P s e ∧ Along step P (step s e) rest) ∧ _
      rw [ih, and_assoc]
      rfl

theorem along_of_forall (h : ∀ s e, P s e) {s : σ} {es : List ε} : Along step P s es := by
  induction es generalizing s with
  | nil => trivial
  | cons e rest ih => exact ⟨h s e, ih⟩

theorem Along.mono {s : σ} {es : List ε} (hPQ : ∀ s e, P s e → Q s e)
    (h : Along step P s es) : Along step Q s es := by
  induction es generalizing s with
  | nil => trivial
  | cons e rest ih => exact ⟨hPQ s e h.1, ih h.2⟩

theorem along_congr (hPQ : ∀ s e, P s e ↔ Q s e) {s : σ} {es : List ε} :
    Along step P s es ↔ Along step Q s es :=
  ⟨Along.mono fun s e => (hPQ s e).mp, Along.mono fun s e => (hPQ s e).mpr⟩

theorem along_and {s : σ} {es : List ε} :
    Along step (fun s e => P s e ∧ Q s e) s es ↔ Along step P s es ∧ Along step Q s es := by
  induction es generalizing s with
  | nil => exact ⟨fun _ => ⟨trivial, trivial⟩, fun _ => trivial⟩
  | cons e rest ih =>
      show (P s e ∧ Q s e) ∧ Along step (fun s e => P s e ∧ Q s e) (step s e) rest ↔
        (P s e ∧ Along step P (step s e) rest) ∧ Q s e ∧ Along step Q (step s e) rest
      rw [ih, and_and_and_comm]

/-- Along a run means at every place where the run can be cut. -/
theorem along_iff_split {s : σ} {es : List ε} :
    Along step P s es ↔ ∀ fs e gs, es = fs ++ e :: gs → P (run step s fs) e := by
  induction es generalizing s with
  | nil => exact ⟨fun _ fs e gs h => absurd h (by simp), fun _ => trivial⟩
  | cons e rest ih =>
      constructor
      · rintro ⟨hnow, hlater⟩ fs e' gs hsplit
        cases fs with
        | nil =>
            obtain ⟨rfl, -⟩ := List.cons.inj hsplit
            exact hnow
        | cons f fs =>
            obtain ⟨rfl, hrest⟩ := List.cons.inj hsplit
            exact ih.mp hlater fs e' gs hrest
      · intro h
        refine ⟨h [] e rest rfl, ih.mpr fun fs e' gs hsplit => ?_⟩
        exact h (e :: fs) e' gs (by rw [hsplit, List.cons_append])

/-- One event of a run is the last with a property, or none has it. -/
theorem last_with (P : ε → Prop) (es : List ε) :
    (∀ e ∈ es, ¬ P e) ∨
      ∃ before e after, es = before ++ e :: after ∧ P e ∧ ∀ o ∈ after, ¬ P o := by
  induction es with
  | nil => exact Or.inl fun e he => absurd he (by simp)
  | cons e rest ih =>
      rcases ih with hnone | ⟨before, o, after, hsplit, ho, hafter⟩
      · by_cases he : P e
        · exact Or.inr ⟨[], e, rest, rfl, he, hnone⟩
        · left
          intro o ho
          rcases List.mem_cons.mp ho with rfl | hrest
          · exact he
          · exact hnone o hrest
      · exact Or.inr ⟨e :: before, o, after, by rw [hsplit]; rfl, ho, hafter⟩

/-- **The invariant rule.** -/
theorem invariant {I : σ → Prop} (hstep : ∀ s e, I s → P s e → I (step s e)) {s : σ}
    {es : List ε} (h₀ : I s) (h : Along step P s es) : I (run step s es) := by
  induction es generalizing s with
  | nil => exact h₀
  | cons e rest ih => exact ih (hstep s e h₀ h.1) h.2

/-- Every event of a run is one of the run's events. -/
theorem along_mem {s : σ} {es : List ε} : Along step (fun _ e => e ∈ es) s es := by
  refine along_iff_split.mpr fun fs e gs h => ?_
  rw [h]
  exact List.mem_append_right fs List.mem_cons_self

/-- An invariant holds in every state of the run. -/
theorem Along.invariant {I : σ → Prop} (hstep : ∀ s e, I s → P s e → I (step s e)) {s : σ}
    {es : List ε} (h₀ : I s) (h : Along step P s es) : Along step (fun s _ => I s) s es := by
  induction es generalizing s with
  | nil => trivial
  | cons e rest ih => exact ⟨h₀, ih (hstep s e h₀ h.1) h.2⟩

/-- **The simulation rule.**  Two systems that meet the same events stay related. -/
theorem simulation {τ : Type*} {step' : τ → ε → τ} {R : σ → τ → Prop}
    (hstep : ∀ s t e, R s t → P s e → R (step s e) (step' t e)) {s : σ} {t : τ} {es : List ε}
    (h₀ : R s t) (h : Along step P s es) : R (run step s es) (run step' t es) := by
  induction es generalizing s t with
  | nil => exact h₀
  | cons e rest ih => exact ih (hstep s t e h₀ h.1) h.2

/-- What an event brings about and no event undoes holds after a run with that event. -/
theorem established {I : σ → Prop} {e : ε} (hbrings : ∀ s, I (step s e))
    (hkeeps : ∀ s e', I s → I (step s e')) {es : List ε} (hmem : e ∈ es) (s : σ) :
    I (run step s es) := by
  induction es generalizing s with
  | nil => exact absurd hmem (by simp)
  | cons e' rest ih =>
      rw [run_cons]
      rcases List.mem_cons.mp hmem with rfl | hmem
      · exact invariant (fun s e' hs _ => hkeeps s e' hs) (hbrings s)
          (along_of_forall fun _ _ => trivial)
      · exact ih hmem _

end Runs
