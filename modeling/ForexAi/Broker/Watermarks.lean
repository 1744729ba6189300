/-
The watermarks of an equity curve.

The broker keeps a peak and a maximum drawdown and moves both whenever it is asked
for its state.  As functions of the equities seen they are a fold, and `state` is one
step of it.
-/
import ForexAi.Broker.Paper

namespace ForexAi

/-- The running peak of an equity curve and its largest relative fall. -/
def watermarks (start : ℚ) (curve : List ℚ) : ℚ × ℚ :=
  curve.foldl (fun w equity =>
    let peak := max w.1 equity
    (peak, if 0 < peak then max w.2 ((peak - equity) / peak) else w.2)) (start, 0)

theorem watermarks_concat (start : ℚ) (curve : List ℚ) (equity : ℚ) :
    watermarks start (curve ++ [equity]) =
      let peak := max (watermarks start curve).1 equity
      (peak, if 0 < peak then max (watermarks start curve).2 ((peak - equity) / peak)
        else (watermarks start curve).2) := by
  unfold watermarks
  rw [List.foldl_append]
  rfl

/-- `state` raises the peak to the equity it sees. -/
theorem state_peakEquity (b : PaperBroker) (ts : Time) :
    (b.state ts).2.peakEquity = max b.peakEquity b.totalEquity := by
  show (if b.peakEquity < b.totalEquity then b.totalEquity else b.peakEquity) = _
  by_cases hlt : b.peakEquity < b.totalEquity
  · rw [if_pos hlt, max_eq_right hlt.le]
  · rw [if_neg hlt, max_eq_left (not_lt.mp hlt)]

/-- `state` raises the maximum drawdown to the one it sees. -/
theorem state_maxDrawdownPct (b : PaperBroker) (ts : Time) :
    (b.state ts).2.maxDrawdownPct =
      let peak := max b.peakEquity b.totalEquity
      if 0 < peak then max b.maxDrawdownPct ((peak - b.totalEquity) / peak)
      else b.maxDrawdownPct := by
  have hdd : (b.state ts).2.maxDrawdownPct =
      if 0 < (b.state ts).2.peakEquity ∧ b.maxDrawdownPct
          < ((b.state ts).2.peakEquity - b.totalEquity) / (b.state ts).2.peakEquity
      then ((b.state ts).2.peakEquity - b.totalEquity) / (b.state ts).2.peakEquity
      else b.maxDrawdownPct := rfl
  rw [hdd, state_peakEquity]
  simp only
  by_cases hpos : 0 < max b.peakEquity b.totalEquity
  · rw [if_pos hpos]
    by_cases hlt : b.maxDrawdownPct
        < (max b.peakEquity b.totalEquity - b.totalEquity) / max b.peakEquity b.totalEquity
    · rw [if_pos ⟨hpos, hlt⟩, max_eq_right hlt.le]
    · rw [if_neg fun hc => hlt hc.2, max_eq_left (not_lt.mp hlt)]
  · rw [if_neg hpos, if_neg fun hc => hpos hc.1]

/-- `state` moves the watermarks as a curve does. -/
theorem state_watermarks {b : PaperBroker} {start : ℚ} {curve : List ℚ}
    (h : (b.peakEquity, b.maxDrawdownPct) = watermarks start curve) (ts : Time) :
    ((b.state ts).2.peakEquity, (b.state ts).2.maxDrawdownPct)
      = watermarks start (curve ++ [b.totalEquity]) := by
  rw [watermarks_concat, ← h, state_peakEquity, state_maxDrawdownPct]

end ForexAi
