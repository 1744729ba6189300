/-
The zone of the host.

`astimezone()` without an argument moves a stamp to the zone the host is set to.  The instant
stays and the offset becomes the host's, so two hosts print one instant alike only where their
offsets agree at it (`HostZone.isoformat_inj`).
-/
import ForexAi.Bus.Chronology

namespace ForexAi

/-- A `datetime`: what its clock shows, and how far that is ahead of UTC, in microseconds;
naive without. -/
structure Datetime where
  wall : Time
  utcoffset : Option ℤ
  fold : Bool := false
  representable : Representable wall
  small : ∀ o ∈ utcoffset, -86400000000 < o ∧ o < 86400000000

/-- `repr` of a naive `datetime`; a second of zero is left out with the microseconds. -/
def Datetime.repr (d : Datetime) : String :=
  let (year, month, day) := civil (d.wall / 86400000000)
  let clock := d.wall % 86400000000
  let second := clock / 1000000
  let micro := clock % 1000000
  let fields := [year, month, day, second / 3600, second / 60 % 60] ++
    (if micro = 0 then (if second % 60 = 0 then [] else [second % 60]) else [second % 60, micro])
  "datetime.datetime(" ++ String.intercalate ", " (fields.map toString) ++
    (if d.fold then ", fold=1)" else ")")

/-- The zone of a host: the seconds it is ahead of UTC at an instant. -/
structure HostZone where
  gmtoff : Time → ℤ
  small : ∀ t, -86400 < gmtoff t ∧ gmtoff t < 86400

/-- What the host's clock shows. -/
def HostZone.wall (z : HostZone) (t : Time) : Time := t + z.gmtoff t * 1000000

/-- `_ensure_utc`: the instant, which the host shows in its own zone from here on. -/
def ensureUtc (z : HostZone) (ts : Datetime) (what : String) : Except String Time :=
  match ts.utcoffset with
  | none => .error (what ++ " must be timezone-aware UTC; got naive " ++ ts.repr)
  | some offset =>
      let instant := ts.wall - offset
      if Representable instant ∧ Representable (z.wall instant) then .ok instant
      else .error "date value out of range"

/-- **The zone a stamp is written in is gone.** -/
theorem ensureUtc_ok {z : HostZone} {ts : Datetime} {what : String} {t : Time}
    (h : ensureUtc z ts what = .ok t) :
    (∃ offset, ts.utcoffset = some offset ∧ t = ts.wall - offset) ∧
      Representable (z.wall t) := by
  unfold ensureUtc at h
  cases hoffset : ts.utcoffset with
  | none => simp [hoffset] at h
  | some offset =>
      simp only [hoffset] at h
      split at h
      case isTrue hfits =>
        obtain rfl := Except.ok.inj h
        exact ⟨⟨offset, rfl, rfl⟩, hfits.2⟩
      case isFalse => exact absurd h (by simp)

theorem ensureUtc_utc {z : HostZone} {ts : Datetime} (hutc : ts.utcoffset = some 0)
    (h : Representable (z.wall ts.wall)) (what : String) : ensureUtc z ts what = .ok ts.wall := by
  unfold ensureUtc
  simp only [hutc, sub_zero]
  exact if_pos ⟨ts.representable, h⟩

/-! ### How a stamp prints on a host -/

/-- `isoformat` up to the offset. -/
def stampBody (wall : Time) : String :=
  let (year, month, day) := civil (wall / 86400000000)
  let clock := wall % 86400000000
  let second := clock / 1000000
  let micro := clock % 1000000
  padded 4 year ++ "-" ++ padded 2 month ++ "-" ++ padded 2 day ++ "T" ++
    padded 2 (second / 3600) ++ ":" ++ padded 2 (second / 60 % 60) ++ ":" ++
    padded 2 (second % 60) ++ (if micro = 0 then "" else "." ++ padded 6 micro)

/-- How `isoformat` prints an offset of whole seconds. -/
def formatOffset (offset : ℤ) : String :=
  let size := |offset|
  (if offset < 0 then "-" else "+") ++ padded 2 (size / 3600) ++ ":" ++
    padded 2 (size / 60 % 60) ++ (if size % 60 = 0 then "" else ":" ++ padded 2 (size % 60))

/-- `isoformat` of an instant in the host's zone. -/
def HostZone.isoformat (z : HostZone) (t : Time) : String :=
  stampBody (z.wall t) ++ formatOffset (z.gmtoff t)

/-- A host that keeps UTC prints as `isoformat` does. -/
theorem isoformat_eq_body (t : Time) : isoformat t = stampBody t ++ "+00:00" := rfl

example : formatOffset (-12645) = "-03:30:45" := by decide +kernel

/-- The fields of an offset up to the minute. -/
def offsetFields : List (ℕ × List Char) := [(2, [':']), (2, [])]

/-- The hours and minutes of an offset. -/
def offsetNumbers (offset : ℤ) : List ℕ :=
  [(|offset| / 3600).toNat, (|offset| / 60 % 60).toNat]

/-- The seconds of an offset, if there are any. -/
def offsetTail (offset : ℤ) : List Char :=
  if |offset| % 60 = 0 then [] else ':' :: FixedWidth.text 2 (|offset| % 60).toNat

theorem offsetNumbers_fit {o : ℤ} (h : |o| < 86400) :
    FixedWidth.Fits offsetFields (offsetNumbers o) := by
  unfold FixedWidth.Fits offsetFields offsetNumbers
  simp only [List.forall₂_cons, List.forall₂_nil_left_iff, and_true]
  refine ⟨?_, ?_⟩ <;> omega

theorem toList_formatOffset {o : ℤ} (h : |o| < 86400) :
    (formatOffset o).toList = (if o < 0 then '-' else '+') ::
      FixedWidth.spell offsetFields (offsetNumbers o) (offsetTail o) := by
  have hpos : 0 ≤ |o| := abs_nonneg o
  have hsign : (if o < 0 then "-" else "+").toList = [if o < 0 then '-' else '+'] := by
    split_ifs <;> rfl
  have htail : (if |o| % 60 = 0 then "" else ":" ++ padded 2 (|o| % 60)).toList = offsetTail o := by
    unfold offsetTail
    by_cases hsecond : |o| % 60 = 0
    · rw [if_pos hsecond, if_pos hsecond]
      rfl
    · rw [if_neg hsecond, if_neg hsecond, String.toList_append,
        toList_padded (by decide) (by omega) (by omega)]
      rfl
  have hhour : (padded 2 (|o| / 3600)).toList = FixedWidth.text 2 (|o| / 3600).toNat :=
    toList_padded (by decide) (by omega) (by omega)
  have hminute : (padded 2 (|o| / 60 % 60)).toList = FixedWidth.text 2 (|o| / 60 % 60).toNat :=
    toList_padded (by decide) (by omega) (by omega)
  unfold formatOffset offsetFields offsetNumbers
  simp only [FixedWidth.spell, String.toList_append, hsign, htail, hhour, hminute,
    List.append_assoc, List.nil_append]
  rfl

/-- **Offsets are told apart by their text.** -/
theorem formatOffset_inj {o o' : ℤ} (h : |o| < 86400) (h' : |o'| < 86400) :
    formatOffset o = formatOffset o' ↔ o = o' := by
  refine ⟨fun heq => ?_, fun heq => by rw [heq]⟩
  have hlist := congrArg String.toList heq
  rw [toList_formatOffset h, toList_formatOffset h'] at hlist
  obtain ⟨hsign, hrest⟩ := List.cons.inj hlist
  obtain ⟨hnumbers, htail⟩ :=
    FixedWidth.spell_injective (offsetNumbers_fit h) (offsetNumbers_fit h') hrest
  unfold offsetNumbers at hnumbers
  obtain ⟨hhour, hminutes⟩ := List.cons.inj hnumbers
  have hminute := List.singleton_inj.mp hminutes
  have hsecond : (|o| % 60).toNat = (|o'| % 60).toNat := by
    unfold offsetTail at htail
    split_ifs at htail with hzero hzero'
    · omega
    · exact FixedWidth.text_injective (w := 2) (by omega) (by omega) (List.cons.inj htail).2
  have hsize : |o| = |o'| := by
    have hpos : 0 ≤ |o| := abs_nonneg o
    have hpos' : 0 ≤ |o'| := abs_nonneg o'
    omega
  have hsigns : o < 0 ↔ o' < 0 := by
    by_cases hneg : o < 0 <;> by_cases hneg' : o' < 0 <;> simp [hneg, hneg'] at hsign ⊢
  rcases abs_eq_abs.mp hsize with hsame | hopposite
  · exact hsame
  · omega

/-- The microseconds, if there are any. -/
def stampFraction (t : Time) : List Char :=
  if t % 86400000000 % 1000000 = 0 then []
  else '.' :: FixedWidth.text 6 (t % 86400000000 % 1000000).toNat

theorem stampTail_eq (t : Time) : stampTail t = stampFraction t ++ "+00:00".toList := by
  unfold stampTail stampFraction
  split_ifs <;> rfl

theorem toList_stampBody {t : Time} (h : Representable t) :
    (stampBody t).toList = FixedWidth.spell stampFields (stampNumbers t) (stampFraction t) := by
  have hstamp := toList_isoformat h
  rw [isoformat_eq_body, String.toList_append, stampTail_eq, FixedWidth.spell_append] at hstamp
  exact List.append_cancel_right hstamp

/-- Where the microseconds end the sign of the offset stands. -/
theorem stampFraction_append {s t : Time} {c d : Char} {x y : List Char} (hc : c ≠ '.')
    (hd : d ≠ '.') (h : stampFraction s ++ c :: x = stampFraction t ++ d :: y) :
    stampFraction s = stampFraction t ∧ c :: x = d :: y := by
  unfold stampFraction at h ⊢
  split_ifs at h ⊢ with hs ht ht
  · exact ⟨rfl, h⟩
  · exact absurd (List.cons.inj h).1 hc
  · exact absurd (List.cons.inj h).1.symm hd
  · exact List.append_inj h (by simp)

/-- **A printed stamp says the instant and the host's offset, and no more.** -/
theorem HostZone.isoformat_inj {z z' : HostZone} {t t' : Time} (h : Representable (z.wall t))
    (h' : Representable (z'.wall t')) :
    z.isoformat t = z'.isoformat t' ↔ t = t' ∧ z.gmtoff t = z'.gmtoff t' := by
  have hsmall : |z.gmtoff t| < 86400 := abs_lt.mpr (z.small t)
  have hsmall' : |z'.gmtoff t'| < 86400 := abs_lt.mpr (z'.small t')
  refine ⟨fun heq => ?_, fun ⟨htime, hoffset⟩ => ?_⟩
  · have hlist := congrArg String.toList heq
    unfold HostZone.isoformat at hlist
    rw [String.toList_append, String.toList_append, toList_stampBody h, toList_stampBody h',
      ← FixedWidth.spell_append, ← FixedWidth.spell_append] at hlist
    obtain ⟨hnumbers, htail⟩ :=
      FixedWidth.spell_injective (stampNumbers_fit h) (stampNumbers_fit h') hlist
    have hsign (o : ℤ) : (if o < 0 then '-' else '+') ≠ '.' := by split_ifs <;> decide
    rw [toList_formatOffset hsmall, toList_formatOffset hsmall'] at htail
    obtain ⟨hfraction, hoffsets⟩ := stampFraction_append (hsign _) (hsign _) htail
    rw [← toList_formatOffset hsmall, ← toList_formatOffset hsmall'] at hoffsets
    have hoffset : z.gmtoff t = z'.gmtoff t' :=
      (formatOffset_inj hsmall hsmall').mp (String.toList_injective hoffsets)
    have hwall : z.wall t = z'.wall t' := by
      refine (ForexAi.isoformat_inj h h').mp (String.toList_injective ?_)
      rw [toList_isoformat h, toList_isoformat h', hnumbers, stampTail_eq, stampTail_eq, hfraction]
    unfold HostZone.wall at hwall
    rw [hoffset] at hwall
    exact ⟨add_right_cancel hwall, hoffset⟩
  · subst htime
    unfold HostZone.isoformat HostZone.wall
    rw [hoffset]

/-- Digits after a mark hold no bar. -/
theorem bar_not_mem_marked {mark : Char} (hmark : '|' ≠ mark) (w n : ℕ) :
    '|' ∉ mark :: FixedWidth.text w n := by
  intro h
  rcases List.mem_cons.mp h with hfirst | hdigit
  · exact hmark hfirst
  · exact absurd (FixedWidth.isDigit_of_mem_text hdigit) (by decide)

/-- No bar is printed. -/
theorem HostZone.bar_not_mem {z : HostZone} {t : Time} (h : Representable (z.wall t)) :
    '|' ∉ (z.isoformat t).toList := by
  have hfraction : '|' ∉ stampFraction (z.wall t) := by
    unfold stampFraction
    split_ifs
    · simp
    · exact bar_not_mem_marked (by decide) 6 _
  have htail : '|' ∉ offsetTail (z.gmtoff t) := by
    unfold offsetTail
    split_ifs
    · simp
    · exact bar_not_mem_marked (by decide) 2 _
  have hsign : '|' ≠ (if z.gmtoff t < 0 then '-' else '+') := by split_ifs <;> decide
  unfold HostZone.isoformat
  rw [String.toList_append, toList_stampBody h, toList_formatOffset (abs_lt.mpr (z.small t)),
    List.mem_append, List.mem_cons, not_or, not_or]
  exact ⟨FixedWidth.not_mem_spell (by decide) (by decide) hfraction, hsign,
    FixedWidth.not_mem_spell (by decide) (by decide) htail⟩

end ForexAi
