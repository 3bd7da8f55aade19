import Mathlib.Data.Int.Notation
import Mathlib.Tactic.Linarith

/-!
# Dates in a time zone

`java.time`: an instant and a local time are numbers of nanoseconds, a date is
its epoch day.  The rules of a zone are the offset it starts with and the
transitions at which the offset changes.

A local time occurs twice when a transition sets the clocks back and never when
one sets them forward; `ofLocal` takes the earlier occurrence, or the transition
itself.  Where no transition leads back into an earlier date, the dates of the
zone follow the instants (`localDate_mono`), and the instants of the dates from
`date` on are those from `atStartOfDay date` on (`le_localDate_iff`).
-/

namespace Java

/-- `LocalDate.getYear`, by `LocalDate.ofEpochDay`. -/
def getYear (epochDay : ℤ) : ℤ :=
  -- years begin in March, so that the leap day is the last of its year
  let zeroDay := epochDay + 719528 - 60
  let cycle := zeroDay / 146097
  let dayOfCycle := zeroDay % 146097
  let daysBefore (year : ℤ) : ℤ := 365 * year + year / 4 - year / 100 + year / 400
  let estimate := (400 * dayOfCycle + 591) / 146097
  let year := if dayOfCycle < daysBefore estimate then estimate - 1 else estimate
  cycle * 400 + year + if 306 ≤ dayOfCycle - daysBefore year then 1 else 0

/-- The nanoseconds of a day. -/
def nanosPerDay : ℤ := 24 * 60 * 60 * 1000000000

theorem nanosPerDay_pos : 0 < nanosPerDay := by decide

/-- From `instant` on, clocks show the instant plus `offset`. -/
structure ZoneTransition where
  instant : ℤ
  offset : ℤ
  deriving DecidableEq, Repr

structure ZoneRules where
  /-- The offset before the first transition. -/
  offset : ℤ
  transitions : List ZoneTransition
  ascending : transitions.Pairwise fun a b => a.instant < b.instant

/-! ## Offsets -/

/-- The offset at an instant, when `offset` applies before the transitions. -/
def offsetAt (instant offset : ℤ) : List ZoneTransition → ℤ
  | [] => offset
  | next :: rest =>
      if instant < next.instant then offset else offsetAt instant next.offset rest

/-- The first instant at which clocks show `localTime`, or the transition that skips it. -/
def ofLocal (localTime offset : ℤ) : List ZoneTransition → ℤ
  | [] => localTime - offset
  | next :: rest =>
      if localTime - offset < next.instant then localTime - offset
      else if localTime - next.offset < next.instant then next.instant
      else ofLocal localTime next.offset rest

/-- No transition leads from a date back into an earlier one. -/
def KeepsDates (offset : ℤ) : List ZoneTransition → Prop
  | [] => True
  | next :: rest =>
      (next.instant - 1 + offset) / nanosPerDay ≤ (next.instant + next.offset) / nanosPerDay ∧
        KeepsDates next.offset rest

instance decidableKeepsDates : (offset : ℤ) → (transitions : List ZoneTransition) →
    Decidable (KeepsDates offset transitions)
  | _, [] => inferInstanceAs (Decidable True)
  | _, next :: rest =>
      have := decidableKeepsDates next.offset rest
      inferInstanceAs (Decidable (_ ∧ _))

theorem offsetAt_of_lt {instant offset : ℤ} {transitions : List ZoneTransition}
    (h : ∀ next ∈ transitions, instant < next.instant) :
    offsetAt instant offset transitions = offset := by
  cases transitions with
  | nil => rfl
  | cons next rest => simp [offsetAt, h next (by simp)]

theorem le_ofLocal {bound localTime offset : ℤ} {transitions : List ZoneTransition}
    (hbound : bound ≤ localTime - offset) (h : ∀ next ∈ transitions, bound < next.instant) :
    bound ≤ ofLocal localTime offset transitions := by
  induction transitions generalizing offset with
  | nil => exact hbound
  | cons next rest ih =>
      unfold ofLocal
      split
      · exact hbound
      · split
        · exact le_of_lt (h next (by simp))
        · rename_i hafter
          apply ih
          · have := h next (by simp)
            omega
          · exact fun later hlater => h later (by simp [hlater])

/-- Before `ofLocal`, clocks show an earlier time. -/
theorem offsetAt_lt_of_lt_ofLocal {instant localTime offset : ℤ}
    {transitions : List ZoneTransition} (h : instant < ofLocal localTime offset transitions) :
    instant + offsetAt instant offset transitions < localTime := by
  induction transitions generalizing offset with
  | nil =>
      simp only [ofLocal, offsetAt] at h ⊢
      omega
  | cons next rest ih =>
      unfold ofLocal at h
      unfold offsetAt
      split
      · rename_i hbefore
        split at h
        · omega
        · omega
      · rename_i hbefore
        split at h
        · omega
        · split at h
          · exact absurd h hbefore
          · exact ih h

/-- At `ofLocal`, clocks show the time or one beyond a gap. -/
theorem le_offsetAt_ofLocal {localTime offset : ℤ} {transitions : List ZoneTransition}
    (hascending : transitions.Pairwise fun a b => a.instant < b.instant) :
    localTime ≤ ofLocal localTime offset transitions +
      offsetAt (ofLocal localTime offset transitions) offset transitions := by
  induction transitions generalizing offset with
  | nil =>
      simp only [ofLocal, offsetAt]
      omega
  | cons next rest ih =>
      obtain ⟨hrest, hascending⟩ := List.pairwise_cons.mp hascending
      by_cases hbefore : localTime - offset < next.instant
      · -- the time is shown before the next transition
        have hlocal : ofLocal localTime offset (next :: rest) = localTime - offset := by
          simp [ofLocal, hbefore]
        rw [hlocal]
        simp only [offsetAt, hbefore, if_true]
        omega
      · by_cases hgap : localTime - next.offset < next.instant
        · -- the time falls into the gap of the transition
          have hlocal : ofLocal localTime offset (next :: rest) = next.instant := by
            simp [ofLocal, hbefore, hgap]
          rw [hlocal]
          simp only [offsetAt, lt_irrefl, if_false, offsetAt_of_lt hrest]
          omega
        · -- the transition lies before the time
          have hlocal : ofLocal localTime offset (next :: rest) =
              ofLocal localTime next.offset rest := by
            simp [ofLocal, hbefore, hgap]
          rw [hlocal]
          have hle : next.instant ≤ ofLocal localTime next.offset rest :=
            le_ofLocal (not_lt.mp hgap) hrest
          simp only [offsetAt, not_lt.mpr hle, if_false]
          exact ih hascending

theorem date_mono {offset : ℤ} {transitions : List ZoneTransition}
    (hascending : transitions.Pairwise fun a b => a.instant < b.instant)
    (hkeeps : KeepsDates offset transitions) {a b : ℤ} (hle : a ≤ b) :
    (a + offsetAt a offset transitions) / nanosPerDay ≤
      (b + offsetAt b offset transitions) / nanosPerDay := by
  induction transitions generalizing offset a with
  | nil =>
      simp only [offsetAt]
      exact Int.ediv_le_ediv nanosPerDay_pos (by omega)
  | cons next rest ih =>
      obtain ⟨hrest, hascending⟩ := List.pairwise_cons.mp hascending
      by_cases hb : b < next.instant
      · have ha : a < next.instant := by omega
        simp only [offsetAt, ha, hb, if_true]
        exact Int.ediv_le_ediv nanosPerDay_pos (by omega)
      · by_cases ha : a < next.instant
        · -- through the last instant before the transition and the transition itself
          simp only [offsetAt, ha, hb, if_true, if_false]
          calc (a + offset) / nanosPerDay
              ≤ (next.instant - 1 + offset) / nanosPerDay :=
                Int.ediv_le_ediv nanosPerDay_pos (by omega)
            _ ≤ (next.instant + next.offset) / nanosPerDay := hkeeps.1
            _ = (next.instant + offsetAt next.instant next.offset rest) / nanosPerDay := by
                rw [offsetAt_of_lt hrest]
            _ ≤ (b + offsetAt b next.offset rest) / nanosPerDay :=
                ih hascending hkeeps.2 (not_lt.mp hb)
        · simp only [offsetAt, ha, hb, if_false]
          exact ih hascending hkeeps.2 hle

/-! ## Dates -/

namespace ZoneRules

/-- The date that the calendars of the zone show at an instant. -/
def localDate (zone : ZoneRules) (instant : ℤ) : ℤ :=
  (instant + offsetAt instant zone.offset zone.transitions) / nanosPerDay

/-- `date.atStartOfDay(zone).toInstant()`. -/
def atStartOfDay (zone : ZoneRules) (date : ℤ) : ℤ :=
  ofLocal (date * nanosPerDay) zone.offset zone.transitions

variable {zone : ZoneRules}

theorem localDate_mono (hkeeps : KeepsDates zone.offset zone.transitions) {a b : ℤ}
    (hle : a ≤ b) : zone.localDate a ≤ zone.localDate b :=
  date_mono zone.ascending hkeeps hle

theorem le_localDate_atStartOfDay (date : ℤ) : date ≤ zone.localDate (zone.atStartOfDay date) :=
  (Int.le_ediv_iff_mul_le nanosPerDay_pos).mpr (le_offsetAt_ofLocal zone.ascending)

/-- The instants of the dates from `date` on are those from its start on. -/
theorem le_localDate_iff (hkeeps : KeepsDates zone.offset zone.transitions) {date instant : ℤ} :
    date ≤ zone.localDate instant ↔ zone.atStartOfDay date ≤ instant := by
  constructor
  · intro hdate
    by_contra hbefore
    have hlocal := offsetAt_lt_of_lt_ofLocal (not_le.mp hbefore)
    have hlt : zone.localDate instant < date :=
      (Int.ediv_lt_iff_lt_mul nanosPerDay_pos).mpr hlocal
    omega
  · intro hstart
    exact (le_localDate_atStartOfDay date).trans (localDate_mono hkeeps hstart)

/-- The instants of the dates up to `date` are those before the start of the next one. -/
theorem localDate_le_iff (hkeeps : KeepsDates zone.offset zone.transitions) {date instant : ℤ} :
    zone.localDate instant ≤ date ↔ instant < zone.atStartOfDay (date + 1) := by
  rw [← not_iff_not, not_lt, ← le_localDate_iff hkeeps]
  omega

end ZoneRules

/-! ## Korea -/

/-- A transition given in seconds. -/
def ZoneTransition.ofSeconds (transition : ℤ × ℤ) : ZoneTransition where
  instant := transition.1 * 1000000000
  offset := transition.2 * 1000000000

/-- `ZoneId.of("Asia/Seoul").getRules()`. -/
def asiaSeoul : ZoneRules where
  offset := 30472 * 1000000000
  transitions := [
    (-1948782472, 30600), (-1830414600, 32400),
    -- summer time from 1948 to 1951
    (-681210000, 36000), (-672228000, 32400), (-654771600, 36000), (-640864800, 32400),
    (-623408400, 36000), (-609415200, 32400), (-588848400, 36000), (-577965600, 32400),
    (-498128400, 30600),
    -- summer time from 1955 to 1960
    (-462702600, 34200), (-451733400, 30600), (-429784200, 34200), (-418296600, 30600),
    (-399544200, 34200), (-387451800, 30600), (-368094600, 34200), (-356002200, 30600),
    (-336645000, 34200), (-324552600, 30600), (-305195400, 34200), (-293103000, 30600),
    (-264933000, 32400),
    -- summer time in 1987 and 1988
    (547578000, 36000), (560883600, 32400), (579027600, 36000), (592333200, 32400)
    ].map ZoneTransition.ofSeconds
  ascending := by decide

theorem asiaSeoul_keepsDates : KeepsDates asiaSeoul.offset asiaSeoul.transitions := by decide

end Java
