import Libcold.TimerRefinement

namespace Libcold

variable {Task : Type}

namespace TimerMap

/-- The expiry of a first entry. -/
def Earliest (m : TimerMap Task) (expiry : Int) : Prop :=
  (∃ id e, m id = some e ∧ e.expiry = expiry) ∧ ∀ id e, m id = some e → expiry ≤ e.expiry

theorem Earliest.unique {m : TimerMap Task} {expiry expiry' : Int} (h : m.Earliest expiry)
    (h' : m.Earliest expiry') : expiry = expiry' := by
  obtain ⟨⟨id, e, he, rfl⟩, hle⟩ := h
  obtain ⟨⟨id', e', he', rfl⟩, hle'⟩ := h'
  exact le_antisymm (hle id' e' he') (hle' id e he)

end TimerMap

namespace TimerQueue

open TimerMap

/-- What a loop may rely on that waits `w` milliseconds from `now`, when `remaining` is armed. -/
structure PollTimeout (remaining : TimerMap Task) (now w : Int) : Prop where
  nonneg : 0 ≤ w
  le_tick : w ≤ 500
  idle : (∀ id, remaining id = none) → w = 500
  earliest : (∃ id e, remaining id = some e) → ∃ expiry, remaining.Earliest expiry ∧ now < expiry
  far : ∀ expiry, remaining.Earliest expiry → now + 501 * 1000000 ≤ expiry → w = 500
  near : ∀ expiry, remaining.Earliest expiry → expiry < now + 501 * 1000000 →
    expiry < now + w * 1000000 + 1000000 ∧ now + w * 1000000 < expiry + 1000000
  lossless : ∀ expiry, remaining.Earliest expiry →
    timeSinceEpochMilliSeconds expiry - timeSinceEpochMilliSeconds now ≤ kDefaultTickMilliSeconds →
      toInt32 (timeSinceEpochMilliSeconds expiry - timeSinceEpochMilliSeconds now) =
        timeSinceEpochMilliSeconds expiry - timeSinceEpochMilliSeconds now
  punctual : ∀ id e, remaining id = some e → now + w * 1000000 < e.expiry + 1000000

theorem earliest_root {q : TimerQueue Task} (h : q.WellFormed) {root : TimerNode Task}
    (hroot : q.timeHeap[0]? = some root) : q.contents.Earliest root.expiry := by
  constructor
  · exact ⟨root.timerId, entry root, (contents_eq_some h.indexed _ _).mpr ⟨0, root, hroot, rfl, rfl⟩, rfl⟩
  · intro id e he
    obtain ⟨i, node, hn, -, rfl⟩ := (contents_eq_some h.indexed id e).mp he
    exact root_expiry_le h hroot hn

theorem contents_of_empty {q : TimerQueue Task} (h : q.Indexed) (hroot : q.timeHeap[0]? = none) (id : Nat) :
    q.contents id = none := by
  cases hc : q.contents id with
  | none => rfl
  | some e =>
      obtain ⟨i, node, hn, -⟩ := (contents_eq_some h id e).mp hc
      have hsize := (Array.getElem?_eq_some_iff.mp hn).1
      have hzero := Array.getElem?_eq_none_iff.mp hroot
      omega

theorem timeSinceEpochMilliSeconds_of_nonneg {time : Int} (h : 0 ≤ time) :
    timeSinceEpochMilliSeconds time = time / 1000000 := Int.tdiv_eq_ediv_of_nonneg h

/-- Both times are rounded down, so that their difference is off by less than a millisecond. -/
theorem rounded_difference {now expiry d : Int} (hnow : 0 ≤ now) (hlater : now < expiry)
    (hd : timeSinceEpochMilliSeconds expiry - timeSinceEpochMilliSeconds now = d) :
    0 ≤ d ∧ expiry < now + d * 1000000 + 1000000 ∧ now + d * 1000000 < expiry + 1000000 := by
  rw [timeSinceEpochMilliSeconds_of_nonneg hnow, timeSinceEpochMilliSeconds_of_nonneg (hnow.trans hlater.le)] at hd
  omega

theorem toInt32_of_le_tick {x : Int} (hpos : 0 ≤ x) (hle : x ≤ kDefaultTickMilliSeconds) : toInt32 x = x := by
  rw [kDefaultTickMilliSeconds] at hle
  exact Int.bmod_eq_of_le (by omega) (by omega)

theorem waitTime_spec {q : TimerQueue Task} (h : q.WellFormed) {now : Int} (hnow : 0 ≤ now)
    (hlater : ∀ id e, q.contents id = some e → now < e.expiry) : PollTimeout q.contents now (q.waitTime now) := by
  cases hroot : q.timeHeap[0]? with
  | none =>
      have hnone := contents_of_empty h.indexed hroot
      have hw : q.waitTime now = 500 := by simp [waitTime, hroot, kDefaultTickMilliSeconds]
      have hno (expiry : Int) : ¬ q.contents.Earliest expiry := by
        rintro ⟨⟨id, e, he, -⟩, -⟩
        simp [hnone id] at he
      rw [hw]
      exact ⟨by decide, le_rfl, fun _ => rfl, fun ⟨id, e, he⟩ => by simp [hnone id] at he,
        fun expiry he => absurd he (hno expiry), fun expiry he => absurd he (hno expiry),
        fun expiry he => absurd he (hno expiry), fun id e he => by simp [hnone id] at he⟩
  | some root =>
      have hfirst := earliest_root h hroot
      have hafter : now < root.expiry := by
        obtain ⟨⟨id, e, he, heq⟩, -⟩ := hfirst
        rw [← heq]
        exact hlater id e he
      obtain ⟨hpos, hlate, hearly⟩ := rounded_difference hnow hafter rfl
      have hw : q.waitTime now =
          min kDefaultTickMilliSeconds
            (timeSinceEpochMilliSeconds root.expiry - timeSinceEpochMilliSeconds now) := by
        simp only [waitTime, hroot]
        split
        · next hover => exact (min_eq_left hover.le).symm
        · next hover => rw [toInt32_of_le_tick hpos (not_lt.mp hover), min_eq_right (not_lt.mp hover)]
      rw [hw]
      have htick : kDefaultTickMilliSeconds = 500 := rfl
      refine ⟨by omega, by omega, fun hnone => ?_, fun _ => ⟨_, hfirst, hafter⟩, fun expiry he hfar => ?_,
        fun expiry he hnear => ?_, fun expiry he hle => ?_, fun id e he => ?_⟩
      · obtain ⟨⟨id, e, he, -⟩, -⟩ := hfirst
        simp [hnone id] at he
      · cases he.unique hfirst
        omega
      · cases he.unique hfirst
        omega
      · cases he.unique hfirst
        exact toInt32_of_le_tick hpos hle
      · have := hfirst.2 id e he
        omega

/-- After any calls and for every reading of the clock from the epoch on, the wait of
`HandleTimeout` fits what is then left armed. -/
theorem handleTimeout_waits (calls : List (TimerCall Task)) (now : Int) (hnow : 0 ≤ now)
    (timeoutCoroutines : List (Option Task)) :
    PollTimeout (((empty : TimerQueue Task).run calls).1.contents.expire now) now
      (((empty : TimerQueue Task).run calls).1.handleTimeout now timeoutCoroutines).2.2 := by
  have hw := (run_refines (@empty_wellFormed Task) calls).1
  obtain ⟨due, -, -, hw', hc⟩ := popTimeouts_spec hw now timeoutCoroutines
  rw [← hc]
  apply waitTime_spec hw' hnow
  intro id e he
  rw [hc, TimerMap.expire, Option.filter_eq_some_iff] at he
  simpa using he.2

/-- A timer due in half a millisecond. -/
theorem handleTimeout_waits_zero :
    PollTimeout (((empty : TimerQueue Unit).run [.addTimer ⟨1, 1500000, some ()⟩]).1.contents.expire 1000000) 1000000
      (((empty : TimerQueue Unit).run [.addTimer ⟨1, 1500000, some ()⟩]).1.handleTimeout 1000000 []).2.2 :=
  handleTimeout_waits [.addTimer ⟨1, 1500000, some ()⟩] 1000000 (by decide) []

end TimerQueue

end Libcold
