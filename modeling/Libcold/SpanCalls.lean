import Mathlib.Data.List.Induction

namespace Libcold.SpanCalls

variable {Kind Notice State Seen α : Type}

/-- What a parser reports of its input, byte by byte. -/
inductive Event (Kind Notice : Type)
  | byte (kind : Kind) (b : UInt8)
  | notice (n : Notice)

/-- A callback, which may be given several bytes of a span at once. -/
inductive Call (Kind Notice : Type)
  | span (kind : Kind) (bytes : List UInt8)
  | notice (n : Notice)

def Event.call : Event Kind Notice → Call Kind Notice
  | .byte kind b => .span kind [b]
  | .notice n => .notice n

def Event.kind : Event Kind Notice → Option Kind
  | .byte kind _ => some kind
  | .notice _ => none

/-- Calls that report the events. An empty piece is reported only of a span that
has begun; the kind is that of the span that is open before the calls. -/
inductive Grouped : Option Kind → List (Call Kind Notice) → List (Event Kind Notice) → Prop
  | done (opened : Option Kind) : Grouped opened [] []
  | span {opened : Option Kind} {kind : Kind} {bytes : List UInt8} {calls : List (Call Kind Notice)}
      {events : List (Event Kind Notice)} (hbegun : bytes ≠ [] ∨ opened = some kind)
      (rest : Grouped (some kind) calls events) :
      Grouped opened (.span kind bytes :: calls) (bytes.map (.byte kind) ++ events)
  | notice {opened : Option Kind} {n : Notice} {calls : List (Call Kind Notice)} {events : List (Event Kind Notice)}
      (rest : Grouped none calls events) : Grouped opened (.notice n :: calls) (.notice n :: events)

/-- The span that is open behind the events. -/
def openAfter (opened : Option Kind) (events : List (Event Kind Notice)) : Option Kind :=
  match events.getLast? with
  | some event => event.kind
  | none => opened

/-- Runs through a list until it is told to stop. -/
def runUntil (handle : State → α → State × Bool) : State → List α → State × Bool
  | s, [] => (s, true)
  | s, a :: as =>
      match handle s a with
      | (t, true) => runUntil handle t as
      | (t, false) => (t, false)

/-- Both succeed in the same state, or both fail and show the same. -/
def Same (seen : State → Seen) (r r' : State × Bool) : Prop :=
  r.2 = r'.2 ∧ seen r.1 = seen r'.1 ∧ (r.2 = true → r.1 = r'.1)

/-- Callbacks for which it makes no difference how a span is cut. -/
structure Splits (handle : State → Call Kind Notice → State × Bool) (seen : State → Seen) : Prop where
  append : ∀ s kind x y, Same seen (handle s (.span kind (x ++ y))) (runUntil handle s [.span kind x, .span kind y])
  empty : ∀ s t kind bytes, handle s (.span kind bytes) = (t, true) → handle t (.span kind []) = (t, true)

theorem Same.refl (seen : State → Seen) (r : State × Bool) : Same seen r r := ⟨rfl, rfl, fun _ => rfl⟩

theorem Same.trans {seen : State → Seen} {r r' r'' : State × Bool} (h : Same seen r r') (h' : Same seen r' r'') :
    Same seen r r'' :=
  ⟨h.1.trans h'.1, h.2.1.trans h'.2.1, fun hr => (h.2.2 hr).trans (h'.2.2 (h.1 ▸ hr))⟩

@[simp] theorem runUntil_single (handle : State → α → State × Bool) (s : State) (a : α) :
    runUntil handle s [a] = handle s a := by
  rcases ha : handle s a with ⟨t, _ | _⟩
  · simp [runUntil, ha]
  · simp [runUntil, ha]

theorem runUntil_cons {handle : State → α → State × Bool} {s t : State} {a : α} (h : handle s a = (t, true))
    (as : List α) : runUntil handle s (a :: as) = runUntil handle t as := by
  simp [runUntil, h]

theorem runUntil_cons_false {handle : State → α → State × Bool} {s t : State} {a : α} (h : handle s a = (t, false))
    (as : List α) : runUntil handle s (a :: as) = (t, false) := by
  simp [runUntil, h]

theorem runUntil_append (handle : State → α → State × Bool) (s : State) (first second : List α) :
    runUntil handle s (first ++ second) =
      match runUntil handle s first with
      | (t, true) => runUntil handle t second
      | (t, false) => (t, false) := by
  induction first generalizing s with
  | nil => rfl
  | cons a first ih =>
      rcases ha : handle s a with ⟨t, _ | _⟩
      · simp [runUntil, ha]
      · simp [runUntil, ha, ih]

/-- What holds at the end of both beginnings holds at the end of both wholes. -/
theorem Same.append {β : Type} {handle : State → α → State × Bool} {handle' : State → β → State × Bool}
    {seen : State → Seen} {s s' : State} {first second : List α} {first' second' : List β}
    (h : Same seen (runUntil handle s first) (runUntil handle' s' first'))
    (hnext : ∀ t, runUntil handle s first = (t, true) →
      Same seen (runUntil handle t second) (runUntil handle' t second')) :
    Same seen (runUntil handle s (first ++ second)) (runUntil handle' s' (first' ++ second')) := by
  rw [runUntil_append, runUntil_append]
  rcases hfirst : runUntil handle s first with ⟨t, _ | _⟩
  · rw [hfirst] at h
    rcases hfirst' : runUntil handle' s' first' with ⟨t', _ | _⟩
    · rw [hfirst'] at h
      exact h
    · rw [hfirst'] at h
      cases h.1
  · rw [hfirst] at h
    rcases hfirst' : runUntil handle' s' first' with ⟨t', _ | _⟩
    · rw [hfirst'] at h
      cases h.1
    · rw [hfirst'] at h
      obtain rfl : t = t' := h.2.2 rfl
      exact hnext t hfirst

/-- Two pieces fit into a bounded buffer when the whole does. -/
theorem Same.within {handle : State → α → State × Bool} {seen : State → Seen} {s once twice : State}
    {a first second : α} {limit size x y : Nat}
    (hwhole : handle s a = if limit < size + (x + y) then (s, false) else (twice, true))
    (hfirst : handle s first = if limit < size + x then (s, false) else (once, true))
    (hsecond : handle once second = if limit < size + x + y then (once, false) else (twice, true))
    (hseen : seen s = seen once) : Same seen (handle s a) (runUntil handle s [first, second]) := by
  by_cases hx : limit < size + x
  · rw [if_pos hx] at hfirst
    rw [hwhole, if_pos (by omega), runUntil_cons_false hfirst]
    exact Same.refl seen _
  · rw [if_neg hx] at hfirst
    rw [runUntil_cons hfirst, runUntil_single, hwhole, hsecond]
    by_cases hy : limit < size + x + y
    · rw [if_pos (by omega), if_pos hy]
      exact ⟨rfl, hseen, by rintro ⟨⟩⟩
    · rw [if_neg (by omega), if_neg hy]
      exact Same.refl seen _

/-- Each byte is reported by a callback of its own. -/
def byEvent (handle : State → Call Kind Notice → State × Bool) (s : State) (event : Event Kind Notice) : State × Bool :=
  handle s event.call

variable {handle : State → Call Kind Notice → State × Bool} {seen : State → Seen}

/-- A span in one piece is a span byte by byte. -/
theorem Splits.bytes (h : Splits handle seen) (s : State) (kind : Kind) (b : UInt8) (bytes : List UInt8) :
    Same seen (handle s (.span kind (b :: bytes)))
      (runUntil (byEvent handle) s ((b :: bytes).map (.byte kind))) := by
  induction bytes generalizing s b with
  | nil =>
      rw [List.map_singleton, runUntil_single]
      exact Same.refl seen _
  | cons b' bytes ih =>
      refine (h.append s kind [b] (b' :: bytes)).trans ?_
      rcases hb : handle s (.span kind [b]) with ⟨t, _ | _⟩
      · have hbyte : byEvent handle s (.byte kind b) = (t, false) := hb
        rw [runUntil_cons_false hb, List.map_cons, runUntil_cons_false hbyte]
        exact Same.refl seen _
      · have hbyte : byEvent handle s (.byte kind b) = (t, true) := hb
        rw [runUntil_cons hb, runUntil_single, List.map_cons, runUntil_cons hbyte]
        exact ih t b'

/-- However the events are reported, the outcome is that of reporting them byte by byte. -/
theorem Splits.grouped (h : Splits handle seen) {opened : Option Kind} {calls : List (Call Kind Notice)}
    {events : List (Event Kind Notice)} (hgrouped : Grouped opened calls events) (s : State)
    (hopened : ∀ kind, opened = some kind → handle s (.span kind []) = (s, true)) :
    Same seen (runUntil handle s calls) (runUntil (byEvent handle) s events) := by
  induction hgrouped generalizing s with
  | done => exact Same.refl seen _
  | @span opened kind bytes calls events hbegun rest ih =>
      rw [← List.singleton_append]
      refine Same.append ?_ ?_
      · rw [runUntil_single]
        cases bytes with
        | nil =>
            rw [hopened kind (hbegun.resolve_left fun hne => hne rfl)]
            exact Same.refl seen _
        | cons b bytes => exact h.bytes s kind b bytes
      · intro t ht
        rw [runUntil_single] at ht
        refine ih t ?_
        rintro kind' ⟨⟩
        exact h.empty s t kind bytes ht
  | @notice opened n calls events rest ih =>
      rw [← List.singleton_append, ← List.singleton_append (l := events)]
      refine Same.append ?_ ?_
      · rw [runUntil_single, runUntil_single]
        exact Same.refl seen _
      · intro t _
        exact ih t (by rintro kind ⟨⟩)

/-- Every reporting byte by byte is one of the possible ones. -/
theorem grouped_bytes (opened : Option Kind) (events : List (Event Kind Notice)) :
    Grouped opened (events.map Event.call) events := by
  induction events generalizing opened with
  | nil => exact .done opened
  | cons event events ih =>
      cases event with
      | byte kind b => exact .span (.inl (List.cons_ne_nil b [])) (ih (some kind))
      | notice n => exact .notice (ih none)

/-- A span that is open behind the events takes another empty piece. -/
theorem Splits.opened_after (h : Splits handle seen) {opened : Option Kind} {events : List (Event Kind Notice)}
    {s t : State} (hopened : ∀ kind, opened = some kind → handle s (.span kind []) = (s, true))
    (hrun : runUntil (byEvent handle) s events = (t, true)) (kind : Kind)
    (hkind : openAfter opened events = some kind) : handle t (.span kind []) = (t, true) := by
  induction events using List.reverseRecOn with
  | nil =>
      cases hrun
      exact hopened kind hkind
  | append_singleton events event _ =>
      rw [runUntil_append] at hrun
      rcases hbefore : runUntil (byEvent handle) s events with ⟨mid, _ | _⟩
      · rw [hbefore] at hrun
        cases hrun
      · rw [hbefore] at hrun
        simp only [runUntil_single] at hrun
        rw [openAfter, List.getLast?_concat] at hkind
        cases event with
        | byte kind' b =>
            obtain rfl : kind' = kind := Option.some.inj hkind
            exact h.empty mid t kind' [b] hrun
        | notice n => cases hkind

end Libcold.SpanCalls
