import Libcold.Runs
import Mathlib.Data.BitVec
import Mathlib.Logic.Function.Basic

namespace Libcold

open Runs

/-- A value of the counter `id_`, which wraps around, after so many increments. -/
structure CallNumber where
  turn : Nat := 0
  value : BitVec 64 := 0
  counted : value = BitVec.ofNat 64 turn := by rfl

namespace CallNumber

def increment (n : CallNumber) : CallNumber where
  turn := n.turn + 1
  value := n.value + 1
  counted := by rw [n.counted, BitVec.ofNat_add]; rfl

theorem value_eq_iff (m n : CallNumber) : m.value = n.value ↔ m.turn % 2 ^ 64 = n.turn % 2 ^ 64 := by
  rw [m.counted, n.counted, ← BitVec.toNat_inj, BitVec.toNat_ofNat, BitVec.toNat_ofNat]

end CallNumber

/-- Where a `CallMethod` is: before `++id_`, before the second read of `id_`, before
`emplace`, or after it; a reply takes the call out again. -/
inductive CallStage
  | absent
  | incremented (number : CallNumber)
  | reread (number key : CallNumber)
  | emplaced (number : CallNumber)
  | replied

/-- The counter of all channels, the `outstandings_` of each and the calls. -/
structure RpcIds (Channel Call : Type) where
  id : CallNumber := {}
  outstandings : Channel → BitVec 64 → Option Call := fun _ _ => none
  stage : Call → CallStage := fun _ => .absent

inductive RpcIdsEvent (Channel Call : Type)
  | increment (call : Call)
  | read (call : Call)
  | emplace (call : Call)
  | reply (channel : Channel) (id : BitVec 64)

namespace RpcIds

variable {Channel Call : Type}

def put [DecidableEq Call] (s : RpcIds Channel Call) (call : Call) (stage : CallStage) : RpcIds Channel Call :=
  { s with stage := Function.update s.stage call stage }

def setOutstanding [DecidableEq Channel] (s : RpcIds Channel Call) (channel : Channel) (id : BitVec 64)
    (call : Option Call) : RpcIds Channel Call :=
  { s with
    outstandings := Function.update s.outstandings channel (Function.update (s.outstandings channel) id call) }

/-- `emplace` leaves an entry that is there. -/
def emplace [DecidableEq Channel] (s : RpcIds Channel Call) (channel : Channel) (id : BitVec 64) (call : Call) :
    RpcIds Channel Call :=
  if (s.outstandings channel id).isSome then s else s.setOutstanding channel id (some call)

/-- The steps of the `CallMethod` of any calls of any channels, and the replies
that `DoClientRpc` of any channel is given. -/
inductive Step [DecidableEq Channel] [DecidableEq Call] (channel : Call → Channel) :
    RpcIds Channel Call → RpcIdsEvent Channel Call → RpcIds Channel Call → Prop
  | increment (s) (call) (hstage : s.stage call = .absent) :
      Step channel s (.increment call) { s.put call (.incremented s.id.increment) with id := s.id.increment }
  | read (s) (call) (number) (hstage : s.stage call = .incremented number) :
      Step channel s (.read call) (s.put call (.reread number s.id))
  | emplace (s) (call) (number key) (hstage : s.stage call = .reread number key) :
      Step channel s (.emplace call) ((s.emplace (channel call) key.value call).put call (.emplaced number))
  | reply (s) (ch) (id) (call) (hcall : s.outstandings ch id = some call) :
      Step channel s (.reply ch id) ((s.setOutstanding ch id none).put call .replied)
  | strayReply (s) (ch) (id) (hcall : s.outstandings ch id = none) : Step channel s (.reply ch id) s

/-- Each call that waits for its reply is registered with its channel under the id of
its request message and under no other, and no other call of the channel is. -/
structure RegisteredUnderOwnId (channel : Call → Channel) (s : RpcIds Channel Call) : Prop where
  registered : ∀ call number, s.stage call = .emplaced number →
    s.outstandings (channel call) number.value = some call
  only : ∀ ch id call, s.outstandings ch id = some call →
    channel call = ch ∧ ∃ number, s.stage call = .emplaced number ∧ number.value = id
  distinct : ∀ call other number number', s.stage call = .emplaced number → s.stage other = .emplaced number' →
    channel call = channel other → call ≠ other → number.value ≠ number'.value

/-- When a call is registered, the counter has not moved between its two uses, or by
a whole number of turns around, and no call that is as far behind waits with the channel. -/
def Unmoved (channel : Call → Channel) (s : RpcIds Channel Call) : RpcIdsEvent Channel Call → Prop
  | .emplace call => ∀ number key, s.stage call = .reread number key →
      key.turn % 2 ^ 64 = number.turn % 2 ^ 64 ∧
        ∀ other earlier, channel other = channel call → s.stage other = .emplaced earlier →
          earlier.turn % 2 ^ 64 ≠ number.turn % 2 ^ 64
  | _ => True

section

variable {channel : Call → Channel} {s t : RpcIds Channel Call}

/-- No two calls can be registered under one id. -/
theorem distinct_of_registered (h : ∀ call number, s.stage call = .emplaced number →
    s.outstandings (channel call) number.value = some call) (call other : Call) (number number' : CallNumber)
    (hcall : s.stage call = .emplaced number) (hother : s.stage other = .emplaced number')
    (hchannel : channel call = channel other) (hne : call ≠ other) : number.value ≠ number'.value := by
  intro hvalue
  have hfirst := h call number hcall
  rw [hchannel, hvalue, h other number' hother] at hfirst
  exact hne (Option.some.inj hfirst).symm

theorem RegisteredUnderOwnId.of_same (h : RegisteredUnderOwnId channel s)
    (houtstandings : t.outstandings = s.outstandings) (hstage : t.stage = s.stage) :
    RegisteredUnderOwnId channel t where
  registered := by rw [houtstandings, hstage]; exact h.registered
  only := by rw [houtstandings, hstage]; exact h.only
  distinct := by rw [hstage]; exact h.distinct

theorem RegisteredUnderOwnId.free_iff (h : RegisteredUnderOwnId channel s) (ch : Channel) (number : CallNumber) :
    s.outstandings ch number.value = none ↔
      ∀ other earlier, channel other = ch → s.stage other = .emplaced earlier →
        earlier.turn % 2 ^ 64 ≠ number.turn % 2 ^ 64 := by
  constructor
  · rintro hfree other earlier rfl hstage hturn
    have hentry := h.registered other earlier hstage
    rw [(CallNumber.value_eq_iff earlier number).mpr hturn, hfree] at hentry
    cases hentry
  · intro hturns
    cases hentry : s.outstandings ch number.value with
    | none => rfl
    | some other =>
        obtain ⟨hch, earlier, hstage, hvalue⟩ := h.only _ _ _ hentry
        exact absurd ((CallNumber.value_eq_iff earlier number).mp hvalue) (hturns other earlier hch hstage)

section Update

variable [DecidableEq Call]

theorem put_self (s : RpcIds Channel Call) (call : Call) (stage : CallStage) : (s.put call stage).stage call = stage :=
  Function.update_self ..

theorem put_other (s : RpcIds Channel Call) {call other : Call} (stage : CallStage) (h : other ≠ call) :
    (s.put call stage).stage other = s.stage other :=
  Function.update_of_ne h ..

end Update

section Outstanding

variable [DecidableEq Channel]

theorem setOutstanding_self (s : RpcIds Channel Call) (ch : Channel) (id : BitVec 64) (call : Option Call) :
    (s.setOutstanding ch id call).outstandings ch id = call := by
  simp [setOutstanding]

theorem setOutstanding_other (s : RpcIds Channel Call) {ch ch' : Channel} {id id' : BitVec 64} (call : Option Call)
    (h : ch' ≠ ch ∨ id' ≠ id) : (s.setOutstanding ch id call).outstandings ch' id' = s.outstandings ch' id' := by
  simp only [setOutstanding]
  by_cases hch : ch' = ch
  · subst hch
    rw [Function.update_self, Function.update_of_ne (h.resolve_left fun hne => hne rfl)]
  · rw [Function.update_of_ne hch]

theorem emplace_of_none {ch : Channel} {id : BitVec 64} (call : Call) (h : s.outstandings ch id = none) :
    s.emplace ch id call = s.setOutstanding ch id (some call) := by
  rw [emplace, h]
  rfl

end Outstanding

variable [DecidableEq Channel] [DecidableEq Call]

omit [DecidableEq Channel] in
/-- A step of a call that is neither registered before nor after it. -/
theorem RegisteredUnderOwnId.quiet (h : RegisteredUnderOwnId channel s) {call : Call} {stage : CallStage}
    (hbefore : ∀ number, s.stage call ≠ .emplaced number) (hafter : ∀ number, stage ≠ .emplaced number) :
    RegisteredUnderOwnId channel (s.put call stage) := by
  have hregistered : ∀ other number, (s.put call stage).stage other = .emplaced number →
      s.outstandings (channel other) number.value = some other := by
    intro other number hother
    by_cases hne : other = call
    · subst hne
      exact absurd ((put_self s other stage).symm.trans hother) (hafter number)
    · exact h.registered other number ((put_other s stage hne).symm.trans hother)
  refine ⟨hregistered, ?_, distinct_of_registered hregistered⟩
  intro ch id other hother
  obtain ⟨hch, number, hstage, hvalue⟩ := h.only ch id other hother
  have hne : other ≠ call := fun heq => hbefore number (heq ▸ hstage)
  exact ⟨hch, number, (put_other s stage hne).trans hstage, hvalue⟩

theorem RegisteredUnderOwnId.reply (h : RegisteredUnderOwnId channel s) {ch : Channel} {id : BitVec 64} {call : Call}
    (hcall : s.outstandings ch id = some call) :
    RegisteredUnderOwnId channel ((s.setOutstanding ch id none).put call .replied) := by
  obtain ⟨hch, number, hstage, hvalue⟩ := h.only ch id call hcall
  have hregistered : ∀ other number',
      ((s.setOutstanding ch id none).put call .replied).stage other = .emplaced number' →
      (s.setOutstanding ch id none).outstandings (channel other) number'.value = some other := by
    intro other number' hother
    by_cases hne : other = call
    · subst hne
      cases (put_self (s.setOutstanding ch id none) other .replied).symm.trans hother
    · have hbefore : s.stage other = .emplaced number' :=
        (put_other (s.setOutstanding ch id none) _ hne).symm.trans hother
      rw [setOutstanding_other]
      · exact h.registered other number' hbefore
      · by_cases hsame : channel other = ch
        · exact .inr fun heq => h.distinct other call number' number hbefore hstage (hsame.trans hch.symm) hne
            (heq.trans hvalue.symm)
        · exact .inl hsame
  refine ⟨hregistered, ?_, distinct_of_registered hregistered⟩
  intro ch' id' other hother
  have hkey : ch' ≠ ch ∨ id' ≠ id := by
    by_contra hsame
    rw [not_or, not_not, not_not] at hsame
    obtain ⟨rfl, rfl⟩ := hsame
    cases (setOutstanding_self s ch' id' none).symm.trans hother
  have hbefore : s.outstandings ch' id' = some other := (setOutstanding_other s none hkey).symm.trans hother
  obtain ⟨hch', number', hstage', hvalue'⟩ := h.only ch' id' other hbefore
  have hne : other ≠ call := by
    rintro rfl
    obtain rfl : number = number' := CallStage.emplaced.inj (hstage.symm.trans hstage')
    exact hkey.elim (fun hne => hne (hch'.symm.trans hch)) fun hne => hne (hvalue'.symm.trans hvalue)
  exact ⟨hch', number', (put_other (s.setOutstanding ch id none) _ hne).trans hstage', hvalue'⟩

theorem RegisteredUnderOwnId.emplace (h : RegisteredUnderOwnId channel s) {call : Call} {number key : CallNumber}
    (hstage : s.stage call = .reread number key) (hvalue : key.value = number.value)
    (hfree : s.outstandings (channel call) number.value = none) :
    RegisteredUnderOwnId channel ((s.emplace (channel call) key.value call).put call (.emplaced number)) := by
  rw [hvalue, emplace_of_none call hfree]
  have hregistered : ∀ other number', ((s.setOutstanding (channel call) number.value (some call)).put call
      (.emplaced number)).stage other = .emplaced number' →
      (s.setOutstanding (channel call) number.value (some call)).outstandings (channel other) number'.value =
        some other := by
    intro other number' hother
    by_cases hne : other = call
    · subst hne
      obtain rfl : number = number' := CallStage.emplaced.inj
        ((put_self (s.setOutstanding (channel other) number.value (some other)) other _).symm.trans hother)
      exact setOutstanding_self ..
    · have hbefore := (put_other (s.setOutstanding (channel call) number.value (some call)) _ hne).symm.trans hother
      have hentry := h.registered other number' hbefore
      rw [setOutstanding_other, hentry]
      by_contra hsame
      rw [not_or, not_not, not_not] at hsame
      rw [hsame.1, hsame.2, hfree] at hentry
      cases hentry
  refine ⟨hregistered, ?_, distinct_of_registered hregistered⟩
  intro ch id other hother
  by_cases hkey : ch ≠ channel call ∨ id ≠ number.value
  · have hbefore : s.outstandings ch id = some other := (setOutstanding_other s _ hkey).symm.trans hother
    obtain ⟨hch, number', hstage', hvalue'⟩ := h.only ch id other hbefore
    have hne : other ≠ call := by
      rintro rfl
      cases hstage.symm.trans hstage'
    refine ⟨hch, number', ?_, hvalue'⟩
    exact (put_other (s.setOutstanding (channel call) number.value (some call)) _ hne).trans hstage'
  · rw [not_or, not_not, not_not] at hkey
    obtain ⟨rfl, rfl⟩ := hkey
    obtain rfl : call = other := Option.some.inj ((setOutstanding_self s _ _ (some call)).symm.trans hother)
    exact ⟨rfl, number, put_self .., rfl⟩

/-- A call that is registered under its own id has found the counter unmoved. -/
theorem RegisteredUnderOwnId.unmoved (h : RegisteredUnderOwnId channel s) {call : Call} {number key : CallNumber}
    (hstage : s.stage call = .reread number key)
    (hnext : RegisteredUnderOwnId channel ((s.emplace (channel call) key.value call).put call (.emplaced number))) :
    key.value = number.value ∧ s.outstandings (channel call) number.value = none := by
  have hentry := hnext.registered call number (put_self (s.emplace (channel call) key.value call) call _)
  have hnew : s.outstandings (channel call) number.value ≠ some call := by
    intro hold
    obtain ⟨-, number', hstage', -⟩ := h.only _ _ _ hold
    cases hstage.symm.trans hstage'
  cases hfree : s.outstandings (channel call) key.value with
  | some other =>
      have hsame : s.emplace (channel call) key.value call = s := by rw [RpcIds.emplace, hfree]; rfl
      rw [hsame] at hentry
      exact absurd hentry hnew
  | none =>
      rw [emplace_of_none call hfree] at hentry
      have hvalue : key.value = number.value := by
        by_contra hne
        exact hnew ((setOutstanding_other s (some call) (.inr (Ne.symm hne))).symm.trans hentry)
      exact ⟨hvalue, hvalue ▸ hfree⟩

omit [DecidableEq Channel] [DecidableEq Call] in
theorem start_registers (channel : Call → Channel) : RegisteredUnderOwnId channel {} :=
  ⟨(fun _ _ h => by cases h), (fun _ _ _ h => by cases h), (fun _ _ _ _ h => by cases h)⟩

theorem step_registers {e : RpcIdsEvent Channel Call} (hs : RegisteredUnderOwnId channel s)
    (hguard : Unmoved channel s e) (hstep : Step channel s e t) : RegisteredUnderOwnId channel t := by
  cases hstep with
  | increment call hstage =>
      have hput : RegisteredUnderOwnId channel (s.put call (.incremented s.id.increment)) :=
        hs.quiet (fun number heq => by cases hstage.symm.trans heq) (fun number heq => by cases heq)
      exact hput.of_same rfl rfl
  | read call number hstage =>
      exact hs.quiet (fun number heq => by cases hstage.symm.trans heq) (fun number heq => by cases heq)
  | emplace call number key hstage =>
      obtain ⟨hturn, hturns⟩ := hguard number key hstage
      exact hs.emplace hstage ((CallNumber.value_eq_iff key number).mpr hturn) ((hs.free_iff _ number).mpr hturns)
  | reply ch id call hcall => exact hs.reply hcall
  | strayReply => exact hs

theorem step_guarded {e : RpcIdsEvent Channel Call} (hs : RegisteredUnderOwnId channel s)
    (hstep : Step channel s e t) (ht : RegisteredUnderOwnId channel t) : Unmoved channel s e := by
  cases hstep with
  | emplace call number key hstage =>
      intro number' key' hstage'
      obtain ⟨rfl, rfl⟩ := CallStage.reread.inj (hstage.symm.trans hstage')
      obtain ⟨hvalue, hfree⟩ := hs.unmoved hstage ht
      exact ⟨(CallNumber.value_eq_iff key number).mp hvalue, (hs.free_iff _ number).mp hfree⟩
  | increment => trivial
  | read => trivial
  | reply => trivial
  | strayReply => trivial

/-- Each call is registered under the id of its message, and alone, exactly where the
counter stands as the call has left it when the call reads it again. -/
theorem callMethod_registers_iff (channel : Call → Channel) (trace : List (RpcIdsEvent Channel Call))
    (s : RpcIds Channel Call) :
    Run (Guarded (Unmoved channel) (Step channel)) {} trace s ↔
      Run (Within (RegisteredUnderOwnId channel) (Step channel)) {} trace s := by
  refine run_guarded_iff_within (start_registers channel) (fun _ hs => hs) ?_ ?_ trace s
  · intro s e t hs hguard hstep
    exact step_registers hs hguard hstep
  · intro s e t hs hstep ht
    exact step_guarded hs hstep ht

end

/-- Two channels: the second call slips in between the two uses of the counter by
the first, which is registered under the id of the second. -/
theorem callMethod_registers_under_other_id : ¬ ∀ (channel : Bool → Bool) (trace : List (RpcIdsEvent Bool Bool))
    (s : RpcIds Bool Bool), Run (Step channel) {} trace s → RegisteredUnderOwnId channel s := by
  intro h
  have hrun : Run (Step fun call : Bool => call) ({} : RpcIds Bool Bool)
      [.increment false, .increment true, .read false, .emplace false] _ :=
    (((Run.single (.increment _ false rfl)).next (.increment _ true rfl)).next (.read _ false _ rfl)).next
      (.emplace _ false _ _ rfl)
  have hentry := (h _ _ _ hrun).registered false _ rfl
  cases hentry

end RpcIds

end Libcold
