import Libcold.WebSocketWriter

namespace Libcold

open Runs WebSocketParser

variable {Coro : Type}

/-- The frames that were made so far, and what the coroutines share. -/
structure WebSocketLog (Coro : Type) where
  made : List WebSocketFrame := []
  writer : WebSocketWriter Coro := {}

def WriteEvent.frames : WriteEvent → List WebSocketFrame
  | .made frame => [frame]
  | .other => []

namespace WebSocketWriter

variable [DecidableEq Coro]

inductive LogStep (P : Platform) : WebSocketLog Coro → WriteEvent → WebSocketLog Coro → Prop
  | step (made) (s t) (e) (taken : Step P s e t) : LogStep P ⟨made, s⟩ e ⟨made ++ e.frames, t⟩

/-- A close frame is the last that the socket gets; once it is written and nobody
writes, the socket is closed. -/
structure EndsWithClose (P : Platform) (s : WebSocketLog Coro) : Prop where
  last : ∀ before close after, s.made = before ++ close :: after → close.opcode = 0x8 →
    s.writer.stream <+: (before ++ [close]).flatMap (frameBytes P)
  closed : ∀ before close after, s.made = before ++ close :: after → close.opcode = 0x8 →
    (before ++ [close]).flatMap (frameBytes P) <+: s.writer.stream → (∀ c, ¬ s.writer.Active c) →
    s.writer.connected = false

/-- As long as the socket is connected, no frame is made after a close frame, and a
close frame only when nobody is in `DoWrite`. -/
def ClosesLast (s : WebSocketLog Coro) : WriteEvent → Prop
  | .made frame => s.writer.connected = true →
      (∀ f ∈ s.made, f.opcode ≠ 0x8) ∧ (frame.opcode = 0x8 → s.writer.isWriting = false)
  | .other => True

/-- What holds of a log whose close frames are made when nobody writes. -/
structure Closing (P : Platform) (s : WebSocketLog Coro) : Prop where
  closes : ∀ c frame atEnd, s.writer.pc c = .spawned frame atEnd → frame.opcode = 0x8 → atEnd = .closeSocket
  stopped : ∀ before close after, s.made = before ++ close :: after → close.opcode = 0x8 →
    after = [] ∨ s.writer.connected = false ∧ s.writer.stream <+: (before ++ [close]).flatMap (frameBytes P)
  closing : s.writer.connected = true → ∀ before close, s.made = before ++ [close] → close.opcode = 0x8 →
    s.writer.writeTempBuffer = [] ∧ ∃ c byteAlreadyWrite n, s.writer.pc c = .writing byteAlreadyWrite n .closeSocket

section

variable {P : Platform} {s t : WebSocketWriter Coro} {e : WriteEvent} {c : Coro} {atEnd : WriteEnd}

theorem skipped_ne_spawned (atEnd : WriteEnd) (frame : WebSocketFrame) (e : WriteEnd) :
    skipped atEnd ≠ .spawned frame e := by
  cases atEnd <;> simp [skipped]

/-- A coroutine that made its frame or writes does not have a frame to make after a step. -/
def MovesOn (s t : WebSocketWriter Coro) (c : Coro) : Prop :=
  ∃ pc, t.pc = Function.update s.pc c pc ∧ ∀ frame e, pc ≠ .spawned frame e

theorem leave_movesOn (s : WebSocketWriter Coro) (c : Coro) (atEnd : WriteEnd) : MovesOn s (s.leave c atEnd) c :=
  ⟨_, rfl, skipped_ne_spawned atEnd⟩

theorem doWrite_movesOn (s : WebSocketWriter Coro) (c : Coro) (atEnd : WriteEnd) : MovesOn s (s.doWrite c atEnd) c := by
  rw [doWrite]
  dsimp only
  split_ifs
  · exact ⟨_, rfl, skipped_ne_spawned atEnd⟩
  · exact ⟨_, rfl, by simp⟩
  · exact leave_movesOn s c atEnd

theorem made_movesOn (s : WebSocketWriter Coro) (c : Coro) (atEnd : WriteEnd) (buf : List UInt8) :
    MovesOn s (s.made c atEnd buf) c := by
  rw [made]
  dsimp only
  split_ifs
  · exact ⟨_, rfl, skipped_ne_spawned atEnd⟩
  · exact doWrite_movesOn { s with writeTempBuffer := buf, isWriting := true } c atEnd

theorem written_movesOn (s : WebSocketWriter Coro) (c : Coro) (byteAlreadyWrite n : Nat) (atEnd : WriteEnd)
    (bytes : List UInt8) : MovesOn s (s.written c byteAlreadyWrite n atEnd bytes) c := by
  rw [written]
  dsimp only
  split_ifs
  · exact ⟨_, rfl, by simp⟩
  · exact doWrite_movesOn { s with stream := s.stream ++ bytes, writeBuffer := [] } c atEnd
  · exact leave_movesOn { s with stream := s.stream ++ bytes, connected := false } c atEnd

theorem MovesOn.spawned {frame : WebSocketFrame} {d : Coro} (h : MovesOn s t c) (hpc : t.pc d = .spawned frame atEnd) :
    s.pc d = .spawned frame atEnd := by
  obtain ⟨pc, heq, hne⟩ := h
  rw [heq] at hpc
  by_cases hd : d = c
  · subst hd
    exact absurd (by simpa using hpc) (hne frame atEnd)
  · simpa [hd] using hpc

/-- Only `Close` has a close frame to make. -/
theorem Step.closes (h : ∀ c frame atEnd, s.pc c = .spawned frame atEnd → frame.opcode = 0x8 → atEnd = .closeSocket)
    (hstep : Step P s e t) (d : Coro) (frame : WebSocketFrame) (atEnd : WriteEnd)
    (hpc : t.pc d = .spawned frame atEnd) (hopcode : frame.opcode = 0x8) : atEnd = .closeSocket := by
  have hupdate {c : Coro} {pc : WritePc} (hpc : Function.update s.pc c pc d = .spawned frame atEnd) :
      pc = .spawned frame atEnd ∨ s.pc d = .spawned frame atEnd := by
    by_cases hd : d = c
    · subst hd
      exact .inl (by simpa using hpc)
    · exact .inr (by simpa [hd] using hpc)
  cases hstep with
  | spawn c request hidle hopen =>
      rcases hupdate hpc with hnew | hold
      · cases request with
        | send buf binary =>
            cases hnew
            cases binary <;> cases hopcode
        | sendPong => cases hnew; cases hopcode
        | close => cases hnew; rfl
        | sendPing => cases hnew
      · exact h d frame atEnd hold hopcode
  | ping c hidle hopen =>
      rcases hupdate hpc with hnew | hold
      · cases hnew
        cases hopcode
      · exact h d frame atEnd hold hopcode
  | stopPinging c hidle hclosed =>
      rcases hupdate hpc with hnew | hold
      · cases hnew
      · exact h d frame atEnd hold hopcode
  | makeFrame c frame' atEnd' rand buf hidle hmade =>
      exact h d frame atEnd ((made_movesOn s c atEnd' buf).spawned hpc) hopcode
  | write c byteAlreadyWrite n atEnd' bytes hwriting hopen hbytes =>
      exact h d frame atEnd ((written_movesOn s c byteAlreadyWrite n atEnd' bytes).spawned hpc) hopcode
  | notConnected c byteAlreadyWrite n atEnd' hwriting hclosed =>
      exact h d frame atEnd ((leave_movesOn s c atEnd').spawned hpc) hopcode
  | closeByRead => exact h d frame atEnd hpc hopcode

theorem leave_connected (s : WebSocketWriter Coro) (c : Coro) (atEnd : WriteEnd)
    (h : (s.leave c atEnd).connected = true) : s.connected = true :=
  (Bool.and_eq_true_iff.mp h).1

theorem doWrite_closed (c : Coro) (atEnd : WriteEnd) (h : s.connected = false) :
    (s.doWrite c atEnd).connected = false ∧ (s.doWrite c atEnd).stream = s.stream := by
  rw [doWrite, if_neg (by simp [h])]
  exact ⟨by simp [leave, setPc, h], rfl⟩

/-- Nothing is written to a socket that is closed, and it stays closed. -/
theorem Step.closed (hstep : Step P s e t) (h : s.connected = false) : t.connected = false ∧ t.stream = s.stream := by
  cases hstep with
  | spawn => exact ⟨h, rfl⟩
  | ping => exact ⟨h, rfl⟩
  | stopPinging => exact ⟨h, rfl⟩
  | makeFrame c frame atEnd rand buf hpc hmade =>
      rw [made]
      dsimp only
      split_ifs
      · exact ⟨h, rfl⟩
      · exact doWrite_closed (s := { s with writeTempBuffer := buf, isWriting := true }) c atEnd h
  | write c byteAlreadyWrite n atEnd bytes hpc hopen hbytes =>
      rw [h] at hopen
      cases hopen
  | notConnected c byteAlreadyWrite n atEnd hpc hclosed => exact ⟨by simp [leave, setPc, h], rfl⟩
  | closeByRead => exact ⟨rfl, rfl⟩

theorem Step.was_connected (hstep : Step P s e t) (hopen : t.connected = true) : s.connected = true := by
  by_contra hclosed
  rw [(hstep.closed (Bool.eq_false_iff.mpr hclosed)).1] at hopen
  cases hopen

/-- `Close` becomes the writer, or finds the socket closed. -/
theorem made_closing {bytes buf : List UInt8} (hwriter : Writer s bytes) (hflag : s.isWriting = false) (c : Coro)
    (hopen : (s.made c .closeSocket buf).connected = true) :
    (s.made c .closeSocket buf).writeTempBuffer = [] ∧
      ∃ c' byteAlreadyWrite n, (s.made c .closeSocket buf).pc c' = .writing byteAlreadyWrite n .closeSocket := by
  have hmade : s.made c .closeSocket buf =
      { s with writeTempBuffer := buf, isWriting := true }.doWrite c .closeSocket := by
    simp [made, hflag]
  rw [hmade] at hopen ⊢
  rw [doWrite] at hopen ⊢
  dsimp only at hopen ⊢
  split_ifs at hopen ⊢ with hconnected hempty
  · simp [leave] at hopen
  · cases hwriter with
    | busy _ _ _ hbusy => cases hflag.symm.trans hbusy
    | idle _ _ _ hflushed => exact ⟨(hflushed hconnected).2.1, c, 0, buf.length, by simp [setPc]⟩
  · simp [leave] at hopen

/-- The writer that `Close` is goes on, or closes the socket. -/
theorem written_closing {byteAlreadyWrite n : Nat} {bytes : List UInt8} (htemp : s.writeTempBuffer = [])
    (hopen : (s.written c byteAlreadyWrite n .closeSocket bytes).connected = true) :
    (s.written c byteAlreadyWrite n .closeSocket bytes).writeTempBuffer = [] ∧
      ∃ c' k m, (s.written c byteAlreadyWrite n .closeSocket bytes).pc c' = .writing k m .closeSocket := by
  rw [written] at hopen ⊢
  dsimp only at hopen ⊢
  split_ifs at hopen ⊢ with hmore hsize
  · exact ⟨htemp, c, byteAlreadyWrite + bytes.length, n, by simp [setPc]⟩
  · rw [doWrite] at hopen
    dsimp only at hopen
    split_ifs at hopen with hconnected hempty
    · simp [leave] at hopen
    · exact absurd (by simp [htemp]) hempty
    · simp [leave] at hopen
  · simp [leave] at hopen

theorem Step.closing {bytes : List UInt8} (hwriter : Writer s bytes) (hstep : Step P s .other t)
    (htemp : s.writeTempBuffer = []) {byteAlreadyWrite n : Nat}
    (hpc : s.pc c = .writing byteAlreadyWrite n .closeSocket) (hopen : t.connected = true) :
    t.writeTempBuffer = [] ∧ ∃ c' k m, t.pc c' = .writing k m .closeSocket := by
  have hother {d : Coro} {pc new : WritePc} (hd : s.pc d = pc) (hne : ¬ Writing pc) :
      Function.update s.pc d new c = .writing byteAlreadyWrite n .closeSocket := by
    have hcd : c ≠ d := by
      rintro rfl
      exact hne (hd ▸ ⟨_, _, _, hpc⟩)
    simpa [hcd] using hpc
  cases hstep with
  | spawn d request hidle _ => exact ⟨htemp, c, _, _, hother hidle (by simp [Writing])⟩
  | ping d hidle _ => exact ⟨htemp, c, _, _, hother hidle (by simp [Writing])⟩
  | stopPinging d hidle _ => exact ⟨htemp, c, _, _, hother hidle (by simp [Writing])⟩
  | write d k m atEnd bytes hwriting hconnected hbytes =>
      obtain ⟨-, -, hothers, -⟩ := hwriter.at hwriting
      obtain rfl := hothers c ⟨_, _, _, hpc⟩
      rw [hpc] at hwriting
      cases hwriting
      exact written_closing htemp hopen
  | notConnected d k m atEnd hwriting hclosed =>
      have hconnected := leave_connected s d atEnd hopen
      rw [hclosed] at hconnected
      cases hconnected
  | closeByRead => cases hopen

omit [DecidableEq Coro] in
theorem Writer.stream_prefix {bytes : List UInt8} (h : Writer s bytes) : s.stream <+: bytes := by
  cases h with
  | idle _ _ hstream _ => exact hstream
  | busy _ _ _ _ _ _ hbytes => exact hbytes ▸ List.prefix_append _ _

theorem snoc_split {made before after : List WebSocketFrame} {frame close : WebSocketFrame}
    (h : made ++ [frame] = before ++ close :: after) :
    (after = [] ∧ made = before ∧ frame = close) ∨
      ∃ after', after = after' ++ [frame] ∧ made = before ++ close :: after' := by
  cases after using List.reverseRecOn with
  | nil =>
      obtain ⟨hbefore, hlast⟩ := List.append_inj' h rfl
      exact .inl ⟨rfl, hbefore, (List.cons.inj hlast).1⟩
  | append_singleton after' last =>
      rw [← List.cons_append, ← List.append_assoc] at h
      obtain ⟨hbefore, hlast⟩ := List.append_inj' h rfl
      obtain rfl := (List.cons.inj hlast).1
      exact .inr ⟨after', rfl, hbefore⟩

theorem Closing.quiet {made : List WebSocketFrame} {bytes : List UInt8} (h : Closing P ⟨made, s⟩)
    (hwriter : Writer s bytes) (hstep : Step P s .other t) : Closing P ⟨made, t⟩ where
  closes := hstep.closes h.closes
  stopped before close after hsplit hopcode := by
    rcases h.stopped before close after hsplit hopcode with hlast | ⟨hclosed, hstream⟩
    · exact .inl hlast
    · obtain ⟨hstill, hsame⟩ := hstep.closed hclosed
      exact .inr ⟨hstill, hsame ▸ hstream⟩
  closing hopen before close hsplit hopcode := by
    have hconnected := hstep.was_connected hopen
    obtain ⟨htemp, c, byteAlreadyWrite, n, hpc⟩ := h.closing hconnected before close hsplit hopcode
    exact hstep.closing hwriter htemp hpc hopen

theorem Closing.madeFrame {made : List WebSocketFrame} {frame : WebSocketFrame} (h : Closing P ⟨made, s⟩)
    (hwriter : Writer s (made.flatMap (frameBytes P))) (hguard : ClosesLast ⟨made, s⟩ (.made frame))
    (hstep : Step P s (.made frame) t) : Closing P ⟨made ++ [frame], t⟩ where
  closes := hstep.closes h.closes
  stopped before close after hsplit hopcode := by
    rcases snoc_split hsplit with ⟨hlast, -⟩ | ⟨after', rfl, hmade⟩
    · exact .inl hlast
    · have hmem : close ∈ made := hmade ▸ List.mem_append_right _ List.mem_cons_self
      cases hconnected : s.connected with
      | true => exact absurd hopcode ((hguard hconnected).1 close hmem)
      | false =>
          obtain ⟨hstill, hsame⟩ := hstep.closed hconnected
          refine .inr ⟨hstill, hsame ▸ ?_⟩
          rcases h.stopped before close after' hmade hopcode with hlast | ⟨-, hstream⟩
          · rw [hlast] at hmade
            rw [← hmade]
            exact hwriter.stream_prefix
          · exact hstream
  closing hopen before close hsplit hopcode := by
    have hconnected := hstep.was_connected hopen
    obtain ⟨rfl, hlast⟩ := List.append_inj' hsplit rfl
    obtain rfl := (List.cons.inj hlast).1
    cases hstep with
    | makeFrame c _ atEnd rand buf hpc hmade =>
        obtain rfl := h.closes c frame atEnd hpc hopcode
        exact made_closing hwriter ((hguard hconnected).2 hopcode) c hopen

theorem madeBytes_eq (P : Platform) (trace : List WriteEvent) :
    madeBytes P trace = (trace.flatMap WriteEvent.frames).flatMap (frameBytes P) := by
  rw [madeBytes, List.flatMap_assoc]
  congr 1
  funext e
  cases e <;> simp [WriteEvent.frames]

/-- The frames of the log are those of the run, and the writer is as any run leaves it. -/
theorem run_closing {trace : List WriteEvent} {s : WebSocketLog Coro}
    (h : Run (Guarded ClosesLast (LogStep P)) {} trace s) :
    Inv P trace s.writer ∧ s.made = trace.flatMap WriteEvent.frames ∧ Closing P s := by
  refine @Run.invariant _ _ _ _ (fun trace s => Inv P trace s.writer ∧ s.made = trace.flatMap WriteEvent.frames ∧
    Closing P s) ?_ ?_ _ _ h
  · exact ⟨run_inv .stop, rfl, by simp, by simp, by simp⟩
  · rintro trace _ e _ ⟨hinv, hmade, hclosing⟩ ⟨hguard, ⟨made, s, t, e, hstep⟩⟩
    refine ⟨step_inv hinv hstep, by simp [← hmade], ?_⟩
    have hwriter := hinv.writer
    rw [madeBytes_eq, ← hmade] at hwriter
    cases e with
    | made frame => exact hclosing.madeFrame hwriter hguard hstep
    | other =>
        rw [WriteEvent.frames, List.append_nil]
        exact hclosing.quiet hwriter hstep

/-- When every close frame is made while nobody writes, and is the last as long as
the socket is connected, it ends what the socket gets and the socket with it. -/
theorem close_ends_writing (P : Platform) (trace : List WriteEvent) (s : WebSocketLog Coro)
    (h : Run (Guarded ClosesLast (LogStep P)) {} trace s) : EndsWithClose P s := by
  obtain ⟨hinv, hmade, hclosing⟩ := run_closing h
  have hwriter := hinv.writer
  rw [madeBytes_eq, ← hmade] at hwriter
  constructor
  · intro before close after hsplit hopcode
    rcases hclosing.stopped before close after hsplit hopcode with rfl | ⟨-, hstream⟩
    · rw [← hsplit]
      exact hwriter.stream_prefix
    · exact hstream
  · intro before close after hsplit hopcode _ hidle
    by_contra hopen
    have hconnected : s.writer.connected = true := by simpa using hopen
    rcases hclosing.stopped before close after hsplit hopcode with rfl | ⟨hclosed, -⟩
    · obtain ⟨-, c, byteAlreadyWrite, n, hpc⟩ := hclosing.closing hconnected before close hsplit hopcode
      exact hidle c ⟨_, _, _, hpc⟩
    · exact hopen hclosed

end

theorem close_ends_writing_alone : ∃ s : WebSocketLog Bool,
    Run (Guarded ClosesLast (LogStep ⟨.little, false⟩)) {} [.other, .made (controlFrame 0x8), .other] s ∧
      s.writer.stream = [0x88, 0] ∧ s.writer.connected = false ∧ EndsWithClose ⟨.little, false⟩ s := by
  have hrun : ∃ s : WebSocketLog Bool,
      Run (Guarded ClosesLast (LogStep ⟨.little, false⟩)) {} [.other, .made (controlFrame 0x8), .other] s ∧
        s.writer.stream = [0x88, 0] ∧ s.writer.connected = false :=
    ⟨_, run_cons_iff.mpr ⟨_, ⟨trivial, .step _ _ _ _ (.spawn _ true .close rfl nofun)⟩,
      run_cons_iff.mpr ⟨_, ⟨fun _ => ⟨by simp [WriteEvent.frames], fun _ => rfl⟩,
        .step _ _ _ _ (.makeFrame _ true _ _ (Vector.replicate 4 0) _ rfl rfl)⟩,
      .single ⟨trivial, .step _ _ _ _ (.write _ true 0 2 .closeSocket [0x88, 0] rfl rfl (by decide))⟩⟩⟩, rfl, rfl⟩
  obtain ⟨s, h, hstream, hclosed⟩ := hrun
  exact ⟨s, h, hstream, hclosed, close_ends_writing _ _ s h⟩

/-- `Close` while a message is being written: the close frame goes out, and the socket
stays open. -/
theorem close_leaves_socket_open : ¬ ∀ (P : Platform) (trace : List WriteEvent) (s : WebSocketLog Bool),
    Run (LogStep P) {} trace s → EndsWithClose P s := by
  intro h
  have hrun : ∃ s : WebSocketLog Bool,
      Run (LogStep ⟨.little, false⟩) {}
        [.other, .made (dataFrame [65] false), .other, .made (controlFrame 0x8), .other, .other] s ∧
        s.made = [dataFrame [65] false, controlFrame 0x8] ∧ s.writer.stream = [0x81, 1, 65, 0x88, 0] ∧
        s.writer.connected = true ∧ s.writer.pc false = .finished ∧ s.writer.pc true = .finished :=
    ⟨_, run_cons_iff.mpr ⟨_, .step _ _ _ _ (.spawn _ false (.send [65] false) rfl (fun _ => rfl)),
      run_cons_iff.mpr ⟨_, .step _ _ _ _ (.makeFrame _ false _ _ (Vector.replicate 4 0) _ rfl rfl),
      run_cons_iff.mpr ⟨_, .step _ _ _ _ (.spawn _ true .close rfl nofun),
      run_cons_iff.mpr ⟨_, .step _ _ _ _ (.makeFrame _ true _ _ (Vector.replicate 4 0) _ rfl rfl),
      run_cons_iff.mpr ⟨_, .step _ _ _ _ (.write _ false 0 3 .finish [0x81, 1, 65] rfl rfl (by decide)),
      .single (.step _ _ _ _ (.write _ false 0 2 .finish [0x88, 0] rfl rfl (by decide)))⟩⟩⟩⟩⟩, rfl, rfl, rfl, rfl, rfl⟩
  obtain ⟨s, hs, hmade, hstream, hopen, hfirst, hsecond⟩ := hrun
  have hclosed := (h _ _ s hs).closed [dataFrame [65] false] (controlFrame 0x8) [] hmade rfl
    (hstream ▸ List.prefix_rfl) ?_
  · rw [hopen] at hclosed
    cases hclosed
  · rintro (_ | _) ⟨_, _, _, hpc⟩
    · cases hfirst.symm.trans hpc
    · cases hsecond.symm.trans hpc

end WebSocketWriter

end Libcold
