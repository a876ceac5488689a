import Libcold.Platform
import Libcold.Runs

namespace Libcold

open Runs

variable {Coro : Type}

/-- The flags of an epoll mask that the watcher sets or tests. -/
structure EpollMask where
  epollin : Bool := false
  epollout : Bool := false
  epollhup : Bool := false
  epollerr : Bool := false
  epollet : Bool := false
  deriving DecidableEq

inductive EpollOp
  | add
  | mod
  | del

/-- A handle is `none` when it is `std::noop_coroutine()`. -/
structure IoEvent (Coro : Type) where
  fd : Int := 0
  events : EpollMask := {}
  readHandle : Option Coro := none
  writeHandle : Option Coro := none

/-- One entry of the array that `epoll_wait` fills; `fd` is the key of the
`IoEvent` that its `data.ptr` points to. -/
structure EpollEvent where
  fd : Int
  events : EpollMask

/-- The watcher, and in `interest` what the kernel keeps behind `epollFd_`. -/
structure IoWatcher (Coro : Type) where
  wakeUpFd : Int
  epollEventsSize : Nat
  ioEvents : Int → Option (IoEvent Coro)
  activeCoroutines : List (Option Coro)
  interest : Int → Option EpollMask

/-- `epoll_ctl`; `succeeds` tells which system calls do. -/
def epollCtl (succeeds : EpollOp → Int → Bool) (op : EpollOp) (fd : Int) (events : EpollMask)
    (interest : Int → Option EpollMask) : Int → Option EpollMask :=
  if succeeds op fd then
    Function.update interest fd (match op with
      | .add | .mod => some events
      | .del => none)
  else interest

namespace IoWatcher

def create (wakeUpFd : Int) : IoWatcher Coro where
  wakeUpFd := wakeUpFd
  epollEventsSize := 16
  ioEvents := Function.update (fun _ => none) wakeUpFd (some { fd := wakeUpFd, events := { epollin := true } })
  activeCoroutines := []
  interest := Function.update (fun _ => none) wakeUpFd (some { epollin := true })

/-- `ioEvents_[fd]`, which creates the entry when there is none. -/
def subscript (w : IoWatcher Coro) (fd : Int) : IoEvent Coro := (w.ioEvents fd).getD {}

def assign (w : IoWatcher Coro) (fd : Int) (event : Option (IoEvent Coro)) : IoWatcher Coro :=
  { w with ioEvents := Function.update w.ioEvents fd event }

def push (w : IoWatcher Coro) (handle : Option Coro) : IoWatcher Coro :=
  { w with activeCoroutines := w.activeCoroutines ++ [handle] }

def control (w : IoWatcher Coro) (succeeds : EpollOp → Int → Bool) (op : EpollOp) (fd : Int)
    (events : EpollMask) : IoWatcher Coro :=
  { w with interest := epollCtl succeeds op fd events w.interest }

@[simp] theorem assign_ioEvents (w : IoWatcher Coro) (fd : Int) (event : Option (IoEvent Coro)) :
    (w.assign fd event).ioEvents = Function.update w.ioEvents fd event := rfl

@[simp] theorem assign_interest (w : IoWatcher Coro) (fd : Int) (event : Option (IoEvent Coro)) :
    (w.assign fd event).interest = w.interest := rfl

@[simp] theorem control_ioEvents (w : IoWatcher Coro) (succeeds : EpollOp → Int → Bool) (op : EpollOp) (fd : Int)
    (events : EpollMask) : (w.control succeeds op fd events).ioEvents = w.ioEvents := rfl

@[simp] theorem control_interest (w : IoWatcher Coro) (op : EpollOp) (fd : Int) (events : EpollMask) :
    (w.control (fun _ _ => true) op fd events).interest =
      Function.update w.interest fd (match op with
        | .add | .mod => some events
        | .del => none) := rfl

section

variable (P : Platform) (succeeds : EpollOp → Int → Bool) (w : IoWatcher Coro)

def listenReadEvent (fd : Int) (handle : Option Coro) : Except Failure (IoWatcher Coro) :=
  match w.ioEvents fd with
  | none =>
      let event : IoEvent Coro := { fd, events := { epollin := true, epollet := true }, readHandle := handle }
      if succeeds .add fd then .ok ((w.assign fd (some event)).control succeeds .add event.fd event.events)
      else .error .fatal
  | some event =>
      -- an entry made by `listenWriteEvent` keeps its interest, without EPOLLIN
      if !P.ndebug && event.readHandle.isSome then .error .assertion
      else .ok (w.assign fd (some { event with readHandle := handle }))

def listenWriteEvent (fd : Int) (handle : Option Coro) : Except Failure (IoWatcher Coro) :=
  let op := if (w.ioEvents fd).isNone then EpollOp.add else .mod
  let old := w.subscript fd
  if !P.ndebug && old.writeHandle.isSome then .error .assertion
  else
    let event := { old with
      fd, writeHandle := handle, events := { old.events with epollout := true, epollet := true } }
    if succeeds op fd then .ok ((w.assign fd (some event)).control succeeds op event.fd event.events)
    else .ok (w.assign fd (some { event with events := old.events }))

def stopListeningReadEvent (fd : Int) : Except Failure (IoWatcher Coro) :=
  if !P.ndebug && (w.ioEvents fd).isNone then .error .assertion
  else .ok (w.assign fd (some { w.subscript fd with readHandle := none }))

def stopListeningWriteEvent (fd : Int) : Except Failure (IoWatcher Coro) :=
  if !P.ndebug && (w.ioEvents fd).isNone then .error .assertion
  else
    let old := w.subscript fd
    let event := { old with writeHandle := none, events := { old.events with epollout := false } }
    if event.events.epollin then
      .ok ((w.assign fd (some event)).control succeeds .mod event.fd event.events)
    else .ok ((w.control succeeds .del event.fd event.events).assign fd none)

def stopListeningAll (fd : Int) : Except Failure (IoWatcher Coro) :=
  match w.ioEvents fd with
  | none => .ok w
  | some event => .ok ((w.control succeeds .del event.fd {}).assign fd none)

def watchRead (event : IoEvent Coro) (epollEvent : EpollEvent) : IoWatcher Coro :=
  let readable := epollEvent.events.epollin
  let disconnected := epollEvent.events.epollhup || epollEvent.events.epollerr
  if (readable || disconnected) && event.readHandle.isSome then
    (w.push event.readHandle).assign epollEvent.fd (some { event with readHandle := none })
  else w

def watchWrite (epollEvent : EpollEvent) : Except Failure (IoWatcher Coro) :=
  if epollEvent.events.epollout then
    let event := w.subscript epollEvent.fd
    let w := w.assign epollEvent.fd (some { event with events := { event.events with epollout := false } })
    (w.push event.writeHandle).stopListeningWriteEvent P succeeds event.fd
  else .ok w

/-- The loop body of `WatchIo`. Resetting the wake-up counter leaves the watcher
as it is. -/
def watchEvent (epollEvent : EpollEvent) : Except Failure (IoWatcher Coro) :=
  match w.ioEvents epollEvent.fd with
  | none => .error .danglingPointer
  | some event =>
      if event.fd = w.wakeUpFd then .ok w
      else (w.watchRead event epollEvent).watchWrite P succeeds epollEvent

/-- `WatchIo` on what `epoll_wait` answers, which is `none` when it fails. -/
def watchIo (epollResult : Option (List EpollEvent)) : Except Failure (IoWatcher Coro) :=
  let cleared := { w with activeCoroutines := [] }
  match epollResult with
  | none => .ok cleared
  | some epollEvents => do
      let w ← epollEvents.foldlM (watchEvent P succeeds) cleared
      let size := epollEvents.length
      return { w with epollEventsSize := if w.epollEventsSize = size then size <<< 1 else w.epollEventsSize }

end

end IoWatcher

end Libcold
