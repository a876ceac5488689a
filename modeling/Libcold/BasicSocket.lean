import Libcold.IoWatcher

namespace Libcold

open Runs

variable {Name Address Ssl Coro : Type}

/-- There is one service, so that `ioService` says whether the pointer is set. -/
structure BasicSocket (Address Ssl : Type) where
  ioService : Bool
  fd : Int
  localAddress : Address
  remoteAddress : Address
  connected : Bool
  ssl : Option Ssl

/-- The socket objects by the places they are in, with the watcher of their service
and the descriptors that the kernel keeps open for them. -/
structure Sockets (Name Address Ssl Coro : Type) where
  watcher : IoWatcher Coro
  opened : Int → Bool := fun _ => false
  objects : Name → Option (BasicSocket Address Ssl) := fun _ => none

inductive SocketOp (Name Address Ssl : Type)
  | accepted (name : Name) (localAddress remoteAddress : Address) (fd : Int) (ssl : Option Ssl)
  | moveConstruct (name other : Name)
  | moveAssign (name other : Name)
  | destroy (name : Name)

namespace BasicSocket

/-- What the constructor and the assignment leave of the other object. -/
def movedFrom (other : BasicSocket Address Ssl) : BasicSocket Address Ssl :=
  { other with ioService := false, fd := -1, connected := false, ssl := none }

end BasicSocket

namespace Sockets

section

variable [DecidableEq Name] (P : Platform) (succeeds : EpollOp → Int → Bool) (s : Sockets Name Address Ssl Coro)

/-- `close`, which takes the descriptor out of the interest list as well. -/
def close (fd : Int) : Sockets Name Address Ssl Coro :=
  { s with
    opened := Function.update s.opened fd false
    watcher := { s.watcher with interest := Function.update s.watcher.interest fd none } }

/-- `ioService_->StopListeningAll`. -/
def stopListeningAll (ioService : Bool) (fd : Int) : Except Failure (Sockets Name Address Ssl Coro) :=
  if ioService then (s.watcher.stopListeningAll succeeds fd).map fun w => { s with watcher := w }
  else .error .danglingPointer

def setObject (name : Name) (object : Option (BasicSocket Address Ssl)) : Sockets Name Address Ssl Coro :=
  { s with objects := Function.update s.objects name object }

/-- The constructor of a connected `TcpSocket`, on what `accept` returns. -/
def accepted (name : Name) (localAddress remoteAddress : Address) (fd : Int) (ssl : Option Ssl) :
    Except Failure (Sockets Name Address Ssl Coro) :=
  let socket : BasicSocket Address Ssl := ⟨true, fd, localAddress, remoteAddress, false, ssl⟩
  if 0 ≤ fd then
    (s.watcher.listenReadEvent P succeeds fd none).map fun w =>
      { watcher := w
        opened := Function.update s.opened fd true
        objects := Function.update s.objects name (some { socket with connected := true }) }
  else .ok (s.setObject name (some socket))

def moveConstruct (name other : Name) : Except Failure (Sockets Name Address Ssl Coro) :=
  match s.objects other with
  | none => .error .danglingPointer
  | some that => .ok ((s.setObject name (some that)).setObject other (some that.movedFrom))

def moveAssign (name other : Name) : Except Failure (Sockets Name Address Ssl Coro) :=
  match s.objects name, s.objects other with
  | some this, some that =>
      if name = other then .ok s
      else
        let taken := if 0 ≤ this.fd then (s.close this.fd).stopListeningAll succeeds this.ioService that.fd else .ok s
        taken.map fun s => (s.setObject name (some that)).setObject other (some that.movedFrom)
  | _, _ => .error .danglingPointer

def destroy (name : Name) : Except Failure (Sockets Name Address Ssl Coro) :=
  match s.objects name with
  | none => .error .danglingPointer
  | some this =>
      let closed :=
        if 0 ≤ this.fd then (s.stopListeningAll succeeds this.ioService this.fd).map fun s => s.close this.fd
        else .ok s
      closed.map fun s => s.setObject name none

def perform : SocketOp Name Address Ssl → Except Failure (Sockets Name Address Ssl Coro)
  | .accepted name localAddress remoteAddress fd ssl => s.accepted P succeeds name localAddress remoteAddress fd ssl
  | .moveConstruct name other => s.moveConstruct name other
  | .moveAssign name other => s.moveAssign succeeds name other
  | .destroy name => s.destroy succeeds name

/-- An object is constructed in a free place and used where there is one, and the
kernel gives a number to one descriptor at a time. -/
def Allowed : SocketOp Name Address Ssl → Prop
  | .accepted name _ _ fd _ => s.objects name = none ∧ (0 ≤ fd → s.opened fd = false ∧ fd ≠ s.watcher.wakeUpFd)
  | .moveConstruct name other => s.objects name = none ∧ (s.objects other).isSome
  | .moveAssign name other => (s.objects name).isSome ∧ (s.objects other).isSome
  | .destroy name => (s.objects name).isSome

end

def start (wakeUpFd : Int) : Sockets Name Address Ssl Coro where
  watcher := .create wakeUpFd

def Owns (s : Sockets Name Address Ssl Coro) (name : Name) (fd : Int) : Prop :=
  ∃ socket, s.objects name = some socket ∧ socket.fd = fd

/-- Every open descriptor has one owner and an entry, and no entry is stale. -/
structure Owned (s : Sockets Name Address Ssl Coro) : Prop where
  owner : ∀ fd, s.opened fd = true → ∃! name, s.Owns name fd
  entry : ∀ fd, s.opened fd = true → (s.watcher.ioEvents fd).isSome
  noneStale : ∀ fd, (s.watcher.ioEvents fd).isSome → fd ≠ s.watcher.wakeUpFd → s.opened fd = true

variable [DecidableEq Name]

def Step (P : Platform) (s : Sockets Name Address Ssl Coro) (op : SocketOp Name Address Ssl)
    (t : Sockets Name Address Ssl Coro) : Prop :=
  s.Allowed op ∧ ∃ succeeds, s.perform P succeeds op = .ok t

/-- An object that is assigned to has no descriptor of its own. -/
def Guard (s : Sockets Name Address Ssl Coro) : SocketOp Name Address Ssl → Prop
  | .moveAssign name other => name = other ∨ ∀ this, s.objects name = some this → this.fd < 0
  | _ => True

def entries (s : Sockets Name Address Ssl Coro) (fd : Int) : Bool := (s.watcher.ioEvents fd).isSome

/-- No socket object in this place keeps a descriptor. -/
def Idle (s : Sockets Name Address Ssl Coro) (name : Name) : Prop :=
  ∀ this, s.objects name = some this → this.fd < 0

structure Inv (s : Sockets Name Address Ssl Coro) : Prop where
  owned : Owned s
  held : ∀ name socket, s.objects name = some socket → 0 ≤ socket.fd →
    socket.ioService = true ∧ s.opened socket.fd = true
  valid : ∀ fd, s.opened fd = true → 0 ≤ fd
  apart : s.opened s.watcher.wakeUpFd = false

section

variable {P : Platform} {succeeds : EpollOp → Int → Bool} {s t : Sockets Name Address Ssl Coro} {name other : Name}
  {fd : Int}

omit [DecidableEq Name] in
theorem stopListeningAll_entries {service : Bool} (h : s.stopListeningAll succeeds service fd = .ok t) :
    service = true ∧ t.entries = Function.update s.entries fd false ∧ t.opened = s.opened ∧ t.objects = s.objects ∧
      t.watcher.wakeUpFd = s.watcher.wakeUpFd := by
  rw [stopListeningAll] at h
  split at h
  · next hservice =>
      rw [IoWatcher.stopListeningAll] at h
      cases he : s.watcher.ioEvents fd with
      | none =>
          rw [he] at h
          cases h
          refine ⟨hservice, ?_, rfl, rfl, rfl⟩
          funext g
          by_cases hg : g = fd
          · simp [entries, hg, he]
          · simp [entries, hg]
      | some event =>
          rw [he] at h
          cases h
          refine ⟨hservice, ?_, rfl, rfl, rfl⟩
          funext g
          by_cases hg : g = fd <;> simp [entries, hg]
  · cases h

omit [DecidableEq Name] in
theorem listenReadEvent_entries {w : IoWatcher Coro} {handle : Option Coro}
    (h : s.watcher.listenReadEvent P succeeds fd handle = .ok w) :
    (fun g => (w.ioEvents g).isSome) = Function.update s.entries fd true ∧ w.wakeUpFd = s.watcher.wakeUpFd := by
  rw [IoWatcher.listenReadEvent] at h
  cases he : s.watcher.ioEvents fd with
  | none =>
      simp only [he] at h
      split at h
      · cases h
        refine ⟨?_, rfl⟩
        funext g
        by_cases hg : g = fd <;> simp [entries, hg]
      · cases h
  | some event =>
      simp only [he] at h
      split at h
      · cases h
      · cases h
        refine ⟨?_, rfl⟩
        funext g
        by_cases hg : g = fd <;> simp [entries, hg]

theorem owns_setObject {object : Option (BasicSocket Address Ssl)} {n : Name} :
    (s.setObject name object).Owns n fd ↔
      if n = name then ∃ socket, object = some socket ∧ socket.fd = fd else s.Owns n fd := by
  by_cases hn : n = name
  · subst n
    simp [Owns, setObject]
  · simp [Owns, setObject, hn]

omit [DecidableEq Name] in
theorem Inv.owner_unique (h : Inv s) {n m : Name} (hfd : 0 ≤ fd) (hn : s.Owns n fd) (hm : s.Owns m fd) : n = m := by
  obtain ⟨socket, hsocket, rfl⟩ := hn
  exact (h.owned.owner _ (h.held n socket hsocket hfd).2).unique ⟨socket, hsocket, rfl⟩ hm

omit [DecidableEq Name] in
theorem Idle.not_owns (h : s.Idle name) (hfd : 0 ≤ fd) : ¬ s.Owns name fd := by
  rintro ⟨socket, hsocket, rfl⟩
  have hnone := h socket hsocket
  omega

/-- What is in a place without a descriptor may become any object without one. -/
theorem Inv.setObject (h : Inv s) (hidle : s.Idle name) {object : Option (BasicSocket Address Ssl)}
    (hobject : ∀ socket, object = some socket → socket.fd < 0) : Inv (s.setObject name object) := by
  have howns (n : Name) {g : Int} (hg : 0 ≤ g) : (s.setObject name object).Owns n g ↔ s.Owns n g := by
    rw [owns_setObject]
    split
    · next hn =>
        subst n
        refine iff_of_false ?_ (hidle.not_owns hg)
        rintro ⟨socket, hsocket, rfl⟩
        have hnone := hobject socket hsocket
        omega
    · rfl
  refine ⟨⟨fun g hg => ?_, h.owned.entry, h.owned.noneStale⟩, fun n socket hsocket hg => ?_, h.valid, h.apart⟩
  · obtain ⟨owner, howner, hunique⟩ := h.owned.owner g hg
    exact ⟨owner, (howns owner (h.valid g hg)).mpr howner, fun n hn => hunique n ((howns n (h.valid g hg)).mp hn)⟩
  · by_cases hn : n = name
    · subst n
      have hnone := hobject socket (by simpa [Sockets.setObject] using hsocket)
      omega
    · exact h.held n socket (by simpa [Sockets.setObject, hn] using hsocket) hg

/-- A descriptor moves from one object to another that has none. -/
theorem Inv.move (h : Inv s) (hidle : s.Idle name) (hne : name ≠ other) {that : BasicSocket Address Ssl}
    (hthat : s.objects other = some that) :
    Inv ((s.setObject name (some that)).setObject other (some that.movedFrom)) := by
  have howns (n : Name) {g : Int} (hg : 0 ≤ g) :
      ((s.setObject name (some that)).setObject other (some that.movedFrom)).Owns n g ↔
        (n = name ∧ that.fd = g) ∨ (n ≠ other ∧ s.Owns n g) := by
    rw [owns_setObject, owns_setObject]
    by_cases hother : n = other
    · subst n
      simp [BasicSocket.movedFrom, Ne.symm hne]
      omega
    · by_cases hname : n = name
      · subst n
        simp [hne, hidle.not_owns hg]
      · simp [hother, hname]
  refine ⟨⟨fun g hg => ?_, h.owned.entry, h.owned.noneStale⟩, fun n socket hsocket hg => ?_, h.valid, h.apart⟩
  · have hvalid := h.valid g hg
    obtain ⟨owner, howner, hunique⟩ := h.owned.owner g hg
    by_cases hthatfd : that.fd = g
    · have hfrom : owner = other := (hunique other ⟨that, hthat, hthatfd⟩).symm
      refine ⟨name, (howns name hvalid).mpr (.inl ⟨rfl, hthatfd⟩), fun n hn => ?_⟩
      rcases (howns n hvalid).mp hn with ⟨hname, -⟩ | ⟨hother, hn⟩
      · exact hname
      · exact absurd ((hunique n hn).trans hfrom) hother
    · have hfrom : owner ≠ other := by
        rintro rfl
        obtain ⟨socket, hsocket, hfd⟩ := howner
        rw [hthat] at hsocket
        cases hsocket
        exact hthatfd hfd
      refine ⟨owner, (howns owner hvalid).mpr (.inr ⟨hfrom, howner⟩), fun n hn => ?_⟩
      rcases (howns n hvalid).mp hn with ⟨-, hfd⟩ | ⟨-, hn⟩
      · exact absurd hfd hthatfd
      · exact hunique n hn
  · by_cases hother : n = other
    · subst n
      obtain rfl : that.movedFrom = socket := by simpa [Sockets.setObject] using hsocket
      simp [BasicSocket.movedFrom] at hg
    · by_cases hname : n = name
      · subst n
        obtain rfl : that = socket := by simpa [Sockets.setObject, hne] using hsocket
        exact h.held other that hthat hg
      · exact h.held n socket (by simpa [Sockets.setObject, hother, hname] using hsocket) hg

/-- A new object takes a descriptor that was not open. -/
theorem Inv.acquire (h : Inv s) (hidle : s.Idle name) (hfd : 0 ≤ fd) (hclosed : s.opened fd = false)
    (hother : fd ≠ s.watcher.wakeUpFd) {socket : BasicSocket Address Ssl} (hsocket : socket.fd = fd) (hservice : socket.ioService = true)
    (hentries : t.entries = Function.update s.entries fd true) (hopened : t.opened = Function.update s.opened fd true)
    (hobjects : t.objects = Function.update s.objects name (some socket))
    (hwake : t.watcher.wakeUpFd = s.watcher.wakeUpFd) : Inv t := by
  have hnobody (n : Name) : ¬ s.Owns n fd := by
    rintro ⟨found, hfound, rfl⟩
    rw [(h.held n found hfound hfd).2] at hclosed
    cases hclosed
  have howns (n : Name) (g : Int) : t.Owns n g ↔ if n = name then fd = g else s.Owns n g := by
    by_cases hn : n = name
    · subst n
      simp [Owns, hobjects, hsocket]
    · simp [Owns, hobjects, hn]
  have hentry (g : Int) : (t.watcher.ioEvents g).isSome = if g = fd then true else s.entries g := by
    rw [← Function.update_apply, ← hentries]
    rfl
  refine ⟨⟨fun g hg => ?_, fun g hg => ?_, fun g hg hne => ?_⟩, fun n found hfound hg => ?_, fun g hg => ?_, ?_⟩
  · by_cases hgfd : g = fd
    · subst g
      refine ⟨name, (howns name fd).mpr (by simp), fun n hn => ?_⟩
      by_contra hne
      exact hnobody n (by simpa [howns, hne] using hn)
    · obtain ⟨owner, howner, hunique⟩ := h.owned.owner g (by simpa [hopened, hgfd] using hg)
      have hne : owner ≠ name := by
        rintro rfl
        exact hidle.not_owns (h.valid g (by simpa [hopened, hgfd] using hg)) howner
      refine ⟨owner, (howns owner g).mpr (by simpa [hne] using howner), fun n hn => ?_⟩
      have hn' := (howns n g).mp hn
      split at hn'
      · exact absurd hn'.symm hgfd
      · exact hunique n hn'
  · rw [hentry]
    split
    · rfl
    · next hgfd => exact h.owned.entry g (by simpa [hopened, hgfd] using hg)
  · rw [hentry] at hg
    rw [hopened, Function.update_apply]
    split
    · rfl
    · next hgfd =>
        rw [if_neg hgfd] at hg
        exact h.owned.noneStale g hg (hwake ▸ hne)
  · by_cases hn : n = name
    · subst n
      obtain rfl : socket = found := by simpa [hobjects] using hfound
      exact ⟨hservice, by simp [hopened, hsocket]⟩
    · obtain ⟨hset, hopen⟩ := h.held n found (by simpa [hobjects, hn] using hfound) hg
      refine ⟨hset, ?_⟩
      rw [hopened, Function.update_apply]
      split
      · rfl
      · exact hopen
  · rw [hopened, Function.update_apply] at hg
    split at hg
    · next hgfd => exact hgfd ▸ hfd
    · exact h.valid g hg
  · rw [hopened, hwake, Function.update_of_ne (Ne.symm hother)]
    exact h.apart

/-- An object goes with its descriptor. -/
theorem Inv.release (h : Inv s) (hfd : 0 ≤ fd) (howner : s.Owns name fd)
    (hentries : t.entries = Function.update s.entries fd false) (hopened : t.opened = Function.update s.opened fd false)
    (hobjects : t.objects = Function.update s.objects name none)
    (hwake : t.watcher.wakeUpFd = s.watcher.wakeUpFd) : Inv t := by
  have howns (n : Name) (g : Int) : t.Owns n g ↔ n ≠ name ∧ s.Owns n g := by
    by_cases hn : n = name
    · subst n
      simp [Owns, hobjects]
    · simp [Owns, hobjects, hn]
  have hentry (g : Int) : (t.watcher.ioEvents g).isSome = if g = fd then false else s.entries g := by
    rw [← Function.update_apply, ← hentries]
    rfl
  have hopen (g : Int) : t.opened g = true ↔ g ≠ fd ∧ s.opened g = true := by
    by_cases hg : g = fd <;> simp [hopened, hg]
  refine ⟨⟨fun g hg => ?_, fun g hg => ?_, fun g hg hne => ?_⟩, fun n found hfound hg => ?_,
    fun g hg => h.valid g ((hopen g).mp hg).2, ?_⟩
  · obtain ⟨hgfd, hg⟩ := (hopen g).mp hg
    obtain ⟨owner, howner', hunique⟩ := h.owned.owner g hg
    refine ⟨owner, (howns owner g).mpr ⟨?_, howner'⟩, fun n hn => hunique n ((howns n g).mp hn).2⟩
    rintro rfl
    obtain ⟨socket, hsocket, rfl⟩ := howner
    obtain ⟨socket', hsocket', rfl⟩ := howner'
    rw [hsocket] at hsocket'
    cases hsocket'
    exact hgfd rfl
  · obtain ⟨hgfd, hg⟩ := (hopen g).mp hg
    rw [hentry, if_neg hgfd]
    exact h.owned.entry g hg
  · rw [hentry] at hg
    split at hg
    · cases hg
    · next hgfd => exact (hopen g).mpr ⟨hgfd, h.owned.noneStale g hg (hwake ▸ hne)⟩
  · have hn : n ≠ name := by
      rintro rfl
      simp [hobjects] at hfound
    have hbefore : s.objects n = some found := by simpa [hobjects, hn] using hfound
    obtain ⟨hset, hfound'⟩ := h.held n found hbefore hg
    refine ⟨hset, (hopen found.fd).mpr ⟨?_, hfound'⟩⟩
    rintro rfl
    exact hn (h.owner_unique hfd ⟨found, hbefore, rfl⟩ howner)
  · rw [hwake, Bool.eq_false_iff]
    intro hwakeOpen
    have hclosed := h.apart
    rw [((hopen s.watcher.wakeUpFd).mp hwakeOpen).2] at hclosed
    cases hclosed

end

omit [DecidableEq Name] in
theorem start_inv (wakeUpFd : Int) : Inv (start wakeUpFd : Sockets Name Address Ssl Coro) where
  owned := by
    refine ⟨nofun, nofun, fun fd hfd hne => ?_⟩
    simp [start, IoWatcher.create, show fd ≠ wakeUpFd from hne] at hfd
  held := nofun
  valid := nofun
  apart := rfl

theorem step_inv {P : Platform} {s t : Sockets Name Address Ssl Coro} {op : SocketOp Name Address Ssl} (hs : Inv s)
    (hguard : s.Guard op) (h : Step P s op t) : Inv t := by
  obtain ⟨hallowed, succeeds, hperform⟩ := h
  cases op with
  | accepted name localAddress remoteAddress fd ssl =>
      obtain ⟨hfree, hfd⟩ := hallowed
      have hidle : s.Idle name := by simp [Idle, hfree]
      simp only [perform, accepted] at hperform
      split at hperform
      · next hvalid =>
          cases hlisten : s.watcher.listenReadEvent P succeeds fd none with
          | error failure => simp [hlisten, Except.map] at hperform
          | ok w =>
              rw [hlisten] at hperform
              cases hperform
              obtain ⟨hentries, hwake⟩ := listenReadEvent_entries hlisten
              exact hs.acquire hidle hvalid (hfd hvalid).1 (hfd hvalid).2 rfl rfl hentries rfl rfl hwake
      · next hinvalid =>
          cases hperform
          refine hs.setObject hidle ?_
          rintro socket ⟨⟩
          exact Int.not_le.mp hinvalid
  | moveConstruct name other =>
      obtain ⟨hfree, hother⟩ := hallowed
      obtain ⟨that, hthat⟩ := Option.isSome_iff_exists.mp hother
      simp only [perform, moveConstruct, hthat] at hperform
      cases hperform
      refine hs.move (by simp [Idle, hfree]) ?_ hthat
      rintro rfl
      simp [hfree] at hthat
  | moveAssign name other =>
      obtain ⟨hname, hother⟩ := hallowed
      obtain ⟨this, hthis⟩ := Option.isSome_iff_exists.mp hname
      obtain ⟨that, hthat⟩ := Option.isSome_iff_exists.mp hother
      simp only [perform, moveAssign, hthis, hthat] at hperform
      by_cases hne : name = other
      · rw [if_pos hne] at hperform
        cases hperform
        exact hs
      · have hidle := hguard.resolve_left hne
        rw [if_neg hne, if_neg (Int.not_le.mpr (hidle this hthis))] at hperform
        cases hperform
        exact hs.move hidle hne hthat
  | destroy name =>
      obtain ⟨this, hthis⟩ := Option.isSome_iff_exists.mp hallowed
      simp only [perform, destroy, hthis] at hperform
      split at hperform
      · next hvalid =>
          cases hstop : s.stopListeningAll succeeds this.ioService this.fd with
          | error failure => simp [hstop, Except.map] at hperform
          | ok u =>
              rw [hstop] at hperform
              cases hperform
              obtain ⟨-, hentries, hopened, hobjects, hwake⟩ := stopListeningAll_entries hstop
              refine hs.release hvalid ⟨this, hthis, rfl⟩ hentries ?_ ?_ hwake
              · exact congrArg (Function.update · this.fd false) hopened
              · exact congrArg (Function.update · name none) hobjects
      · next hinvalid =>
          cases hperform
          refine hs.setObject ?_ (by rintro socket ⟨⟩)
          rintro socket hsocket
          rw [hthis] at hsocket
          cases hsocket
          exact Int.not_le.mp hinvalid

/-- An assignment to an object with a descriptor leaves that one's entry behind, or
takes away the entry of the descriptor it adopts. -/
theorem not_owned_of_assigned {succeeds : EpollOp → Int → Bool} {s u : Sockets Name Address Ssl Coro}
    {name other : Name} {this that : BasicSocket Address Ssl} (hs : Inv s) (hne : name ≠ other)
    (hthis : s.objects name = some this) (hthat : s.objects other = some that) (hvalid : 0 ≤ this.fd)
    (hstop : (s.close this.fd).stopListeningAll succeeds this.ioService that.fd = .ok u) :
    ¬ Owned ((u.setObject name (some that)).setObject other (some that.movedFrom)) := by
  intro ht
  obtain ⟨-, hentries, hopened, -, hwake⟩ := stopListeningAll_entries hstop
  have hentry (g : Int) : (u.watcher.ioEvents g).isSome = if g = that.fd then false else s.entries g := by
    rw [← Function.update_apply]
    exact congrFun hentries g
  have hopen (g : Int) : u.opened g = if g = this.fd then false else s.opened g := by
    rw [← Function.update_apply]
    exact congrFun hopened g
  have hthisOpen := (hs.held name this hthis hvalid).2
  have hsame : this.fd ≠ that.fd := fun hsame =>
    hne (hs.owner_unique hvalid ⟨this, hthis, rfl⟩ ⟨that, hthat, hsame.symm⟩)
  by_cases hthatValid : 0 ≤ that.fd
  · have hthatOpen : u.opened that.fd = true := by
      rw [hopen, if_neg (Ne.symm hsame)]
      exact (hs.held other that hthat hthatValid).2
    have hgone : (u.watcher.ioEvents that.fd).isSome = true := ht.entry that.fd hthatOpen
    rw [hentry, if_pos rfl] at hgone
    cases hgone
  · have hkept : (u.watcher.ioEvents this.fd).isSome = true := by
      rw [hentry, if_neg hsame]
      exact hs.owned.entry this.fd hthisOpen
    have hnot : this.fd ≠ u.watcher.wakeUpFd := by
      intro hwakeFd
      have hclosed := hs.apart
      rw [show s.watcher.wakeUpFd = this.fd from (hwakeFd.trans hwake).symm, hthisOpen] at hclosed
      cases hclosed
    have hstale : u.opened this.fd = true := ht.noneStale this.fd hkept hnot
    rw [hopen, if_pos rfl] at hstale
    cases hstale

theorem step_guarded {P : Platform} {s t : Sockets Name Address Ssl Coro} {op : SocketOp Name Address Ssl}
    (hs : Inv s) (h : Step P s op t) (ht : Owned t) : s.Guard op := by
  obtain ⟨hallowed, succeeds, hperform⟩ := h
  cases op with
  | moveAssign name other =>
      obtain ⟨hname, hother⟩ := hallowed
      obtain ⟨this, hthis⟩ := Option.isSome_iff_exists.mp hname
      obtain ⟨that, hthat⟩ := Option.isSome_iff_exists.mp hother
      simp only [perform, moveAssign, hthis, hthat] at hperform
      by_cases hne : name = other
      · exact .inl hne
      · refine .inr fun found hfound => ?_
        rw [hthis] at hfound
        cases hfound
        by_contra hvalid
        rw [Int.not_lt] at hvalid
        rw [if_neg hne, if_pos hvalid] at hperform
        cases hstop : (s.close this.fd).stopListeningAll succeeds this.ioService that.fd with
        | error failure => simp [hstop, Except.map] at hperform
        | ok u =>
            rw [hstop] at hperform
            cases hperform
            exact not_owned_of_assigned hs hne hthis hthat hvalid hstop ht
  | accepted | moveConstruct | destroy => trivial

/-- The runs in which every descriptor stays owned and listened to are those that
assign to no object with a descriptor of its own. -/
theorem descriptors_owned_iff (P : Platform) (wakeUpFd : Int) :
    Owned (start wakeUpFd : Sockets Name Address Ssl Coro) ∧ ∀ ops (s : Sockets Name Address Ssl Coro),
      Run (Guarded Guard (Step P)) (start wakeUpFd) ops s ↔ Run (Within Owned (Step P)) (start wakeUpFd) ops s :=
  ⟨(start_inv wakeUpFd).owned, run_guarded_iff_within (start_inv wakeUpFd) (fun _ => Inv.owned)
    (fun _ _ _ => step_inv) fun _ _ _ => step_guarded⟩

/-- Two accepted sockets, the second one moved into the first. -/
theorem assignment_drops_entry : ¬ ∀ ops (s : Sockets Nat Unit Unit Nat),
    Run (Step ⟨.little, false⟩) (start 4) ops s → Owned s := by
  intro h
  obtain ⟨s, hrun, hopen, hentry⟩ : ∃ s : Sockets Nat Unit Unit Nat, Run (Step ⟨.little, false⟩) (start 4)
      [.accepted 0 () () 5 none, .accepted 1 () () 6 none, .moveAssign 0 1] s ∧ s.opened 6 = true ∧
      s.watcher.ioEvents 6 = none :=
    ⟨_, ((Run.stop.next ⟨⟨rfl, fun _ => ⟨rfl, by decide⟩⟩, fun _ _ => true, rfl⟩).next
      ⟨⟨rfl, fun _ => ⟨rfl, by decide⟩⟩, fun _ _ => true, rfl⟩).next ⟨⟨rfl, rfl⟩, fun _ _ => true, rfl⟩, rfl, rfl⟩
  have hlistened := (h _ s hrun).entry 6 hopen
  rw [hentry] at hlistened
  cases hlistened

end Sockets

end Libcold
