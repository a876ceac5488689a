import Libcold.HttpRequestParser

namespace Libcold.HttpSegmentation

open SpanCalls HttpRequestParser HttpParser

variable {L : Llhttp}

/-- A parser as the requests see it: what it has gathered does not matter once it
is in an error, the requests of its queue apart. -/
inductive Conf (L : Llhttp)
  | live (state : L.State) (self : HttpRequestParser)
  | dead (queue : List RawHttpRequest)

namespace Conf

def isLive : Conf L → Bool
  | live _ _ => true
  | dead _ => false

def queue : Conf L → List RawHttpRequest
  | live _ self => self.requestQueue
  | dead queue => queue

def settle : HttpRequestParser × Bool → LlhttpEnd L.State → Conf L
  | (self, true), .ok state => .live state self
  | (self, true), .pausedUpgrade resumed => .live resumed self
  | (self, _), _ => .dead self.requestQueue

/-- One call of `Parse` when each byte is reported by itself. -/
def parse (limits : HttpLimits) : Conf L → List UInt8 → Conf L
  | dead queue, _ => dead queue
  | live state self, chunk =>
      settle (runUntil (byEvent (onCall limits)) self (L.execute state chunk).1) (L.execute state chunk).2.1

def parseAll (limits : HttpLimits) (c : Conf L) (chunks : List (List UInt8)) : Conf L :=
  chunks.foldl (parse limits) c

end Conf

def conf (s : HttpParser L) : Conf L :=
  match s.llhttp with
  | some state => .live state s.self
  | none => .dead s.self.requestQueue

/-- The span that is open takes another empty piece. -/
def Opened (limits : HttpLimits) (s : HttpParser L) : Prop :=
  s.llhttp ≠ none → ∀ kind, s.opened = some kind → onCall limits s.self (.span kind []) = (s.self, true)

theorem requestQueue_span (limits : HttpLimits) (self : HttpRequestParser) (kind : HttpSpan) (bytes : List UInt8) :
    (onCall limits self (.span kind bytes)).1.requestQueue = self.requestQueue := by
  cases kind with
  | url => simp only [onCall, onUrl]; split_ifs <;> rfl
  | version => rfl
  | headerField => simp only [onCall, onHeaderField]; split_ifs <;> rfl
  | headerValue => simp only [onCall, onHeaderValue]; split_ifs <;> rfl
  | body =>
      simp only [onCall, onBody]
      split
      · split
        · rfl
        · split_ifs <;> rfl
      · rfl

theorem requestQueue_bytes (limits : HttpLimits) (self : HttpRequestParser) (events : List HttpEvent)
    (h : ∀ event ∈ events, event.kind ≠ none) :
    (runUntil (byEvent (onCall limits)) self events).1.requestQueue = self.requestQueue := by
  induction events generalizing self with
  | nil => rfl
  | cons event events ih =>
      have hfirst : (byEvent (onCall limits) self event).1.requestQueue = self.requestQueue := by
        cases event with
        | byte kind b => exact requestQueue_span limits self kind [b]
        | notice n => exact absurd rfl (h (.notice n) (by simp))
      rcases hevent : byEvent (onCall limits) self event with ⟨next, _ | _⟩
      · rw [runUntil_cons_false hevent]
        rw [hevent] at hfirst
        exact hfirst
      · rw [runUntil_cons hevent, ih next fun e he => h e (List.mem_cons_of_mem _ he)]
        rw [hevent] at hfirst
        exact hfirst

theorem settle_of_same {r r' : HttpRequestParser × Bool} (h : Same requestQueue r r') (ended : LlhttpEnd L.State) :
    Conf.settle r ended = Conf.settle r' ended := by
  obtain ⟨self, ok⟩ := r
  obtain ⟨self', ok'⟩ := r'
  obtain ⟨hok, hqueue, hself⟩ := h
  simp only at hok hqueue hself
  subst hok
  cases ok with
  | true => rw [hself rfl]
  | false => cases ended <;> simp [Conf.settle, hqueue]

theorem conf_finish (opened : Option HttpSpan) (r : HttpRequestParser × Bool) (ended : LlhttpEnd L.State) :
    conf (finish opened r ended).2 = Conf.settle r ended ∧
      (finish opened r ended).1 = (Conf.settle r ended).isLive := by
  obtain ⟨self, _ | _⟩ := r
  · cases ended <;> exact ⟨rfl, rfl⟩
  · cases ended <;> exact ⟨rfl, rfl⟩

theorem settle_error (r : HttpRequestParser × Bool) :
    Conf.settle r (.error : LlhttpEnd L.State) = .dead r.1.requestQueue := by
  obtain ⟨self, _ | _⟩ := r
  · rfl
  · rfl

/-- Bytes that an error leaves unreported do not matter. -/
theorem settle_unreported (limits : HttpLimits) (self : HttpRequestParser) (reported unreported : List HttpEvent)
    (hbytes : ∀ event ∈ unreported, event.kind ≠ none) :
    Conf.settle (runUntil (byEvent (onCall limits)) self (reported ++ unreported)) (.error : LlhttpEnd L.State) =
      Conf.settle (runUntil (byEvent (onCall limits)) self reported) .error := by
  rw [settle_error, settle_error, runUntil_append]
  rcases runUntil (byEvent (onCall limits)) self reported with ⟨next, _ | _⟩
  · rfl
  · exact congrArg Conf.dead (requestQueue_bytes limits next unreported hbytes)

/-- However llhttp reports the bytes of a chunk, `Parse` comes to the same. -/
theorem parse_conf {limits : HttpLimits} {s t : HttpParser L} {chunk : List UInt8} {ok : Bool}
    (hopened : Opened limits s) (h : Parse limits s chunk (ok, t)) :
    conf t = (conf s).parse limits chunk ∧ ok = (conf t).isLive ∧ Opened limits t := by
  generalize hresult : (ok, t) = result at h
  cases h with
  | lingering herror =>
      cases hresult
      have hdead : conf s = .dead s.self.requestQueue := by simp [conf, herror]
      exact ⟨by rw [hdead, Conf.parse], by rw [hdead, Conf.isLive], hopened⟩
  | execute state events ended rest calls hstate hexecute hcalls =>
      obtain ⟨reported, unreported, rfl, hgrouped, hbytes, hall⟩ := hcalls
      have hstart : ∀ kind, s.opened = some kind → onCall limits s.self (.span kind []) = (s.self, true) :=
        hopened (by rw [hstate]; simp)
      have hsame := (onCall_splits limits).grouped hgrouped s.self hstart
      have hfinish := conf_finish (openAfter s.opened (reported ++ unreported))
        (runUntil (onCall limits) s.self calls) ended
      rw [← hresult] at hfinish
      have hconf : conf s = .live state s.self := by simp [conf, hstate]
      refine ⟨?_, by rw [hfinish.1, ← hfinish.2], ?_⟩
      · rw [hfinish.1, settle_of_same hsame, hconf, Conf.parse, hexecute]
        by_cases herror : ended = .error
        · subst herror
          exact (settle_unreported limits s.self reported unreported hbytes).symm
        · rw [hall herror, List.append_nil]
      · intro hlive kind hkind
        obtain ⟨next, hnext, herror, hself, hopen⟩ : ∃ next, runUntil (onCall limits) s.self calls = (next, true) ∧
            ended ≠ .error ∧ t.self = next ∧ t.opened = openAfter s.opened (reported ++ unreported) := by
          rcases hcalls : runUntil (onCall limits) s.self calls with ⟨next, _ | _⟩
          · rw [hcalls] at hresult
            cases hresult
            exact absurd rfl hlive
          · rw [hcalls] at hresult
            cases ended with
            | error => cases hresult; exact absurd rfl hlive
            | ok state => cases hresult; exact ⟨next, rfl, by simp, rfl, rfl⟩
            | pausedUpgrade resumed => cases hresult; exact ⟨next, rfl, by simp, rfl, rfl⟩
        rw [hall herror, List.append_nil] at hopen
        rw [hopen] at hkind
        rw [hnext] at hsame
        have hrun : runUntil (byEvent (onCall limits)) s.self reported = (next, true) :=
          Prod.ext (hsame.2.2 rfl).symm hsame.1.symm
        rw [hself]
        exact (onCall_splits limits).opened_after hstart hrun kind hkind

theorem isLive_of_parse {limits : HttpLimits} {c : Conf L} {chunk : List UInt8}
    (h : (c.parse limits chunk).isLive = true) : c.isLive = true := by
  cases c with
  | live state self => rfl
  | dead queue => exact h

theorem isLive_of_parseAll {limits : HttpLimits} {c : Conf L} {chunks : List (List UInt8)}
    (h : (c.parseAll limits chunks).isLive = true) : c.isLive = true := by
  induction chunks generalizing c with
  | nil => exact h
  | cons chunk chunks ih => exact isLive_of_parse (ih h)

theorem parseAll_conf {limits : HttpLimits} {s t : HttpParser L} {chunks : List (List UInt8)} {ok : Bool}
    (hopened : Opened limits s) (hlive : (conf s).isLive = true) (h : ParseAll limits s chunks (ok, t)) :
    conf t = (conf s).parseAll limits chunks ∧ ok = (conf t).isLive := by
  suffices hall : conf t = (conf s).parseAll limits chunks ∧ ((conf s).isLive && ok) = (conf t).isLive by
    rwa [hlive, Bool.true_and] at hall
  clear hlive
  generalize hresult : (ok, t) = result at h
  induction h generalizing ok t with
  | nil s =>
      cases hresult
      exact ⟨rfl, Bool.and_true _⟩
  | cons hparse hlater ih =>
      rename_i s chunk chunks first mid second u
      cases hresult
      obtain ⟨hconf, hfirst, hmid⟩ := parse_conf hopened hparse
      obtain ⟨hall, hsecond⟩ := ih hmid rfl
      refine ⟨by rw [hall, hconf]; rfl, ?_⟩
      rw [hfirst, hsecond]
      cases hu : (conf u).isLive with
      | false => simp
      | true =>
          rw [hall] at hu
          have hlive := isLive_of_parseAll hu
          rw [hconf] at hlive
          rw [isLive_of_parse hlive, Bool.and_true]

theorem execute_append (state : L.State) (first second : List UInt8) :
    L.execute state (first ++ second) =
      match L.execute state first with
      | (events, .ok next, _) =>
          (events ++ (L.execute next second).1, (L.execute next second).2.1, (L.execute next second).2.2)
      | (events, ended, rest) => (events, ended, rest ++ second) := by
  induction first generalizing state with
  | nil => simp [Llhttp.execute]
  | cons b first ih =>
      rcases hb : L.next state b with ⟨events, next | _ | resumed⟩
      · simp only [List.cons_append, Llhttp.execute, hb, ih next]
        rcases L.execute next first with ⟨later, next' | _ | resumed', rest⟩
        · simp
        · simp
        · simp
      · simp [Llhttp.execute, hb]
      · simp [Llhttp.execute, hb]

/-- The chunk goes beyond, or up to, the end of a message that asks for an upgrade. -/
def Paused (c : Conf L) (chunk : List UInt8) : Prop :=
  ∃ state self events resumed rest, c = .live state self ∧
    L.execute state chunk = (events, .pausedUpgrade resumed, rest)

theorem parse_append_paused {limits : HttpLimits} {c : Conf L} {first : List UInt8} (h : Paused c first)
    (second : List UInt8) : c.parse limits (first ++ second) = c.parse limits first := by
  obtain ⟨state, self, events, resumed, rest, rfl, hexecute⟩ := h
  simp only [Conf.parse, execute_append, hexecute]

theorem parse_append {limits : HttpLimits} {c : Conf L} {first : List UInt8} (h : ¬ Paused c first)
    (second : List UInt8) : c.parse limits (first ++ second) = (c.parse limits first).parse limits second := by
  cases c with
  | dead queue => rfl
  | live state self =>
      rcases hexecute : L.execute state first with ⟨events, next | _ | resumed, rest⟩
      · simp only [Conf.parse, execute_append, hexecute, runUntil_append]
        rcases runUntil (byEvent (onCall limits)) self events with ⟨next', _ | _⟩
        · rfl
        · rfl
      · simp only [Conf.parse, execute_append, hexecute, settle_error]
      · exact absurd ⟨state, self, events, resumed, rest, rfl, hexecute⟩ h

/-- The bytes that a call of `Parse` does not come to. -/
def unread : Conf L → List UInt8 → List UInt8
  | .live state _, chunk => (L.execute state chunk).2.2
  | .dead _, _ => []

theorem Paused.append {c : Conf L} {first : List UInt8} (h : Paused c first) (second : List UInt8) :
    Paused c (first ++ second) ∧ unread c (first ++ second) = unread c first ++ second := by
  obtain ⟨state, self, events, resumed, rest, rfl, hexecute⟩ := h
  refine ⟨⟨state, self, events, resumed, rest ++ second, rfl, by simp only [execute_append, hexecute]⟩, ?_⟩
  simp only [unread, execute_append, hexecute]

/-- A pause behind a chunk is one of the parser that has read the chunk. -/
theorem paused_append_iff {limits : HttpLimits} {c : Conf L} {first : List UInt8} (h : ¬ Paused c first)
    (hlive : (c.parse limits first).isLive = true) (second : List UInt8) :
    (Paused c (first ++ second) ↔ Paused (c.parse limits first) second) ∧
      unread c (first ++ second) = unread (c.parse limits first) second := by
  cases c with
  | dead queue => cases hlive
  | live state self =>
      rcases hexecute : L.execute state first with ⟨events, next | _ | resumed, rest⟩
      · rcases hrun : runUntil (byEvent (onCall limits)) self events with ⟨next', _ | _⟩
        · simp [Conf.parse, hexecute, hrun, Conf.settle, Conf.isLive] at hlive
        · have hparse : (Conf.live state self).parse limits first = .live next next' := by
            simp only [Conf.parse, hexecute, hrun, Conf.settle]
          rw [hparse]
          refine ⟨?_, by simp only [unread, execute_append, hexecute]⟩
          constructor
          · rintro ⟨_, _, events', resumed, rest', ⟨⟩, hpause⟩
            simp only [execute_append, hexecute] at hpause
            rcases hlater : L.execute next second with ⟨later, ended, unread⟩
            rw [hlater] at hpause
            cases hpause
            exact ⟨next, next', later, resumed, unread, rfl, hlater⟩
          · rintro ⟨_, _, later, resumed, rest', ⟨⟩, hpause⟩
            exact ⟨state, self, events ++ later, resumed, rest', rfl, by simp only [execute_append, hexecute, hpause]⟩
      · simp [Conf.parse, hexecute, settle_error, Conf.isLive] at hlive
      · exact absurd ⟨state, self, events, resumed, rest, rfl, hexecute⟩ h

theorem parse_nil (limits : HttpLimits) (c : Conf L) : c.parse limits [] = c := by
  cases c with
  | live state self => rfl
  | dead queue => rfl

theorem parse_of_not_live {limits : HttpLimits} {c : Conf L} (h : c.isLive = false) (chunk : List UInt8) :
    c.parse limits chunk = c := by
  cases c with
  | live state self => cases h
  | dead queue => rfl

theorem parseAll_of_not_live {limits : HttpLimits} {c : Conf L} (h : c.isLive = false) (chunks : List (List UInt8)) :
    c.parseAll limits chunks = c := by
  induction chunks with
  | nil => rfl
  | cons chunk chunks ih =>
      change (c.parse limits chunk).parseAll limits chunks = c
      rw [parse_of_not_live h, ih]

theorem not_paused_of_not_live {c : Conf L} (h : c.isLive = false) (chunk : List UInt8) : ¬ Paused c chunk := by
  rintro ⟨state, self, events, resumed, rest, rfl, -⟩
  cases h

/-- Without a pause the cuts do not matter. -/
theorem parseAll_of_not_paused {limits : HttpLimits} {c : Conf L} {chunks : List (List UInt8)}
    (h : ¬ Paused c chunks.flatten) : c.parseAll limits chunks = c.parse limits chunks.flatten := by
  induction chunks generalizing c with
  | nil => exact (parse_nil limits c).symm
  | cons chunk chunks ih =>
      rw [List.flatten_cons] at h ⊢
      have hfirst : ¬ Paused c chunk := fun hpaused => h (hpaused.append _).1
      rw [parse_append hfirst]
      refine ih fun hpaused => ?_
      cases hlive : (c.parse limits chunk).isLive with
      | true => exact h ((paused_append_iff hfirst hlive _).1.mpr hpaused)
      | false => exact not_paused_of_not_live hlive _ hpaused

/-- With a pause the calls come to where one call comes to, and go on with the
chunks behind the one that the pause is in. -/
theorem parseAll_of_paused (limits : HttpLimits) {c : Conf L} {chunks : List (List UInt8)}
    (h : Paused c chunks.flatten) : ∃ later : List (List UInt8), later.flatten <:+ unread c chunks.flatten ∧
      c.parseAll limits chunks = (c.parse limits chunks.flatten).parseAll limits later := by
  induction chunks generalizing c with
  | nil =>
      obtain ⟨state, self, events, resumed, rest, rfl, hexecute⟩ := h
      cases hexecute
  | cons chunk chunks ih =>
      rw [List.flatten_cons] at h ⊢
      by_cases hfirst : Paused c chunk
      · refine ⟨chunks, ?_, ?_⟩
        · rw [(hfirst.append _).2]
          exact List.suffix_append _ _
        · rw [parse_append_paused hfirst]
          rfl
      · rw [parse_append hfirst]
        cases hlive : (c.parse limits chunk).isLive with
        | false =>
            refine ⟨[], by simp, ?_⟩
            change (c.parse limits chunk).parseAll limits chunks = _
            rw [parseAll_of_not_live hlive, parse_of_not_live hlive]
            rfl
        | true =>
            obtain ⟨hpaused, hunread⟩ := paused_append_iff hfirst hlive chunks.flatten
            rw [hunread]
            exact ih (hpaused.mp h)

theorem requestQueue_call (limits : HttpLimits) (self : HttpRequestParser) (call : HttpCall) :
    ∃ more, (onCall limits self call).1.requestQueue = self.requestQueue ++ more ∧
      (call = .notice .messageComplete → more ≠ []) := by
  cases call with
  | span kind bytes => exact ⟨[], by simp [requestQueue_span], by simp⟩
  | notice n =>
      cases n with
      | messageComplete => exact ⟨[{ self.curRequest with body := self.buf }], rfl, by simp⟩
      | _ => exact ⟨[], (List.append_nil _).symm, by simp⟩

theorem requestQueue_run {limits : HttpLimits} {self next : HttpRequestParser} {events : List HttpEvent}
    (h : runUntil (byEvent (onCall limits)) self events = (next, true)) :
    ∃ more, next.requestQueue = self.requestQueue ++ more ∧ (.notice .messageComplete ∈ events → more ≠ []) := by
  induction events generalizing self with
  | nil => cases h; exact ⟨[], by simp, by simp⟩
  | cons event events ih =>
      rcases hevent : byEvent (onCall limits) self event with ⟨mid, _ | _⟩
      · rw [runUntil_cons_false hevent] at h
        cases h
      · rw [runUntil_cons hevent] at h
        obtain ⟨later, hlater, hcomplete⟩ := ih h
        obtain ⟨first, hfirst, hcompletes⟩ := requestQueue_call limits self event.call
        have hmid : mid.requestQueue = self.requestQueue ++ first := by
          rw [← hfirst]
          exact congrArg (fun r => r.1.requestQueue) hevent.symm
        refine ⟨first ++ later, by rw [hlater, hmid, List.append_assoc], ?_⟩
        intro hmem
        rcases List.mem_cons.mp hmem with rfl | hmem
        · exact List.append_ne_nil_of_left_ne_nil (hcompletes rfl) later
        · exact List.append_ne_nil_of_right_ne_nil first (hcomplete hmem)

theorem completes_of_paused {state resumed : L.State} {chunk rest : List UInt8} {events : List HttpEvent}
    (h : L.execute state chunk = (events, .pausedUpgrade resumed, rest)) : .notice .messageComplete ∈ events := by
  induction chunk generalizing state events with
  | nil => cases h
  | cons b chunk ih =>
      rcases hb : L.next state b with ⟨first, next | _ | resumed'⟩
      · simp only [Llhttp.execute, hb] at h
        rcases hlater : L.execute next chunk with ⟨later, ended, rest'⟩
        rw [hlater] at h
        cases h
        exact List.mem_append_right _ (ih hlater)
      · simp [Llhttp.execute, hb] at h
      · simp only [Llhttp.execute, hb] at h
        cases h
        exact L.completes state b _ _ hb

/-- A pause has added a request to the queue. -/
theorem queue_of_paused {limits : HttpLimits} {c : Conf L} {chunk : List UInt8} (h : Paused c chunk)
    (hlive : (c.parse limits chunk).isLive = true) : (c.parse limits chunk).queue ≠ c.queue := by
  obtain ⟨state, self, events, resumed, rest, rfl, hexecute⟩ := h
  rcases hrun : runUntil (byEvent (onCall limits)) self events with ⟨next, _ | _⟩
  · simp [Conf.parse, hexecute, hrun, Conf.settle, Conf.isLive] at hlive
  · obtain ⟨more, hqueue, hcomplete⟩ := requestQueue_run hrun
    simp only [Conf.parse, hexecute, hrun, Conf.settle, Conf.queue, hqueue]
    intro heq
    exact hcomplete (completes_of_paused hexecute) (List.self_eq_append_right.mp heq.symm)

/-- Behind the end of the first message of the bytes that asks for an upgrade,
wherever one starts to read again, there is no whole request and no error. -/
def QuietBehindUpgrade (limits : HttpLimits) (c : Conf L) (bytes : List UInt8) : Prop :=
  Paused c bytes → (c.parse limits bytes).isLive = true → ∀ kept, kept <:+ unread c bytes →
    ((c.parse limits bytes).parse limits kept).isLive = true ∧
      ((c.parse limits bytes).parse limits kept).queue = (c.parse limits bytes).queue

theorem parseAll_eq_of_quiet {limits : HttpLimits} {c : Conf L} {chunks : List (List UInt8)}
    (h : QuietBehindUpgrade limits c chunks.flatten) :
    (c.parseAll limits chunks).isLive = (c.parse limits chunks.flatten).isLive ∧
      (c.parseAll limits chunks).queue = (c.parse limits chunks.flatten).queue := by
  by_cases hpaused : Paused c chunks.flatten
  · obtain ⟨later, hsuffix, hall⟩ := parseAll_of_paused limits hpaused
    rw [hall]
    cases hlive : (c.parse limits chunks.flatten).isLive with
    | false =>
        rw [parseAll_of_not_live hlive]
        exact ⟨hlive, rfl⟩
    | true =>
        obtain ⟨hlater, hqueue⟩ := h hpaused hlive _ hsuffix
        rw [parseAll_of_not_paused fun hagain => queue_of_paused hagain hlater hqueue]
        exact ⟨hlater, hqueue⟩
  · rw [parseAll_of_not_paused hpaused]
    exact ⟨rfl, rfl⟩

/-- The part of the bytes that was read ends with the message that asks for an upgrade. -/
theorem Paused.split {c : Conf L} {bytes : List UInt8} (h : Paused c bytes) :
    ∃ read, bytes = read ++ unread c bytes ∧ Paused c read := by
  obtain ⟨state, self, events, resumed, rest, rfl, hexecute⟩ := h
  suffices hread : ∃ read, bytes = read ++ rest ∧ L.execute state read = (events, .pausedUpgrade resumed, []) by
    obtain ⟨read, hbytes, hpause⟩ := hread
    exact ⟨read, by simpa only [unread, hexecute] using hbytes, state, self, events, resumed, [], rfl, hpause⟩
  induction bytes generalizing state events with
  | nil => cases hexecute
  | cons b bytes ih =>
      rcases hb : L.next state b with ⟨first, next | _ | resumed'⟩
      · simp only [Llhttp.execute, hb] at hexecute
        rcases hlater : L.execute next bytes with ⟨later, ended, rest'⟩
        rw [hlater] at hexecute
        cases hexecute
        obtain ⟨read, rfl, hread⟩ := ih next later hlater
        exact ⟨b :: read, rfl, by simp only [Llhttp.execute, hb, hread]⟩
      · simp [Llhttp.execute, hb] at hexecute
      · simp only [Llhttp.execute, hb] at hexecute
        cases hexecute
        exact ⟨[b], rfl, by simp only [Llhttp.execute, hb]⟩

theorem quiet_of_parseAll_eq {limits : HttpLimits} {c : Conf L} {bytes : List UInt8}
    (h : ∀ chunks : List (List UInt8), chunks.flatten = bytes →
      (c.parseAll limits chunks).isLive = (c.parse limits bytes).isLive ∧
        (c.parseAll limits chunks).queue = (c.parse limits bytes).queue) : QuietBehindUpgrade limits c bytes := by
  rintro hpaused hlive kept ⟨dropped, hkept⟩
  obtain ⟨read, hbytes, hread⟩ := hpaused.split
  rw [← hkept, ← List.append_assoc] at hbytes
  have hcut := h [read ++ dropped, kept] (by simp [hbytes])
  have hsame : c.parse limits (read ++ dropped) = c.parse limits bytes := by
    rw [hbytes, parse_append_paused hread, List.append_assoc, parse_append_paused hread]
  have hall : c.parseAll limits [read ++ dropped, kept] = (c.parse limits bytes).parse limits kept := by
    rw [← hsame]
    rfl
  rw [hall, hlive] at hcut
  exact hcut

theorem exists_parse (limits : HttpLimits) (s : HttpParser L) (chunk : List UInt8) :
    ∃ ok t, Parse limits s chunk (ok, t) := by
  cases hstate : s.llhttp with
  | none => exact ⟨false, s, .lingering s chunk hstate⟩
  | some state =>
      rcases hexecute : L.execute state chunk with ⟨events, ended, rest⟩
      have hcalls : Llhttp.Reports s.opened (events.map Event.call) events ended :=
        ⟨events, [], by simp, grouped_bytes s.opened events, by simp, fun _ => rfl⟩
      exact ⟨_, _, .execute s chunk state events ended rest _ hstate hexecute hcalls⟩

theorem exists_parseAll (limits : HttpLimits) (s : HttpParser L) (chunks : List (List UInt8)) :
    ∃ ok t, ParseAll limits s chunks (ok, t) := by
  induction chunks generalizing s with
  | nil => exact ⟨true, s, .nil s⟩
  | cons chunk chunks ih =>
      obtain ⟨ok, t, hparse⟩ := exists_parse limits s chunk
      obtain ⟨ok', u, hlater⟩ := ih t
      exact ⟨ok && ok', u, .cons hparse hlater⟩

theorem queue_conf (s : HttpParser L) : (conf s).queue = s.self.requestQueue := by
  obtain ⟨_ | state, self, opened⟩ := s
  · rfl
  · rfl

theorem opened_start (limits : HttpLimits) : Opened limits ({} : HttpParser L) := by
  rintro - kind ⟨⟩

/-- All ways to cut the bytes give the same requests and the same verdict exactly
when nothing comes of the bytes behind the first upgrade. -/
theorem segmentation_iff (L : Llhttp) (limits : HttpLimits) (bytes : List UInt8) :
    (∀ (chunks : List (List UInt8)) ok ok' t t', chunks.flatten = bytes →
      ParseAll limits ({} : HttpParser L) chunks (ok, t) → Parse limits ({} : HttpParser L) bytes (ok', t') →
      t.self.requestQueue = t'.self.requestQueue ∧ ok = ok') ↔
      QuietBehindUpgrade limits (.live L.start {}) bytes := by
  have hstart : conf ({} : HttpParser L) = .live L.start {} := rfl
  constructor
  · intro h
    refine quiet_of_parseAll_eq fun chunks hchunks => ?_
    obtain ⟨ok, t, hall⟩ := exists_parseAll limits ({} : HttpParser L) chunks
    obtain ⟨ok', t', hone⟩ := exists_parse limits ({} : HttpParser L) bytes
    obtain ⟨hqueue, hok⟩ := h chunks ok ok' t t' hchunks hall hone
    obtain ⟨hconf, hlive⟩ := parseAll_conf (opened_start limits) rfl hall
    obtain ⟨hconf', hlive', -⟩ := parse_conf (opened_start limits) hone
    rw [hstart] at hconf hconf'
    rw [← hconf, ← hconf', ← hlive, ← hlive', queue_conf, queue_conf]
    exact ⟨hok, hqueue⟩
  · rintro h chunks ok ok' t t' rfl hall hone
    obtain ⟨hconf, hlive⟩ := parseAll_conf (opened_start limits) rfl hall
    obtain ⟨hconf', hlive', -⟩ := parse_conf (opened_start limits) hone
    obtain ⟨hsame, hqueue⟩ := parseAll_eq_of_quiet h
    rw [← hstart, ← hconf, ← hconf'] at hsame hqueue
    rw [hlive, hlive', ← queue_conf, ← queue_conf]
    exact ⟨hqueue, hsame⟩

/-- Where a parser of requests without headers is; the flag stands for `CONNECT`. -/
inductive LineState
  | method (name : List UInt8)
  | url (upgrade : Bool)
  | protocol (upgrade : Bool) (left : List UInt8)
  | version (upgrade : Bool)
  | lineEnd (upgrade : Bool)
  | headers (upgrade : Bool)
  | headersEnd (upgrade : Bool)

def lineNext : LineState → UInt8 → List HttpEvent × LlhttpEnd LineState
  | .method name, b =>
      if b = 32 then ([.notice (.method name)], .ok (.url (name = ascii "CONNECT")))
      else ([], .ok (.method (name ++ [b])))
  | .url upgrade, b =>
      if b = 32 then ([.notice .urlComplete], .ok (.protocol upgrade (ascii "HTTP/")))
      else ([.byte .url b], .ok (.url upgrade))
  | .protocol upgrade left, b =>
      match left with
      | [] => ([], .error)
      | [c] => ([], if b = c then .ok (.version upgrade) else .error)
      | c :: left => ([], if b = c then .ok (.protocol upgrade left) else .error)
  | .version upgrade, b =>
      if b = 13 then ([.notice .versionComplete], .ok (.lineEnd upgrade))
      else ([.byte .version b], .ok (.version upgrade))
  | .lineEnd upgrade, b => ([], if b = 10 then .ok (.headers upgrade) else .error)
  | .headers upgrade, b => ([], if b = 13 then .ok (.headersEnd upgrade) else .error)
  | .headersEnd upgrade, b =>
      if b = 10 then
        ([.notice .messageComplete], if upgrade then .pausedUpgrade (.method []) else .ok (.method []))
      else ([], .error)

theorem lineNext_completes (state : LineState) (b : UInt8) (resumed : LineState)
    (h : (lineNext state b).2 = .pausedUpgrade resumed) : .notice .messageComplete ∈ (lineNext state b).1 := by
  cases state with
  | headersEnd upgrade =>
      by_cases hb : b = 10
      · simp [lineNext, hb]
      · simp [lineNext, hb] at h
  | protocol upgrade left =>
      rcases left with _ | ⟨c, _ | ⟨d, left⟩⟩
      · simp [lineNext] at h
      · simp only [lineNext] at h
        split_ifs at h
      · simp only [lineNext] at h
        split_ifs at h
  | _ =>
      simp only [lineNext] at h
      split_ifs at h

def requestLines : Llhttp where
  State := LineState
  start := .method []
  next := lineNext
  completes := by
    intro state b events resumed h
    have hcomplete := lineNext_completes state b resumed (by rw [h])
    rwa [h] at hcomplete

def tunnel : List UInt8 := ascii "CONNECT a:1 HTTP/1.1\r\n\r\n"

def behindTunnel : List UInt8 := ascii "GET / HTTP/1.1\r\n\r\n"

/-- The request behind one that asks for an upgrade is lost unless a chunk begins with it. -/
theorem segmentation_matters :
    ¬ ∀ (chunks : List (List UInt8)) ok ok' t t', chunks.flatten = tunnel ++ behindTunnel →
      ParseAll {} ({} : HttpParser requestLines) chunks (ok, t) →
      Parse {} ({} : HttpParser requestLines) (tunnel ++ behindTunnel) (ok', t') →
      t.self.requestQueue = t'.self.requestQueue ∧ ok = ok' := by
  intro h
  obtain ⟨ok, t, hall⟩ := exists_parseAll {} ({} : HttpParser requestLines) [tunnel, behindTunnel]
  obtain ⟨ok', t', hone⟩ := exists_parse {} ({} : HttpParser requestLines) (tunnel ++ behindTunnel)
  have hqueue := (h _ ok ok' t t' (by simp) hall hone).1
  rw [← queue_conf, ← queue_conf, (parseAll_conf (opened_start {}) rfl hall).1,
    (parse_conf (opened_start {}) hone).1] at hqueue
  have htwo : (((conf ({} : HttpParser requestLines)).parseAll {} [tunnel, behindTunnel]).queue).length = 2 := by decide
  have hone : (((conf ({} : HttpParser requestLines)).parse {} (tunnel ++ behindTunnel)).queue).length = 1 := by decide
  rw [hqueue, hone] at htwo
  cases htwo

end Libcold.HttpSegmentation
