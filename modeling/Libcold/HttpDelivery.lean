import Libcold.HttpReplay
import Libcold.HttpRequest
import Mathlib.Data.Finset.Card

namespace Libcold

open SpanCalls HttpRequestParser HttpParser HttpSegmentation HttpCommon

/-- The request is within the limits of the parser. -/
structure RawHttpRequest.Within (limits : HttpLimits) (r : RawHttpRequest) : Prop where
  url : r.url.length ≤ limits.maxUrlSize
  count : r.headers.length ≤ limits.maxHeaderCount
  field : ∀ p ∈ r.headers, p.1.length ≤ limits.maxHeaderFieldSize ∧ p.2.length ≤ limits.maxHeaderValueSize
  body : r.body.length ≤ limits.maxBodySize

/-- The message is within the limits, all of its fields taken together. -/
structure HttpMessage.Within (limits : HttpLimits) (m : HttpMessage) : Prop where
  url : m.url.length ≤ limits.maxUrlSize
  count : (m.headers ++ m.trailers).length ≤ limits.maxHeaderCount
  field : ∀ p ∈ m.headers ++ m.trailers,
    p.1.length ≤ limits.maxHeaderFieldSize ∧ p.2.length ≤ limits.maxHeaderValueSize
  body : m.body.length ≤ limits.maxBodySize

namespace HeaderMap

theorem length_set_le (headers : HeaderMap) (key value : List UInt8) :
    (headers.set key value).length ≤ headers.length + 1 := by
  induction headers with
  | nil => simp [set]
  | cons p rest ih =>
      rw [set]
      split_ifs
      · simp
      · simp
      · simpa using ih

/-- The map that the fields lead to. -/
def ofFields (ps : Fields) : HeaderMap := ps.foldl (fun m p => m.set p.1 p.2) []

theorem ofFields_append_singleton (ps : Fields) (p : List UInt8 × List UInt8) :
    ofFields (ps ++ [p]) = (ofFields ps).set p.1 p.2 := by
  rw [ofFields, List.foldl_append]
  rfl

theorem lookup_ofFields (ps : Fields) (key : List UInt8) :
    (ofFields ps).lookup key = HeaderMap.lookup ps.reverse key := by
  rw [ofFields, lookup_foldl]
  exact Option.or_none

theorem sorted_ofFields (ps : Fields) : (ofFields ps).Sorted := by
  induction ps using List.reverseRecOn with
  | nil => exact .nil
  | append_singleton ps p ih =>
      rw [ofFields_append_singleton]
      exact ih.set p.1 p.2

/-- There is an entry for each of the names. -/
theorem length_ofFields (ps : Fields) : (ofFields ps).length = (ps.map Prod.fst).toFinset.card := by
  have hkeys : ((ofFields ps).map Prod.fst).toFinset = (ps.map Prod.fst).toFinset := by
    ext key
    rw [List.mem_toFinset, List.mem_toFinset, mem_keys_iff, lookup_ofFields, ← mem_keys_iff, List.map_reverse,
      List.mem_reverse]
  rw [← hkeys, List.toFinset_card_of_nodup (sorted_ofFields ps).nodup, List.length_map]

end HeaderMap

section Fields

variable {limits : HttpLimits} {headers headers' : HeaderMap} {buf buf' : List UInt8} {ps : Fields}

theorem addFields_within (hcount : headers.length ≤ limits.maxHeaderCount)
    (hfield : ∀ p ∈ headers, p.1.length ≤ limits.maxHeaderFieldSize ∧ p.2.length ≤ limits.maxHeaderValueSize)
    (h : addFields limits headers buf ps = some (headers', buf')) :
    headers'.length ≤ limits.maxHeaderCount ∧
      ∀ p ∈ headers', p.1.length ≤ limits.maxHeaderFieldSize ∧ p.2.length ≤ limits.maxHeaderValueSize := by
  induction ps generalizing headers buf with
  | nil =>
      cases h
      exact ⟨hcount, hfield⟩
  | cons p ps ih =>
      rw [addFields] at h
      split_ifs at h with hrefused
      simp only [not_or, not_lt] at hrefused
      refine ih ?_ ?_ h
      · exact (HeaderMap.length_set_le headers _ _).trans hrefused.1
      · intro q hq
        rcases HeaderMap.mem_set hq with rfl | hq
        · exact ⟨by simpa using hrefused.2.1, hrefused.2.2⟩
        · exact hfield q hq

theorem addFields_append (limits : HttpLimits) (headers : HeaderMap) (buf : List UInt8) (ps qs : Fields) :
    addFields limits headers buf (ps ++ qs) =
      (addFields limits headers buf ps).bind fun r => addFields limits r.1 r.2 qs := by
  induction ps generalizing headers buf with
  | nil => rfl
  | cons p ps ih =>
      rw [List.cons_append, addFields, addFields]
      split_ifs
      · rfl
      · exact ih _ _

/-- When the last of the names comes there are already as many as are allowed. -/
def Overfull (limits : HttpLimits) (names : List (List UInt8)) : Prop :=
  names ≠ [] ∧ limits.maxHeaderCount ≤ names.dropLast.toFinset.card

theorem overfull_append_singleton (limits : HttpLimits) (names : List (List UInt8)) (name : List UInt8) :
    Overfull limits (names ++ [name]) ↔ limits.maxHeaderCount ≤ names.toFinset.card := by
  rw [Overfull, List.dropLast_concat]
  exact and_iff_right (by simp)

theorem Overfull.le {names : List (List UInt8)} (h : Overfull limits names) :
    limits.maxHeaderCount ≤ names.toFinset.card := by
  refine h.2.trans (Finset.card_le_card fun name hname => ?_)
  exact List.mem_toFinset.mpr (List.dropLast_subset names (List.mem_toFinset.mp hname))

/-- When the fields are taken, and what they lead to. -/
theorem addFields_eq_some_iff {r : HeaderMap × List UInt8} :
    addFields limits [] [] ps = some r ↔
      (∀ p ∈ ps, p.1.length ≤ limits.maxHeaderFieldSize ∧ p.2.length ≤ limits.maxHeaderValueSize) ∧
        ¬ Overfull limits (ps.map Prod.fst) ∧ r = (HeaderMap.ofFields ps, []) := by
  induction ps using List.reverseRecOn generalizing r with
  | nil => simp [addFields, Overfull, HeaderMap.ofFields, eq_comm]
  | append_singleton ps p ih =>
      rw [addFields_append, Option.bind_eq_some_iff, List.map_append, List.map_singleton, overfull_append_singleton,
        ← HeaderMap.length_ofFields, HeaderMap.ofFields_append_singleton]
      constructor
      · rintro ⟨added, hfirst, hlast⟩
        obtain ⟨hsmall, -, rfl⟩ := ih.mp hfirst
        rw [addFields] at hlast
        split_ifs at hlast with hrefused
        simp only [List.length_nil, Nat.zero_add, not_or, not_lt] at hrefused
        cases hlast
        refine ⟨?_, by omega, rfl⟩
        intro q hq
        rcases List.mem_append.mp hq with hq | hq
        · exact hsmall q hq
        · obtain rfl := List.mem_singleton.mp hq
          exact hrefused.2
      · rintro ⟨hsmall, hcount, rfl⟩
        refine ⟨_, ih.mpr ⟨fun q hq => hsmall q (List.mem_append_left _ hq), fun hover => ?_, rfl⟩, ?_⟩
        · exact hcount (HeaderMap.length_ofFields ps ▸ hover.le)
        · obtain ⟨hname, hvalue⟩ := hsmall p (by simp)
          rw [addFields, if_neg]
          · rfl
          · simp only [List.length_nil, Nat.zero_add, not_or, not_lt]
            exact ⟨by omega, hname, hvalue⟩

end Fields

namespace HttpMessage

variable {limits : HttpLimits} {m : HttpMessage} {r : RawHttpRequest}

/-- The parts that a request was made from. -/
theorem of_request (h : m.request limits = some r) :
    m.url.length ≤ limits.maxUrlSize ∧ hasDots m.url = false ∧ ∃ headers,
      addFields limits [] [] m.headers = some (headers, []) ∧ (m.body ≠ [] → bodyAllowed limits headers = true) ∧
      addFields limits headers m.body m.trailers = some (r.headers, r.body) ∧ r.url = m.url := by
  rw [request] at h
  split_ifs at h with hline
  simp only [not_or, not_lt, Bool.not_eq_true] at hline
  obtain ⟨⟨headers, buf⟩, hadd, h⟩ := Option.bind_eq_some_iff.mp h
  obtain rfl := buf_addFields hadd
  split_ifs at h with hbody
  simp only [not_and, Bool.not_eq_false] at hbody
  obtain ⟨added, hmore, rfl⟩ := Option.map_eq_some_iff.mp h
  exact ⟨hline.1, hline.2, headers, hadd, hbody, hmore, rfl⟩

/-- A body is let through when its length is told in a header of that spelling. -/
theorem bodyAllowed_iff (hbody : m.body ≠ []) :
    bodyAllowed limits (.ofFields m.headers) = true ↔
      (∃ p ∈ m.headers, p.1 = ascii "Content-Length") ∧ m.body.length ≤ limits.maxBodySize := by
  have hspelled : (∃ p ∈ m.headers, p.1 = ascii "Content-Length") ↔
      (HeaderMap.lookup m.headers.reverse (ascii "Content-Length")).isSome = true := by
    rw [← HeaderMap.mem_keys_iff, List.map_reverse, List.mem_reverse, List.mem_map]
  rw [bodyAllowed, HeaderMap.get_eq, HeaderMap.lookup_ofFields, hspelled]
  cases hlookup : HeaderMap.lookup m.headers.reverse (ascii "Content-Length") with
  | none => exact iff_of_false Bool.false_ne_true fun h => Bool.false_ne_true h.1
  | some value =>
      have hmem := List.mem_reverse.mp (HeaderMap.mem_of_lookup hlookup)
      obtain ⟨n, hn, hlength⟩ := m.length _ (List.mem_append_left m.trailers hmem) rfl
      simp [hn, hlength hbody]

theorem request_within (h : m.request limits = some r) : r.Within limits := by
  obtain ⟨hurl, -, headers, hadd, hallowed, hmore, heq⟩ := of_request h
  obtain ⟨-, -, hheaders⟩ := addFields_eq_some_iff.mp hadd
  obtain rfl : headers = .ofFields m.headers := congrArg Prod.fst hheaders
  obtain ⟨hcount, hfield⟩ := addFields_within (Nat.zero_le _) (by simp) hadd
  obtain ⟨hcount, hfield⟩ := addFields_within hcount hfield hmore
  refine ⟨heq ▸ hurl, hcount, hfield, ?_⟩
  cases htrailers : m.trailers with
  | nil =>
      rw [htrailers, addFields, Option.some.injEq, Prod.mk.injEq] at hmore
      rw [← hmore.2]
      by_cases hbody : m.body = []
      · simp [hbody]
      · exact ((bodyAllowed_iff hbody).mp (hallowed hbody)).2
  | cons p ps =>
      rw [htrailers, addFields] at hmore
      split_ifs at hmore
      simp [buf_addFields hmore]

/-- What the parser asks of a message. -/
structure Fits (limits : HttpLimits) (m : HttpMessage) : Prop where
  url : m.url.length ≤ limits.maxUrlSize ∧ hasDots m.url = false
  field : ∀ p ∈ m.headers ++ m.trailers,
    p.1.length ≤ limits.maxHeaderFieldSize ∧ p.2.length ≤ limits.maxHeaderValueSize
  count : ¬ Overfull limits ((m.headers ++ m.trailers).map Prod.fst)
  body : m.body ≠ [] → (∃ p ∈ m.headers, p.1 = ascii "Content-Length") ∧ m.body.length ≤ limits.maxBodySize

/-- The request with all that the message says. -/
def whole (m : HttpMessage) : RawHttpRequest :=
  { m.line with headers := .ofFields (m.headers ++ m.trailers), body := m.body }

/-- Without a body the trailers are fields like the headers. -/
theorem request_of_empty (hline : ¬ (limits.maxUrlSize < m.url.length ∨ hasDots m.url = true)) (hbody : m.body = []) :
    m.request limits =
      (addFields limits [] [] (m.headers ++ m.trailers)).map fun r => { m.line with headers := r.1, body := r.2 } := by
  rw [request, if_neg hline, hbody, addFields_append]
  simp only [ne_eq, not_true, false_and, if_false]
  rcases hadd : addFields limits [] [] m.headers with _ | ⟨headers, buf⟩
  · rfl
  · obtain rfl := buf_addFields hadd
    rfl

/-- A body is behind the headers and its length, and in front of no trailers. -/
theorem request_of_body (haccepted : m.Accepted)
    (hline : ¬ (limits.maxUrlSize < m.url.length ∨ hasDots m.url = true)) (hbody : m.body ≠ []) :
    m.request limits = some r ↔ ∃ added, addFields limits [] [] m.headers = some added ∧
      bodyAllowed limits added.1 = true ∧ m.trailers = [] ∧ r = { m.line with headers := added.1, body := m.body } := by
  rw [request, if_neg hline, Option.bind_eq_some_iff]
  refine exists_congr fun added => and_congr_right fun hadd => ?_
  obtain ⟨-, -, rfl⟩ := addFields_eq_some_iff.mp hadd
  by_cases hallowed : bodyAllowed limits (.ofFields m.headers) = true
  · obtain ⟨p, hp, hname⟩ := ((bodyAllowed_iff hbody).mp hallowed).1
    have hnone : m.trailers = [] :=
      haccepted.unchunked p (List.mem_append_left _ hp) (by rw [IsLength, hname]; rfl)
    simp [hallowed, hnone, addFields, eq_comm]
  · simp [hallowed, hbody]

theorem request_eq_some_iff (haccepted : m.Accepted) : m.request limits = some r ↔ m.Fits limits ∧ r = m.whole := by
  by_cases hline : limits.maxUrlSize < m.url.length ∨ hasDots m.url = true
  · rw [request, if_pos hline]
    refine iff_of_false (by simp) ?_
    rintro ⟨hfits, -⟩
    simp [hfits.url, hfits.url.1.not_gt] at hline
  · have hurl : m.url.length ≤ limits.maxUrlSize ∧ hasDots m.url = false := by simpa using hline
    by_cases hbody : m.body = []
    · rw [request_of_empty hline hbody, Option.map_eq_some_iff]
      constructor
      · rintro ⟨added, hadd, rfl⟩
        obtain ⟨hsmall, hcount, rfl⟩ := addFields_eq_some_iff.mp hadd
        exact ⟨⟨hurl, hsmall, hcount, fun h => absurd hbody h⟩, by rw [whole, hbody]⟩
      · rintro ⟨hfits, rfl⟩
        exact ⟨_, addFields_eq_some_iff.mpr ⟨hfits.field, hfits.count, rfl⟩, by rw [whole, hbody]⟩
    · rw [request_of_body haccepted hline hbody]
      constructor
      · rintro ⟨added, hadd, hallowed, hnone, rfl⟩
        obtain ⟨hsmall, hcount, rfl⟩ := addFields_eq_some_iff.mp hadd
        refine ⟨⟨hurl, ?_, ?_, fun _ => (bodyAllowed_iff hbody).mp hallowed⟩, ?_⟩
        · rwa [hnone, List.append_nil]
        · rwa [hnone, List.append_nil]
        · rw [whole, hnone, List.append_nil]
      · rintro ⟨hfits, rfl⟩
        obtain ⟨⟨p, hp, hname⟩, hlength⟩ := hfits.body hbody
        have hnone : m.trailers = [] :=
          haccepted.unchunked p (List.mem_append_left _ hp) (by rw [IsLength, hname]; rfl)
        have hsmall := hfits.field
        have hcount := hfits.count
        rw [hnone, List.append_nil] at hsmall hcount
        exact ⟨_, addFields_eq_some_iff.mpr ⟨hsmall, hcount, rfl⟩,
          (bodyAllowed_iff hbody).mpr ⟨⟨p, hp, hname⟩, hlength⟩, hnone, by rw [whole, hnone, List.append_nil]⟩

/-- The body is delivered when a header of its length is there and spelled so. -/
theorem delivered_iff (haccepted : m.Accepted) (hm : m.Within limits) :
    (∃ r, m.request limits = some r ∧ r.body = m.body) ↔
      hasDots m.url = false ∧ (m.body = [] ∨ ∃ p ∈ m.headers, p.1 = ascii "Content-Length") := by
  have hcount : ¬ Overfull limits ((m.headers ++ m.trailers).map Prod.fst) := by
    rintro ⟨hsome, hle⟩
    have hcard := List.toFinset_card_le ((m.headers ++ m.trailers).map Prod.fst).dropLast
    have hwithin := hm.count
    rw [List.length_dropLast, List.length_map] at hcard
    rw [ne_eq, List.map_eq_nil_iff] at hsome
    have hpos := List.length_pos_of_ne_nil hsome
    omega
  constructor
  · rintro ⟨r, hrequest, -⟩
    obtain ⟨hfits, -⟩ := (request_eq_some_iff haccepted).mp hrequest
    exact ⟨hfits.url.2, or_iff_not_imp_left.mpr fun hbody => (hfits.body hbody).1⟩
  · rintro ⟨hdots, hlength⟩
    have hfits : m.Fits limits :=
      ⟨⟨hm.url, hdots⟩, hm.field, hcount, fun hbody => ⟨hlength.resolve_left hbody, hm.body⟩⟩
    exact ⟨m.whole, (request_eq_some_iff haccepted).mpr ⟨hfits, rfl⟩, rfl⟩

end HttpMessage

namespace HttpRequestParser

variable {limits : HttpLimits} {ms : List HttpMessage}

theorem request_of_mem {r : RawHttpRequest} (h : r ∈ (requests limits ms).1) :
    ∃ m ∈ ms, m.request limits = some r := by
  induction ms with
  | nil => cases h
  | cons m ms ih =>
      rw [requests] at h
      cases hrequest : m.request limits with
      | none =>
          rw [hrequest] at h
          cases h
      | some first =>
          rw [hrequest, List.mem_cons] at h
          rcases h with rfl | h
          · exact ⟨m, List.mem_cons_self, hrequest⟩
          · obtain ⟨m', hm', hr⟩ := ih h
            exact ⟨m', List.mem_cons_of_mem m hm', hr⟩

/-- A refusal leaves requests out. -/
theorem length_requests (limits : HttpLimits) (ms : List HttpMessage) :
    if (requests limits ms).2 = true then (requests limits ms).1.length = ms.length
      else (requests limits ms).1.length < ms.length := by
  induction ms with
  | nil => rfl
  | cons m ms ih =>
      rw [requests]
      cases m.request limits with
      | none => simp
      | some r => simpa using ih

theorem requests_delivered_iff (haccepted : ∀ m ∈ ms, m.Accepted) (hwithin : ∀ m ∈ ms, m.Within limits) :
    ((requests limits ms).2 = true ∧
        (requests limits ms).1.map RawHttpRequest.body = ms.map HttpMessage.body) ↔
      ∀ m ∈ ms, hasDots m.url = false ∧ (m.body = [] ∨ ∃ p ∈ m.headers, p.1 = ascii "Content-Length") := by
  induction ms with
  | nil => simp [requests]
  | cons m ms ih =>
      have hfirst := HttpMessage.delivered_iff (haccepted m List.mem_cons_self) (hwithin m List.mem_cons_self)
      have hlater := ih (fun m' hm' => haccepted m' (List.mem_cons_of_mem m hm')) fun m' hm' =>
        hwithin m' (List.mem_cons_of_mem m hm')
      rw [List.forall_mem_cons, ← hfirst, ← hlater, requests]
      cases hrequest : m.request limits with
      | none => simp
      | some r =>
          simp only [List.map_cons, List.cons.injEq, Option.some.injEq, exists_eq_left']
          exact and_left_comm

/-- What comes behind the messages leaves their requests where they are. -/
theorem run_messages_append (limits : HttpLimits) (ms : List HttpMessage) (more : List HttpEvent) :
    let queue :=
      (runUntil (byEvent (onCall limits)) (between []) (ms.flatMap HttpMessage.events ++ more)).1.requestQueue
    if (requests limits ms).2 = true then (requests limits ms).1 <+: queue else queue = (requests limits ms).1 := by
  obtain ⟨hqueue, hok⟩ := run_messages limits [] ms
  rw [List.nil_append] at hqueue
  dsimp only
  rw [runUntil_append, ← hok, ← hqueue]
  rcases runUntil (byEvent (onCall limits)) (between []) (ms.flatMap HttpMessage.events) with ⟨t, _ | _⟩
  · rfl
  · exact requestQueue_prefix limits t more

end HttpRequestParser

namespace Llhttp

open Script HttpMessage

variable {L : Llhttp} {limits : HttpLimits} {chunks : List (List UInt8)} {ok : Bool} {t : HttpParser L}

/-- The callbacks come as those of messages do, up to where the bytes end or an error
is found. -/
def InMessageOrder (L : Llhttp) : Prop :=
  ∀ chunks, ∃ ms : List HttpMessage, (L.executeAll L.start chunks).1 <+: ms.flatMap HttpMessage.events

/-- Every request that is ever put into the queue is within the limits. -/
theorem accepted_within_limits (horder : L.InMessageOrder)
    (h : ParseAll limits ({} : HttpParser L) chunks (ok, t)) : ∀ r ∈ t.self.requestQueue, r.Within limits := by
  intro r hr
  obtain ⟨ms, hprefix⟩ := horder chunks
  rw [(parseAll_eq h).1] at hr
  have hmem := (requestQueue_mono limits (between []) hprefix).subset hr
  rw [(run_messages limits [] ms).1, List.nil_append] at hmem
  obtain ⟨m, -, hrequest⟩ := request_of_mem hmem
  exact HttpMessage.request_within hrequest

/-- A message without headers. -/
def visit : HttpMessage where
  method := ascii "GET"
  url := ascii "/"
  version := some (ascii "1.1")
  headers := []
  body := []
  trailers := []
  named := by simp
  length := by simp

theorem plays_visit : Plays visit.script visit.text visit.events := HttpMessage.plays_script (.refl visit) rfl rfl

theorem visit_within_limits :
    ∃ ok t, ParseAll {} ({} : HttpParser (llhttp visit.script)) [visit.text] (ok, t) ∧
      ∀ r ∈ t.self.requestQueue, r.Within {} := by
  obtain ⟨ok, t, h⟩ := exists_parseAll {} ({} : HttpParser (llhttp visit.script)) [visit.text]
  refine ⟨ok, t, h, accepted_within_limits (fun chunks => ⟨[visit], ?_⟩) h⟩
  rw [List.flatMap_singleton]
  exact plays_visit.executeAll_prefix (HttpMessage.exact_script rfl) _ chunks

/-- The bodies of the messages that llhttp reports are delivered when none has `..` in
its url, and each has a header of its length, spelled so, or no body. -/
theorem bodies_delivered_iff {ms : List HttpMessage} {more : List HttpEvent} {state : Option L.State}
    (hevents : L.executeAll L.start chunks = (ms.flatMap HttpMessage.events ++ more, state))
    (haccepted : ∀ m ∈ ms, m.Accepted) (hwithin : ∀ m ∈ ms, m.Within limits)
    (h : ParseAll limits ({} : HttpParser L) chunks (ok, t)) :
    (ms.map HttpMessage.body <+: t.self.requestQueue.map RawHttpRequest.body ∧
        (more = [] → state.isSome = true → ok = true)) ↔
      ∀ m ∈ ms, hasDots m.url = false ∧ (m.body = [] ∨ ∃ p ∈ m.headers, p.1 = ascii "Content-Length") := by
  obtain ⟨hqueue, hok⟩ := parseAll_eq h
  have hrun := run_messages_append limits ms more
  have hlength := length_requests limits ms
  rw [hevents] at hqueue hok
  rw [← hqueue] at hrun
  rw [← requests_delivered_iff haccepted hwithin]
  constructor
  · rintro ⟨hdelivered, -⟩
    split_ifs at hrun hlength with hall
    · have hothers := hrun.map RawHttpRequest.body
      have hsame := List.prefix_of_prefix_length_le hothers hdelivered (by simp [hlength])
      exact ⟨hall, hsame.eq_of_length (by simp [hlength])⟩
    · have hle := hdelivered.length_le
      rw [hrun, List.length_map, List.length_map] at hle
      omega
  · rintro ⟨hall, hbodies⟩
    rw [if_pos hall] at hrun
    refine ⟨hbodies ▸ hrun.map RawHttpRequest.body, ?_⟩
    rintro rfl hstate
    rw [hok, List.append_nil, (run_messages limits [] ms).2, hall, hstate]
    rfl

/-- A message with one field, which could tell its length. -/
def post (name : List UInt8) (hname : name ≠ []) : HttpMessage where
  method := ascii "POST"
  url := ascii "/form"
  version := some (ascii "1.1")
  headers := [(name, ascii "3")]
  body := ascii "abc"
  trailers := []
  named := by simpa using hname
  length := by
    intro p hp _
    obtain rfl := List.mem_singleton.mp hp
    exact ⟨3, rfl, fun _ => rfl⟩

theorem accepted_of_single {m : HttpMessage} {p : List UInt8 × List UInt8} (hheaders : m.headers = [p])
    (htrailers : m.trailers = []) : m.Accepted := by
  refine ⟨fun before q after h _ r hr => ?_, fun _ _ _ => htrailers⟩
  have hlength : 1 = before.length + (after.length + 1) := by
    simpa [hheaders, htrailers] using congrArg List.length h
  have hnone : before ++ after = [] := List.eq_nil_of_length_eq_zero (by rw [List.length_append]; omega)
  rw [hnone] at hr
  cases hr

theorem executeAll_script (m : HttpMessage) {version : List UInt8} (hversion : m.version = some version)
    (htrailers : m.trailers = []) :
    (llhttp m.script).executeAll (llhttp m.script).start [m.text] =
      ([m].flatMap HttpMessage.events ++ [], some []) := by
  have hplays : Plays m.script m.text m.events := HttpMessage.plays_script (.refl m) hversion htrailers
  rw [hplays.executeAll, List.flatMap_singleton, List.append_nil]

/-- A message that tells its length. -/
def postLength : HttpMessage := post (ascii "Content-Length") (by decide)

theorem within_postLength : postLength.Within {} := ⟨by decide, by decide, by decide, by decide⟩

theorem postLength_delivered :
    ∃ ok t, ParseAll {} ({} : HttpParser (llhttp postLength.script)) [postLength.text] (ok, t) ∧
      ok = true ∧ [ascii "abc"] <+: t.self.requestQueue.map RawHttpRequest.body := by
  obtain ⟨ok, t, h⟩ := exists_parseAll {} ({} : HttpParser (llhttp postLength.script)) [postLength.text]
  have hdelivered := (bodies_delivered_iff (executeAll_script postLength rfl rfl)
    (List.forall_mem_singleton.mpr (accepted_of_single rfl rfl))
    (List.forall_mem_singleton.mpr within_postLength) h).mpr
    (List.forall_mem_singleton.mpr ⟨by decide, .inr ⟨_, List.mem_singleton_self _, rfl⟩⟩)
  exact ⟨ok, t, h, hdelivered.2 rfl rfl, hdelivered.1⟩

/-- A message in the chunked coding. -/
def chunked : HttpMessage where
  method := ascii "POST"
  url := ascii "/form"
  version := some (ascii "1.1")
  headers := [(ascii "Transfer-Encoding", ascii "chunked")]
  body := ascii "abc"
  trailers := []
  named := by decide
  length := by
    intro p hp hlength
    obtain rfl := List.mem_singleton.mp hp
    exact absurd hlength (by decide)

def chunkedText : List UInt8 :=
  chunked.headText ++ crlf ++ ascii "3" ++ crlf ++ chunked.body ++ (crlf ++ ascii "0" ++ crlf ++ crlf)

def chunkedScript : Script :=
  chunked.headScript ++ silent crlf ++ silent (ascii "3") ++ silent crlf ++ span .body chunked.body ++
    endWith .messageComplete (silent (crlf ++ ascii "0" ++ crlf ++ crlf))

theorem plays_chunked : Plays chunkedScript chunkedText chunked.events := by
  have hhead := HttpMessage.plays_head (.refl chunked) rfl
  have hsize := ((hhead.append (plays_silent crlf)).append (plays_silent (ascii "3"))).append (plays_silent crlf)
  have hwhole := (hsize.append (plays_span .body chunked.body)).append
    ((plays_silent (crlf ++ ascii "0" ++ crlf ++ crlf)).endWith (by decide) .messageComplete)
  have htrailers : chunked.trailers = [] := rfl
  have hevents : chunked.events = chunked.head.flatMap callEvents ++ [] ++ [] ++ [] ++ chunked.body.map (.byte .body) ++
      ([] ++ [.notice .messageComplete]) := by
    simp [events, calls, htrailers, flatMap_spanCalls, callEvents]
  rw [hevents]
  exact hwhole

/-- A body in the chunked coding is refused, for it has no `Content-Length`. -/
theorem chunked_refused :
    ¬ ∀ (L : Llhttp) limits chunks ok (t : HttpParser L) (ms : List HttpMessage) more state,
      L.executeAll L.start chunks = (ms.flatMap HttpMessage.events ++ more, state) → (∀ m ∈ ms, m.Accepted) →
        (∀ m ∈ ms, m.Within limits) → ParseAll limits ({} : HttpParser L) chunks (ok, t) →
          (ms.map HttpMessage.body <+: t.self.requestQueue.map RawHttpRequest.body ∧
            (more = [] → state.isSome = true → ok = true)) := by
  intro h
  obtain ⟨ok, t, hparse⟩ := exists_parseAll {} ({} : HttpParser (llhttp chunkedScript)) [chunkedText]
  have hevents : (llhttp chunkedScript).executeAll (llhttp chunkedScript).start [chunkedText] =
      ([chunked].flatMap HttpMessage.events, some []) := by
    rw [plays_chunked.executeAll, List.flatMap_singleton]
  have hwithin : chunked.Within {} := ⟨by decide, by decide, by decide, by decide⟩
  have hok := (h _ {} _ ok t [chunked] [] (some []) (by rw [hevents, List.append_nil]; rfl)
    (List.forall_mem_singleton.mpr (accepted_of_single rfl rfl)) (List.forall_mem_singleton.mpr hwithin)
    hparse).2 rfl rfl
  have hrefused : (requests {} [chunked]).2 = false := by decide
  rw [(parseAll_messages hparse hevents).2, hrefused] at hok
  cases hok

end Llhttp

end Libcold
