import Libcold.HttpMessage
import Mathlib.Data.List.Forall2

namespace Libcold

open SpanCalls HttpCommon

/-- A byte of a script: which bytes are taken for it, and what is reported of them. -/
structure ScriptByte where
  accepts : UInt8 → Bool
  reports : UInt8 → List HttpEvent

/-- The bytes that are still expected. -/
abbrev Script := List ScriptByte

namespace Script

def next : Script → UInt8 → List HttpEvent × LlhttpEnd Script
  | [], _ => ([], .error)
  | e :: rest, b => if e.accepts b then (e.reports b, .ok rest) else ([], .error)

theorem next_not_paused (script : Script) (b : UInt8) (events : List HttpEvent) (resumed : Script) :
    next script b ≠ (events, .pausedUpgrade resumed) := by
  cases script with
  | nil => simp [next]
  | cons e rest =>
      rw [next]
      split_ifs <;> simp

/-- An llhttp that reads what a script says, and finds an error in everything else. -/
def llhttp (script : Script) : Llhttp where
  State := Script
  start := script
  next := next
  completes s b events resumed h := absurd h (next_not_paused s b events resumed)

/-- The text is taken for the script, with what is reported of it. -/
inductive Plays : Script → List UInt8 → List HttpEvent → Prop
  | nil : Plays [] [] []
  | cons {e : ScriptByte} {b : UInt8} {script : Script} {text : List UInt8} {events : List HttpEvent}
      (haccepts : e.accepts b = true) (rest : Plays script text events) :
      Plays (e :: script) (b :: text) (e.reports b ++ events)

/-- No other text is taken for the script. -/
def Exact (script : Script) (text : List UInt8) : Prop :=
  List.Forall₂ (fun e c => ∀ b, e.accepts b = true → b = c) script text

def silent (text : List UInt8) : Script := text.map fun c => ⟨(· = c), fun _ => []⟩

def span (kind : HttpSpan) (text : List UInt8) : Script := text.map fun c => ⟨(· = c), fun b => [.byte kind b]⟩

/-- The name of a field, in every spelling. -/
def name (text : List UInt8) : Script :=
  text.map fun c => ⟨fun b => toUpper b = toUpper c, fun b => [.byte .headerField b]⟩

/-- Something more is reported of the last byte. -/
def endWith (n : HttpNotice) : Script → Script
  | [] => []
  | [e] => [{ e with reports := fun b => e.reports b ++ [.notice n] }]
  | e :: rest => e :: endWith n rest

section

variable {script script' : Script} {text text' : List UInt8} {events events' : List HttpEvent}

theorem Plays.append (h : Plays script text events) (h' : Plays script' text' events') :
    Plays (script ++ script') (text ++ text') (events ++ events') := by
  induction h with
  | nil => exact h'
  | cons haccepts _ ih =>
      rw [List.append_assoc]
      exact .cons haccepts ih

theorem plays_silent (text : List UInt8) : Plays (silent text) text [] := by
  induction text with
  | nil => exact .nil
  | cons b text ih => exact .cons (e := ⟨(· = b), fun _ => []⟩) (by simp) ih

theorem plays_span (kind : HttpSpan) (text : List UInt8) : Plays (span kind text) text (text.map (.byte kind)) := by
  induction text with
  | nil => exact .nil
  | cons b text ih => exact .cons (e := ⟨(· = b), fun b => [.byte kind b]⟩) (by simp) ih

theorem plays_name (h : Spells text text') : Plays (name text) text' (text'.map (.byte .headerField)) := by
  induction text generalizing text' with
  | nil =>
      obtain rfl := List.map_eq_nil_iff.mp h
      exact .nil
  | cons c text ih =>
      cases text' with
      | nil => cases h
      | cons b text' =>
          obtain ⟨hb, hrest⟩ := List.cons.inj h
          exact .cons (e := ⟨fun b => toUpper b = toUpper c, fun b => [.byte .headerField b]⟩) (by simpa using hb)
            (ih hrest)

theorem Plays.endWith (h : Plays script text events) (hscript : script ≠ []) (n : HttpNotice) :
    Plays (script.endWith n) text (events ++ [.notice n]) := by
  induction h with
  | nil => exact absurd rfl hscript
  | @cons e b script text events haccepts rest ih =>
      cases script with
      | nil =>
          cases rest
          simpa [Script.endWith] using
            Plays.cons (e := { e with reports := fun b => e.reports b ++ [.notice n] }) haccepts .nil
      | cons e' script =>
          rw [Script.endWith, List.append_assoc]
          · exact .cons haccepts (ih (List.cons_ne_nil e' script))
          · simp

theorem next_of_accepts (whole : Script) {e : ScriptByte} {b : UInt8} (h : e.accepts b = true) (rest : Script) :
    (llhttp whole).next (e :: rest) b = (e.reports b, .ok rest) := by
  simp [llhttp, next, h]

theorem Plays.execute (h : Plays script text events) (whole later : Script) :
    (llhttp whole).execute (script ++ later) text = (events, .ok later, []) := by
  induction h with
  | nil => rfl
  | @cons e b script text events haccepts _ ih =>
      refine (Llhttp.execute_ok (next_of_accepts whole haccepts (script ++ later)) text).trans ?_
      rw [ih]

/-- A text that is played is read in one chunk. -/
theorem Plays.executeAll (h : Plays script text events) :
    (llhttp script).executeAll (llhttp script).start [text] = (events, some ([] : Script)) := by
  have hexecute := h.execute script []
  rw [List.append_nil] at hexecute
  refine (Llhttp.executeAll_ok hexecute []).trans ?_
  exact Prod.ext (List.append_nil events) rfl

/-- What comes in a chunk is the text of an exact script, up to an error. -/
theorem Plays.execute_prefix (h : Plays script text events) (hexact : Exact script text) (whole : Script)
    (chunk : List UInt8) :
    (∃ events' rest, (llhttp whole).execute script chunk = (events', .error, rest) ∧ events' <+: events) ∨
      ∃ events' next later text', (llhttp whole).execute script chunk = (events', .ok next, []) ∧
        events = events' ++ later ∧ Plays next text' later ∧ Exact next text' := by
  induction chunk generalizing script text events with
  | nil => exact .inr ⟨[], script, events, text, rfl, rfl, h, hexact⟩
  | cons b chunk ih =>
      cases h with
      | nil => exact .inl ⟨[], chunk, rfl, List.nil_prefix⟩
      | @cons e c script text events haccepts rest =>
          obtain ⟨hc, hrest⟩ := List.forall₂_cons.mp hexact
          by_cases hb : e.accepts b = true
          · obtain rfl := hc b hb
            have hnext := next_of_accepts whole hb script
            rcases ih rest hrest with
              ⟨events', left, hexecute, hprefix⟩ | ⟨events', next, later, text', hexecute, rfl, hnext'⟩
            · refine .inl ⟨e.reports b ++ events', left, ?_, (List.prefix_append_right_inj _).mpr hprefix⟩
              refine (Llhttp.execute_ok hnext chunk).trans ?_
              rw [hexecute]
            · refine .inr ⟨e.reports b ++ events', next, later, text', ?_, (List.append_assoc _ _ _).symm, hnext'⟩
              refine (Llhttp.execute_ok hnext chunk).trans ?_
              rw [hexecute]
          · have hnext : (llhttp whole).next (e :: script) b = ([], .error) := by simp [llhttp, next, hb]
            exact .inl ⟨[], chunk, Llhttp.execute_error hnext chunk, List.nil_prefix⟩

/-- However an exact script is read, what is reported is a beginning of what it tells. -/
theorem Plays.executeAll_prefix (h : Plays script text events) (hexact : Exact script text) (whole : Script)
    (chunks : List (List UInt8)) : ((llhttp whole).executeAll script chunks).1 <+: events := by
  induction chunks generalizing script text events with
  | nil => exact List.nil_prefix
  | cons chunk chunks ih =>
      rcases h.execute_prefix hexact whole chunk with
        ⟨events', rest, hexecute, hprefix⟩ | ⟨events', next, later, text', hexecute, rfl, hplays, hnext⟩
      · have hall := Llhttp.executeAll_error hexecute chunks
        rw [show (llhttp whole).executeAll script (chunk :: chunks) = _ from hall]
        exact hprefix
      · have hall := Llhttp.executeAll_ok hexecute chunks
        rw [show (llhttp whole).executeAll script (chunk :: chunks) = _ from hall]
        exact (List.prefix_append_right_inj _).mpr (ih hplays hnext)

theorem Exact.append (h : Exact script text) (h' : Exact script' text') : Exact (script ++ script') (text ++ text') :=
  List.rel_append h h'

theorem exact_silent (text : List UInt8) : Exact (silent text) text := by
  rw [Exact, silent, List.forall₂_map_left_iff]
  exact List.forall₂_same.mpr fun c _ b h => by simpa using h

theorem exact_span (kind : HttpSpan) (text : List UInt8) : Exact (span kind text) text := by
  rw [Exact, span, List.forall₂_map_left_iff]
  exact List.forall₂_same.mpr fun c _ b h => by simpa using h

theorem Exact.endWith (h : Exact script text) (n : HttpNotice) : Exact (script.endWith n) text := by
  induction h with
  | nil => exact .nil
  | @cons e c script text hc rest ih =>
      cases script with
      | nil => exact .cons hc rest
      | cons e' script =>
          rw [Script.endWith]
          · exact .cons hc ih
          · simp

end

end Script

namespace HttpMessage

open Script

variable {m m' : HttpMessage}

def space : List UInt8 := [32]

def crlf : List UInt8 := [13, 10]

/-- The text of a field. -/
def fieldText (p : List UInt8 × List UInt8) : List UInt8 := p.1 ++ ascii ": " ++ p.2 ++ crlf

/-- The text of a message up to the blank line. -/
def headText (m : HttpMessage) : List UInt8 :=
  m.method ++ space ++ m.url ++ space ++ ascii "HTTP/" ++ m.version.getD [] ++ crlf ++ m.headers.flatMap fieldText

/-- The text of a message that is not chunked. -/
def text (m : HttpMessage) : List UInt8 := m.headText ++ crlf ++ m.body

def fieldScript (p : List UInt8 × List UInt8) : Script :=
  name p.1 ++ endWith .headerFieldComplete (silent (ascii ": ")) ++ span .headerValue p.2 ++
    endWith .headerValueComplete (silent crlf)

def headScript (m : HttpMessage) : Script :=
  endWith (.method m.method) (silent (m.method ++ space)) ++ span .url m.url ++ endWith .urlComplete (silent space) ++
    silent (ascii "HTTP/") ++ span .version (m.version.getD []) ++ endWith .versionComplete (silent crlf) ++
    m.headers.flatMap fieldScript

def bodyScript : List UInt8 → Script
  | [] => endWith .messageComplete (silent crlf)
  | b :: body => silent crlf ++ endWith .messageComplete (span .body (b :: body))

def script (m : HttpMessage) : Script := m.headScript ++ bodyScript m.body

theorem flatMap_spanCalls (kind : HttpSpan) (bytes : List UInt8) :
    (spanCalls kind bytes).flatMap callEvents = bytes.map (.byte kind) := by
  cases bytes <;> simp [spanCalls, callEvents]

theorem plays_field {p q : List UInt8 × List UInt8} (hname : Spells p.1 q.1) (hvalue : q.2 = p.2) :
    Plays (fieldScript p) (fieldText q) ((fieldCalls q).flatMap callEvents) := by
  have hcolon := (plays_silent (ascii ": ")).endWith (by decide) .headerFieldComplete
  have hend := (plays_silent crlf).endWith (by decide) .headerValueComplete
  have hfield := (((plays_name hname).append hcolon).append (plays_span .headerValue p.2)).append hend
  rw [fieldScript, fieldText, hvalue]
  convert hfield using 1
  simp [fieldCalls, flatMap_spanCalls, callEvents, hvalue]

theorem plays_fields {ps qs : Fields} (h : List.Forall₂ (fun p q => Spells p.1 q.1 ∧ q.2 = p.2) ps qs) :
    Plays (ps.flatMap fieldScript) (qs.flatMap fieldText) ((qs.flatMap fieldCalls).flatMap callEvents) := by
  induction h with
  | nil => exact .nil
  | cons hfirst _ ih =>
      rw [List.flatMap_cons, List.flatMap_cons, List.flatMap_cons, List.flatMap_append]
      exact (plays_field hfirst.1 hfirst.2).append ih

theorem plays_body (body : List UInt8) :
    Plays (bodyScript body) (crlf ++ body) (body.map (.byte .body) ++ [.notice .messageComplete]) := by
  cases body with
  | nil => exact (plays_silent crlf).endWith (by decide) .messageComplete
  | cons b body =>
      exact (plays_silent crlf).append ((plays_span .body (b :: body)).endWith (by simp [span]) .messageComplete)

theorem plays_head (hsame : Recased m m') {version : List UInt8} (hversion : m.version = some version) :
    Plays m.headScript m'.headText (m'.head.flatMap callEvents) := by
  have hline := (((((plays_silent (m.method ++ space)).endWith (by simp [silent, space]) (.method m.method)).append
    (plays_span .url m.url)).append ((plays_silent space).endWith (by decide) .urlComplete)).append
    (plays_silent (ascii "HTTP/"))).append (plays_span .version version)
  have hhead := (hline.append ((plays_silent crlf).endWith (by decide) .versionComplete)).append
    (plays_fields hsame.headers)
  have hversion' := hsame.version
  rw [hversion] at hversion'
  convert hhead using 1
  · rw [headScript, hversion, Option.getD_some]
  · simp [headText, hsame.method, hsame.url, hversion']
  · simp [head, flatMap_spanCalls, callEvents, hsame.method, hsame.url, hversion']

/-- The script of a message tells each of its spellings. -/
theorem plays_script (hsame : Recased m m') {version : List UInt8} (hversion : m.version = some version)
    (htrailers : m.trailers = []) : Plays m.script m'.text m'.events := by
  have hnone : m'.trailers = [] := by
    have hsame := hsame.trailers
    rw [htrailers] at hsame
    exact List.forall₂_nil_left_iff.mp hsame
  have hwhole := (plays_head hsame hversion).append (plays_body m.body)
  rw [script]
  convert hwhole using 1
  · simp [text, hsame.body]
  · simp [events, calls, flatMap_spanCalls, callEvents, hsame.body, hnone]

theorem exact_script (hheaders : m.headers = []) : Exact m.script m.text := by
  have hbody : Exact (bodyScript m.body) (crlf ++ m.body) := by
    cases m.body with
    | nil => exact (exact_silent crlf).endWith _
    | cons b body => exact (exact_silent crlf).append ((exact_span .body (b :: body)).endWith _)
  have hmethod := (exact_silent (m.method ++ space)).endWith (.method m.method)
  have hline := ((((hmethod.append (exact_span .url m.url)).append
    ((exact_silent space).endWith .urlComplete)).append (exact_silent (ascii "HTTP/"))).append
    (exact_span .version (m.version.getD []))).append ((exact_silent crlf).endWith .versionComplete)
  rw [script, text, headText, headScript, hheaders]
  convert hline.append hbody using 1 <;> simp

theorem Recased.refl (m : HttpMessage) : Recased m m :=
  ⟨rfl, rfl, rfl, List.forall₂_same.mpr fun _ _ => ⟨rfl, rfl⟩, rfl, List.forall₂_same.mpr fun _ _ => ⟨rfl, rfl⟩⟩

end HttpMessage

end Libcold
