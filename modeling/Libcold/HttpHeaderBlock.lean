import Libcold.HttpFraming
import Libcold.Lines

namespace Libcold.Http

open Lines

/-- The calls that change what `MakeHeaders` writes. -/
inductive ResponseCall
  | setVersion (version : List UInt8)
  | perform (op : ResponseOp)

def HasCrlf (text : List UInt8) : Prop := [13, 10] <:+: text

instance (text : List UInt8) : Decidable (HasCrlf text) := inferInstanceAs (Decidable ([13, 10] <:+: text))

def HttpCookie.texts (cookie : HttpCookie) : List (List UInt8) := [cookie.key, cookie.value, cookie.domain, cookie.path]

namespace ResponseCall

def texts : ResponseCall → List (List UInt8)
  | setVersion version => [version]
  | perform (.setStatus _) => []
  | perform (.setHeader key value) => [key, value]
  | perform (.setBody (.text _)) => []
  | perform (.setBody (.file _ contentType)) => [contentType]
  | perform (.setBody .notOpened) => []
  | perform (.sendRedirect url) => [url]
  | perform (.addCookie cookie) => cookie.texts

end ResponseCall

namespace HttpResponse

open Libcold.HttpResponse (crlf connectionStr)

def call (r : HttpResponse) : ResponseCall → HttpResponse
  | .setVersion version => r.setVersion version
  | .perform op => r.perform op

theorem sorted_nil : HeaderMap.Sorted [] := .nil

def reached (calls : List ResponseCall) : HttpResponse := calls.foldl call { sorted := sorted_nil }

def statusLine (r : HttpResponse) : List UInt8 :=
  r.version ++ ascii " " ++ decimal r.status.code ++ ascii " " ++ ascii r.status.message

def headerLine (p : List UInt8 × List UInt8) : List UInt8 := p.1 ++ ascii ": " ++ p.2

def cookieLine (cookie : HttpCookie) : List UInt8 := ascii "Set-Cookie: " ++ cookie.dump

/-- The lines of the block: one for the status, one for each header, one for each cookie. -/
def blockLines (r : HttpResponse) : List (List UInt8) :=
  r.statusLine :: (r.sentHeaders.map headerLine ++ r.cookies.map cookieLine)

/-- The block falls into its lines and one that is empty, at its end and nowhere else. -/
def Whole (r : HttpResponse) : Prop := splitLines 13 10 r.makeHeaders = (r.blockLines ++ [[]], []) ∧ [] ∉ r.blockLines

def texts (r : HttpResponse) : List (List UInt8) :=
  r.version :: (r.sentHeaders.flatMap (fun p => [p.1, p.2]) ++ r.cookies.flatMap HttpCookie.texts)

theorem makeHeaders_eq (r : HttpResponse) : r.makeHeaders = joinLines 13 10 (r.blockLines ++ [[]]) := by
  simp only [makeHeaders, joinLines, blockLines, List.flatMap_append, List.flatMap_cons, List.cons_append,
    List.flatMap_map, List.append_assoc, statusLine, headerLine, cookieLine, List.flatMap_nil, List.nil_append, crlf]

theorem hasCrlf_append (text rest : List UInt8) :
    HasCrlf (text ++ rest) ↔ HasCrlf text ∨ HasCrlf rest ∨ (text.getLast? = some 13 ∧ rest.head? = some 10) :=
  ends_append_iff 13 10 text rest

/-- A part of a line that holds neither character of its end. -/
def Inner (text : List UInt8) : Prop := text ≠ [] ∧ 13 ∉ text ∧ 10 ∉ text

instance (text : List UInt8) : Decidable (Inner text) := inferInstanceAs (Decidable (_ ∧ _ ∧ _))

theorem not_hasCrlf {text : List UInt8} (h : 13 ∉ text) : ¬ HasCrlf text := by
  intro hwithin
  exact h (hwithin.subset List.mem_cons_self)

theorem hasCrlf_between {inner : List UInt8} (h : Inner inner) (text rest : List UInt8) :
    HasCrlf (text ++ inner ++ rest) ↔ HasCrlf text ∨ HasCrlf rest := by
  obtain ⟨hne, hcr, hlf⟩ := h
  have hlast : (text ++ inner).getLast? ≠ some 13 := by
    rw [List.getLast?_append_of_ne_nil text hne]
    exact fun hlast => hcr (List.mem_of_getLast? hlast)
  have hfirst : inner.head? ≠ some 10 := fun hfirst => hlf (List.mem_of_head? hfirst)
  rw [hasCrlf_append, hasCrlf_append]
  simp only [not_hasCrlf hcr, hlast, hfirst, false_and, and_false, or_false]

theorem hasCrlf_before {inner : List UInt8} (h : Inner inner) (rest : List UInt8) :
    HasCrlf (inner ++ rest) ↔ HasCrlf rest := by
  have hbetween := hasCrlf_between h [] rest
  rw [List.nil_append] at hbetween
  rw [hbetween, or_iff_right (not_hasCrlf List.not_mem_nil)]

theorem hasCrlf_behind {inner : List UInt8} (h : Inner inner) (text : List UInt8) :
    HasCrlf (text ++ inner) ↔ HasCrlf text := by
  have hbetween := hasCrlf_between h text []
  rw [List.append_nil] at hbetween
  rw [hbetween, or_iff_left (not_hasCrlf List.not_mem_nil)]

/-- A part that is written only when there is something to write. -/
theorem hasCrlf_optional {inner rest : List UInt8} (h : Inner inner) {p : Prop} [Decidable p]
    (hp : ¬ p → ¬ HasCrlf rest) (text : List UInt8) :
    HasCrlf (text ++ if p then inner ++ rest else []) ↔ HasCrlf text ∨ HasCrlf rest := by
  by_cases hwritten : p
  · rw [if_pos hwritten, ← List.append_assoc, hasCrlf_between h]
  · rw [if_neg hwritten, List.append_nil, or_iff_left (hp hwritten)]

theorem hasCrlf_flag {inner : List UInt8} (h : Inner inner) (p : Prop) [Decidable p] (text : List UInt8) :
    HasCrlf (text ++ if p then inner else []) ↔ HasCrlf text := by
  split_ifs
  · exact hasCrlf_behind h text
  · rw [List.append_nil]

theorem decimal_digits (n : Nat) : ∀ b ∈ decimal n, 48 ≤ b := by
  have hread := readDecimal_decimal n
  rw [readDecimal] at hread
  split_ifs at hread with hdigits
  intro b hb
  have hdigit := List.all_eq_true.mp hdigits.2 b hb
  simp only [Bool.and_eq_true, decide_eq_true_eq] at hdigit
  exact hdigit.1

theorem inner_decimal (n : Nat) : Inner (decimal n) := by
  refine ⟨fun hnil => ?_, fun h => absurd (decimal_digits n _ h) (by decide), fun h =>
    absurd (decimal_digits n _ h) (by decide)⟩
  have hread := readDecimal_decimal n
  rw [hnil] at hread
  cases hread

/-- A literal is taken by its characters, as its bytes are costly to decode. -/
theorem inner_ofList {chars : List Char}
    (h : chars ≠ [] ∧ 13 ∉ chars.map (fun c => UInt8.ofNat c.toNat) ∧ 10 ∉ chars.map fun c => UInt8.ofNat c.toNat) :
    Inner (ascii (String.ofList chars)) := by
  rw [ascii, String.toList_ofList]
  exact ⟨fun hnil => h.1 (List.map_eq_nil_iff.mp hnil), h.2⟩

theorem inner_message (status : HttpStatus) : Inner (ascii status.message) := by
  have hall : ∀ p ∈ httpStatusMessageMap, Inner (ascii p.2) := by
    simp only [httpStatusMessageMap, List.forall_mem_cons, List.not_mem_nil, false_implies, implies_true, and_true]
    repeat' first | exact inner_ofList (by decide) | apply And.intro
  exact hall _ status.listed

theorem Inner.append {text rest : List UInt8} (h : Inner text) (h' : Inner rest) : Inner (text ++ rest) :=
  ⟨List.append_ne_nil_of_left_ne_nil h.1 rest, by simp [h.2.1, h'.2.1], by simp [h.2.2, h'.2.2]⟩

theorem hasCrlf_statusLine (r : HttpResponse) : HasCrlf r.statusLine ↔ HasCrlf r.version := by
  have hspace : Inner (ascii " ") := by decide
  have hrest := ((hspace.append (inner_decimal r.status.code)).append hspace).append (inner_message r.status)
  have hbehind := hasCrlf_behind hrest r.version
  simp only [← List.append_assoc] at hbehind
  exact hbehind

theorem hasCrlf_headerLine (p : List UInt8 × List UInt8) : HasCrlf (headerLine p) ↔ HasCrlf p.1 ∨ HasCrlf p.2 :=
  hasCrlf_between (by decide) p.1 p.2

theorem hasCrlf_cookieLine (cookie : HttpCookie) :
    HasCrlf (cookieLine cookie) ↔ ∃ text ∈ cookie.texts, HasCrlf text := by
  have hage : ¬ 0 ≤ cookie.maxAge → ¬ HasCrlf (decimal cookie.maxAge.toNat) :=
    fun _ => not_hasCrlf (inner_decimal _).2.1
  have hdomain : ¬ cookie.domain ≠ [] → ¬ HasCrlf cookie.domain := by
    intro h
    rw [not_not.mp h]
    exact not_hasCrlf List.not_mem_nil
  have hpath : ¬ cookie.path ≠ [] → ¬ HasCrlf cookie.path := by
    intro h
    rw [not_not.mp h]
    exact not_hasCrlf List.not_mem_nil
  rw [cookieLine, hasCrlf_before (by decide), HttpCookie.dump, hasCrlf_flag (by decide), hasCrlf_flag (by decide),
    hasCrlf_optional (by decide) hpath, hasCrlf_optional (by decide) hdomain, hasCrlf_optional (by decide) hage,
    hasCrlf_between (by decide), or_iff_left (not_hasCrlf (inner_decimal _).2.1)]
  simp [HttpCookie.texts, or_assoc]

/-- A line breaks where a string that it is made of does. -/
theorem blockLines_clean_iff (r : HttpResponse) :
    (∀ line ∈ r.blockLines, ¬ HasCrlf line) ↔ ∀ text ∈ r.texts, ¬ HasCrlf text := by
  have hheader (p : List UInt8 × List UInt8) :
      ¬ HasCrlf (headerLine p) ↔ ∀ text ∈ [p.1, p.2], ¬ HasCrlf text := by
    rw [hasCrlf_headerLine]
    simp
  have hcookie (cookie : HttpCookie) : ¬ HasCrlf (cookieLine cookie) ↔ ∀ text ∈ cookie.texts, ¬ HasCrlf text := by
    rw [hasCrlf_cookieLine]
    simp
  simp only [blockLines, texts, List.forall_mem_cons, List.forall_mem_append, List.forall_mem_map,
    List.forall_mem_flatMap, hasCrlf_statusLine, hheader, hcookie]

theorem blockLines_ne_nil (r : HttpResponse) : [] ∉ r.blockLines := by
  have hspace : ascii " " ≠ [] := by decide
  have hcolon : ascii ": " ≠ [] := by decide
  have hname : ascii "Set-Cookie: " ≠ [] := by decide
  simp [blockLines, statusLine, headerLine, cookieLine, hspace, hcolon, hname]

theorem whole_iff (r : HttpResponse) : r.Whole ↔ ∀ text ∈ r.texts, ¬ HasCrlf text := by
  have hnil : ¬ [13, 10] <:+: ([] : List UInt8) := not_hasCrlf List.not_mem_nil
  rw [Whole, and_iff_left (blockLines_ne_nil r), makeHeaders_eq, splitLines_join_iff (by decide),
    List.forall_mem_append, List.forall_mem_singleton, and_iff_left hnil]
  exact blockLines_clean_iff r

def CleanHeaders (headers : HeaderMap) : Prop := ∀ p ∈ headers, ¬ HasCrlf p.1 ∧ ¬ HasCrlf p.2

structure Clean (r : HttpResponse) : Prop where
  version : ¬ HasCrlf r.version
  headers : CleanHeaders r.headers
  cookies : ∀ cookie ∈ r.cookies, ∀ text ∈ cookie.texts, ¬ HasCrlf text

theorem CleanHeaders.set {headers : HeaderMap} (h : CleanHeaders headers) {key value : List UInt8}
    (hkey : ¬ HasCrlf key) (hvalue : ¬ HasCrlf value) : CleanHeaders (headers.set key value) := by
  intro p hp
  rcases HeaderMap.mem_set hp with rfl | hp
  · exact ⟨hkey, hvalue⟩
  · exact h p hp

theorem CleanHeaders.setRelatedHeaders {headers : HeaderMap} (h : CleanHeaders headers) {body : HttpResponseBody}
    (hbody : ∀ text ∈ (ResponseCall.perform (.setBody body)).texts, ¬ HasCrlf text) :
    CleanHeaders (body.setRelatedHeaders headers) := by
  have hlength (n : Nat) : CleanHeaders (headers.set (ascii "Content-Length") (decimal n)) :=
    h.set (by decide) (not_hasCrlf (inner_decimal n).2.1)
  cases body with
  | text body => exact (hlength _).set (by decide) (by decide)
  | file content contentType =>
      have htype : ¬ HasCrlf contentType := hbody contentType List.mem_cons_self
      exact (hlength _).set (by decide) (by rwa [hasCrlf_behind (by decide)])
  | notOpened => exact h

theorem Clean.call {r : HttpResponse} (h : r.Clean) {c : ResponseCall} (hc : ∀ text ∈ c.texts, ¬ HasCrlf text) :
    (r.call c).Clean := by
  cases c with
  | setVersion version => exact ⟨hc version List.mem_cons_self, h.headers, h.cookies⟩
  | perform op =>
      cases op with
      | setStatus status => exact ⟨h.version, h.headers, h.cookies⟩
      | setHeader key value =>
          exact ⟨h.version, h.headers.set (hc key (by simp [ResponseCall.texts])) (hc value (by simp [ResponseCall.texts])),
            h.cookies⟩
      | setBody body => exact ⟨h.version, h.headers.setRelatedHeaders hc, h.cookies⟩
      | sendRedirect url => exact ⟨h.version, h.headers.set (by decide) (hc url List.mem_cons_self), h.cookies⟩
      | addCookie cookie =>
          refine ⟨h.version, h.headers, fun other hother => ?_⟩
          rcases List.mem_append.mp hother with hother | hother
          · exact h.cookies other hother
          · obtain rfl := List.mem_singleton.mp hother
            exact hc

theorem reached_clean {calls : List ResponseCall} (h : ∀ c ∈ calls, ∀ text ∈ c.texts, ¬ HasCrlf text) :
    (reached calls).Clean := by
  induction calls using List.reverseRecOn with
  | nil => exact ⟨by decide, List.forall_mem_nil _, List.forall_mem_nil _⟩
  | append_singleton calls c ih =>
      rw [List.forall_mem_append, List.forall_mem_singleton] at h
      rw [reached, List.foldl_append]
      exact (ih h.1).call h.2

theorem Clean.whole {r : HttpResponse} (h : r.Clean) : r.Whole := by
  have hconnection : ¬ HasCrlf (connectionStr r.connectionStatus) := by cases r.connectionStatus <;> decide
  have hsent : CleanHeaders r.sentHeaders := h.headers.set (by decide) hconnection
  rw [whole_iff, texts, List.forall_mem_cons, List.forall_mem_append, List.forall_mem_flatMap, List.forall_mem_flatMap]
  refine ⟨h.version, fun p hp text htext => ?_, h.cookies⟩
  rcases List.mem_cons.mp htext with rfl | htext
  · exact (hsent p hp).1
  · obtain rfl := List.mem_singleton.mp htext
    exact (hsent p hp).2

/-- The block of a response falls into its lines exactly when no string that the response
holds has the end of a line in it, so when no call was given such a string. -/
theorem header_block_whole_iff (calls : List ResponseCall) :
    ((reached calls).Whole ↔ ∀ text ∈ (reached calls).texts, ¬ HasCrlf text) ∧
      ((∀ c ∈ calls, ∀ text ∈ c.texts, ¬ HasCrlf text) → (reached calls).Whole) :=
  ⟨whole_iff (reached calls), fun h => (reached_clean h).whole⟩

/-- A redirect whose target ends a line and begins another header. -/
theorem redirect_splits_block : ¬ ∀ calls : List ResponseCall, (reached calls).Whole := by
  intro h
  have htarget := (whole_iff _).mp (h [.perform (.sendRedirect (ascii "/\r\nSet-Cookie: a=b"))])
    (ascii "/\r\nSet-Cookie: a=b") (by decide)
  exact htarget (by decide)

end HttpResponse

end Libcold.Http
